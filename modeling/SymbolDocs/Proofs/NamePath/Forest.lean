import Mathlib.Data.List.Nodup
import Mathlib.Data.List.Perm.Basic
import SymbolDocs.NamePath.Tree

/-!
# Trees of longnames by their nodes

A node of some trees is reached by keys, one for each step from the roots (`Tree.nodes`). Putting a chain into trees
keeps their nodes and adds those that the chain leads through (`Tree.nodes_subset_insert`,
`Tree.mem_nodes_of_mem_insert`, `Tree.exists_mem_nodes_insert`), and no two neighbours get the same key
(`Tree.Keyed.insert`). Trees without such neighbours are determined by their nodes, up to the order of children
(`Tree.Keyed.rearranged_iff`).
-/

namespace SymbolDocs.NamePath.Tree

variable {key key' longname : String} {chain tail : List (String × String)}
  {level level' children rest : List Tree} {p : List String × String}

/-! ## Nodes -/

/-- A node below a root, as seen from above the root. -/
def under (key : String) (p : List String × String) : List String × String := (key :: p.1, p.2)

theorem under_injective (key : String) : (under key).Injective := fun _ _ h =>
  Prod.ext (List.cons_injective (congrArg Prod.fst h)) (congrArg (·.2) h)

/-- The nodes of some trees: the keys on the way to each of them, and its longname. -/
def nodes : List Tree → List (List String × String)
  | [] => []
  | .node key longname children :: rest =>
    ([key], longname) :: ((nodes children).map (under key) ++ nodes rest)

theorem mem_nodes_cons : p ∈ nodes (.node key longname children :: rest) ↔
    p = ([key], longname) ∨ (∃ q ∈ nodes children, under key q = p) ∨ p ∈ nodes rest := by
  rw [nodes, List.mem_cons, List.mem_append, List.mem_map]

/-- The nodes of some trees are their roots and the nodes below these, in whatever order the trees are. -/
theorem mem_nodes_iff : p ∈ nodes level ↔ ∃ key longname children, .node key longname children ∈ level ∧
    (p = ([key], longname) ∨ ∃ q ∈ nodes children, under key q = p) := by
  induction level with
  | nil => simp [nodes]
  | cons t level ih =>
    obtain ⟨key, longname, children⟩ := t
    rw [mem_nodes_cons, ih, ← or_assoc]
    constructor
    · rintro (h | ⟨key', longname', children', hmem, h⟩)
      · exact ⟨key, longname, children, List.mem_cons_self, h⟩
      · exact ⟨key', longname', children', List.mem_cons_of_mem _ hmem, h⟩
    · rintro ⟨key', longname', children', hmem, h⟩
      rcases List.mem_cons.1 hmem with heq | hmem
      · cases heq
        exact .inl h
      · exact .inr ⟨key', longname', children', hmem, h⟩

theorem mem_nodes_congr (h : ∀ t, t ∈ level ↔ t ∈ level') : p ∈ nodes level ↔ p ∈ nodes level' := by
  rw [mem_nodes_iff, mem_nodes_iff]
  simp only [h]

/-- The first key on the way to a node is that of one of the trees. -/
theorem exists_head?_of_mem_nodes (h : p ∈ nodes level) : ∃ t ∈ level, p.1.head? = some t.key := by
  obtain ⟨key, longname, children, hmem, rfl | ⟨q, -, rfl⟩⟩ := mem_nodes_iff.1 h
  · exact ⟨_, hmem, rfl⟩
  · exact ⟨_, hmem, rfl⟩

theorem ne_nil_of_mem_nodes (h : p ∈ nodes level) : p.1 ≠ [] := by
  obtain ⟨t, -, he⟩ := exists_head?_of_mem_nodes h
  rintro hnil
  rw [hnil] at he
  cases he

/-- The roots are the nodes that are reached by one key. -/
theorem singleton_mem_nodes :
    ([key], longname) ∈ nodes level ↔ ∃ children, .node key longname children ∈ level := by
  rw [mem_nodes_iff]
  constructor
  · rintro ⟨key', longname', children, hmem, he | ⟨q, hq, he⟩⟩
    · cases he
      exact ⟨children, hmem⟩
    · have hkeys : key' :: q.1 = [key] := congrArg Prod.fst he
      exact absurd (List.cons_eq_cons.1 hkeys).2 (ne_nil_of_mem_nodes hq)
  · rintro ⟨children, hmem⟩
    exact ⟨key, longname, children, hmem, .inl rfl⟩

/-! ## Chains in trees -/

/-- The nodes that a chain leads through. -/
def along : List (String × String) → List (List String × String)
  | [] => []
  | (key, longname) :: rest => ([key], longname) :: (along rest).map (under key)

/-- The trees with a chain put below the one that has the key. -/
def descend (key : String) (rest : List (String × String)) : Tree → Tree
  | .node k l children => if k == key then .node k l (insert rest children) else .node k l children

theorem insert_cons (key longname : String) (rest : List (String × String)) (level : List Tree) :
    insert ((key, longname) :: rest) level =
      if level.any (·.key == key) then level.map (descend key rest)
      else level ++ [.node key longname (insert rest [])] := by
  rw [insert]
  rfl

theorem descend_self (key longname : String) (rest : List (String × String)) (children : List Tree) :
    descend key rest (.node key longname children) = .node key longname (insert rest children) :=
  if_pos BEq.rfl

theorem descend_of_ne (h : key ≠ key') (rest : List (String × String)) :
    descend key' rest (.node key longname children) = .node key longname children :=
  if_neg fun he => h (beq_iff_eq.1 he)

theorem key_descend (key : String) (rest : List (String × String)) (t : Tree) : (descend key rest t).key = t.key := by
  obtain ⟨k, l, children⟩ := t
  rcases eq_or_ne k key with rfl | hk
  · rw [descend_self]
    rfl
  · rw [descend_of_ne hk]

/-- A tree after the chain was put below the one with the key was there before, or got the chain. -/
theorem mem_map_descend (h : .node key longname children ∈ level.map (descend key' tail)) :
    .node key longname children ∈ level ∨
      key = key' ∧ ∃ before, .node key longname before ∈ level ∧ children = insert tail before := by
  obtain ⟨⟨k, l, before⟩, hmem, ht⟩ := List.mem_map.1 h
  rcases eq_or_ne k key' with rfl | hk
  · rw [descend_self] at ht
    cases ht
    exact .inr ⟨rfl, before, hmem, rfl⟩
  · rw [descend_of_ne hk] at ht
    cases ht
    exact .inl hmem

/-- **Putting a chain into trees adds no nodes but those that the chain leads through.** -/
theorem mem_nodes_of_mem_insert (h : p ∈ nodes (insert chain level)) : p ∈ nodes level ∨ p ∈ along chain := by
  -- Below the root that has the first key the rest of the chain is put in, and all other trees stay.
  induction chain generalizing level p with
  | nil => exact .inl h
  | cons entry rest ih =>
    obtain ⟨key, longname⟩ := entry
    have hunder {k : String} {children : List Tree} {q : List String × String}
        (hq : q ∈ nodes (insert rest children)) (hk : k = key) :
        q ∈ nodes children ∨ under k q ∈ along ((key, longname) :: rest) :=
      (ih hq).imp_right fun ha => List.mem_cons_of_mem _ (List.mem_map.2 ⟨q, ha, by rw [hk]⟩)
    rw [insert_cons] at h
    split at h
    · obtain ⟨k, l, children, hmem, hp⟩ := mem_nodes_iff.1 h
      rcases mem_map_descend hmem with hbefore | ⟨hkey, before, hbefore, rfl⟩
      · exact .inl (mem_nodes_iff.2 ⟨_, _, _, hbefore, hp⟩)
      · rcases hp with rfl | ⟨q, hq, rfl⟩
        · exact .inl (mem_nodes_iff.2 ⟨_, _, _, hbefore, .inl rfl⟩)
        · exact (hunder hq hkey).imp_left fun hq => mem_nodes_iff.2 ⟨_, _, _, hbefore, .inr ⟨q, hq, rfl⟩⟩
    · obtain ⟨k, l, children, hmem, hp⟩ := mem_nodes_iff.1 h
      rcases List.mem_append.1 hmem with hmem | hmem
      · exact .inl (mem_nodes_iff.2 ⟨_, _, _, hmem, hp⟩)
      · cases List.mem_singleton.1 hmem
        rcases hp with rfl | ⟨q, hq, rfl⟩
        · exact .inr List.mem_cons_self
        · exact .inr ((hunder hq rfl).resolve_left (by simp [nodes]))

/-- The nodes of the trees stay. -/
theorem nodes_subset_insert (chain : List (String × String)) (level : List Tree) :
    nodes level ⊆ nodes (insert chain level) := by
  induction chain generalizing level with
  | nil => exact List.Subset.refl _
  | cons entry rest ih =>
    obtain ⟨key, longname⟩ := entry
    intro p h
    obtain ⟨k, l, children, hmem, hp⟩ := mem_nodes_iff.1 h
    rw [insert_cons]
    split
    · have hmap := List.mem_map_of_mem (f := descend key rest) hmem
      rcases eq_or_ne k key with rfl | hk
      · rw [descend_self] at hmap
        exact mem_nodes_iff.2 ⟨_, _, _, hmap, hp.imp_right fun ⟨q, hq, he⟩ => ⟨q, ih children hq, he⟩⟩
      · rw [descend_of_ne hk] at hmap
        exact mem_nodes_iff.2 ⟨_, _, _, hmap, hp⟩
    · exact mem_nodes_iff.2 ⟨k, l, children, List.mem_append_left _ hmem, hp⟩

/-- Every node that the chain leads through is there afterwards, perhaps under a longname that it had before. -/
theorem exists_mem_nodes_insert (level : List Tree) (h : p ∈ along chain) :
    ∃ longname, (p.1, longname) ∈ nodes (insert chain level) := by
  induction chain generalizing level p with
  | nil => cases h
  | cons entry rest ih =>
    obtain ⟨key, longname⟩ := entry
    -- The root with the key is there already, or comes to the end.
    obtain ⟨l, children, hmem⟩ : ∃ l children,
        Tree.node key l (insert rest children) ∈ insert ((key, longname) :: rest) level := by
      rw [insert_cons]
      split
      · next hany =>
        obtain ⟨⟨k, l, children⟩, hmem, hk⟩ := List.any_eq_true.1 hany
        obtain rfl : k = key := beq_iff_eq.1 hk
        exact ⟨l, children, List.mem_map.2 ⟨_, hmem, descend_self k l rest children⟩⟩
      · exact ⟨longname, [], List.mem_append_right _ (List.mem_singleton.2 rfl)⟩
    rcases List.mem_cons.1 h with rfl | h
    · exact ⟨l, mem_nodes_iff.2 ⟨_, _, _, hmem, .inl rfl⟩⟩
    · obtain ⟨q, hq, rfl⟩ := List.mem_map.1 h
      obtain ⟨l', hl'⟩ := ih children hq
      exact ⟨l', mem_nodes_iff.2 ⟨_, _, _, hmem, .inr ⟨_, hl', rfl⟩⟩⟩

/-! ## Distinct keys -/

/-- No two neighbours have the same key, at the roots and below them. -/
inductive Keyed : List Tree → Prop
  | nil : Keyed []
  | cons {key longname : String} {children rest : List Tree} (hkey : ∀ t ∈ rest, t.key ≠ key)
      (hchildren : Keyed children) (hrest : Keyed rest) : Keyed (.node key longname children :: rest)

theorem keyed_iff : Keyed level ↔ (level.map Tree.key).Nodup ∧
    ∀ key longname children, .node key longname children ∈ level → Keyed children := by
  constructor
  · intro h
    induction h with
    | nil => exact ⟨List.nodup_nil, fun _ _ _ h => by cases h⟩
    | cons hkey hchildren _ _ ih =>
      refine ⟨List.nodup_cons.2 ⟨fun hmem => ?_, ih.1⟩, fun k l cs hmem => ?_⟩
      · obtain ⟨t, ht, he⟩ := List.mem_map.1 hmem
        exact hkey t ht he
      · rcases List.mem_cons.1 hmem with he | hmem
        · cases he
          exact hchildren
        · exact ih.2 k l cs hmem
  · rintro ⟨hnodup, hchildren⟩
    induction level with
    | nil => exact .nil
    | cons t level ih =>
      obtain ⟨key, longname, children⟩ := t
      obtain ⟨hnot, hnodup⟩ := List.nodup_cons.1 hnodup
      refine .cons (fun t ht he => hnot (List.mem_map.2 ⟨t, ht, he⟩))
        (hchildren _ _ _ List.mem_cons_self) (ih hnodup fun k l cs hmem => ?_)
      exact hchildren k l cs (List.mem_cons_of_mem _ hmem)

theorem Keyed.insert (h : Keyed level) (chain : List (String × String)) : Keyed (insert chain level) := by
  induction chain generalizing level with
  | nil => exact h
  | cons entry rest ih =>
    obtain ⟨key, longname⟩ := entry
    obtain ⟨hnodup, hchildren⟩ := keyed_iff.1 h
    rw [insert_cons, keyed_iff]
    split
    · refine ⟨?_, fun k l cs hmem => ?_⟩
      · have hkeys : Tree.key ∘ descend key rest = Tree.key := funext (key_descend key rest)
        rwa [List.map_map, hkeys]
      · rcases mem_map_descend hmem with hbefore | ⟨-, before, hbefore, rfl⟩
        · exact hchildren _ _ _ hbefore
        · exact ih (hchildren _ _ _ hbefore)
    · next hany =>
      refine ⟨?_, fun k l cs hmem => ?_⟩
      · rw [List.map_append, List.map_singleton, ← List.concat_eq_append, List.nodup_concat]
        refine ⟨fun hmem => hany ?_, hnodup⟩
        obtain ⟨t, ht, he⟩ := List.mem_map.1 hmem
        exact List.any_eq_true.2 ⟨t, ht, beq_iff_eq.2 he⟩
      · rcases List.mem_append.1 hmem with hmem | hmem
        · exact hchildren k l cs hmem
        · cases List.mem_singleton.1 hmem
          exact ih .nil

/-- The nodes of the first of some trees are no nodes of the others. -/
theorem Keyed.disjoint (h : Keyed (.node key longname children :: rest)) {p : List String × String}
    (hp : p.1.head? = some key) : p ∉ nodes rest := by
  intro hmem
  obtain ⟨t, ht, he⟩ := exists_head?_of_mem_nodes hmem
  rw [hp] at he
  cases h with
  | cons hkey => exact hkey t ht (Option.some.inj he).symm

/-- **No two nodes are reached by the same keys.** -/
theorem Keyed.nodup_keys (h : Keyed level) : ((nodes level).map Prod.fst).Nodup := by
  induction h with
  | nil =>
    rw [nodes]
    exact .nil
  | @cons key longname children rest hkey hchildren hrest ihc ihr =>
    have h : Keyed (.node key longname children :: rest) := .cons hkey hchildren hrest
    have hbelow : ((nodes children).map (under key)).map Prod.fst = ((nodes children).map Prod.fst).map (key :: ·) := by
      rw [List.map_map, List.map_map]
      rfl
    have hothers {keys : List String} (hhead : keys.head? = some key) : keys ∉ (nodes rest).map Prod.fst := by
      rintro hmem
      obtain ⟨p, hp, rfl⟩ := List.mem_map.1 hmem
      exact h.disjoint hhead hp
    rw [nodes, List.map_cons, List.map_append, hbelow, List.nodup_cons, List.nodup_append', List.mem_append, not_or]
    refine ⟨⟨fun hmem => ?_, hothers rfl⟩, ihc.map List.cons_injective, ihr, fun keys hmem => ?_⟩
    · obtain ⟨keys, hkeys, he⟩ := List.mem_map.1 hmem
      obtain ⟨p, hp, rfl⟩ := List.mem_map.1 hkeys
      exact ne_nil_of_mem_nodes hp (List.cons_injective he)
    · obtain ⟨keys, -, rfl⟩ := List.mem_map.1 hmem
      exact hothers rfl

/-! ## The order of children -/

/-- Trees that are the same up to the order of the roots and of the children of each node. -/
inductive Rearranged : List Tree → List Tree → Prop
  | nil : Rearranged [] []
  | cons {children children' rest rest' : List Tree} (key longname : String)
      (hchildren : Rearranged children children') (hrest : Rearranged rest rest') :
      Rearranged (.node key longname children :: rest) (.node key longname children' :: rest')
  | swap (t t' : Tree) (rest : List Tree) : Rearranged (t :: t' :: rest) (t' :: t :: rest)
  | trans {level level' level'' : List Tree} (h : Rearranged level level') (h' : Rearranged level' level'') :
      Rearranged level level''

theorem Rearranged.refl : ∀ level : List Tree, Rearranged level level
  | [] => .nil
  | .node key longname children :: rest => .cons key longname (refl children) (refl rest)

theorem Rearranged.of_perm (h : level.Perm level') : Rearranged level level' := by
  induction h with
  | nil => exact .nil
  | cons t _ ih =>
    obtain ⟨key, longname, children⟩ := t
    exact .cons key longname (.refl children) ih
  | swap t t' rest => exact .swap t' t rest
  | trans _ _ ih ih' => exact ih.trans ih'

/-- Another order does not change the nodes. -/
theorem Rearranged.perm_nodes (h : Rearranged level level') : (nodes level).Perm (nodes level') := by
  induction h with
  | nil => exact .refl _
  | cons key longname _ _ ihc ihr =>
    rw [nodes, nodes]
    exact ((ihc.map (under key)).append ihr).cons _
  | swap t t' rest =>
    obtain ⟨key, longname, children⟩ := t
    obtain ⟨key', longname', children'⟩ := t'
    simp only [nodes, ← List.cons_append, ← List.append_assoc]
    exact List.perm_append_comm.append_right _
  | trans _ _ ih ih' => exact ih.trans ih'

theorem Keyed.perm (h : Keyed level) (hp : level.Perm level') : Keyed level' := by
  obtain ⟨hnodup, hchildren⟩ := keyed_iff.1 h
  exact keyed_iff.2 ⟨(hp.map Tree.key).nodup_iff.1 hnodup, fun k l cs hmem => hchildren k l cs (hp.mem_iff.2 hmem)⟩

/-- The nodes below the first of some trees, by the keys from there. -/
theorem Keyed.mem_children (h : Keyed (.node key longname children :: rest)) (hp : p.1 ≠ []) :
    p ∈ nodes children ↔ under key p ∈ nodes (.node key longname children :: rest) := by
  rw [mem_nodes_cons]
  constructor
  · exact fun hmem => .inr (.inl ⟨p, hmem, rfl⟩)
  · rintro (he | ⟨q, hq, he⟩ | hmem)
    · exact absurd (List.cons_injective (congrArg Prod.fst he)) hp
    · obtain rfl : q = p := under_injective key he
      exact hq
    · exact absurd hmem (h.disjoint rfl)

/-- The nodes that do not belong to the first of some trees. -/
theorem Keyed.mem_rest (h : Keyed (.node key longname children :: rest)) :
    p ∈ nodes rest ↔ p ∈ nodes (.node key longname children :: rest) ∧ p.1.head? ≠ some key := by
  rw [mem_nodes_cons]
  constructor
  · exact fun hmem => ⟨.inr (.inr hmem), fun hhead => h.disjoint hhead hmem⟩
  · rintro ⟨rfl | ⟨q, -, rfl⟩ | hmem, hhead⟩
    · exact absurd rfl hhead
    · exact absurd rfl hhead
    · exact hmem

theorem Keyed.rearranged (h : Keyed level) (h' : Keyed level') (hsame : ∀ p, p ∈ nodes level ↔ p ∈ nodes level') :
    Rearranged level level' := by
  induction h generalizing level' with
  | nil =>
    cases level' with
    | nil => exact .nil
    | cons t rest =>
      obtain ⟨key, longname, children⟩ := t
      exact absurd ((hsame _).2 (singleton_mem_nodes.2 ⟨children, List.mem_cons_self⟩)) (by simp [nodes])
  | @cons key longname children rest hkey hchildren hrest ihc ihr =>
    have h : Keyed (.node key longname children :: rest) := .cons hkey hchildren hrest
    -- The first root is among the other ones too; it is brought to the front there.
    obtain ⟨children', hmem⟩ := singleton_mem_nodes.1
      ((hsame ([key], longname)).1 (singleton_mem_nodes.2 ⟨children, List.mem_cons_self⟩))
    obtain ⟨before, behind, rfl⟩ := List.append_of_mem hmem
    have hperm : (before ++ .node key longname children' :: behind).Perm
        (.node key longname children' :: (before ++ behind)) := List.perm_middle
    have hfront := h'.perm hperm
    have hnodes (p : List String × String) : p ∈ nodes (.node key longname children :: rest) ↔
        p ∈ nodes (.node key longname children' :: (before ++ behind)) :=
      (hsame p).trans (mem_nodes_congr fun t => hperm.mem_iff)
    cases hfront with
    | cons hkey' hchildren' hrest' =>
      have hfront : Keyed (.node key longname children' :: (before ++ behind)) := .cons hkey' hchildren' hrest'
      have hbelow : Rearranged children children' := ihc hchildren' fun p => by
        by_cases hp : p.1 = []
        · exact iff_of_false (fun hmem => ne_nil_of_mem_nodes hmem hp) (fun hmem => ne_nil_of_mem_nodes hmem hp)
        · rw [h.mem_children hp, hfront.mem_children hp, hnodes]
      have hothers : Rearranged rest (before ++ behind) := ihr hrest' fun p => by
        rw [h.mem_rest, hfront.mem_rest, hnodes]
      exact (Rearranged.cons key longname hbelow hothers).trans (.of_perm hperm.symm)

/-- **Trees without neighbours of the same key are determined by their nodes**, up to the order of children. -/
theorem Keyed.rearranged_iff (h : Keyed level) (h' : Keyed level') :
    Rearranged level level' ↔ ∀ p, p ∈ nodes level ↔ p ∈ nodes level' :=
  ⟨fun hsame _ => hsame.perm_nodes.mem_iff, h.rearranged h'⟩

end SymbolDocs.NamePath.Tree
