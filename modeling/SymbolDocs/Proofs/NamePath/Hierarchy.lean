import Mathlib.Data.List.Induction
import Mathlib.Data.List.Nodup
import SymbolDocs.Proofs.NamePath.Forest
import SymbolDocs.Proofs.NamePath.Splitting

/-!
# The tree of longnames

A path is enclosed by itself, by its owner, by the owner of its owner, and so on (`Encloses`). Each of them starts its
chain (`mem_along_chain`), and the keys of the chain make up the path if it is `Regular`: if no owner on the way needs
to be brought to normal form (`Regular.join_keys`). The nodes of the tree of regular longnames are therefore the paths
that enclose them, each reached by the keys of its own chain (`mem_nodes_ofLongnames`), and which paths these are does
not depend on the order of the longnames (`ofLongnames_enclosing`).
-/

namespace SymbolDocs.NamePath

open SymbolDocs.NamePath.Tree

variable {path owner name : String} {scope : Scope} {keys : List String} {longnames : List String}

/-! ## The paths that enclose a path -/

/-- The first path encloses the other: it is this path, its owner, the owner of its owner, or further up. -/
inductive Encloses : String → String → Prop
  | self (path : String) : Encloses path path
  | owner {outer owner path : String} (howner : (split path).1 = some owner) (houter : Encloses outer owner) :
      Encloses outer path

theorem length_lt_of_split (h : (split path).1 = some owner) : owner.length < path.length := by
  obtain ⟨cs, hcs, rfl⟩ := Option.map_eq_some_iff.1 h
  rw [← String.length_toList, ← String.length_toList, String.toList_ofList]
  exact splitChars_length_lt hcs

/-- What holds of the paths without an owner, and of a path if of its owner, holds of all paths. -/
@[elab_as_elim]
theorem path_induction {motive : String → Prop}
    (alone : ∀ path, split path = (none, none, normalize path) → motive path)
    (member : ∀ path owner scope name, split path = (some owner, some scope, name) → motive owner → motive path)
    (path : String) : motive path := by
  rcases split_cases path with h | ⟨owner, scope, name, -, -, -, -, h⟩
  · exact alone path h
  · have : owner.length < path.length := length_lt_of_split (congrArg Prod.fst h)
    exact member path owner scope name h (path_induction alone member owner)
termination_by path.length

theorem encloses_alone (h : split path = (none, none, normalize path)) {outer : String} :
    Encloses outer path ↔ outer = path := by
  constructor
  · rintro (_ | ⟨howner, -⟩)
    · rfl
    · rw [h] at howner
      cases howner
  · rintro rfl
    exact .self outer

theorem encloses_member (h : split path = (some owner, some scope, name)) {outer : String} :
    Encloses outer path ↔ Encloses outer owner ∨ outer = path := by
  constructor
  · rintro (_ | ⟨howner, houter⟩)
    · exact .inr rfl
    · rw [h] at howner
      cases howner
      exact .inl houter
  · rintro (houter | rfl)
    · exact .owner (congrArg Prod.fst h) houter
    · exact .self outer

/-! ## Chains -/

theorem chainUp_alone {cs : List Char} (hne : cs ≠ []) (h : (splitChars cs).memberof = none) :
    chainUp cs =
      [(((splitChars cs).scope.map Scope.punctuation).getD [] ++ (splitChars cs).name, cs)] := by
  rw [chainUp, if_neg hne]
  dsimp only
  split
  · rfl
  · next owner howner =>
    rw [h] at howner
    cases howner

theorem chainUp_member {cs owner : List Char} (h : (splitChars cs).memberof = some owner) :
    chainUp cs =
      (((splitChars cs).scope.map Scope.punctuation).getD [] ++ (splitChars cs).name, cs) :: chainUp owner := by
  have hne : cs ≠ [] := by
    rintro rfl
    exact Nat.not_lt_zero _ (splitChars_length_lt h)
  rw [chainUp, if_neg hne]
  dsimp only
  split
  · next hnone =>
    rw [h] at hnone
    cases hnone
  · next owner' howner =>
    rw [h] at howner
    cases howner
    rfl

theorem separator_append (scope : Option Scope) (cs : List Char) :
    separator scope ++ String.ofList cs = String.ofList ((scope.map Scope.punctuation).getD [] ++ cs) :=
  String.ofList_append.symm

/-- The chain of a path without an owner. -/
theorem chain_alone (hne : path ≠ "") (h : split path = (none, none, normalize path)) :
    chain path = [(separator none ++ normalize path, path)] := by
  obtain ⟨hmemberof, hscope, hname⟩ : (splitChars path.toList).memberof = none ∧
      (splitChars path.toList).scope = none ∧ String.ofList (splitChars path.toList).name = normalize path := by
    simpa [split] using h
  rw [chain, chainUp_alone (by simpa using hne) hmemberof, ← hname, separator_append, hscope]
  simp

/-- The chain of a member goes on where that of its owner ends. -/
theorem chain_member (h : split path = (some owner, some scope, name)) :
    chain path = chain owner ++ [(separator (some scope) ++ name, path)] := by
  obtain ⟨⟨cs, hcs, howner⟩, hscope, hname⟩ : (∃ cs, (splitChars path.toList).memberof = some cs ∧
      String.ofList cs = owner) ∧ (splitChars path.toList).scope = some scope ∧
      String.ofList (splitChars path.toList).name = name := by
    simpa [split] using h
  rw [chain, chainUp_member hcs, ← hname, separator_append, hscope, ← howner, chain]
  simp

/-- The keys on the way from the outermost owner of a path to the path. -/
def keysOf (path : String) : List String := (chain path).map Prod.fst

theorem along_append (chain : List (String × String)) (key longname : String) :
    along (chain ++ [(key, longname)]) = along chain ++ [(chain.map Prod.fst ++ [key], longname)] := by
  induction chain with
  | nil => rfl
  | cons entry chain ih =>
    rw [List.cons_append, along, along, ih, List.map_append]
    rfl

theorem keysOf_member (h : split path = (some owner, some scope, name)) :
    keysOf path = keysOf owner ++ [separator (some scope) ++ name] := by
  rw [keysOf, chain_member h, List.map_append]
  rfl

/-- **The nodes that the chain of a path leads through are the paths that enclose it.** -/
theorem mem_along_chain (hne : path ≠ "") {outer : String} :
    (keys, outer) ∈ along (chain path) ↔ Encloses outer path ∧ keys = keysOf outer := by
  induction path using path_induction with
  | alone path h =>
    rw [encloses_alone h, chain_alone hne h]
    constructor
    · intro hmem
      cases List.mem_singleton.1 hmem
      exact ⟨rfl, by rw [keysOf, chain_alone hne h]; rfl⟩
    · rintro ⟨rfl, rfl⟩
      rw [keysOf, chain_alone hne h]
      exact List.mem_singleton_self _
  | member path owner scope name h ih =>
    -- The chain of the owner leads through the paths that enclose the owner, and the last entry to the path itself.
    have howner : owner ≠ "" := (split_eq_some_iff.1 h).2.2.1
    rw [encloses_member h, chain_member h, along_append, List.mem_append, ih howner, or_and_right]
    refine or_congr_right ?_
    rw [List.mem_singleton, Prod.mk.injEq, and_comm]
    refine and_congr_right ?_
    rintro rfl
    rw [keysOf_member h]
    rfl

/-! ## Regular paths -/

/-- A path that is not empty, and in normal form as every path is that encloses it. -/
structure Regular (path : String) : Prop where
  ne_empty : path ≠ ""
  normal (outer : String) (h : Encloses outer path) : normalize outer = outer

theorem Regular.of_alone (hne : path ≠ "") (hnormal : normalize path = path)
    (hsplit : split path = (none, none, normalize path)) : Regular path where
  ne_empty := hne
  normal outer houter := by rw [(encloses_alone hsplit).1 houter, hnormal]

theorem Regular.of_member (howner : Regular owner) (hne : path ≠ "") (hnormal : normalize path = path)
    (hsplit : split path = (some owner, some scope, name)) : Regular path where
  ne_empty := hne
  normal outer houter := by
    rcases (encloses_member hsplit).1 houter with h | rfl
    · exact howner.normal outer h
    · exact hnormal

theorem Regular.memberof (h : Regular path) (howner : (split path).1 = some owner) : Regular owner where
  ne_empty := by
    rcases split_cases path with hsplit | ⟨owner', scope, name, hne, -, -, -, hsplit⟩
    · rw [hsplit] at howner
      cases howner
    · rw [hsplit] at howner
      cases howner
      exact hne
  normal outer houter := h.normal outer (.owner howner houter)

/-- The paths that enclose a regular path are regular. -/
theorem Regular.enclosing (h : Regular path) {outer : String} (houter : Encloses outer path) : Regular outer := by
  induction houter with
  | self => exact h
  | owner howner _ ih => exact ih (h.memberof howner)

/-- **The keys of a regular path make up the path.** -/
theorem Regular.join_keys (h : Regular path) : String.join (keysOf path) = path := by
  have hnormal := h.normal path (.self path)
  induction path using path_induction with
  | alone path hsplit =>
    rw [keysOf, chain_alone h.ne_empty hsplit, hnormal]
    simp [separator]
  | member path owner scope name hsplit ih =>
    have howner : Regular owner := h.memberof (congrArg Prod.fst hsplit)
    have hjoin := ih howner (howner.normal owner (.self owner))
    obtain ⟨-, hparts, -⟩ := split_eq_some_iff.1 hsplit
    calc String.join (keysOf path)
      _ = String.join (keysOf owner) ++ (separator (some scope) ++ name) := by
        rw [keysOf_member hsplit, String.join_append, String.join_cons, String.join_nil, String.append_empty]
      _ = path := by rw [hjoin, ← String.append_assoc, ← hparts, hnormal]

/-! ## Trees -/

theorem ofLongnames_append (longnames : List String) (path : String) :
    ofLongnames (longnames ++ [path]) = Tree.insert (chain path) (ofLongnames longnames) := by
  rw [ofLongnames, List.foldl_append]
  rfl

/-- The tree of the longnames has no neighbours with the same key. -/
theorem keyed_ofLongnames (longnames : List String) : Keyed (ofLongnames longnames) := by
  induction longnames using List.reverseRecOn with
  | nil => exact .nil
  | append_singleton longnames path ih =>
    rw [ofLongnames_append]
    exact ih.insert (chain path)

/-- The nodes of the tree of some longnames are nodes that the chains of these lead through. -/
theorem exists_along_of_mem_nodes {p : List String × String} (h : p ∈ nodes (ofLongnames longnames)) :
    ∃ path ∈ longnames, p ∈ along (chain path) := by
  induction longnames using List.reverseRecOn with
  | nil =>
    rw [ofLongnames, List.foldl_nil, nodes] at h
    cases h
  | append_singleton longnames path ih =>
    rw [ofLongnames_append] at h
    rcases mem_nodes_of_mem_insert h with hmem | hmem
    · obtain ⟨path', hpath', hp⟩ := ih hmem
      exact ⟨path', List.mem_append_left _ hpath', hp⟩
    · exact ⟨path, List.mem_append_right _ (List.mem_singleton_self path), hmem⟩

/-- Where the chain of a longname leads through, there is a node. -/
theorem exists_mem_nodes_of_mem_along {p : List String × String} (hpath : path ∈ longnames)
    (h : p ∈ along (chain path)) : ∃ longname, (p.1, longname) ∈ nodes (ofLongnames longnames) := by
  induction longnames using List.reverseRecOn with
  | nil => cases hpath
  | append_singleton longnames path' ih =>
    rw [ofLongnames_append]
    rcases List.mem_append.1 hpath with hmem | hmem
    · obtain ⟨longname, hlongname⟩ := ih hmem
      exact ⟨longname, nodes_subset_insert (chain path') _ hlongname⟩
    · rw [← List.mem_singleton.1 hmem]
      exact exists_mem_nodes_insert (ofLongnames longnames) h

theorem regular_of_encloses (h : ∀ path ∈ longnames, Regular path) {outer : String}
    (houter : ∃ path ∈ longnames, Encloses outer path) : Regular outer := by
  obtain ⟨path, hpath, houter⟩ := houter
  exact (h path hpath).enclosing houter

/-- **The nodes of the tree of regular longnames** are the paths that enclose these, each by the keys of its own
chain. -/
theorem mem_nodes_ofLongnames (h : ∀ path ∈ longnames, Regular path) {outer : String} :
    (keys, outer) ∈ nodes (ofLongnames longnames) ↔
      (∃ path ∈ longnames, Encloses outer path) ∧ keys = keysOf outer := by
  have hnodes {keys : List String} {outer : String} (hmem : (keys, outer) ∈ nodes (ofLongnames longnames)) :
      (∃ path ∈ longnames, Encloses outer path) ∧ keys = keysOf outer := by
    obtain ⟨path, hpath, hp⟩ := exists_along_of_mem_nodes hmem
    obtain ⟨houter, hkeys⟩ := (mem_along_chain (h path hpath).ne_empty).1 hp
    exact ⟨⟨path, hpath, houter⟩, hkeys⟩
  refine ⟨hnodes, ?_⟩
  rintro ⟨⟨path, hpath, houter⟩, rfl⟩
  obtain ⟨longname, hmem⟩ := exists_mem_nodes_of_mem_along hpath
    ((mem_along_chain (h path hpath).ne_empty).2 ⟨houter, rfl⟩)
  -- The node that is there has the same keys, and regular paths with the same keys are equal.
  obtain ⟨hlongname, hkeys⟩ := hnodes hmem
  have heq : outer = longname := calc
    outer = String.join (keysOf outer) := (regular_of_encloses h ⟨path, hpath, houter⟩).join_keys.symm
    _ = String.join (keysOf longname) := congrArg String.join hkeys
    _ = longname := (regular_of_encloses h hlongname).join_keys
  rwa [heq] at hmem ⊢

/-- **The tree of regular longnames is their closure under owners.** Its nodes are the longnames and the paths that
enclose them, each of these once, and the keys on the way to a node make up its longname. The same longnames in another
order, or repeated, give the same tree but for the order of children. -/
theorem ofLongnames_enclosing (longnames : List String) (h : ∀ path ∈ longnames, Regular path) :
    ((nodes (ofLongnames longnames)).map Prod.snd).Nodup ∧
    (∀ outer, outer ∈ (nodes (ofLongnames longnames)).map Prod.snd ↔ ∃ path ∈ longnames, Encloses outer path) ∧
    (∀ keys longname, (keys, longname) ∈ nodes (ofLongnames longnames) → longname = String.join keys) ∧
    ∀ longnames', (∀ path, path ∈ longnames' ↔ path ∈ longnames) →
      Rearranged (ofLongnames longnames') (ofLongnames longnames) := by
  refine ⟨?_, fun outer => ?_, fun keys longname hmem => ?_, fun longnames' hsame => ?_⟩
  · have hnodup : (nodes (ofLongnames longnames)).Nodup := (keyed_ofLongnames longnames).nodup_keys.of_map Prod.fst
    refine (List.nodup_map_iff_inj_on hnodup).2 ?_
    rintro ⟨keys, outer⟩ hp ⟨keys', outer'⟩ hp' (rfl : outer = outer')
    rw [((mem_nodes_ofLongnames h).1 hp).2, ((mem_nodes_ofLongnames h).1 hp').2]
  · rw [List.mem_map]
    constructor
    · rintro ⟨⟨keys, longname⟩, hmem, rfl⟩
      exact ((mem_nodes_ofLongnames h).1 hmem).1
    · exact fun houter => ⟨(keysOf outer, outer), (mem_nodes_ofLongnames h).2 ⟨houter, rfl⟩, rfl⟩
  · obtain ⟨houter, rfl⟩ := (mem_nodes_ofLongnames h).1 hmem
    exact (regular_of_encloses h houter).join_keys.symm
  · have h' : ∀ path ∈ longnames', Regular path := fun path hpath => h path ((hsame path).1 hpath)
    refine ((keyed_ofLongnames longnames').rearranged_iff (keyed_ofLongnames longnames)).2 ?_
    rintro ⟨keys, outer⟩
    rw [mem_nodes_ofLongnames h', mem_nodes_ofLongnames h]
    simp only [hsame]

/-- Two members of one owner, which is not among the longnames itself, in both orders. -/
theorem ofLongnames_enclosing_room :
    let longnames := ["chat.Room#join", "chat.Room~seats"]
    let longnames' := ["chat.Room~seats", "chat.Room#join", "chat.Room~seats"]
    (∀ path ∈ longnames, Regular path) ∧ ((nodes (ofLongnames longnames)).map Prod.snd).Nodup ∧
      "chat.Room" ∈ (nodes (ofLongnames longnames)).map Prod.snd ∧
      Rearranged (ofLongnames longnames') (ofLongnames longnames) := by
  intro longnames longnames'
  have hchat : Regular "chat" := .of_alone (by decide) (by decide +kernel) (by decide +kernel)
  have hsplit : split "chat.Room" = (some "chat", some .static, "Room") := by decide +kernel
  have hroom : Regular "chat.Room" := hchat.of_member (by decide) (by decide +kernel) hsplit
  have hjoin : split "chat.Room#join" = (some "chat.Room", some .perInstance, "join") := by decide +kernel
  have hseats : split "chat.Room~seats" = (some "chat.Room", some .inner, "seats") := by decide +kernel
  have hregular : ∀ path ∈ longnames, Regular path := by
    simp only [longnames, List.forall_mem_cons, List.not_mem_nil, false_implies, implies_true, and_true]
    exact ⟨hroom.of_member (by decide) (by decide +kernel) hjoin,
      hroom.of_member (by decide) (by decide +kernel) hseats⟩
  obtain ⟨hnodup, hnodes, -, hsame⟩ := ofLongnames_enclosing longnames hregular
  have hencloses : Encloses "chat.Room" "chat.Room#join" := .owner (congrArg Prod.fst hjoin) (.self _)
  refine ⟨hregular, hnodup, (hnodes _).2 ⟨_, List.mem_cons_self, hencloses⟩, hsame longnames' fun path => ?_⟩
  simp only [longnames, longnames', List.mem_cons, List.not_mem_nil, or_false]
  tauto

end SymbolDocs.NamePath
