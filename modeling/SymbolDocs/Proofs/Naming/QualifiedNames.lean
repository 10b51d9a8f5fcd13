import SymbolDocs.Proofs.NamePath.PlainPaths
import SymbolDocs.Proofs.Naming.Overrides

/-!
# Names with their owner in front

A tag states the owner of a symbol, and the name that is given beside it can have the owner in front once more. The
owner is taken off the name there, but it is the owner in normal form, without the scope that it states at its end, that
is looked for in front of a name which is not brought to normal form. So a qualified name says the same as the short one
only where the stated owner is such an owner itself (`Naming.placeInOwner_qualified_eq`). In every other case a longer
path is put below the owner (`Naming.placeInOwner_qualified_ne`), and with the prototype word behind the owner this is
always so. `Doclet.resolve_qualified_iff` says this for all plain owners and names.
-/

namespace SymbolDocs

open SymbolDocs.Text SymbolDocs.NamePath SymbolDocs.Naming

/-! ## Owners in front of names -/

namespace Naming

variable {owner memberof name label : String}

/-- An owner is taken off a name with the separator behind it. -/
theorem dropOwner_cases (owner name : String) :
    dropOwner owner name = name ∨
      ∃ sep, isSeparator sep = true ∧ name = owner ++ String.singleton sep ++ dropOwner owner name := by
  unfold dropOwner
  cases h : [".", "#", "~"].findSome? fun sep => after? name (owner ++ sep) with
  | none => exact .inl rfl
  | some rest =>
    obtain ⟨sep, hmem, hafter⟩ := List.exists_of_findSome?_eq_some h
    have hsep : ∃ c, isSeparator c = true ∧ sep = String.singleton c := by
      simp only [List.mem_cons, List.not_mem_nil, or_false] at hmem
      rcases hmem with rfl | rfl | rfl
      · exact ⟨'.', rfl, rfl⟩
      · exact ⟨'#', rfl, rfl⟩
      · exact ⟨'~', rfl, rfl⟩
    obtain ⟨c, hc, rfl⟩ := hsep
    exact .inr ⟨c, hc, (append_of_after? hafter).symm⟩

/-- A plain name has no owner in front. -/
theorem dropOwner_plain (hn : PlainSegment name.toList) : dropOwner owner name = name := by
  rcases dropOwner_cases owner name with h | ⟨sep, hsep, h⟩
  · exact h
  · have hmem : sep ∈ name.toList := by
      rw [h]
      simp
    rw [hn.isSeparator_eq hmem] at hsep
    cases hsep

/-- The owner in front of a qualified name is taken off. -/
theorem dropOwner_qualified (owner name : String) : dropOwner owner (owner ++ "." ++ name) = name := by
  simp only [dropOwner, List.findSome?_cons, after?_append, Option.getD_some]

/-- A shorter owner leaves some part of the stated one in front of the name. -/
theorem exists_dropOwner_qualified (h : owner.length < memberof.length) (name : String) :
    ∃ front, dropOwner owner (memberof ++ "." ++ name) = front ++ "." ++ name := by
  rcases dropOwner_cases owner (memberof ++ "." ++ name) with hd | ⟨sep, -, hd⟩
  · exact ⟨memberof, hd⟩
  · generalize dropOwner owner (memberof ++ "." ++ name) = rest at hd
    have hchars : memberof.toList ++ '.' :: name.toList = (owner.toList ++ [sep]) ++ rest.toList := by
      have := congrArg String.toList hd
      simpa using this
    have hlength : (owner.toList ++ [sep]).length ≤ memberof.toList.length := by
      rw [List.length_append, String.length_toList, String.length_toList]
      exact h
    obtain ⟨front, hfront⟩ := List.prefix_of_prefix_length_le (List.prefix_append _ _)
      (hchars ▸ List.prefix_append memberof.toList ('.' :: name.toList)) hlength
    refine ⟨String.ofList front, String.toList_injective ?_⟩
    rw [← hfront, List.append_assoc, List.append_cancel_left_eq] at hchars
    simpa using hchars.symm

/-- A label does not make up for an owner in front of a name. -/
theorem dropLabel_qualified_ne (hl : label.toList.getLast? = none ∨ label.toList.getLast? = some ':')
    (front name : String) : dropLabel (front ++ "." ++ name) label ≠ dropLabel name label := by
  intro h
  have hlonger (lead : String) : name ≠ lead ++ (front ++ "." ++ name) := by
    intro he
    have hdot : ".".length = 1 := rfl
    have hlength := congrArg String.length he
    simp only [String.length_append, hdot] at hlength
    omega
  rcases dropLabel_cases name label with hn | hn
  · rw [hn] at h
    rcases dropLabel_cases (front ++ "." ++ name) label with hq | hq
    · exact hlonger "" (h.symm.trans (hq.trans String.empty_append.symm))
    · -- The label would be the owner with its separator, but it ends in a colon.
      rw [h] at hq
      have hlabel : label.toList = front.toList ++ ['.'] := by
        have hchars := congrArg String.toList hq
        rw [String.toList_append, String.toList_append, String.toList_append] at hchars
        exact (List.append_cancel_right hchars).symm
      rw [hlabel, List.getLast?_concat] at hl
      rcases hl with hl | hl <;> cases hl
  · rcases dropLabel_cases (front ++ "." ++ name) label with hq | hq
    · rw [← h, hq] at hn
      exact hlonger label hn
    · rw [← h, ← hq] at hn
      exact hlonger "" (hn.trans String.empty_append.symm)

/-! ## Places below a stated owner -/

section Places

variable {d d' : Doclet} {suffix : Option Scope}

theorem placeInOwner_global (hg : memberof ∈ globalOwners) (d : Doclet) (name label : String) :
    placeInOwner d memberof name label = .ofMember none (some .global) name label :=
  if_pos (List.contains_iff_mem.2 hg)

/-- A stated owner is taken in normal form, without the scope that it states at its end. -/
theorem placeInOwner_eq (hg : memberof ∉ globalOwners) (hd : Placement.statedScope d = none)
    (hs : splitOwner (normalize memberof) = (owner, suffix)) (name label : String) :
    placeInOwner d memberof name label =
      .below d owner (suffix.getD .static) (dropOwner owner name) label := by
  unfold placeInOwner
  rw [if_neg fun h => hg (List.contains_iff_mem.1 h)]
  simp only [hs, hd, Option.none_or]

theorem below_plain (hn : PlainSegment name.toList) (d : Doclet) (owner : String) (scope : Scope) (label : String) :
    Placement.below d owner scope name label = .ofMember (some owner) (some scope) name label := by
  rw [Placement.below, isNested, isNestedChars_of_unseparated hn.unseparated]
  rfl

/-- An owner that is left as it is places the qualified name as the short one. -/
theorem placeInOwner_qualified_eq (hn : PlainSegment name.toList) (hd : Placement.statedScope d = none)
    (hd' : Placement.statedScope d' = none) (hg : memberof ∉ globalOwners)
    (hs : splitOwner (normalize memberof) = (memberof, none)) (label : String) :
    placeInOwner d memberof (memberof ++ "." ++ name) label = placeInOwner d' memberof name label := by
  rw [placeInOwner_eq hg hd hs, placeInOwner_eq hg hd' hs, dropOwner_qualified, dropOwner_plain hn, below_plain hn,
    below_plain hn]

variable (hp : PlainPath memberof.toList)
  (hl : label.toList.getLast? = none ∨ label.toList.getLast? = some ':')
include hp hl

/-- What is left of a qualified name below a shorter owner is not placed as a name of that owner. -/
theorem below_qualified_ne (hd : Placement.statedScope d = none)
    (hs : splitOwner (normalize memberof) = (owner, suffix)) (hshort : owner.length < memberof.length) (name : String) :
    let p := Placement.below d owner (suffix.getD .static) (dropOwner owner (memberof ++ "." ++ name)) label
    (p.name, p.memberof, p.scope) ≠ (dropLabel name label, some owner, some (suffix.getD .static)) := by
  obtain ⟨front, hrest⟩ := exists_dropOwner_qualified hshort name
  rw [hrest]
  intro p hplace
  simp only [Prod.mk.injEq] at hplace
  obtain ⟨hname, howner, hscope⟩ := hplace
  unfold p Placement.below at hname howner hscope
  split at hname
  · next hnested =>
    -- A path is split again, and not into the same owner and a name.
    rw [if_pos hnested, Placement.ofPath] at howner hscope
    rcases split_cases (owner ++ separator (some (suffix.getD .static)) ++ (front ++ "." ++ name)) with
      hsplit | ⟨o, s, n, -, -, -, -, hsplit⟩
    · rw [hsplit] at howner
      cases howner
    · rw [hsplit, hd] at hscope
      rw [hsplit] at howner
      cases howner
      cases hscope
      exact hp.split_below_ne hs hnested hsplit
  · exact dropLabel_qualified_ne hl front name hname

/-- **Any other owner does not place the qualified name as the short one.** -/
theorem placeInOwner_qualified_ne (hn : PlainSegment name.toList) (hd : Placement.statedScope d = none)
    (hd' : Placement.statedScope d' = none)
    (hne : memberof ∈ globalOwners ∨ splitOwner (normalize memberof) ≠ (memberof, none)) :
    let p := placeInOwner d memberof (memberof ++ "." ++ name) label
    let p' := placeInOwner d' memberof name label
    (p.name, p.memberof, p.scope) ≠ (p'.name, p'.memberof, p'.scope) := by
  by_cases hg : memberof ∈ globalOwners
  · rw [placeInOwner_global hg, placeInOwner_global hg]
    intro p p' hplace
    exact dropLabel_qualified_ne hl memberof name (congrArg Prod.fst hplace)
  · have hself := hne.resolve_left hg
    cases hs : splitOwner (normalize memberof) with
    | mk owner suffix =>
      have hshort : owner.length < memberof.length := by
        rcases hp.splitOwnerChars_length_lt (splitOwner_normalize_eq_iff.1 hs) with ⟨ho, rfl⟩ | hlt
        · rw [hs, String.toList_injective ho] at hself
          exact absurd rfl hself
        · simpa only [String.length_toList] using hlt
      rw [placeInOwner_eq hg hd hs, placeInOwner_eq hg hd' hs, dropOwner_plain hn, below_plain hn]
      exact below_qualified_ne hp hl hd hs hshort name

end Places

/-! ## Stated owners -/

section StatedOwners

variable (ho : PlainPath owner.toList) (hm : memberof = owner ∨ memberof = owner ++ ".prototype")
include ho hm

theorem plainPath_stated : PlainPath memberof.toList := by
  rcases hm with rfl | rfl
  · exact ho
  · have hword : PlainSegment "prototype".toList := by decide
    rw [String.toList_append]
    exact .member ho rfl hword

/-- A plain owner is left as it is if it is in normal form, which it is not with the prototype word behind it. -/
theorem splitOwner_stated_iff : splitOwner (normalize memberof) = (memberof, none) ↔
    memberof = owner ∧ Normal owner.toList ∧ ¬ EndsInBreak owner.toList := by
  rw [splitOwner_normalize_eq_iff, (plainPath_stated ho hm).splitOwnerChars_eq_self_iff]
  rcases hm with rfl | rfl
  · exact (and_iff_right rfl).symm
  · refine iff_of_false (fun h => ?_) fun h => ?_
    · rw [String.toList_append] at h
      exact not_normal_prototypeWord owner.toList h.1
    · have hlength := congrArg String.length h.1
      have hword : ".prototype".length = 10 := rfl
      rw [String.length_append, hword] at hlength
      omega

/-- Below a stated owner the qualified name is placed as the short one just if the owner is left as it is. -/
theorem placeInOwner_qualified_iff {d d' : Doclet} (hn : PlainSegment name.toList)
    (hd : Placement.statedScope d = none) (hd' : Placement.statedScope d' = none)
    (hl : label.toList.getLast? = none ∨ label.toList.getLast? = some ':') (variation : Option String) :
    let p := placeInOwner d memberof (memberof ++ "." ++ name) label
    let p' := placeInOwner d' memberof name label
    (some p.name, p.memberof, p.scope, some (addVariation p.longname variation)) =
        (some p'.name, p'.memberof, p'.scope, some (addVariation p'.longname variation)) ↔
      memberof = owner ∧ owner ∉ globalOwners ∧ Normal owner.toList ∧ ¬ EndsInBreak owner.toList := by
  intro p p'
  constructor
  · intro hsame
    by_contra hnot
    have hne : memberof ∈ globalOwners ∨ splitOwner (normalize memberof) ≠ (memberof, none) := by
      by_contra hno
      rw [not_or, not_not, splitOwner_stated_iff ho hm] at hno
      exact hnot ⟨hno.2.1, hno.2.1 ▸ hno.1, hno.2.2⟩
    simp only [Prod.mk.injEq, Option.some.injEq] at hsame
    refine placeInOwner_qualified_ne (plainPath_stated ho hm) hl hn hd hd' hne ?_
    simp only [Prod.mk.injEq]
    exact ⟨hsame.1, hsame.2.1, hsame.2.2.1⟩
  · rintro ⟨hself, hg, howner⟩
    have hsplit := (splitOwner_stated_iff ho hm).2 ⟨hself, howner⟩
    have hsame : p = p' := placeInOwner_qualified_eq hn hd hd' (hself ▸ hg) hsplit label
    rw [hsame]

end StatedOwners

end Naming

/-! ## Qualified names -/

namespace Doclet

variable {d : Doclet} {owner memberof name : String}

/-- **A qualified name does not repeat its owner.** A symbol with a plain name and a plain owner stated beside it, as it
stands or with the prototype word behind it, gets the same place from the name with the stated owner in front just if a
module exports it as a whole, or if the owner is stated as it stands, has no prototype word to be replaced in it and
does not end in a line break. Symbols that never have an owner and those of the global owners keep the whole name. -/
theorem resolve_qualified_iff {R : Type} (dict : Dictionary R) (ho : PlainPath owner.toList)
    (hm : memberof = owner ∨ memberof = owner ++ ".prototype") (hn : PlainSegment name.toList)
    (ha : d.awaitsName = true) (hs : d.explicitScope = false) (stack : ScopeStack) :
    ∃ qualified short,
      (((d.named (memberof ++ "." ++ name)).withStatedOwner memberof).resolve dict stack).map place? = .ok qualified ∧
      (((d.named name).withStatedOwner memberof).resolve dict stack).map place? = .ok short ∧
      (qualified = short ↔ isRootKind dict d.kind = false ∧ ((exporter? dict stack d).isSome = true ∨
        (memberof = owner ∧ owner ∉ globalOwners ∧ Normal owner.toList ∧ ¬ EndsInBreak owner.toList))) := by
  let stated (name : String) : Doclet := (d.named name).withStatedOwner memberof
  have hp := plainPath_stated ho hm
  have hl : (label dict d).toList.getLast? = none ∨ (label dict d).toList.getLast? = some ':' := by
    rcases label_cases dict d with hlabel | hlabel <;> rw [hlabel]
    · exact .inl rfl
    · exact getLast?_kindLabel d.kind
  have hstated (name : String) : Placement.statedScope (stated name) = none := by
    have he : (stated name).explicitScope = false := hs
    rw [Placement.statedScope, he, if_neg Bool.false_ne_true]
  have hqualified : givenName (stated (memberof ++ "." ++ name)) = memberof ++ "." ++ name :=
    givenName_named (d := d) (by simp)
  have hshort : givenName (stated name) = name := givenName_named (d := d) (by simpa using hn.1)
  refine ⟨_, _, map_resolve ha rfl, map_resolve ha rfl, ?_⟩
  cases hk : isRootKind dict d.kind with
  | true =>
    refine iff_of_false (fun hsame => ?_) fun h => Bool.noConfusion h.1
    have hplace (name : String) : (placement dict stack (stated name)).name =
        dropLabel (givenName (stated name)) (label dict d) :=
      congrArg Placement.name (placement_of_rootKind (d := stated name) hk)
    have hname := Option.some.inj (congrArg Prod.fst hsame)
    rw [hplace, hplace, hqualified, hshort] at hname
    exact dropLabel_qualified_ne hl memberof name hname
  | false =>
    rw [and_iff_right rfl]
    cases hx : exporter? dict stack d with
    | some m =>
      refine iff_of_true ?_ (.inl rfl)
      have hplace (name : String) : placement dict stack (stated name) = ⟨m, none, none, m⟩ :=
        placement_of_exporter hk hx
      rw [hplace, hplace]
      rfl
    | none =>
      have howner (name : String) : statedOwner? (stated name) = some memberof :=
        nonempty_eq_some_iff.2 ⟨rfl, by simpa using hp.ne_nil⟩
      have hplace (name : String) : placement dict stack (stated name) =
          placeInOwner (stated name) memberof (givenName (stated name)) (label dict d) :=
        placement_of_statedOwner hk hx (howner name)
      have hnot : ¬ (none : Option String).isSome = true := Bool.false_ne_true
      rw [hplace, hplace, hqualified, hshort, or_iff_right hnot]
      exact placeInOwner_qualified_iff ho hm hn (hstated _) (hstated _) hl d.variation

/-- A path of two names is left as it is, so the name below it can have it in front. -/
theorem resolve_qualified_iff_nested :
    let dict := Grammar.jsdoc.dictionary
    let d : Doclet := { kind := some "function" }
    let place := (some "bar", some "app.Foo", some Scope.static, some "app.Foo.bar")
    PlainPath "app.Foo".toList ∧ PlainSegment "bar".toList ∧ d.awaitsName = true ∧ d.explicitScope = false ∧
      (((d.named "bar").withStatedOwner "app.Foo").resolve dict {}).map place? = .ok place ∧
      (((d.named "app.Foo.bar").withStatedOwner "app.Foo").resolve dict {}).map place? = .ok place := by
  intro dict d place
  have ho : PlainPath "app.Foo".toList := by
    have hfoo : PlainSegment "Foo".toList := by decide
    exact .member (.segment (by decide : PlainSegment "app".toList)) rfl hfoo
  have hn : PlainSegment "bar".toList := by decide
  have hbreak : ¬ EndsInBreak "app.Foo".toList := by
    rintro ⟨before, sep, -, h⟩
    have hlast := congrArg List.getLast? h
    rw [List.append_cons, List.getLast?_concat] at hlast
    cases hlast
  have hnormal : Normal "app.Foo".toList := by
    have : normalizeChars "app.Foo".toList = "app.Foo".toList := by decide +kernel
    exact this
  have hshort : (((d.named "bar").withStatedOwner "app.Foo").resolve dict {}).map place? = .ok place := by
    rw [show dict = _ from Grammar.jsdoc_dictionary_eq _]
    decide +kernel
  obtain ⟨qualified, short, hq, hs, hiff⟩ := resolve_qualified_iff (d := d) dict ho (.inl rfl) hn rfl rfl {}
  obtain rfl : place = short := Except.ok.inj (hshort.symm.trans hs)
  refine ⟨ho, hn, rfl, rfl, hshort, ?_⟩
  rw [← hiff.2 ⟨function_placed_in_scope.1, .inr ⟨rfl, by decide, hnormal, hbreak⟩⟩]
  exact hq

/-- With the prototype word behind the owner, the qualified name makes a member of a path that nothing else names. -/
theorem resolve_qualified_prototype :
    let d : Doclet := { kind := some "function" }
    PlainPath "Foo".toList ∧ PlainSegment "bar".toList ∧ d.awaitsName = true ∧ d.explicitScope = false ∧
      (((d.named "bar").withStatedOwner "Foo.prototype").resolve Grammar.jsdoc.dictionary {}).map place? =
        .ok (some "bar", some "Foo", some .perInstance, some "Foo#bar") ∧
      (((d.named "Foo.prototype.bar").withStatedOwner "Foo.prototype").resolve Grammar.jsdoc.dictionary {}).map place? =
        .ok (some "bar", some "Foo#prototype", some .static, some "Foo#prototype.bar") := by
  have ho : PlainSegment "Foo".toList := by decide
  refine ⟨.segment ho, by decide, rfl, rfl, ?_⟩
  rw [Grammar.jsdoc_dictionary_eq]
  decide +kernel

end Doclet
end SymbolDocs
