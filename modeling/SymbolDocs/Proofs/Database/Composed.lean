import SymbolDocs.Proofs.Database.Copies
import SymbolDocs.Proofs.Grammar.Lookup
import SymbolDocs.Proofs.Naming.References

/-!
# Longnames of copies

A doclet is composed if its longname is the one that its name, owner and scope make. Linking leaves composed doclets
composed, but the copy of a borrowed symbol gets its longname in another way: it keeps the label that it finds in the
longname of the source, whatever the dictionary says of the kind, and it has no variation in it, although it takes the
variation of the source over. So a copy is composed just if it is faithful: it has a name, no variation, and its label
is that of its kind (`Doclet.composed_iff_faithful`). `composed_linkAll_iff` says this for a whole pass.
-/

namespace SymbolDocs

open SymbolDocs.Text SymbolDocs.NamePath SymbolDocs.Naming

/-! ## Labels and variations behind an owner -/

section Texts

variable {name label : String}

theorem empty_addLabel (label : String) : addLabel "" label = label := by
  unfold addLabel
  split
  · next h =>
    rw [startsWith_iff] at h
    exact (String.toList_injective (List.prefix_nil.1 h)).symm
  · exact String.append_empty

theorem addLabel_eq_self_iff : addLabel name label = name ↔ startsWith name label = true := by
  unfold addLabel
  split
  · next h => exact ⟨fun _ => h, fun _ => rfl⟩
  · next h =>
    refine ⟨fun he => ?_, fun hs => absurd hs h⟩
    have hl : label = "" := by simpa using congrArg String.length he
    subst hl
    simp [startsWith]

theorem length_le_addLabel (name label : String) : name.length ≤ (addLabel name label).length := by
  unfold addLabel
  split
  · exact Nat.le_refl _
  · rw [String.length_append]
    exact Nat.le_add_left _ _

theorem addVariation_append (s t : String) (variation : Option String) :
    addVariation (s ++ t) variation = s ++ addVariation t variation := by
  unfold addVariation
  split
  · simp only [String.append_assoc]
  · rfl

end Texts

/-! ## Composed doclets -/

namespace Doclet

variable {R : Type} {dict : Dictionary R} {c : Doclet}

/-- A doclet whose longname is the one that its name, owner and scope make. -/
def Composed (dict : Dictionary R) (d : Doclet) : Prop := d.longname = some (derivedLongname dict d)

/-- The label that a copy keeps of the longname of its source. -/
def keptLabel (c : Doclet) : String := Linking.borrowLabel { kind := c.kind, longname := c.borrowedFrom }

instance : Decidable (c.Composed dict) := inferInstanceAs (Decidable (_ = _))

/-- Whether the longname of a copy tells the same as its fields. It has a name, and without variation the label that it
keeps is that of its kind, unless the name has it already. With a variation it is faithful only if the kept label in
front of the name happens to read like the variation behind it. -/
def faithful (dict : Dictionary R) (c : Doclet) : Bool :=
  match nonempty c.name, nonempty c.variation with
  | none, _ => false
  | some name, none => label dict c = c.keptLabel || startsWith name (kindLabel c.kind)
  | some name, some v => label dict c = "" && name ++ "(" ++ v ++ ")" = addLabel name c.keptLabel

/-- The parts of a doclet never make an empty longname. -/
theorem derivedLongname_ne_empty (dict : Dictionary R) (d : Doclet) : derivedLongname dict d ≠ "" := by
  have hlocal : addLabel (givenName d) (label dict d) ≠ "" := by
    intro he
    have hle := length_le_addLabel (givenName d) (label dict d)
    rw [he] at hle
    exact givenName_ne_empty d (String.length_eq_zero_iff.1 (Nat.le_zero.1 hle))
  have hcompose : compose (givenName d) d.memberof d.scope (label dict d) ≠ "" := by
    unfold compose
    split
    · exact hlocal
    · split
      · exact hlocal
      · exact fun he => hlocal (String.append_eq_empty_iff.1 he).2
  intro he
  have hpre := prefix_addVariation (compose (givenName d) d.memberof d.scope (label dict d)) d.variation
  rw [show addVariation _ d.variation = "" from he] at hpre
  exact hcompose (String.toList_injective (List.prefix_nil.1 hpre))

theorem keptLabel_cases (c : Doclet) : c.keptLabel = "" ∨ c.keptLabel = kindLabel c.kind := by
  unfold keptLabel Linking.borrowLabel
  dsimp only
  split
  · exact .inr rfl
  · exact .inl rfl

/-- A copy with an empty name is not composed: its fields make a longname that ends in the name of nameless symbols or
in a variation, and its own longname ends in a label or has nothing behind the owner. -/
theorem addLabel_empty_ne_addVariation (dict : Dictionary R) (c : Doclet) :
    addLabel "" c.keptLabel ≠ addVariation (addLabel nameless (label dict c)) c.variation := by
  have hlocal : (addLabel nameless (label dict c)).toList.getLast? = some '>' := by
    have hlast : nameless.toList.getLast? = some '>' := by decide
    unfold addLabel
    split
    · exact hlast
    · rw [String.toList_append, List.getLast?_append, hlast, Option.some_or]
  have hkept : (addLabel "" c.keptLabel).toList.getLast? = none ∨
      (addLabel "" c.keptLabel).toList.getLast? = some ':' := by
    rw [empty_addLabel]
    rcases c.keptLabel_cases with h | h <;> rw [h]
    · exact .inl rfl
    · exact getLast?_kindLabel c.kind
  intro he
  rw [he] at hkept
  cases hv : nonempty c.variation with
  | none =>
    rw [addVariation_none hv, hlocal] at hkept
    simp at hkept
  | some v =>
    rw [addVariation_some hv, String.toList_append, List.getLast?_append] at hkept
    simp at hkept

/-- Without variation two labels in front of a name are the same, or the name has the only one already. -/
theorem addLabel_keptLabel_eq_iff (dict : Dictionary R) (c : Doclet) (name : String) :
    addLabel name c.keptLabel = addLabel name (label dict c) ↔
      label dict c = c.keptLabel ∨ startsWith name (kindLabel c.kind) = true := by
  rcases label_cases dict c with hl | hl <;> rcases c.keptLabel_cases with hk | hk <;> rw [hl, hk]
  · simp
  · rw [addLabel_empty, addLabel_eq_self_iff]
    refine ⟨.inr, fun h => h.elim (fun he => ?_) id⟩
    rw [← he]
    simp [startsWith]
  · rw [addLabel_empty, eq_comm, addLabel_eq_self_iff]
    refine ⟨.inr, fun h => h.elim (fun he => ?_) id⟩
    rw [he]
    simp [startsWith]
  · simp

/-- A label that the dictionary wants leaves no place for a variation. -/
theorem addLabel_keptLabel_ne (dict : Dictionary R) (c : Doclet) (name v : String)
    (hl : label dict c = kindLabel c.kind) :
    addLabel name c.keptLabel ≠ addLabel name (label dict c) ++ "(" ++ v ++ ")" := by
  have hle : (addLabel name c.keptLabel).length ≤ (addLabel name (label dict c)).length := by
    rw [hl]
    rcases c.keptLabel_cases with hk | hk
    · rw [hk, addLabel_empty]
      exact length_le_addLabel _ _
    · exact Nat.le_of_eq (by rw [hk])
  intro he
  have hlength := congrArg String.length he
  have hparen : "(".length = 1 := rfl
  simp only [String.length_append] at hlength
  omega

/-- What follows the owner and the separator in the longname of a copy is what its fields make just if the copy is
faithful. -/
theorem addLabel_eq_addVariation_iff_faithful {name : String} (hn : c.name = some name) :
    addLabel name c.keptLabel = addVariation (addLabel (givenName c) (label dict c)) c.variation ↔
      c.faithful dict = true := by
  unfold faithful givenName
  by_cases hempty : name = ""
  · subst hempty
    have hnone : nonempty c.name = none := by
      rw [hn]
      rfl
    simpa [hnone] using addLabel_empty_ne_addVariation dict c
  have hname : nonempty c.name = some name := nonempty_eq_some_iff.2 ⟨hn, hempty⟩
  rw [hname, Option.getD_some]
  cases hv : nonempty c.variation with
  | none => rw [addVariation_none hv, addLabel_keptLabel_eq_iff, Bool.or_eq_true, decide_eq_true_iff]
  | some v =>
    rw [addVariation_some hv, Bool.and_eq_true, decide_eq_true_iff, decide_eq_true_iff]
    rcases label_cases dict c with hl | hl
    · rw [hl, addLabel_empty]
      exact ⟨fun he => ⟨rfl, he.symm⟩, fun h => h.2.symm⟩
    · refine ⟨fun he => absurd he (addLabel_keptLabel_ne dict c name v hl), fun h => ?_⟩
      rw [h.1, addLabel_empty]
      exact h.2.symm

/-- A member of an owner whose longname has the label that a copy keeps is composed just if it is faithful. -/
theorem composed_iff_faithful {name owner : String} {scope : Scope} (hn : c.name = some name)
    (hm : c.memberof = some owner) (ho : owner ≠ "") (hs : c.scope = some scope)
    (hl : c.longname = some (compose name (some owner) (some scope) c.keptLabel)) :
    c.Composed dict ↔ c.faithful dict = true := by
  rw [← addLabel_eq_addVariation_iff_faithful hn, Composed, derivedLongname, hl, hm, hs, compose_owner ho,
    compose_owner ho, addVariation_append, Option.some_inj, String.append_right_inj]

end Doclet

namespace Linking

variable {R : Type} {dict : Dictionary R} {source borrower d d' : Doclet} {target : String}

/-- The doclet of a borrowed symbol is composed just if it is faithful. -/
theorem composed_borrowedCopy_iff {owner : String} (hb : borrower.longname = some owner) (ho : owner ≠ "") :
    (borrowedCopy source borrower target).Composed dict ↔ (borrowedCopy source borrower target).faithful dict = true := by
  have hplace : ∃ name scope, (borrowedCopy source borrower target).name = some name ∧
      (borrowedCopy source borrower target).scope = some scope ∧ (borrowedCopy source borrower target).longname =
        some (compose name (some owner) (some scope) (borrowedCopy source borrower target).keptLabel) := by
    unfold borrowedCopy
    rw [hb]
    cases Text.after? target "this." with
    | some name => exact ⟨name, .perInstance, rfl, rfl, rfl⟩
    | none => exact ⟨target, .static, rfl, rfl, rfl⟩
  obtain ⟨name, scope, hn, hs, hl⟩ := hplace
  exact Doclet.composed_iff_faithful hn hb ho hs hl

theorem Enriched.composed_iff (h : Enriched d d') : d'.Composed dict ↔ d.Composed dict := by
  cases h
  rfl

theorem Enriched.faithful_eq (h : Enriched d d') : d'.faithful dict = d.faithful dict := by
  cases h
  rfl

/-! ## Composed databases -/

/-- **Linking keeps the longnames of a database composed of their parts just if its copies are faithful.** -/
theorem composed_linkAll_iff (dict : Dictionary R) (l : Linking)
    (h : ∀ d ∈ l.database.doclets, d.Composed dict) :
    (∀ d ∈ l.linkAll.database.doclets, d.Composed dict) ↔
      ∀ c ∈ l.linkAll.database.doclets.drop l.database.size, c.faithful dict = true := by
  have hcopies (c : Doclet) (hc : c ∈ l.linkAll.database.doclets.drop l.database.size) :
      c.Composed dict ↔ c.faithful dict = true := by
    obtain ⟨c₀, ⟨source, borrower, target, rfl, hb, -⟩, henriched⟩ := copyFor_linkAll l hc
    obtain ⟨d, hd, heq⟩ := List.mem_map.1 hb
    have ho : d.longname = some (derivedLongname dict d) := h d hd
    rw [henriched.composed_iff, henriched.faithful_eq]
    exact composed_borrowedCopy_iff (heq.symm.trans ho) (Doclet.derivedLongname_ne_empty dict d)
  have hold (d : Doclet) (hd : d ∈ l.linkAll.database.doclets.take l.database.size) : d.Composed dict := by
    obtain ⟨d₀, hd₀, henriched⟩ := enriched_of_mem_take l hd
    exact henriched.composed_iff.2 (h d₀ hd₀)
  constructor
  · intro hall c hc
    exact (hcopies c hc).1 (hall c (List.mem_of_mem_drop hc))
  · intro hall d hd
    rw [← List.take_append_drop l.database.size l.linkAll.database.doclets, List.mem_append] at hd
    rcases hd with hd | hd
    · exact hold d hd
    · exact (hcopies d hd).2 (hall d hd)

/-- A class with an event, and a namespace that borrows both. -/
def borrowedClass : Linking where
  database := .ofList [
    { name := some "Door", longname := some "Door", kind := some "class", scope := some .global
      state := .nameResolved },
    { name := some "open", longname := some "Door#event:open", kind := some "event", memberof := some "Door"
      scope := some .perInstance, state := .nameResolved },
    { name := some "util", longname := some "util", kind := some "namespace", scope := some .global
      declared := { borrows := [{ source := "Door#event:open", target := some "this.opened" }, { source := "Door" }] }
      state := .nameResolved }]
  reporter := {}

/-- The copy of the event keeps the label of events. -/
theorem composed_linkAll_borrowedClass :
    let dict := Grammar.jsdoc.dictionary
    (∀ d ∈ borrowedClass.database.doclets, d.Composed dict) ∧
      borrowedClass.linkAll.database.longnames = ["Door", "Door#event:open", "util", "util#event:opened", "util.Door"] ∧
      ∀ d ∈ borrowedClass.linkAll.database.doclets, d.Composed dict := by
  intro dict
  have htables : dict = Grammar.jsdocTables (.all false) := Grammar.jsdoc_dictionary_eq _
  have hall : (∀ d ∈ borrowedClass.database.doclets, d.Composed dict) ∧
      ∀ c ∈ borrowedClass.linkAll.database.doclets.drop borrowedClass.database.size, c.faithful dict = true := by
    rw [htables]
    decide +kernel
  obtain ⟨hcomposed, hfaithful⟩ := hall
  exact ⟨hcomposed, by decide +kernel, (composed_linkAll_iff dict borrowedClass hcomposed).2 hfaithful⟩

/-- A function with a variation, and a namespace that borrows it. -/
def borrowedVariation : Linking where
  database := .ofList [
    { name := some "foo", longname := some "foo(2)", kind := some "function", scope := some .global
      variation := some "2", state := .nameResolved },
    { name := some "util", longname := some "util", kind := some "namespace", scope := some .global
      declared := { borrows := [{ source := "foo(2)" }] }, state := .nameResolved }]
  reporter := {}

/-- The copy of the function has its variation, but not in the longname. -/
theorem not_composed_borrowedVariation :
    let dict := Grammar.jsdoc.dictionary
    Grammar.buildAll ["jsdoc"] (.all false) = .ok dict ∧
      (∀ d ∈ borrowedVariation.database.doclets, d.Composed dict ∧ (nonempty d.name).isSome) ∧
      borrowedVariation.linkAll.database.longnames = ["foo(2)", "util", "util.foo"] ∧
      ¬ ∀ d ∈ borrowedVariation.linkAll.database.doclets, d.Composed dict := by
  intro dict
  have htables : dict = Grammar.jsdocTables (.all false) := Grammar.jsdoc_dictionary_eq _
  refine ⟨by with_unfolding_all rfl, ?_⟩
  rw [htables]
  decide +kernel

end Linking
end SymbolDocs
