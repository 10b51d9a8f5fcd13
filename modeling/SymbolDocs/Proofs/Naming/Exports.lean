import SymbolDocs.Proofs.Grammar.Lookup
import SymbolDocs.Proofs.Naming.References

/-!
# Exports of a module

In the file of a module, a name behind an export marker is meant to name a static member of the module, and a symbol
that is exported as a whole to have the longname of the module. The module is looked up among the open contexts, by
the beginning of its longname, which the longnames of its members share. So an open context of a member is taken for
the module: `Doclet.resolve_exported_iff` says that the module itself is found just if there is no such context.
-/

namespace SymbolDocs

open SymbolDocs.Text SymbolDocs.NamePath SymbolDocs.Naming

/-! ## Names behind a marker -/

namespace NamePath

variable {word rest : List Char}

/-- A word with a dot behind it starts a path. -/
theorem isNestedChars_append_dot (hne : word ≠ []) (hdot : '.' ∉ word) (hhash : '#' ∉ word)
    (htop : (Nesting.read {} word).isTop) : isNestedChars (word ++ '.' :: rest) = true := by
  -- The dot may become the separator of an instance member, but some separator is left.
  have hseparator : ∃ sep after, isSeparator sep ∧ normalizeChars ('.' :: rest) = sep :: after := by
    obtain ⟨sep, after, h⟩ := List.exists_cons_of_ne_nil (normalizeChars_ne_nil (List.cons_ne_nil '.' rest))
    refine ⟨sep, after, isSeparator_iff.2 ?_, h⟩
    by_cases hc : sep = '#'
    · exact .inr (.inl hc)
    · exact .inl (eq_of_normalizeChars_cons h hc)
  obtain ⟨sep, after, hsep, hn⟩ := hseparator
  rw [isNestedChars, normalizeChars_append hdot hhash, hn, Option.isSome_iff_ne_none]
  intro hnone
  cases word with
  | nil => exact hne rfl
  | cons c word =>
    rw [List.cons_append, cut, Option.map_eq_none_iff, lastCut_eq_none_iff] at hnone
    have hplain := hnone word sep after rfl htop
    rw [hsep] at hplain
    cases hplain

/-- A name that is no path does not start with a word and a dot. -/
theorem after?_of_not_isNested {name head : String} (h : isNested name = false)
    (hhead : head.toList = word ++ '.' :: rest) (hne : word ≠ []) (hdot : '.' ∉ word) (hhash : '#' ∉ word)
    (htop : (Nesting.read {} word).isTop) : after? name head = none := by
  cases hs : after? name head with
  | none => rfl
  | some behind =>
    have hname : name.toList = word ++ '.' :: (rest ++ behind.toList) := by
      rw [← append_of_after? hs, String.toList_append, hhead]
      simp
    have hnested : isNested name = true := by
      rw [isNested, hname]
      exact isNestedChars_append_dot hne hdot hhash htop
    rw [h] at hnested
    cases hnested

/-- A name that is no path does not start with `this.`. -/
theorem after?_this {name : String} (h : isNested name = false) : after? name "this." = none := by
  have hhead : "this.".toList = "this".toList ++ ['.'] := rfl
  exact after?_of_not_isNested h hhead (by decide) (by decide) (by decide) (by decide)

end NamePath

namespace Naming

/-- The first marker that a name starts with is the one that was put in front of it. -/
theorem findSome?_exportHeads {head : String} (h : head ∈ exportHeads) (name : String) :
    exportHeads.findSome? (after? (head ++ name) ·) = some name := by
  rcases List.mem_cons.1 h with rfl | h
  · rw [exportHeads, List.findSome?_cons, after?_append]
  · obtain rfl := List.mem_singleton.1 h
    have hlong : after? ("exports." ++ name) "module.exports." = none := by
      have hstart : ¬ startsWith ("exports." ++ name) "module.exports." = true := by
        rw [startsWith_iff, String.toList_append]
        rintro ⟨rest, hrest⟩
        cases hrest
      rw [after?, if_neg hstart]
    rw [exportHeads, List.findSome?_cons, hlong, List.findSome?_cons, after?_append]

/-- A name that is no path starts with no marker. -/
theorem findSome?_exportHeads_of_not_isNested {name : String} (h : isNested name = false) :
    exportHeads.findSome? (after? name ·) = none := by
  have hmodule : "module.exports.".toList = "module".toList ++ '.' :: "exports.".toList := rfl
  have hexports : "exports.".toList = "exports".toList ++ ['.'] := rfl
  rw [exportHeads, List.findSome?_cons, List.findSome?_cons, List.findSome?_nil,
    after?_of_not_isNested h hmodule (by decide) (by decide) (by decide) (by decide),
    after?_of_not_isNested h hexports (by decide) (by decide) (by decide) (by decide)]

end Naming

/-! ## The file of a module -/

/-- A context of a symbol without name, or of none. -/
def ScopeEntry.Nameless (entry : ScopeEntry) : Prop := entry.owner = none ∨ entry.owner = some nameless

/-- A context of a member of a module, directly or through further members. -/
def ScopeEntry.Below (m : String) (entry : ScopeEntry) : Prop :=
  ∃ owner sep, entry.owner = some owner ∧ isSeparator sep ∧ m.toList ++ [sep] <+: owner.toList

/-- The open contexts in the file of a module: each is nameless or below the module, which is the root. -/
structure ScopeStack.InModule (stack : ScopeStack) (m : String) : Prop where
  isModule : startsWith m modulePrefix = true
  root : ∃ kind, stack.root = some { kind, owner := some m }
  entries : ∀ entry ∈ stack.entries, entry.Nameless ∨ entry.Below m

namespace ScopeEntry

variable {entry : ScopeEntry} {m : String}

theorem Nameless.not_module (h : entry.Nameless) : entry.owner.filter (startsWith · modulePrefix) = none := by
  rcases h with h | h
  · rw [h]
    rfl
  · rw [h]
    decide

/-- The longname of a member of a module starts like that of a module, and is another one. -/
theorem Below.module (h : entry.Below m) (hm : startsWith m modulePrefix = true) :
    ∃ owner, owner ≠ m ∧ entry.owner.filter (startsWith · modulePrefix) = some owner := by
  obtain ⟨owner, sep, ho, -, hpre⟩ := h
  refine ⟨owner, ?_, ?_⟩
  · rintro rfl
    have hle := hpre.length_le
    simp only [List.length_append, List.length_singleton] at hle
    omega
  · rw [startsWith_iff] at hm
    have hs : startsWith owner modulePrefix = true :=
      (startsWith_iff _ _).2 (hm.trans ((List.prefix_append _ _).trans hpre))
    rw [ho, Option.filter_some, if_pos hs]

end ScopeEntry

namespace ScopeStack.InModule

variable {stack : ScopeStack} {m : String}

/-- Some module is found. -/
theorem exists_moduleOwner (hs : stack.InModule m) : ∃ owner, moduleOwner? stack = some owner := by
  obtain ⟨kind, hroot⟩ := hs.root
  rw [← Option.isSome_iff_exists, moduleOwner?, List.findSome?_isSome_iff]
  refine ⟨{ kind, owner := some m }, by simp [innermost, hroot], ?_⟩
  rw [Option.filter_some, if_pos hs.isModule]
  rfl

/-- **The module of a file is found just if no open context belongs to one of its members.** -/
theorem moduleOwner?_eq_iff (hs : stack.InModule m) :
    moduleOwner? stack = some m ↔ ∀ entry ∈ stack.entries, ¬ entry.Below m := by
  obtain ⟨kind, hroot⟩ := hs.root
  unfold moduleOwner? innermost
  rw [List.findSome?_append]
  constructor
  · intro h entry hmem hbelow
    cases hfound : stack.entries.findSome? (fun entry => entry.owner.filter (startsWith · modulePrefix)) with
    | none =>
      obtain ⟨owner, -, howner⟩ := hbelow.module hs.isModule
      rw [List.findSome?_eq_none_iff.1 hfound entry hmem] at howner
      cases howner
    | some owner =>
      rw [hfound] at h
      obtain ⟨entry', hmem', howner⟩ := List.exists_of_findSome?_eq_some hfound
      obtain rfl : owner = m := Option.some.inj h
      rcases hs.entries entry' hmem' with hnameless | hbelow'
      · rw [hnameless.not_module] at howner
        cases howner
      · obtain ⟨owner', hne, howner'⟩ := hbelow'.module hs.isModule
        rw [howner] at howner'
        exact hne (Option.some.inj howner').symm
  · intro h
    have hnone : stack.entries.findSome? (fun entry => entry.owner.filter (startsWith · modulePrefix)) = none := by
      rw [List.findSome?_eq_none_iff]
      intro entry hmem
      rcases hs.entries entry hmem with hnameless | hbelow
      · exact hnameless.not_module
      · exact absurd hbelow (h entry hmem)
    rw [hnone, hroot]
    simp [hs.isModule]

end ScopeStack.InModule

/-! ## Exported symbols -/

namespace Doclet

variable {R : Type} {dict : Dictionary R} {stack : ScopeStack} {d : Doclet} {m owner head name : String}

theorem Untagged.named (hd : d.Untagged) (name : String) : (d.named name).Untagged :=
  ⟨hd.1, hd.2, hd.3, hd.4, hd.5, hd.6⟩

/-- A name behind a marker is that of a static member of what is found as the module. -/
theorem Untagged.placement_export (hd : d.Untagged) (hk : isRootKind dict d.kind = false)
    (hl : dict.marksLongname d.kind = false) (hx : d.origin.defaultExport = false)
    (ho : moduleOwner? stack = some owner) (hhead : head ∈ exportHeads) (hn : isNested name = false) :
    Naming.placement dict stack (d.named (head ++ name)) =
      { name, memberof := some owner, scope := some .static, longname := owner ++ "." ++ name } := by
  have hne : head ++ name ≠ "" := by
    intro he
    obtain rfl := (String.append_eq_empty_iff.1 he).1
    exact absurd hhead (by decide)
  have hlabel : label dict (d.named (head ++ name)) = "" := by
    have hmark : dict.marksLongname (d.named (head ++ name)).kind = false := hl
    rw [label, hmark, if_neg Bool.false_ne_true]
  have hcode (entry : Option (String × Scope)) (scope : Option Scope) :
      (CodeName.resolveExport ⟨head ++ name, entry, scope⟩ (some owner)).resolveThis =
        ⟨name, some (owner, .static), some .static⟩ := by
    simp only [CodeName.resolveExport, findSome?_exportHeads hhead, CodeName.resolveThis, after?_this hn]
  have hcompose : NamePath.compose name (some owner) (some .static) "" = owner ++ "." ++ name := by
    rw [compose_owner (moduleOwner?_ne_empty ho)]
    simp [addLabel, startsWith, separator, Scope.punctuation]
  rw [(hd.named _).placement hk hx, givenName_named hne, hlabel, placeInScope]
  simp only [ho, hcode, Option.getD_some, Placement.below, hn, Bool.false_eq_true, if_false, ← hcompose]
  rfl

/-- What is exported as a whole has the longname of what is found as the module. -/
theorem placement_wholeExport (hk : isRootKind dict d.kind = false) (hx : d.origin.defaultExport = true)
    (ho : moduleOwner? stack = some owner) :
    Naming.placement dict stack d = { name := owner, memberof := none, scope := none, longname := owner } := by
  simp [Naming.placement, hk, hx, ho]

/-- **An export belongs to the module of its file just if no open context belongs to a member of the module.** Then a
name behind a marker is that of a static member of the module, and a symbol that is exported as a whole has the longname
of the module as its name and has no owner. -/
theorem resolve_exported_iff (hs : stack.InModule m) (hd : d.Untagged) (hk : isRootKind dict d.kind = false)
    (hl : dict.marksLongname d.kind = false) :
    (d.origin.defaultExport = false → ∀ head ∈ exportHeads, ∀ name, isNested name = false →
      (((d.named (head ++ name)).resolve dict stack).map place? =
          .ok (some name, some m, some .static, some (addVariation (m ++ "." ++ name) d.variation)) ↔
        ∀ entry ∈ stack.entries, ¬ entry.Below m)) ∧
    (d.origin.defaultExport = true →
      ((d.resolve dict stack).map place? = .ok (some m, none, none, some (addVariation m d.variation)) ↔
        ∀ entry ∈ stack.entries, ¬ entry.Below m)) := by
  obtain ⟨owner, ho⟩ := hs.exists_moduleOwner
  have howner : owner = m ↔ ∀ entry ∈ stack.entries, ¬ entry.Below m := by
    rw [← hs.moduleOwner?_eq_iff, ho, Option.some.injEq]
  rw [← howner]
  refine ⟨fun hx head hhead name hn => ?_, fun hx => ?_⟩
  · have hresolve := map_resolve (d := d.named (head ++ name)) hd.awaitsName
      (hd.placement_export hk hl hx ho hhead hn)
    rw [hresolve]
    constructor
    · intro h
      exact Option.some.inj (Prod.mk.inj (Prod.mk.inj (Except.ok.inj h)).2).1
    · rintro rfl
      rfl
  · have hresolve := map_resolve hd.awaitsName (placement_wholeExport hk hx ho)
    rw [hresolve]
    constructor
    · intro h
      exact Option.some.inj (Prod.mk.inj (Except.ok.inj h)).1
    · rintro rfl
      rfl

/-- A function has neither a place by its kind nor a label in its longname. -/
theorem function_placed_in_scope : isRootKind Grammar.jsdoc.dictionary (some "function") = false ∧
    Grammar.jsdoc.dictionary.marksLongname (some "function") = false := by
  rw [Grammar.jsdoc_dictionary_eq]
  decide +kernel

/-- Two functions without name, one inside the other, in the file of a module. -/
def namelessInModule : ScopeStack where
  entries := [⟨.anonymous, some nameless⟩, ⟨.anonymous, some nameless⟩]
  root := some ⟨.inner, some "module:p"⟩

theorem resolve_exported_iff_nameless :
    let dict := Grammar.jsdoc.dictionary
    let d : Doclet := { kind := some "function" }
    let whole : Doclet := { d with origin := { defaultExport := true } }
    namelessInModule.InModule "module:p" ∧ d.Untagged ∧ whole.Untagged ∧ isRootKind dict d.kind = false ∧
      dict.marksLongname d.kind = false ∧
      ((d.named "module.exports.x").resolve dict namelessInModule).map place? =
        .ok (some "x", some "module:p", some .static, some "module:p.x") ∧
      (whole.resolve dict namelessInModule).map place? = .ok (some "module:p", none, none, some "module:p") := by
  intro dict d whole
  have hs : namelessInModule.InModule "module:p" := by
    refine ⟨by decide, ⟨.inner, rfl⟩, fun entry hm => .inl (.inr ?_)⟩
    rcases List.mem_cons.1 hm with rfl | hm
    · rfl
    · rw [List.mem_singleton.1 hm]
  have hnone : ∀ entry ∈ namelessInModule.entries, ¬ entry.Below "module:p" := by
    rw [← hs.moduleOwner?_eq_iff]
    decide
  have hd : d.Untagged := ⟨rfl, rfl, rfl, rfl, rfl, rfl⟩
  have hwhole : whole.Untagged := ⟨rfl, rfl, rfl, rfl, rfl, rfl⟩
  have hkind := function_placed_in_scope
  have hexport := ((resolve_exported_iff hs hd hkind.1 hkind.2).1 rfl "module.exports." (by decide) "x"
    (by decide +kernel)).2 hnone
  have hentire := ((resolve_exported_iff hs hwhole hkind.1 hkind.2).2 rfl).2 hnone
  exact ⟨hs, hd, hwhole, hkind.1, hkind.2, hexport, hentire⟩

/-- Inside a function of the module the exports are taken for those of the function. -/
theorem resolve_exported_in_member :
    let dict := Grammar.jsdoc.dictionary
    let stack : ScopeStack :=
      { entries := [⟨.inner, some "module:p~init"⟩], root := some ⟨.inner, some "module:p"⟩ }
    let d : Doclet := { kind := some "function" }
    let whole : Doclet := { d with origin := { defaultExport := true } }
    stack.InModule "module:p" ∧ d.Untagged ∧ whole.Untagged ∧ isRootKind dict d.kind = false ∧
      dict.marksLongname d.kind = false ∧
      ((d.named "exports.x").resolve dict stack).map place? =
        .ok (some "x", some "module:p~init", some .static, some "module:p~init.x") ∧
      (whole.resolve dict stack).map place? = .ok (some "module:p~init", none, none, some "module:p~init") := by
  intro dict stack d whole
  have hs : stack.InModule "module:p" := by
    refine ⟨by decide, ⟨.inner, rfl⟩, fun entry hm => .inr ?_⟩
    rw [List.mem_singleton.1 hm]
    exact ⟨"module:p~init", '~', rfl, rfl, by decide⟩
  have hmember : moduleOwner? stack = some "module:p~init" := by decide
  have hd : d.Untagged := ⟨rfl, rfl, rfl, rfl, rfl, rfl⟩
  have hwhole : whole.Untagged := ⟨rfl, rfl, rfl, rfl, rfl, rfl⟩
  have hkind := function_placed_in_scope
  have hhead : "exports." ∈ exportHeads := by decide
  have hname : isNested "x" = false := by decide +kernel
  have hnamed := hd.placement_export hkind.1 hkind.2 rfl hmember hhead hname
  have hexport := map_resolve (d := d.named "exports.x") hd.awaitsName hnamed
  have hentire := map_resolve hwhole.awaitsName (placement_wholeExport hkind.1 rfl hmember)
  exact ⟨hs, hd, hwhole, hkind.1, hkind.2, hexport, hentire⟩

end Doclet
end SymbolDocs
