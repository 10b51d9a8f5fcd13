import SymbolDocs.Database.Query
import SymbolDocs.Proofs.Grammar.Feasible
import SymbolDocs.Proofs.Naming.Overrides
import SymbolDocs.Proofs.Source.Building

/-!
# What a module exports as a whole

The construct of a comment can be what the module of its file exports as a whole. No tag changes that
(`Tag.origin_of_applyAll`), so the symbol is named after the module, unless its kind never has an owner. It is
recognised by its longname then, which is that of the module, and it is no member of the module and no global either. A
variation that a tag states is written behind the longname, but not behind the name, and the symbol is not recognised
any more (`Doclet.isDefaultExport_iff`): `build_wholeExport` says that it is listed as a global just if it has a
variation.
-/

namespace SymbolDocs

open SymbolDocs.Text SymbolDocs.Naming

variable {dict : Dictionary} {stack stack' : ScopeStack} {context : SourceContext} {event : ScopeEvent}
  {comment : Option String} {d : Doclet} {m : String}

/-! ## Symbols named after a module -/

namespace Doclet

/-- A symbol with the name of a module is what the module exports as a whole just if its longname has no variation. -/
theorem isDefaultExport_iff (hn : d.name = some m) (hl : d.longname = some (addVariation m d.variation))
    (hm : startsWith m modulePrefix = true) (hk : d.kind ≠ some "module") :
    d.isDefaultExport = true ↔ nonempty d.variation = none := by
  have hpre := ((startsWith_iff m modulePrefix).1 hm).trans (prefix_addVariation m d.variation)
  have hne : nonempty d.longname = some (addVariation m d.variation) := by
    refine nonempty_eq_some_iff.2 ⟨hl, fun hempty => ?_⟩
    rw [hempty] at hpre
    cases List.prefix_nil.1 hpre
  have hstarts : startsWith (addVariation m d.variation) modulePrefix = true := (startsWith_iff _ _).2 hpre
  unfold isDefaultExport
  rw [hne]
  dsimp only
  rw [hn, hstarts, Bool.and_true, Bool.and_eq_true, decide_eq_true_eq, decide_eq_true_eq, and_iff_left hk,
    Option.some.injEq, eq_comm, addVariation_eq_self_iff]

/-- The place of a symbol that a module exports as a whole. -/
theorem place_wholeExport (hk : isRootKind dict d.kind = false) (hx : d.origin.defaultExport = true)
    (hm : moduleOwner? stack = some m) :
    (d.place dict stack).place? = (some m, none, none, some (addVariation m d.variation)) := by
  unfold place place?
  rw [placement_wholeExport hk hx hm]

end Doclet

/-- A symbol without owner is listed as a global if its kind is, and if it is not what a module exports as a whole. -/
theorem Database.mem_globals_iff {db : Database} (hd : d ∈ db.doclets) (hm : d.memberof = none) :
    d ∈ db.members.globals ↔ d.isDefaultExport = false ∧ ∃ kind ∈ kindsOfGlobals, d.kind = some kind := by
  have hmem : d ∈ db.members.globals ↔ isGlobal d = true := by
    rw [members, List.mem_filter, and_iff_right hd]
  have hkind : (d.kind.map kindsOfGlobals.contains).getD false = true ↔
      ∃ kind ∈ kindsOfGlobals, d.kind = some kind := by
    cases d.kind with
    | none => simp
    | some kind => simp
  have howner : (nonempty d.memberof).isNone = true := by
    rw [hm]
    rfl
  rw [hmem, isGlobal, howner, Bool.and_true, Bool.and_eq_true, hkind, Bool.not_eq_true', and_comm]

/-! ## Building them -/

theorem origin_of_applyComment {location : Location} {text : String} {tags : List Tag} {d' : Doclet}
    (h : (applyComment dict location text d).2 = .ok (tags, d')) : d'.origin = d.origin := by
  unfold applyComment at h
  dsimp only at h
  obtain ⟨applied, happly, heq⟩ := map_eq_ok.1 h
  obtain ⟨-, rfl⟩ := Prod.mk.inj heq
  exact Tag.origin_of_applyAll happly

/-- The doclet of an event is one of its construct in the place that the open contexts give it. -/
theorem exists_place_of_build (h : (build dict stack comment context event).2 = .ok (d, stack')) :
    ∃ d₀ : Doclet, d = d₀.place dict stack ∧ d₀.origin = (Doclet.ofContext comment context).origin := by
  unfold build at h
  obtain ⟨⟨tags, d₁⟩, happly, h⟩ := bind_eq_ok.1 h
  have horigin : d₁.origin = (Doclet.ofContext comment context).origin := by
    split at happly
    · cases happly
      rfl
    · exact origin_of_applyComment happly
  cases (settle_complete dict stack event d₁ tags context).symm.trans h
  have hcomplete : (d₁.complete tags context).origin = d₁.origin :=
    congrArg Frame.origin (frame_complete d₁ tags context)
  exact ⟨_, rfl, hcomplete.trans horigin⟩

/-- The file of a module in which no scope is open. -/
def ScopeStack.ofModule (kind : Scope) (m : String) : ScopeStack := { root := some { kind, owner := some m } }

/-- In the file of a module that module is found. -/
theorem moduleOwner?_ofModule (kind : Scope) (hm : startsWith m modulePrefix = true) :
    moduleOwner? (.ofModule kind m) = some m := by
  have hfilter : (some m).filter (startsWith · modulePrefix) = some m := by rw [Option.filter_some, if_pos hm]
  simp only [moduleOwner?, ScopeStack.innermost, ScopeStack.ofModule, List.nil_append, Option.toList_some,
    List.findSome?_cons, hfilter]

/-- **What a module exports as a whole is listed as a global just if it has a variation.** The doclet of a comment on a
construct that is exported as a whole is named after the module, if its kind can have an owner. It is recognised as the
export of the module and left out of the globals of every database it is in, unless a tag states a variation. -/
theorem build_wholeExport (dict : Dictionary) (kind : Scope) (hm : startsWith m modulePrefix = true)
    (hx : context.isDefaultExport = true ∨ context.name = some "module.exports") (comment : Option String)
    (event : ScopeEvent) :
    (dict.Feasible → ∃ d stack', (build dict (.ofModule kind m) comment context event).2 = .ok (d, stack')) ∧
      ∀ d stack', (build dict (.ofModule kind m) comment context event).2 = .ok (d, stack') →
        d.kind ≠ some "module" → isRootKind dict d.kind = false →
        d.place? = (some m, none, none, some (addVariation m d.variation)) ∧
          (d.isDefaultExport = true ↔ nonempty d.variation = none) ∧
          ∀ db : Database, d ∈ db.doclets → (d ∈ db.members.globals ↔
            nonempty d.variation ≠ none ∧ ∃ kind ∈ Database.kindsOfGlobals, d.kind = some kind) := by
  constructor
  · intro hf
    obtain ⟨found, d, hbuild, -⟩ := build_spec hf (.ofModule kind m) comment context event
    exact ⟨d, _, by rw [hbuild]⟩
  · intro d stack' hbuild hmodule hk
    obtain ⟨d₀, rfl, horigin⟩ := exists_place_of_build hbuild
    have hexport : d₀.origin.defaultExport = true := by
      rw [horigin]
      simpa [Doclet.ofContext] using hx
    have hplace := Doclet.place_wholeExport (d := d₀) hk hexport (moduleOwner?_ofModule kind hm)
    have howner : (d₀.place dict (.ofModule kind m)).memberof = none := congrArg (·.2.1) hplace
    have hiff := Doclet.isDefaultExport_iff (congrArg (·.1) hplace) (congrArg (·.2.2.2) hplace) hm hmodule
    refine ⟨hplace, hiff, fun db hd => ?_⟩
    rw [Database.mem_globals_iff hd howner, ← Bool.not_eq_true, hiff]

/-- A function that is exported as a whole. -/
def exportedFunction : SourceContext := { name := some "module.exports", codeType := some "FunctionExpression" }

/-- Without variation the function is left out of the globals. -/
theorem build_wholeExport_function :
    let dict := Grammar.jsdoc.dictionary
    startsWith "module:p" modulePrefix = true ∧ exportedFunction.name = some "module.exports" ∧ dict.Feasible ∧
      ∃ d stack', (build dict (.ofModule .inner "module:p") (some "/** Starts. */") exportedFunction .none).2 =
          .ok (d, stack') ∧
        d.kind ≠ some "module" ∧ isRootKind dict d.kind = false ∧ d.isDefaultExport = true ∧
        d.longname = some "module:p" ∧ ∀ db : Database, d ∈ db.doclets → d ∉ db.members.globals := by
  intro dict
  have hm : startsWith "module:p" modulePrefix = true := by decide
  have hx : exportedFunction.isDefaultExport = true ∨ exportedFunction.name = some "module.exports" := .inr rfl
  have hf : dict.Feasible := Grammar.dictionary_feasible .jsdoc _
  obtain ⟨hbuilt, hplace⟩ := build_wholeExport dict .inner hm hx (some "/** Starts. */") .none
  obtain ⟨d, stack', hbuild⟩ := hbuilt hf
  have htags : (build dict (.ofModule .inner "module:p") (some "/** Starts. */") exportedFunction .none).2.map
      (fun (d, _) => (d.kind, d.variation)) = .ok (some "function", none) := by
    rw [show dict = _ from Grammar.jsdoc_dictionary_eq _]
    decide +kernel
  rw [hbuild] at htags
  obtain ⟨hkind, hvariation⟩ := Prod.mk.inj (Except.ok.inj htags)
  have hmodule : d.kind ≠ some "module" := by
    rw [hkind]
    decide
  have hk : isRootKind dict d.kind = false := by
    rw [hkind]
    exact Doclet.function_placed_in_scope.1
  obtain ⟨hplaced, hiff, hglobals⟩ := hplace d stack' hbuild hmodule hk
  have hlongname : d.longname = some "module:p" := by
    have hlong : d.longname = some (addVariation "module:p" d.variation) := congrArg (·.2.2.2) hplaced
    rw [hlong, hvariation]
    rfl
  exact ⟨hm, rfl, hf, d, stack', hbuild, hmodule, hk, hiff.2 (by rw [hvariation]; rfl), hlongname,
    fun db hd hmem => ((hglobals db hd).1 hmem).1 (by rw [hvariation]; rfl)⟩

/-- With a variation the export of the module is listed as a global. -/
theorem build_exported_variation :
    let built := build Grammar.jsdoc.dictionary (.ofModule .inner "module:p") (some "/** @variation 2 */")
      exportedFunction .none
    exportedFunction.name = some "module.exports" ∧
      built.2.map (fun (d, _) => (d.kind, d.name, d.longname, d.isDefaultExport)) =
        .ok (some "function", some "module:p", some "module:p(2)", false) ∧
      built.2.map (fun (d, _) => (Database.ofList [d]).members.globals.map (·.longname)) =
        .ok [some "module:p(2)"] := by
  rw [Grammar.jsdoc_dictionary_eq]
  decide +kernel

end SymbolDocs
