import SymbolDocs.Proofs.Database.Rooted
import SymbolDocs.Proofs.Grammar.Lookup
import SymbolDocs.Proofs.Run.Balance

/-!
# Runs come to databases without cycles of owners

While files are read, a database only grows by placed doclets (`Database.Built`), which are rooted, and linking keeps
them so. Hence in the database of a run every owner is a proper prefix of the longname below it, and every walk to the
ancestors of a doclet visits shorter and shorter longnames (`Pipeline.run_rooted`).
-/

namespace SymbolDocs

/-! ## What files add to a database -/

/-- A database of doclets that were placed one after the other. -/
inductive Database.Built (dict : Dictionary) : Database → Prop
  | empty : Built dict {}
  | add {db : Database} (h : Built dict db) (stack : ScopeStack) (d : Doclet) :
      Built dict (db.add (d.place dict stack))

/-- A database of placed doclets is rooted. -/
theorem Database.Built.rooted {dict : Dictionary} {db : Database} (h : db.Built dict) : db.Rooted := by
  induction h with
  | empty => exact rooted_empty
  | add _ stack d ih => exact ih.add (Doclet.rooted_place dict stack d)

namespace Run

variable {dict : Dictionary} {run last : Run} {filename : String}

/-- A run that has only added placed doclets to its database. -/
def Placing (dict : Dictionary) (run : Run) : Prop := run.dict = dict ∧ run.database.Built dict

/-- An event adds a placed doclet, or none. -/
theorem Placing.runEvent {event : SourceEvent} (h : run.Placing dict)
    (hr : Run.runEvent [] filename run event = .ok last) : last.Placing dict := by
  obtain ⟨rfl, hb⟩ := h
  rcases runEvent_cases hr with ⟨-, entry, inner, -, rfl⟩ | ⟨-, found, d, after, hbuild, rfl⟩
  · exact ⟨rfl, hb⟩
  · obtain ⟨d₀, rfl⟩ := place_of_build (congrArg Prod.snd hbuild)
    exact ⟨rfl, hb.add _ _⟩

/-- A file adds placed doclets. -/
theorem Placing.readFile (h : run.Placing dict) {file : SourceFile} (hr : Run.readFile [] run file = .ok last) :
    last.Placing dict := by
  obtain ⟨mid, hmid, rfl⟩ := readFile_cases hr
  have hbegin : (run.beginFile file.filename).Placing dict := h
  have hp : mid.Placing dict := foldlM_keeps (fun _ _ _ h hr => h.runEvent hr) hbegin hmid
  exact hp

/-- All files together add placed doclets. -/
theorem Placing.parseFiles {reporter : Reporter} {files : List SourceFile}
    (h : Run.parseFiles { dict, reporter } files = .ok last) : last.Placing dict := by
  have hstart : (start { dict, reporter } files).Placing dict := ⟨rfl, .empty⟩
  rw [parseFiles_eq] at h
  exact foldlM_keeps (fun _ _ _ h hr => h.readFile hr) hstart h

end Run

/-! ## The whole run -/

/-- **With the built-in grammars and without callbacks, a run over files whose scopes pair up comes to a database
without cycles of owners.** Each doclet has a longname, of which its owner is a proper prefix. Its ancestors have
shorter and shorter longnames, each a prefix of the one before, and no cycle is reported. -/
theorem Pipeline.run_rooted {names : List String} {allowUnknown : AllowUnknown} {dict : Dictionary}
    (hd : Grammar.buildAll names allowUnknown = .ok dict) (reporter : Reporter) {files : List SourceFile}
    (hb : ∀ file ∈ files, file.Balanced) :
    ∃ run, Pipeline.run { dict, reporter } files = .ok run ∧ ∀ d ∈ run.database.doclets,
      d.Rooted ∧ (run.database.ancestors d ++ [d]).Pairwise Doclet.Above ∧
        ∀ r, run.database.reportCycle d r = r := by
  have hf : (Run.start { dict, reporter } files).dict.Feasible := Grammar.buildAll_feasible hd
  obtain ⟨last, hlast, -⟩ := Run.readFiles_of_balanced hf rfl hb
  have hstart : (Run.start { dict, reporter } files).Placing dict := ⟨rfl, .empty⟩
  have hplacing : last.Placing dict := foldlM_keeps (fun _ _ _ h hr => h.readFile hr) hstart hlast
  have hlinked : last.link.database.Rooted := Database.Rooted.linkAll hplacing.2.rooted
  refine ⟨_, by rw [Pipeline.run_eq, hlast]; rfl, fun d hd => ?_⟩
  obtain ⟨habove, hcycle⟩ := hlinked.ancestors_spec hd
  exact ⟨hlinked.doclets d hd, habove, hcycle⟩

/-- A class with a member, and a symbol that borrows the member. -/
theorem Pipeline.run_rooted_borrowed :
    let files : List SourceFile := [{ filename := "a.js", events := [
      { context := some { name := some "Foo", kind := some "class" }, scopeEvent := .enter },
      { context := some { name := some "bar" } },
      { scopeEvent := .exit },
      { comment := some "@borrows Foo#bar as baz", context := some { name := some "N" } }] }]
    Grammar.buildAll ["jsdoc"] (.all false) = .ok Grammar.jsdoc.dictionary ∧ (∀ file ∈ files, file.Balanced) ∧
      ∃ run, Pipeline.run { dict := Grammar.jsdoc.dictionary } files = .ok run ∧
        run.database.longnames = ["Foo", "Foo#bar", "N", "N.baz"] ∧
        ∀ d ∈ run.database.doclets,
          d.Rooted ∧ (run.database.ancestors d ++ [d]).Pairwise Doclet.Above ∧
            ∀ r, run.database.reportCycle d r = r := by
  intro files
  have hd : Grammar.buildAll ["jsdoc"] (.all false) = .ok Grammar.jsdoc.dictionary := by with_unfolding_all rfl
  have hb : ∀ file ∈ files, file.Balanced := by
    intro file hm
    obtain rfl := List.mem_singleton.1 hm
    refine balanced_iff.2 ⟨?_, by decide⟩
    rw [covered_cons (by decide), covered_cons (by decide), covered_cons_exit rfl, covered_cons (by decide)]
    exact ⟨by decide, covered_nil _⟩
  have hlongnames : (Pipeline.run { dict := Grammar.jsdoc.dictionary } files).toOption.map (·.database.longnames) =
      some ["Foo", "Foo#bar", "N", "N.baz"] := by
    rw [Grammar.jsdoc_dictionary_eq]
    decide +kernel
  obtain ⟨run, hrun, hall⟩ := run_rooted hd {} hb
  rw [hrun] at hlongnames
  exact ⟨hd, hb, run, hrun, Option.some.inj hlongnames, hall⟩

end SymbolDocs
