import SymbolDocs.Run.Pipeline

/-!
# The dictionary of a run is pinned

A run keeps the dictionary that it starts with. A callback that puts another dictionary into the hands of the caller
(`Callback.SwapsOuter`) changes nothing that the run reads, so with such callbacks a run comes to what it comes to
without them (`Pipeline.run_pinned`). The two runs go side by side: each step leads from states that differ in the
outer dictionary alone to such states again (`EndAlike`), or stops both runs for the same reason.
-/

namespace SymbolDocs

/-! ## Runs side by side -/

/-- Two states of runs that differ at most in the dictionary in the hands of the caller. -/
def Run.Alike (run run' : Run) : Prop := ∃ dict, run' = { run with outer := dict }

theorem Run.Alike.refl (run : Run) : run.Alike run := ⟨run.outer, rfl⟩

theorem Run.Alike.trans {run mid last : Run} (h : run.Alike mid) (h' : mid.Alike last) : run.Alike last := by
  obtain ⟨dict, rfl⟩ := h
  obtain ⟨dict', rfl⟩ := h'
  exact ⟨dict', rfl⟩

theorem Run.Alike.symm {run run' : Run} (h : run.Alike run') : run'.Alike run := by
  obtain ⟨dict, rfl⟩ := h
  exact ⟨run.outer, rfl⟩

/-- States that are alike, with the same value beside them. -/
def AlikeWith {α : Type} (s s' : Run × α) : Prop := s.1.Alike s'.1 ∧ s'.2 = s.2

/-- Two computations that both come to related values, or stop for the same reason in states that are alike. -/
inductive EndAlike {α : Type} (related : α → α → Prop) : Except Stopped α → Except Stopped α → Prop
  | ok {a a' : α} (h : related a a') : EndAlike related (.ok a) (.ok a')
  | stopped {run run' : Run} {failure : Failure} (h : run.Alike run') :
      EndAlike related (.error (run, failure)) (.error (run', failure))

section Chains

variable {α β γ : Type} {related : α → α → Prop} {related' : β → β → Prop}

theorem EndAlike.bind {x x' : Except Stopped α} {f f' : α → Except Stopped β} (h : EndAlike related x x')
    (hf : ∀ a a', related a a' → EndAlike related' (f a) (f' a')) : EndAlike related' (x >>= f) (x' >>= f') := by
  cases h with
  | ok h => exact hf _ _ h
  | stopped h => exact .stopped h

theorem EndAlike.foldlM {f f' : β → γ → Except Stopped β} {b b' : β} (hb : related' b b')
    (hf : ∀ b b' c, related' b b' → EndAlike related' (f b c) (f' b' c)) (cs : List γ) :
    EndAlike related' (cs.foldlM f b) (cs.foldlM f' b') := by
  induction cs generalizing b b' with
  | nil => exact .ok hb
  | cons c cs ih =>
    rw [List.foldlM_cons, List.foldlM_cons]
    exact (hf b b' c hb).bind fun _ _ hmid => ih hmid

end Chains

/-! ## Callbacks -/

namespace Callback

/-- Whatever the callback sees, it only puts a dictionary into the hands of the caller. -/
def SwapsOuter (c : Callback) : Prop :=
  ∀ run payload, ∃ dict, c.action run payload = .ok ({ run with outer := dict }, payload)

/-- The callback does the same whatever dictionary is in the hands of the caller, and leaves it there. -/
def OverlooksOuter (c : Callback) : Prop :=
  ∀ run payload dict, c.action { run with outer := dict } payload =
    (c.action run payload).map fun s => ({ s.1 with outer := dict }, s.2)

/-- The callbacks without some that only swap the dictionary in the hands of the caller; the others overlook it. -/
inductive WithoutSwaps : List Callback → List Callback → Prop
  | nil : WithoutSwaps [] []
  | swap {c : Callback} {cs others : List Callback} (hc : c.SwapsOuter) (h : WithoutSwaps cs others) :
      WithoutSwaps (c :: cs) others
  | other {c : Callback} {cs others : List Callback} (hc : c.OverlooksOuter) (h : WithoutSwaps cs others) :
      WithoutSwaps (c :: cs) (c :: others)

theorem swapsOuter_swapOuter (stage : Stage) (dict : Dictionary) : (swapOuter stage dict).SwapsOuter :=
  fun _ _ => ⟨dict, rfl⟩

theorem overlooksOuter_recorder (stage : Stage) : (recorder stage).OverlooksOuter := by
  intro run payload dict
  cases payload <;> rfl

/-- A callback that changes the subject of the stage overlooks the outer dictionary if the change does. -/
theorem overlooksOuter_onPayload (stage : Stage) {f : Run → Payload → Payload}
    (hf : ∀ run payload dict, f { run with outer := dict } payload = f run payload) :
    (onPayload stage f).OverlooksOuter := by
  intro run payload dict
  simp only [onPayload, hf, Except.map]

variable {stage : Stage} {c : Callback} {s s' : Run × Payload}

/-- A swap leads to a state that is alike. -/
theorem SwapsOuter.fire (hc : c.SwapsOuter) (stage : Stage) (s : Run × Payload) :
    ∃ next, fire stage s c = .ok next ∧ AlikeWith s next := by
  obtain ⟨dict, hd⟩ := hc s.1 s.2
  unfold Callback.fire
  split
  · rw [hd]
    exact ⟨_, rfl, ⟨dict, rfl⟩, rfl⟩
  · exact ⟨s, rfl, .refl _, rfl⟩

/-- A callback that overlooks the outer dictionary does the same in states that are alike. -/
theorem OverlooksOuter.fire (hc : c.OverlooksOuter) (stage : Stage) (h : AlikeWith s s') :
    EndAlike AlikeWith (fire stage s c) (fire stage s' c) := by
  obtain ⟨run, payload⟩ := s
  obtain ⟨⟨dict, hrun⟩, hpayload⟩ := h
  obtain rfl : s' = ({ run with outer := dict }, payload) := Prod.ext hrun hpayload
  unfold Callback.fire
  split
  · have hd := hc run payload dict
    rw [hd]
    cases c.action run payload with
    | ok next => exact .ok ⟨⟨dict, rfl⟩, rfl⟩
    | error message => exact .stopped ⟨dict, rfl⟩
  · exact .ok ⟨⟨dict, rfl⟩, rfl⟩

/-- The callbacks of a stage do the same with the swaps as without them. -/
theorem WithoutSwaps.fireAll {cs others : List Callback} (h : WithoutSwaps cs others) (stage : Stage) {run run' : Run}
    (hrun : run.Alike run') (payload : Payload) :
    EndAlike AlikeWith (fireAll cs stage run payload) (fireAll others stage run' payload) := by
  unfold Callback.fireAll
  have hstart : AlikeWith (run, payload) (run', payload) := ⟨hrun, rfl⟩
  generalize (run, payload) = s at hstart
  generalize (run', payload) = s' at hstart
  induction h generalizing s s' with
  | nil => exact .ok hstart
  | swap hc _ ih =>
    obtain ⟨next, hnext, halike⟩ := hc.fire stage s
    rw [List.foldlM_cons, hnext]
    exact ih _ _ ⟨halike.1.symm.trans hstart.1, hstart.2.trans halike.2.symm⟩
  | other hc _ ih =>
    rw [List.foldlM_cons, List.foldlM_cons]
    exact (hc.fire stage hstart).bind ih

end Callback

/-! ## Steps -/

namespace Run

variable {cs others : List Callback} {run run' : Run}

theorem Alike.exitScope (h : run.Alike run') (filename : String) :
    EndAlike Alike (run.exitScope filename) (run'.exitScope filename) := by
  obtain ⟨dict, rfl⟩ := h
  unfold Run.exitScope
  dsimp only
  split
  · exact .ok ⟨dict, rfl⟩
  · exact .stopped ⟨dict, rfl⟩

theorem Alike.buildDoclet (h : run.Alike run') (filename : String) (event : SourceEvent) :
    EndAlike AlikeWith (run.buildDoclet filename event) (run'.buildDoclet filename event) := by
  obtain ⟨dict, rfl⟩ := h
  unfold Run.buildDoclet
  dsimp only
  split
  · exact .ok ⟨⟨dict, rfl⟩, rfl⟩
  · exact .stopped ⟨dict, rfl⟩

theorem Alike.addDoclet (h : run.Alike run') (d : Doclet) : (run.addDoclet d).Alike (run'.addDoclet d) := by
  obtain ⟨dict, rfl⟩ := h
  exact ⟨dict, rfl⟩

theorem Alike.finishFile (h : run.Alike run') (filename : String) :
    EndAlike Alike (run.finishFile filename) (run'.finishFile filename) := by
  obtain ⟨dict, rfl⟩ := h
  unfold Run.finishFile
  dsimp only
  split
  · exact .ok ⟨dict, rfl⟩
  · exact .stopped ⟨dict, rfl⟩

theorem Alike.runEvent (hcs : Callback.WithoutSwaps cs others) (h : run.Alike run') (filename : String)
    (event : SourceEvent) :
    EndAlike Alike (runEvent cs filename run event) (Run.runEvent others filename run' event) := by
  unfold Run.runEvent
  split
  · exact h.exitScope filename
  · refine (hcs.fireAll .commentFound h (.event event)).bind ?_
    rintro ⟨found, payload⟩ ⟨found', _⟩ ⟨hfound, rfl⟩
    refine (hfound.buildDoclet filename _).bind ?_
    rintro ⟨built, d⟩ ⟨built', d'⟩ ⟨hbuilt, hd⟩
    obtain rfl : d' = d := hd
    refine (hcs.fireAll .docletCreated hbuilt (.doclet d')).bind ?_
    rintro ⟨created, payload⟩ ⟨created', _⟩ ⟨hcreated, rfl⟩
    exact .ok (hcreated.addDoclet _)

theorem Alike.readFile (hcs : Callback.WithoutSwaps cs others) (h : run.Alike run') (file : SourceFile) :
    EndAlike Alike (readFile cs run file) (Run.readFile others run' file) := by
  have hnamed (filename : Option String) {run run' : Run} (h : run.Alike run') :
      ({ run with filename } : Run).Alike { run' with filename } := by
    obtain ⟨dict, rfl⟩ := h
    exact ⟨dict, rfl⟩
  unfold Run.readFile
  refine (hcs.fireAll .fileBegin (hnamed (some file.filename) h) (.file file.filename)).bind ?_
  rintro ⟨begun, payload⟩ ⟨begun', _⟩ ⟨hbegun, rfl⟩
  refine (EndAlike.foldlM hbegun (fun _ _ event hmid => hmid.runEvent hcs file.filename event) file.events).bind ?_
  intro taken taken' htaken
  refine (htaken.finishFile file.filename).bind fun finished finished' hfinished => ?_
  refine (hcs.fireAll .fileComplete hfinished (.file file.filename)).bind ?_
  rintro ⟨complete, payload⟩ ⟨complete', _⟩ ⟨hcomplete, rfl⟩
  exact .ok (hnamed none hcomplete)

theorem parseFiles_alike {p : Pipeline} (hcs : Callback.WithoutSwaps p.callbacks others) (files : List SourceFile) :
    EndAlike Alike (parseFiles p files) (parseFiles { p with callbacks := others } files) := by
  unfold parseFiles
  refine (hcs.fireAll .parseBegin (.refl (start p files)) _).bind ?_
  rintro ⟨begun, payload⟩ ⟨begun', _⟩ ⟨hbegun, rfl⟩
  refine (EndAlike.foldlM hbegun (fun _ _ file hmid => hmid.readFile hcs file) files).bind fun read read' hread => ?_
  refine (hcs.fireAll .parseComplete hread .database).bind ?_
  rintro ⟨complete, payload⟩ ⟨complete', _⟩ ⟨hcomplete, rfl⟩
  exact .ok hcomplete

end Run

/-- **Callbacks that only swap the dictionary in the hands of the caller make no difference**, whichever dictionaries
they put there, at which stages and how often. Without them, and so with no callbacks at all if there are no others,
the run comes to a database if it does with them, and stops for the same reason if it stops; and the doclets, the
diagnostics and all else in the last state are the same, but for the outer dictionary. -/
theorem Pipeline.run_pinned {p : Pipeline} {others : List Callback} (h : Callback.WithoutSwaps p.callbacks others)
    (files : List SourceFile) :
    EndAlike Run.Alike (p.run files) (Pipeline.run { p with callbacks := others } files) := by
  unfold Pipeline.run
  refine (Run.parseFiles_alike h files).bind fun parsed parsed' hparsed => ?_
  have hlinked : parsed.link.Alike parsed'.link := by
    obtain ⟨dict, rfl⟩ := hparsed
    exact ⟨dict, rfl⟩
  refine (h.fireAll .processingComplete hlinked .database).bind ?_
  rintro ⟨complete, payload⟩ ⟨complete', _⟩ ⟨⟨dict, hcomplete⟩, rfl⟩
  obtain rfl : complete' = { complete with outer := dict } := hcomplete
  exact .ok ⟨dict, rfl⟩

/-- The swaps are to a dictionary that does not know the tag, before the comment is read, and to an empty one
afterwards. The tag is read as without them, and only the outer dictionary tells that they were there. -/
theorem Pipeline.run_pinned_foreign :
    let dict := Grammar.jsdoc.dictionary
    let foreign := Grammar.closure.dictionary
    let others := .recorder .docletCreated :: railsTemplate.callbacks
    let p : Pipeline := {
      dict, callbacks := .swapOuter .commentFound foreign :: others ++ [.swapOuter .parseComplete {}] }
    let files : List SourceFile := [{
      filename := "a.erb"
      events := [{ comment := some "/** <%= doc %>@readonly */", context := some { name := some "x" } }] }]
    Callback.WithoutSwaps p.callbacks others ∧ foreign.lookup "readonly" = none ∧
      EndAlike Run.Alike (p.run files) (Pipeline.run { p with callbacks := others } files) ∧
      (p.run files).toOption.map (fun run => (run.outer.size, run.database.doclets.map (·.readonly))) =
        some (0, [some true]) ∧
      (Pipeline.run { p with callbacks := others } files).toOption.map
        (fun run => (run.outer.size, run.database.doclets.map (·.readonly))) = some (dict.size, [some true]) := by
  intro dict foreign others p files
  have hrails : Callback.OverlooksOuter (.onComment .commentFound fun run => stripTemplateComment run.filename) :=
    Callback.overlooksOuter_onPayload _ fun _ _ _ => rfl
  have h : Callback.WithoutSwaps p.callbacks others :=
    .swap (Callback.swapsOuter_swapOuter _ _)
      (.other (Callback.overlooksOuter_recorder _)
        (.other hrails (.swap (Callback.swapsOuter_swapOuter _ _) .nil)))
  exact ⟨h, by decide +kernel, Pipeline.run_pinned h files, by decide +kernel, by decide +kernel⟩

end SymbolDocs
