import SymbolDocs.Database.Linking

/-!
# Reports of linking

Linking only reports links to symbols that are not documented. Its first two steps report missing sources of borrowed
symbols and missing events (`SymbolReport`), its last one reports names of mixins and of extended symbols
(`NameReport`), and `reports_linkAll` puts them together.
-/

namespace SymbolDocs
namespace Linking

variable {P Q : Diagnostic → Prop} {r r' r'' : Reporter}

/-- Further diagnostics are reported, and all of them are of a sort. -/
def Reports (P : Diagnostic → Prop) (r r' : Reporter) : Prop :=
  ∃ found, r'.records = r.records ++ found ∧ ∀ x ∈ found, P x

theorem Reports.refl (r : Reporter) : Reports P r r := ⟨[], (List.append_nil _).symm, fun _ h => by cases h⟩

theorem Reports.trans (h : Reports P r r') (h' : Reports P r' r'') : Reports P r r'' := by
  obtain ⟨found, hfound, hP⟩ := h
  obtain ⟨found', hfound', hP'⟩ := h'
  refine ⟨found ++ found', by rw [hfound', hfound, List.append_assoc], fun x hx => ?_⟩
  exact (List.mem_append.1 hx).elim (hP x) (hP' x)

theorem Reports.mono (hPQ : ∀ x, P x → Q x) (h : Reports P r r') : Reports Q r r' := by
  obtain ⟨found, hfound, hP⟩ := h
  exact ⟨found, hfound, fun x hx => hPQ x (hP x hx)⟩

/-- What each step reports, all steps together report. -/
theorem Reports.foldl {α : Type} {f : Linking → α → Linking}
    (hf : ∀ l x, Reports P l.reporter (f l x).reporter) (l : Linking) (xs : List α) :
    Reports P l.reporter (xs.foldl f l).reporter := by
  induction xs generalizing l with
  | nil => exact .refl _
  | cons x xs ih => exact (hf l x).trans (ih _)

theorem reports_reportOnce (r : Reporter) (key : String) {problem : Problem} {location : Location}
    {severity : Option Severity} (h : P (.ofProblem problem location severity)) :
    Reports P r (r.reportOnce key problem location severity) := by
  unfold Reporter.reportOnce
  split
  · exact .refl r
  · exact ⟨[_], rfl, List.forall_mem_singleton.2 h⟩

/-! ## Borrowed symbols and listeners -/

/-- A diagnostic of the first two steps: of a borrowed symbol, or of an event that is listened to. -/
inductive SymbolReport : Diagnostic → Prop
  | borrow (longname : Option String) (location : Location) (source : String) :
      SymbolReport (.ofProblem (.danglingReference "borrows" (longname.getD "") source) location)
  | listener (longname : Option String) (location : Location) (event : String) :
      SymbolReport (.ofProblem (.danglingReference "listens to" (longname.getD "") event) location (some .debug))

theorem reports_linkBorrow (p : Nat) (l : Linking) (request : Borrow) :
    Reports SymbolReport l.reporter (linkBorrow p l request).reporter := by
  unfold linkBorrow
  split
  · exact .refl _
  · split
    · exact reports_reportOnce _ _ (.borrow ..)
    · dsimp only
      split <;> exact .refl _

theorem reports_linkBorrows (l : Linking) (p : Nat) : Reports SymbolReport l.reporter (linkBorrows l p).reporter := by
  unfold linkBorrows
  split
  · exact .refl _
  · exact .foldl (reports_linkBorrow p) l _

theorem reports_linkListener (listener : Doclet) (l : Linking) (event : String) :
    Reports SymbolReport l.reporter (linkListener listener l event).reporter := by
  unfold linkListener
  split
  · split <;> exact .refl _
  · exact reports_reportOnce _ _ (.listener ..)

theorem reports_linkListeners (l : Linking) (p : Nat) :
    Reports SymbolReport l.reporter (linkListeners l p).reporter := by
  unfold linkListeners
  split
  · exact .refl _
  · exact .foldl (reports_linkListener _) l _

/-- The state of a pass before its last step: borrowed symbols and listeners are linked. -/
def linkSymbols (l : Linking) : Linking :=
  let note := "Resolving cross references for " ++ toString l.database.size ++ " doclets"
  let l := { l with reporter := l.reporter.note .debug "xref" note }
  let l := l.positions.foldl linkBorrows l
  l.positions.foldl linkListeners l

theorem reports_linkSymbols (l : Linking) : Reports SymbolReport l.reporter l.linkSymbols.reporter :=
  (Reports.foldl reports_linkBorrows { l with reporter := l.reporter.note .. } _).trans
    (.foldl reports_linkListeners _ _)

/-! ## Mixins and extended symbols -/

theorem linkAll_reporter (l : Linking) :
    l.linkAll.reporter = (l.linkSymbols.positions.foldl linkRelations l.linkSymbols).reporter :=
  rfl

/-- A diagnostic of the last step: of a stated name, for debugging only. -/
def NameReport (x : Diagnostic) : Prop :=
  ∃ (relation : Relation) (d : Doclet) (name : String),
    x = .ofProblem (.danglingReference relation.word (d.longname.getD "") name) d.location (some .debug)

theorem reports_linkName (relation : Relation) (p : Nat) (l : Linking) (name : String) :
    Reports NameReport l.reporter (linkName relation p l name).reporter := by
  unfold linkName
  split
  · exact .refl _
  · next d _ =>
    split
    · exact .refl _
    · exact reports_reportOnce _ _ ⟨relation, d, name, rfl⟩

theorem reports_linkRelation (relation : Relation) (l : Linking) (p : Nat) :
    Reports NameReport l.reporter (linkRelation relation l p).reporter := by
  unfold linkRelation
  split
  · exact .refl _
  · exact .foldl (reports_linkName relation p) l _

theorem reports_linkRelations (l : Linking) (p : Nat) : Reports NameReport l.reporter (linkRelations l p).reporter :=
  (reports_linkRelation .mixes l p).trans (reports_linkRelation .augments _ p)

/-- **Linking only reports symbols that are not documented.** -/
theorem reports_linkAll (l : Linking) :
    Reports (fun x => SymbolReport x ∨ NameReport x) l.reporter l.linkAll.reporter := by
  rw [linkAll_reporter]
  exact ((reports_linkSymbols l).mono fun _ => .inl).trans
    ((Reports.foldl reports_linkRelations l.linkSymbols _).mono fun _ => .inr)

end Linking
end SymbolDocs
