import SymbolDocs.Proofs.Database.Additions

/-!
# Listeners of events

The requests for borrowed symbols add doclets at the end, and of the doclets that are there they change nothing but
the record of what they borrowed (`grown_fulfilAll`). So linking keeps every doclet at its position, and an event that
has the longname which a doclet listens to gets that doclet among its listeners (`mem_listeners_linkAll`). It gets no
other ones: `listeners_linkAll` says who is listed after a pass, for events, for copies of events and for all others.
-/

namespace SymbolDocs
namespace Linking

variable {db db' db'' : Database} {d e : Doclet} {name event : String}

/-! ## Doclets keep their positions -/

/-- A database with the same doclets at the same positions, except that they may have borrowed further symbols. -/
def Grown (db db' : Database) : Prop :=
  ∀ (p : Nat) (d : Doclet), db.doclets[p]? = some d →
    ∃ borrowed, db'.doclets[p]? = some { d with borrowed := borrowed }

theorem Grown.refl (db : Database) : Grown db db := fun _ d h => ⟨d.borrowed, h⟩

theorem Grown.trans (h : Grown db db') (h' : Grown db' db'') : Grown db db'' := by
  intro p d hd
  obtain ⟨_, hd'⟩ := h p d hd
  obtain ⟨borrowed, hd''⟩ := h' p _ hd'
  exact ⟨borrowed, hd''⟩

/-- One request adds a doclet at the end and marks the borrower. -/
theorem grown_fulfil (p : Nat) (db : Database) (request : Borrow) : Grown db (fulfil p db request) := by
  rcases fulfil_cases p db request with ⟨-, he⟩ | ⟨borrower, source, -, -, -, he⟩
  · rw [he]
    exact .refl db
  · intro q d hd
    rw [he, getElem?_grant hd]
    split
    · exact ⟨_, rfl⟩
    · exact ⟨d.borrowed, rfl⟩

theorem grown_fulfilAll (db : Database) : Grown db (fulfilAll db) :=
  fulfilAll_keeps (P := Grown db) (fun db' p request h => h.trans (grown_fulfil p db' request)) (.refl db)

/-! ## Who is heard -/

/-- An event hears the doclets that listen to its longname and have a longname themselves. -/
theorem mem_audience {ds : List Doclet} :
    name ∈ audience ds e ↔
      ∃ d ∈ ds, nonempty d.longname = some name ∧ ∃ event ∈ d.listens, isEvent event e = true := by
  unfold audience heardBy
  rw [List.mem_flatMap]
  refine exists_congr fun d => and_congr_right fun _ => ?_
  rw [List.mem_flatMap]
  constructor
  · rintro ⟨event, hevent, hname⟩
    split at hname
    · next hi => exact ⟨Option.mem_toList.1 hname, event, hevent, hi⟩
    · cases hname
  · rintro ⟨hname, event, hevent, hi⟩
    exact ⟨event, hevent, by rw [if_pos hi]; exact Option.mem_toList.2 hname⟩

/-- **After linking, an event lists every doclet that listens to its longname.** It stays the event that it was. -/
theorem mem_listeners_linkAll {l : Linking} {p : Nat} (he : l.database.doclets[p]? = some e)
    (hevent : isEvent event e = true) (hd : d ∈ l.database.doclets) (hlistens : event ∈ d.listens)
    (hname : nonempty d.longname = some name) :
    ∃ e', l.linkAll.database.doclets[p]? = some e' ∧ isEvent event e' = true ∧ name ∈ e'.listeners := by
  obtain ⟨borrowed, he'⟩ := grown_fulfilAll l.database p e he
  obtain ⟨q, hq⟩ := List.mem_iff_getElem?.1 hd
  obtain ⟨borrowed', hd'⟩ := grown_fulfilAll l.database q d hq
  have hheard : name ∈ audience (fulfilAll l.database).doclets e :=
    mem_audience.2 ⟨_, List.mem_of_getElem? hd', hname, event, hlistens, hevent⟩
  refine ⟨relinked (fulfilAll l.database) { e with borrowed := borrowed }, ?_, ?_, ?_⟩
  · rw [linkAll_database, Database.mapDoclets, List.getElem?_map, he']
    rfl
  · rw [relinked_eq]
    exact hevent
  · rw [relinked_eq]
    exact mem_appendNew.2 (.inr hheard)

/-! ## Nobody else is listed -/

/-- The listeners of the doclet at a position; a position without doclet has none. -/
def listenersAt (db : Database) (p : Nat) : List String := (db.doclets[p]?.map (·.listeners)).getD []

/-- The requests leave the listeners of the old doclets as they are, and the new doclets have none. -/
theorem listeners_fulfilAll {p : Nat} (he : (fulfilAll db).doclets[p]? = some e) : e.listeners = listenersAt db p := by
  unfold listenersAt
  cases hd : db.doclets[p]? with
  | some d =>
    obtain ⟨borrowed, he'⟩ := grown_fulfilAll db p d hd
    rw [he] at he'
    cases he'
    rfl
  | none => exact ((additions_fulfilAll db).copies p e (List.getElem?_eq_none_iff.1 hd) he).listeners

theorem isEvent_iff : isEvent event e = true ↔ e.longname = some event ∧ e.kind = some "event" := by
  simp [isEvent]

theorem audience_eq_nil {ds : List Doclet} (h : e.kind ≠ some "event") : audience ds e = [] := by
  rw [List.eq_nil_iff_forall_not_mem]
  intro name hm
  obtain ⟨d, -, -, event, -, hi⟩ := mem_audience.1 hm
  exact h (isEvent_iff.1 hi).2

/-- Linking changes neither the longnames of doclets nor what they listen to. -/
theorem mem_audience_linkAll (l : Linking) (hk : e.kind = some "event") :
    name ∈ audience (fulfilAll l.database).doclets e ↔
      ∃ d ∈ l.linkAll.database.doclets, nonempty d.longname = some name ∧
        ∃ longname, e.longname = some longname ∧ longname ∈ d.listens := by
  rw [← audience_relinked, ← linkAll_database, mem_audience]
  refine exists_congr fun d => and_congr_right fun _ => and_congr_right fun _ => exists_congr fun event => ?_
  rw [isEvent_iff]
  exact ⟨fun ⟨hm, hl, _⟩ => ⟨hl, hm⟩, fun ⟨hl, hm⟩ => ⟨hm, hl, hk⟩⟩

/-- **Who is listed after linking.** An event lists whom it listed before, and all doclets with a longname that listen
to its longname; copies count as well, and have listed nobody before. Nothing else lists anybody new, and nobody is
listed twice by linking. -/
theorem listeners_linkAll (l : Linking) {p : Nat} (he : l.linkAll.database.doclets[p]? = some e) :
    (e.kind = some "event" → ∀ name, name ∈ e.listeners ↔ name ∈ listenersAt l.database p ∨
      ∃ d ∈ l.linkAll.database.doclets, nonempty d.longname = some name ∧
        ∃ longname, e.longname = some longname ∧ longname ∈ d.listens) ∧
    (e.kind ≠ some "event" → e.listeners = listenersAt l.database p) ∧
    ((listenersAt l.database p).Nodup → e.listeners.Nodup) := by
  have hmap := he
  rw [linkAll_database, Database.mapDoclets, List.getElem?_map] at hmap
  obtain ⟨e₀, he₀, rfl⟩ := Option.map_eq_some_iff.1 hmap
  have hlisteners : (relinked (fulfilAll l.database) e₀).listeners =
      appendNew (listenersAt l.database p) (audience (fulfilAll l.database).doclets e₀) := by
    rw [relinked_eq, ← listeners_fulfilAll he₀]
  have hkind : (relinked (fulfilAll l.database) e₀).kind = e₀.kind := by rw [relinked_eq]
  have hlongname : (relinked (fulfilAll l.database) e₀).longname = e₀.longname := by rw [relinked_eq]
  rw [hlisteners, hkind, hlongname]
  refine ⟨fun hk name => ?_, fun hk => ?_, (gains_appendNew _ _).nodup⟩
  · rw [mem_appendNew, mem_audience_linkAll l hk]
  · rw [audience_eq_nil hk]
    rfl

/-- An event, a doclet that listens to it twice and to its copy, and a namespace that borrows both doclets. -/
def borrowedEvent : Linking where
  database := .ofList [
    { name := some "ready", longname := some "event:ready", kind := some "event", state := .nameResolved },
    { name := some "onReady", longname := some "onReady", kind := some "function"
      listens := ["event:ready", "util.event:ready", "event:ready"], state := .nameResolved },
    { name := some "util", longname := some "util", kind := some "namespace", state := .nameResolved
      declared := { borrows := [{ source := "onReady", target := some "handle" }, { source := "event:ready" }] } }]
  reporter := {}

/-- The copy of the event lists the listener and the copy of the listener, each once. -/
theorem listeners_linkAll_borrowedEvent : ∃ e, borrowedEvent.linkAll.database.doclets[4]? = some e ∧
    e.kind = some "event" ∧ listenersAt borrowedEvent.database 4 = [] ∧ e.listeners = ["onReady", "util.handle"] ∧
    (∀ name, name ∈ e.listeners ↔ name ∈ listenersAt borrowedEvent.database 4 ∨
      ∃ d ∈ borrowedEvent.linkAll.database.doclets, nonempty d.longname = some name ∧
        ∃ longname, e.longname = some longname ∧ longname ∈ d.listens) ∧
    e.listeners.Nodup := by
  have hlinked : borrowedEvent.linkAll.database.doclets[4]?.map (fun e => (e.kind, e.listeners)) =
      some (some "event", ["onReady", "util.handle"]) := by decide +kernel
  have hbefore : listenersAt borrowedEvent.database 4 = [] := by decide +kernel
  obtain ⟨e, he, heq⟩ := Option.map_eq_some_iff.1 hlinked
  obtain ⟨hk, hl⟩ := Prod.mk.inj heq
  have h := listeners_linkAll borrowedEvent he
  exact ⟨e, he, hk, hbefore, hl, h.1 hk, h.2.2 (by rw [hbefore]; exact List.nodup_nil)⟩

end Linking
end SymbolDocs
