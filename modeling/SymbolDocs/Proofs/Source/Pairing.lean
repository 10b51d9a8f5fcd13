import Mathlib.Data.List.Infix
import SymbolDocs.Source.Event

/-!
# Events that pair up

The scopes of a file pair up (`SourceFile.Balanced`) if no beginning of its events closes more scopes than it opens,
and all of them together close as many as they open. Seen event by event: one that closes a scope needs an open one,
and any other may open a scope for those behind it (`covered_cons_exit`, `covered_cons`).
-/

namespace SymbolDocs

/-- How many scopes an event opens. -/
def ScopeEvent.opened (event : ScopeEvent) : Nat := if event = .enter then 1 else 0

/-- How many scopes some events open. -/
def openings (events : List SourceEvent) : Nat := events.countP (·.scopeEvent = .enter)

/-- How many scopes some events close. -/
def closings (events : List SourceEvent) : Nat := events.countP (·.scopeEvent = .exit)

/-- The events that have a doclet: all but those that close a scope. -/
def documented (events : List SourceEvent) : List SourceEvent := events.filter (·.scopeEvent ≠ .exit)

/-- No beginning of the events closes more scopes than it opens and than were open before. -/
def Covered (depth : Nat) (events : List SourceEvent) : Prop :=
  ∀ before, before <+: events → closings before ≤ depth + openings before

/-- The longest covered beginning of some events, which are those that a run takes. -/
structure LongestCovered (depth : Nat) (events taken : List SourceEvent) : Prop where
  beginning : taken <+: events
  covered : Covered depth taken
  longest : ∀ longer, longer <+: events → Covered depth longer → longer <+: taken

/-- The scopes of a file pair up. -/
def SourceFile.Balanced (file : SourceFile) : Prop :=
  (∀ before, before <+: file.events → closings before ≤ openings before) ∧
    closings file.events = openings file.events

section Events

variable {event : SourceEvent} {events : List SourceEvent} {depth : Nat}

theorem covered_nil (depth : Nat) : Covered depth [] := by
  intro before hb
  rw [List.prefix_nil.1 hb]
  exact Nat.zero_le _

@[simp] theorem openings_nil : openings [] = 0 := rfl

@[simp] theorem closings_nil : closings [] = 0 := rfl

@[simp] theorem documented_nil : documented [] = [] := rfl

theorem openings_cons (event : SourceEvent) (events : List SourceEvent) :
    openings (event :: events) = event.scopeEvent.opened + openings events := by
  simp only [openings, ScopeEvent.opened, List.countP_cons, decide_eq_true_eq]
  omega

theorem closings_cons_exit (he : event.scopeEvent = .exit) (events : List SourceEvent) :
    closings (event :: events) = closings events + 1 := by
  simp [closings, he]

theorem closings_cons (he : event.scopeEvent ≠ .exit) (events : List SourceEvent) :
    closings (event :: events) = closings events := by
  simp [closings, he]

theorem documented_cons_exit (he : event.scopeEvent = .exit) (events : List SourceEvent) :
    documented (event :: events) = documented events :=
  List.filter_cons_of_neg (by simp [he])

theorem documented_cons (he : event.scopeEvent ≠ .exit) (events : List SourceEvent) :
    documented (event :: events) = event :: documented events :=
  List.filter_cons_of_pos (by simp [he])

theorem openings_append (xs ys : List SourceEvent) : openings (xs ++ ys) = openings xs + openings ys :=
  List.countP_append

theorem closings_append (xs ys : List SourceEvent) : closings (xs ++ ys) = closings xs + closings ys :=
  List.countP_append

theorem documented_append (xs ys : List SourceEvent) : documented (xs ++ ys) = documented xs ++ documented ys :=
  List.filter_append xs ys

/-- An event that closes a scope needs an open one. -/
theorem covered_cons_exit (he : event.scopeEvent = .exit) :
    Covered depth (event :: events) ↔ 0 < depth ∧ Covered (depth - 1) events := by
  have ho (before : List SourceEvent) : openings (event :: before) = openings before := by
    rw [openings_cons, he]
    simp [ScopeEvent.opened]
  constructor
  · intro h
    have hone := h [event] ⟨events, rfl⟩
    rw [closings_cons_exit he, ho] at hone
    have hd : 1 ≤ depth := by simpa [closings, openings] using hone
    refine ⟨hd, fun before hb => ?_⟩
    have hb' := h (event :: before) (List.cons_prefix_cons.2 ⟨rfl, hb⟩)
    rw [closings_cons_exit he, ho] at hb'
    omega
  · rintro ⟨hd, h⟩ before hb
    rcases List.prefix_cons_iff.1 hb with rfl | ⟨rest, rfl, hr⟩
    · exact Nat.zero_le _
    · have hr' := h rest hr
      rw [closings_cons_exit he, ho]
      omega

/-- Any other event may open a scope for those behind it. -/
theorem covered_cons (he : event.scopeEvent ≠ .exit) :
    Covered depth (event :: events) ↔ Covered (depth + event.scopeEvent.opened) events := by
  constructor
  · intro h before hb
    have hb' := h (event :: before) (List.cons_prefix_cons.2 ⟨rfl, hb⟩)
    rw [closings_cons he, openings_cons] at hb'
    omega
  · intro h before hb
    rcases List.prefix_cons_iff.1 hb with rfl | ⟨rest, rfl, hr⟩
    · exact Nat.zero_le _
    · have hr' := h rest hr
      rw [closings_cons he, openings_cons]
      omega

theorem balanced_iff {file : SourceFile} :
    file.Balanced ↔ Covered 0 file.events ∧ closings file.events = openings file.events := by
  simp only [SourceFile.Balanced, Covered, Nat.zero_add]

/-! ### Longest covered beginnings -/

variable {taken : List SourceEvent}

theorem longestCovered_self (h : Covered depth events) : LongestCovered depth events events :=
  ⟨List.prefix_rfl, h, fun _ hl _ => hl⟩

/-- Events that start with an event for which nothing is open have no covered beginning. -/
theorem longestCovered_nothingOpen (he : event.scopeEvent = .exit) (events : List SourceEvent) :
    LongestCovered 0 (event :: events) [] := by
  refine ⟨List.nil_prefix, covered_nil 0, fun longer hl hc => ?_⟩
  rcases List.prefix_cons_iff.1 hl with rfl | ⟨rest, rfl, -⟩
  · exact List.prefix_rfl
  · exact absurd ((covered_cons_exit he).1 hc).1 (Nat.lt_irrefl 0)

theorem LongestCovered.cons_of_iff {depth' : Nat} (h : LongestCovered depth' events taken)
    (hiff : ∀ rest, Covered depth (event :: rest) ↔ Covered depth' rest) :
    LongestCovered depth (event :: events) (event :: taken) := by
  refine ⟨List.cons_prefix_cons.2 ⟨rfl, h.beginning⟩, (hiff taken).2 h.covered, fun longer hl hc => ?_⟩
  rcases List.prefix_cons_iff.1 hl with rfl | ⟨rest, rfl, hr⟩
  · exact List.nil_prefix
  · exact List.cons_prefix_cons.2 ⟨rfl, h.longest rest hr ((hiff rest).1 hc)⟩

/-- Covered events can be told by their beginnings. -/
instance (depth : Nat) (events : List SourceEvent) : Decidable (Covered depth events) :=
  decidable_of_iff (∀ before ∈ events.inits, closings before ≤ depth + openings before) (by simp [Covered])

instance (file : SourceFile) : Decidable file.Balanced := decidable_of_iff _ balanced_iff.symm

end Events

end SymbolDocs
