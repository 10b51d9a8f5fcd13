import Mathlib.Data.List.Nodup
import SymbolDocs.Naming.Placement
import SymbolDocs.Proofs.Database.Copies
import SymbolDocs.Proofs.Database.Pruning

/-!
# The lifecycle of doclets

Three calls write the state of doclets: a doclet gets its place among the open scopes (`Doclet.resolve`), the doclets of
a database are linked (`Linking.linkAll`), and a database is copied without what is not to be published
(`Database.pruned`). They may come in any order, for any databases of the doclets that exist. A doclet is known by its
position among all of them. New doclets, which are the copies of borrowed symbols and those of pruning, go behind them.

What a call does to the state of an old doclet is one of three moves (`Moves`, `Call.run_old`), and a new doclet is
already past the states in which it could get a name (`Call.run_new`). So the states only go forward in a sequence of
calls, and no doclet gets its place twice (`states_go_forward`).
-/

namespace SymbolDocs

/-- The place of a state in the order of the states. -/
def DocletState.rank (s : DocletState) : Nat := DocletState.all.idxOf s

namespace Lifecycle

/-- A call that writes the state of doclets. A database is given by the positions of its doclets and by its index. -/
inductive Call (R : Type := Handler) where
  /-- Gives a doclet its place. -/
  | resolve (position : Nat) (dict : Dictionary R) (stack : ScopeStack)
  /-- Links the doclets of a database. -/
  | link (members : List Nat) (index : List (String × List Nat)) (reporter : Reporter)
  /-- Copies the doclets of a database that are to be published. -/
  | prune (members : List Nat) (options : PruneOptions)

/-- What comes of a call: an error, or else the position of the doclet that got its place, if any. -/
abbrev Outcome := Except Problem (Option Nat)

/-- The doclets of a database with their positions. -/
def held (ds : List Doclet) (members : List Nat) : List (Nat × Doclet) :=
  members.filterMap fun p => ds[p]?.map (p, ·)

/-- A database of some doclets. -/
def database (ds : List Doclet) (members : List Nat) (index : List (String × List Nat)) : Database :=
  { doclets := (held ds members).map (·.2), index }

/-- The doclets, of which some are replaced by others. If there are several for one position, the first one counts. -/
def replace (ds : List Doclet) (others : List (Nat × Doclet)) : List Doclet :=
  ds.mapIdx fun p d => (others.lookup p).getD d

/-- What comes of a call, and the doclets that exist afterwards. -/
def Call.run {R : Type} (ds : List Doclet) : Call R → Outcome × List Doclet
  | .resolve p dict stack =>
    match ds[p]? with
    | none => (.ok none, ds)
    | some d =>
      match d.resolve dict stack with
      | .ok d' => (.ok (some p), ds.set p d')
      | .error problem => (.error problem, ds)
  | .link members index reporter =>
    let old := held ds members
    let linked := (Linking.linkAll { database := database ds members index, reporter }).database.doclets
    (.ok none, replace ds ((old.map (·.1)).zip linked) ++ linked.drop old.length)
  | .prune members options => (.ok none, ds ++ ((database ds members []).pruned options).doclets)

/-- What comes of several calls in order, and the doclets that exist afterwards. -/
def runAll {R : Type} : List (Call R) → List Doclet → List Outcome × List Doclet
  | [], ds => ([], ds)
  | call :: calls, ds =>
    let (outcome, ds) := call.run ds
    let (outcomes, ds) := runAll calls ds
    (outcome :: outcomes, ds)

/-- The positions of the doclets that got their places, in order. -/
def named (outcomes : List Outcome) : List Nat := outcomes.filterMap fun outcome => outcome.toOption.join

/-! ## One call -/

/-- How a call changes the state of a doclet that exists. -/
inductive Moves : DocletState → DocletState → Prop
  | stay (s : DocletState) : Moves s s
  | name {s : DocletState} (h : s = .created ∨ s = .tagsApplied) : Moves s .nameResolved
  | link : Moves .nameResolved .crossReferenced

variable {ds : List Doclet} {members : List Nat} {index : List (String × List Nat)} {reporter : Reporter} {p : Nat}
  {d d' : Doclet} {s s' : DocletState} {R : Type} {call : Call R} {calls : List (Call R)}

theorem Moves.rank_le (h : Moves s s') : s.rank ≤ s'.rank := by
  cases h with
  | stay => exact Nat.le_refl _
  | name h => rcases h with rfl | rfl <;> decide
  | link => decide

theorem awaitsName_iff : d.awaitsName = true ↔ d.state = .created ∨ d.state = .tagsApplied := by
  simp [Doclet.awaitsName]

theorem awaitsName_iff_rank : d.awaitsName = true ↔ d.state.rank ≤ 1 := by
  rw [awaitsName_iff]
  cases d.state <;> decide

theorem resolve_eq_ok_iff {dict : Dictionary R} {stack : ScopeStack} :
    d.resolve dict stack = .ok d' ↔ d.awaitsName = true ∧ d' = d.place dict stack := by
  unfold Doclet.resolve
  split
  · next h => simp [h, eq_comm]
  · next h => simp [h]

theorem getElem?_of_mem_held {entry : Nat × Doclet} (h : entry ∈ held ds members) : ds[entry.1]? = some entry.2 := by
  obtain ⟨p, -, hp⟩ := List.mem_filterMap.1 h
  obtain ⟨d, hd, rfl⟩ := Option.map_eq_some_iff.1 hp
  exact hd

theorem getElem?_replace (ds : List Doclet) (others : List (Nat × Doclet)) (p : Nat) :
    (replace ds others)[p]? = ds[p]?.map fun d => (others.lookup p).getD d :=
  List.getElem?_mapIdx

theorem length_replace (ds : List Doclet) (others : List (Nat × Doclet)) : (replace ds others).length = ds.length :=
  List.length_mapIdx

/-- A doclet that linking writes back is the one that it was, but for its links. -/
theorem advances_of_lookup (hd : ds[p]? = some d)
    (h : (((held ds members).map (·.1)).zip
      (Linking.linkAll { database := database ds members index, reporter }).database.doclets).lookup p = some d') :
    Linking.Advances d.state d'.state := by
  obtain ⟨front, back, hsplit, -⟩ := List.lookup_eq_some_iff.1 h
  obtain ⟨i, hi⟩ := List.mem_iff_getElem?.1 (show (p, d') ∈ _ from hsplit ▸ List.mem_append_cons_self)
  obtain ⟨hposition, hlinked⟩ := List.getElem?_zip_eq_some.1 hi
  rw [List.getElem?_map, Option.map_eq_some_iff] at hposition
  obtain ⟨entry, hentry, rfl⟩ := hposition
  have hheld := getElem?_of_mem_held (List.mem_of_getElem? hentry)
  obtain rfl : d = entry.2 := Option.some.inj (hd.symm.trans hheld)
  have hold : (database ds members index).doclets[i]? = some entry.2 := by
    rw [database, List.getElem?_map, hentry]
    rfl
  obtain ⟨d₁, hd₁, henriched⟩ :=
    (Linking.enlarged_linkAll { database := database ds members index, reporter }).doclets i _ hold
  obtain rfl := Option.some.inj (hd₁.symm.trans hlinked)
  exact henriched.advances

/-- Linking leaves the state of a doclet as it is, or finishes a doclet that has its place. -/
theorem run_link (hd : ds[p]? = some d) (members : List Nat) (index : List (String × List Nat)) (reporter : Reporter) :
    ∃ d', ((Call.link members index reporter : Call R).run ds).2[p]? = some d' ∧ Linking.Advances d.state d'.state := by
  have hlt : p < ds.length := (List.getElem?_eq_some_iff.1 hd).1
  dsimp only [Call.run]
  rw [List.getElem?_append_left (by rwa [length_replace]), getElem?_replace, hd, Option.map_some]
  refine ⟨_, rfl, ?_⟩
  cases h : List.lookup p _ with
  | none => exact .inl rfl
  | some d' => exact advances_of_lookup hd h

/-- The doclet that gets its place is one that waited for it. -/
theorem Call.run_named (h : (call.run ds).1 = .ok (some p)) :
    ∃ d d', ds[p]? = some d ∧ d.awaitsName = true ∧ (call.run ds).2[p]? = some d' ∧ d'.state = .nameResolved := by
  cases call with
  | resolve q dict stack =>
    dsimp only [Call.run] at h ⊢
    cases hd : ds[q]? with
    | none =>
      rw [hd] at h
      cases h
    | some d =>
      rw [hd] at h
      dsimp only at h ⊢
      cases hr : d.resolve dict stack with
      | error problem =>
        rw [hr] at h
        cases h
      | ok d' =>
        rw [hr] at h
        cases h
        obtain ⟨hawaits, rfl⟩ := resolve_eq_ok_iff.1 hr
        have hlt : p < ds.length := (List.getElem?_eq_some_iff.1 hd).1
        exact ⟨d, _, hd, hawaits, List.getElem?_set_self hlt, rfl⟩
  | link => cases h
  | prune => cases h

/-- **A call that is refused changes nothing**, and it is refused because the doclet has its place already. -/
theorem Call.run_refused {problem : Problem} (h : (call.run ds).1 = .error problem) :
    (call.run ds).2 = ds ∧ ∃ d ∈ ds, d.awaitsName = false ∧
      problem = .lifecycle ("Name of " ++ d.shownName ++ " was already resolved") := by
  cases call with
  | resolve q dict stack =>
    dsimp only [Call.run] at h ⊢
    cases hd : ds[q]? with
    | none =>
      rw [hd] at h
      cases h
    | some d =>
      rw [hd] at h
      dsimp only at h ⊢
      cases hr : d.resolve dict stack with
      | ok d' =>
        rw [hr] at h
        cases h
      | error problem' =>
        rw [hr] at h
        cases h
        refine ⟨rfl, d, List.mem_of_getElem? hd, ?_⟩
        unfold Doclet.resolve at hr
        split at hr
        · cases hr
        · next hawaits =>
          cases hr
          exact ⟨by simpa using hawaits, rfl⟩
  | link => cases h
  | prune => cases h

/-- **A call moves the state of a doclet forward**, if at all. -/
theorem Call.run_old (call : Call R) (hd : ds[p]? = some d) :
    ∃ d', (call.run ds).2[p]? = some d' ∧ Moves d.state d'.state := by
  cases call with
  | resolve q dict stack =>
    dsimp only [Call.run]
    cases hq : ds[q]? with
    | none => exact ⟨d, hd, .stay _⟩
    | some e =>
      dsimp only
      cases hr : e.resolve dict stack with
      | error problem => exact ⟨d, hd, .stay _⟩
      | ok d' =>
        dsimp only
        rw [List.getElem?_set]
        split
        · next he =>
          subst he
          obtain rfl := Option.some.inj (hq.symm.trans hd)
          obtain ⟨hawaits, rfl⟩ := resolve_eq_ok_iff.1 hr
          rw [if_pos (List.getElem?_eq_some_iff.1 hq).1]
          exact ⟨_, rfl, .name (awaitsName_iff.1 hawaits)⟩
        · exact ⟨d, hd, .stay _⟩
  | link members index reporter =>
    obtain ⟨d', hd', hadvances⟩ := run_link hd members index reporter
    refine ⟨d', hd', ?_⟩
    rcases hadvances with hs | ⟨hs, hs'⟩
    · rw [hs]
      exact .stay _
    · rw [hs, hs']
      exact .link
  | prune members options =>
    have hlt : p < ds.length := (List.getElem?_eq_some_iff.1 hd).1
    exact ⟨d, (List.getElem?_append_left hlt).trans hd, .stay _⟩

/-- A new doclet is born linked or pruned. -/
theorem Call.run_new (call : Call R) (hp : ds.length ≤ p) (hd : (call.run ds).2[p]? = some d) :
    d.state = .crossReferenced ∨ d.state = .pruned := by
  have hgone {ds' : List Doclet} (hlen : ds'.length = ds.length) (hd' : ds'[p]? = some d) : False := by
    rw [List.getElem?_eq_none_iff.2 (hlen ▸ hp)] at hd'
    cases hd'
  cases call with
  | resolve q dict stack =>
    dsimp only [Call.run] at hd
    split at hd
    · exact (hgone rfl hd).elim
    · split at hd
      · exact (hgone List.length_set hd).elim
      · exact (hgone rfl hd).elim
  | link members index reporter =>
    dsimp only [Call.run] at hd
    rw [List.getElem?_append_right (by rwa [length_replace])] at hd
    have hsize : (held ds members).length = (database ds members index).size := by
      rw [database, Database.size, List.length_map]
    have hcopy := List.mem_of_getElem? hd
    rw [hsize] at hcopy
    obtain ⟨c, ⟨source, borrower, target, rfl, -, -⟩, henriched⟩ :=
      Linking.copyFor_linkAll { database := database ds members index, reporter } hcopy
    refine .inl ?_
    rcases henriched.advances with hs | ⟨-, hs⟩
    · rw [hs, Linking.state_borrowedCopy]
    · exact hs
  | prune members options =>
    dsimp only [Call.run] at hd
    rw [List.getElem?_append_right hp] at hd
    have hcopy := List.mem_of_getElem? hd
    rw [Database.doclets_pruned] at hcopy
    obtain ⟨d₀, -, rfl⟩ := List.mem_map.1 hcopy
    exact .inr rfl

/-- A doclet that waits for its place after a call has waited for it before. -/
theorem Call.awaitsName_of_run (call : Call R) (hd : (call.run ds).2[p]? = some d) (ha : d.awaitsName = true) :
    ∃ d₀, ds[p]? = some d₀ ∧ d₀.awaitsName = true := by
  rw [awaitsName_iff_rank] at ha
  rcases Nat.lt_or_ge p ds.length with hlt | hle
  · have hold : ds[p]? = some ds[p] := List.getElem?_eq_getElem hlt
    obtain ⟨d', hd', hmoves⟩ := call.run_old hold
    obtain rfl := Option.some.inj (hd'.symm.trans hd)
    exact ⟨_, hold, awaitsName_iff_rank.2 (Nat.le_trans hmoves.rank_le ha)⟩
  · rcases call.run_new hle hd with hs | hs <;> rw [hs] at ha <;> exact absurd ha (by decide)

/-! ## Several calls -/

theorem runAll_append (before later : List (Call R)) (ds : List Doclet) : runAll (before ++ later) ds =
    ((runAll before ds).1 ++ (runAll later (runAll before ds).2).1, (runAll later (runAll before ds).2).2) := by
  induction before generalizing ds with
  | nil => rfl
  | cons call before ih =>
    rw [List.cons_append, runAll, runAll]
    dsimp only
    rw [ih]
    rfl

theorem runAll_rank_le (calls : List (Call R)) (hd : ds[p]? = some d) :
    ∃ d', (runAll calls ds).2[p]? = some d' ∧ d.state.rank ≤ d'.state.rank := by
  induction calls generalizing ds d with
  | nil => exact ⟨d, hd, Nat.le_refl _⟩
  | cons call calls ih =>
    obtain ⟨d₁, hd₁, hmoves⟩ := call.run_old hd
    obtain ⟨d₂, hd₂, hrank⟩ := ih hd₁
    exact ⟨d₂, hd₂, Nat.le_trans hmoves.rank_le hrank⟩

theorem named_cons (outcome : Outcome) (outcomes : List Outcome) :
    named (outcome :: outcomes) = outcome.toOption.join.toList ++ named outcomes := by
  rw [named, List.filterMap_cons]
  cases outcome.toOption.join <;> rfl

/-- Doclets that get their places are different ones, and they have waited for them from the start. -/
theorem named_runAll (calls : List (Call R)) (ds : List Doclet) : (named (runAll calls ds).1).Nodup ∧
    ∀ p ∈ named (runAll calls ds).1, ∃ d, ds[p]? = some d ∧ d.awaitsName = true := by
  induction calls generalizing ds with
  | nil => exact ⟨List.nodup_nil, List.forall_mem_nil _⟩
  | cons call calls ih =>
    obtain ⟨hnodup, hwaited⟩ := ih (call.run ds).2
    have hnamed : named (runAll (call :: calls) ds).1 =
        (call.run ds).1.toOption.join.toList ++ named (runAll calls (call.run ds).2).1 := named_cons _ _
    have hlater : ∀ p ∈ named (runAll calls (call.run ds).2).1, ∃ d, ds[p]? = some d ∧ d.awaitsName = true :=
      fun p hp => by
        obtain ⟨d, hd, ha⟩ := hwaited p hp
        exact call.awaitsName_of_run hd ha
    rw [hnamed]
    cases houtcome : (call.run ds).1 with
    | error problem => exact ⟨hnodup, hlater⟩
    | ok position =>
      cases position with
      | none => exact ⟨hnodup, hlater⟩
      | some p =>
        obtain ⟨d, d', hd, ha, hd', hs⟩ := Call.run_named houtcome
        refine ⟨List.nodup_cons.2 ⟨fun hp => ?_, hnodup⟩, List.forall_mem_cons.2 ⟨⟨d, hd, ha⟩, hlater⟩⟩
        -- A doclet with its place waits no more, so no later call gives it one.
        obtain ⟨d₁, hd₁, ha₁⟩ := hwaited p hp
        obtain rfl := Option.some.inj (hd'.symm.trans hd₁)
        rw [awaitsName_iff, hs] at ha₁
        rcases ha₁ with ha₁ | ha₁ <;> cases ha₁

/-- **The states of doclets only go forward**, whatever calls are made and in whatever order. From any moment on, a
doclet that exists keeps its position, and its state never goes back. No doclet gets its place twice. At every moment,
a doclet that gets its place is in one of the first two states, a call that is refused changes no doclet, and linking
leaves a doclet in one of the first two states or a pruned one in its state. -/
theorem states_go_forward (calls : List (Call R)) (ds : List Doclet) :
    (∀ before later, calls = before ++ later → ∀ (p : Nat) (d : Doclet), (runAll before ds).2[p]? = some d →
      ∃ d', (runAll calls ds).2[p]? = some d' ∧ d.state.rank ≤ d'.state.rank) ∧
    (named (runAll calls ds).1).Nodup ∧
    ∀ before call later, calls = before ++ call :: later →
      let now := (runAll before ds).2
      (∀ p, (call.run now).1 = .ok (some p) →
        ∃ d : Doclet, now[p]? = some d ∧ (d.state = .created ∨ d.state = .tagsApplied)) ∧
      (∀ problem, (call.run now).1 = .error problem → (call.run now).2 = now) ∧
      ∀ members index reporter, call = .link members index reporter → ∀ (p : Nat) (d : Doclet), now[p]? = some d →
        d.state ∈ [.created, .tagsApplied, .pruned] → ∃ d', (call.run now).2[p]? = some d' ∧ d'.state = d.state := by
  refine ⟨?_, (named_runAll calls ds).1, ?_⟩
  · rintro before later rfl p d hd
    rw [runAll_append]
    exact runAll_rank_le later hd
  · intro before call later _ now
    refine ⟨fun p hp => ?_, fun problem h => (Call.run_refused h).1, ?_⟩
    · obtain ⟨d, -, hd, ha, -⟩ := Call.run_named hp
      exact ⟨d, hd, awaitsName_iff.1 ha⟩
    · rintro members index reporter rfl p d hd hs
      obtain ⟨d', hd', hadvances⟩ := run_link hd members index reporter
      refine ⟨d', hd', ?_⟩
      rcases hadvances with hsame | ⟨hresolved, -⟩
      · exact hsame
      · rw [hresolved] at hs
        exact absurd hs (by decide)

/-- Two doclets, of which one borrows the other: they get their places, are linked and pruned, and one of them is asked
to find its place again. -/
theorem states_go_forward_borrowed :
    let ds : List Doclet := [{ name := some "A", declared.borrows := [{ source := "B" }] }, { name := some "B" }]
    let before : List Call :=
      [.resolve 1 {} {}, .resolve 0 {} {}, .link [0, 1] [("A", [0]), ("B", [1])] {}, .prune [0, 1, 2] {}]
    let again : Call := .resolve 1 {} {}
    let now := (runAll before ds).2
    now.map (·.state) = [.crossReferenced, .crossReferenced, .crossReferenced, .pruned, .pruned, .pruned] ∧
      named (runAll (before ++ [again]) ds).1 = [1, 0] ∧ (named (runAll (before ++ [again]) ds).1).Nodup ∧
      (again.run now).1.toOption = none ∧ (again.run now).2 = now := by
  intro ds before again now
  have hrefused : (again.run now).1.toOption = none := Option.isNone_iff_eq_none.1 (by decide +kernel)
  obtain ⟨-, hnodup, hcalls⟩ := states_go_forward (before ++ [again]) ds
  refine ⟨by decide +kernel, by decide +kernel, hnodup, hrefused, ?_⟩
  cases houtcome : (again.run now).1 with
  | ok position =>
    rw [houtcome] at hrefused
    cases hrefused
  | error problem => exact (hcalls before again [] rfl).2.1 problem houtcome

end Lifecycle
end SymbolDocs
