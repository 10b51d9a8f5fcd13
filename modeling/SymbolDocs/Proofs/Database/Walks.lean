import Mathlib.Data.List.Chain
import SymbolDocs.Proofs.Database.Scanning
import SymbolDocs.Proofs.Naming.Composition

/-!
# Walks to ancestors

What the owners of doclets are is up to their comments: an owner may be missing, it may not be documented, or the owners
may lead back to one another, with or without the doclet that the walk starts from. `Database.Ancestry` says what the
ancestors are in all these cases, and in a database whose longnames stay the same there is one list of this sort, which
the walk finds (`Database.Indexed.ancestry_iff`). A reporter does not matter for the list. He is told of a loop by the
first walk from a longname that ends in one, and by no later walk from the same longname (`AncestryCall.walks_told`).
-/

namespace SymbolDocs
namespace Database

variable {db : Database} {d parent : Doclet} {owner : String} {seen : List String} {found as : List Doclet}
  {repeated : Option String}

/-! ## Steps -/

/-- The first doclet of a longname. -/
def first? (db : Database) (longname : String) : Option Doclet := db.doclets.find? (·.longname = some longname)

theorem longname_of_first? (h : db.first? owner = some parent) : parent.longname = some owner := by
  simpa using List.find?_some h

theorem first?_eq_none_iff : db.first? owner = none ↔ ∀ d ∈ db.doclets, d.longname ≠ some owner := by
  simp [first?]

/-- In a database whose index is right, looking a longname up gives its first doclet first. -/
theorem Indexed.head?_get (h : db.Indexed) (longname : String) : (db.get longname).head? = db.first? longname := by
  rw [h.get_eq, List.head?_filter, first?]

/-- A doclet is the first one of the longname that is the owner of another doclet. -/
def FirstOwner (db : Database) (d parent : Doclet) : Prop :=
  ∃ owner, nonempty d.memberof = some owner ∧ db.first? owner = some parent

theorem FirstOwner.first? (h : db.FirstOwner d parent) (ho : nonempty d.memberof = some owner) :
    db.first? owner = some parent := by
  obtain ⟨owner', ho', hfirst⟩ := h
  rw [ho] at ho'
  cases ho'
  exact hfirst

/-- A walk from a doclet that has passed some longnames: the doclets on the way, and the owner that ends it if the walk
has passed this before. -/
inductive Walk (db : Database) : List String → Doclet → List Doclet → Option String → Prop
  | noOwner {seen : List String} {d : Doclet} (ho : nonempty d.memberof = none) : Walk db seen d [] none
  | repeated {seen : List String} {d : Doclet} {owner : String} (ho : nonempty d.memberof = some owner)
      (hs : owner ∈ seen) : Walk db seen d [] (some owner)
  | undocumented {seen : List String} {d : Doclet} {owner : String} (ho : nonempty d.memberof = some owner)
      (hs : owner ∉ seen) (hnone : db.first? owner = none) : Walk db seen d [] none
  | step {seen : List String} {d parent : Doclet} {owner : String} {found : List Doclet} {repeated : Option String}
      (ho : nonempty d.memberof = some owner) (hs : owner ∉ seen)
      (hfirst : db.first? owner = some parent)
      (further : Walk db (owner :: seen) parent found repeated) : Walk db seen d (parent :: found) repeated

theorem Indexed.walk (h : db.Indexed) (seen : List String) (d : Doclet) :
    Walk db seen d (db.walkOwners seen d).1 (db.walkOwners seen d).2 := by
  fun_induction walkOwners db seen d with
  | case1 seen d ho => exact .noOwner ho
  | case2 seen d owner ho hs => exact .repeated ho (List.contains_iff_mem.1 hs)
  | case3 seen d owner ho hs hget =>
    refine .undocumented ho (mt List.contains_iff_mem.2 hs) ?_
    rw [← h.head?_get, hget, List.head?_nil]
  | case4 seen d owner ho hs parent rest hget _ further repeated hwalk ih =>
    rw [hwalk] at ih
    refine .step ho (mt List.contains_iff_mem.2 hs) ?_ ih
    rw [← h.head?_get, hget, List.head?_cons]

/-! ## What a walk finds -/

/-- The doclets on the way from a doclet outwards past some longnames, the nearest one first. -/
structure Trace (db : Database) (seen : List String) (d : Doclet) (found : List Doclet) : Prop where
  owners : (d :: found).IsChain db.FirstOwner
  fresh : ∀ a ∈ found, ∀ s ∈ seen, a.longname ≠ some s
  distinct : (found.map (·.longname)).Nodup
  ended : ∀ owner, nonempty (found.getLast?.getD d).memberof = some owner →
    db.first? owner = none ∨ owner ∈ seen ∨ some owner ∈ found.map (·.longname)

/-- A trace without doclets ends where it starts. -/
theorem trace_nil_iff : Trace db seen d [] ↔ ∀ owner, nonempty d.memberof = some owner →
    db.first? owner = none ∨ owner ∈ seen := by
  constructor
  · intro h owner ho
    simpa using h.ended owner ho
  · intro h
    exact ⟨.singleton d, fun a ha => (by cases ha), List.nodup_nil, fun owner ho => (h owner ho).imp_right .inl⟩

/-- A trace goes on from the first doclet as a trace that has passed the longname of this doclet too. -/
theorem trace_cons_iff (ho : nonempty d.memberof = some owner) (hs : owner ∉ seen)
    (hfirst : db.first? owner = some parent) :
    Trace db seen d (parent :: found) ↔ Trace db (owner :: seen) parent found := by
  have hl := longname_of_first? hfirst
  have hlast : (parent :: found).getLast?.getD d = found.getLast?.getD parent := by
    rw [List.getLast?_cons, Option.getD_some]
  constructor
  · intro h
    have hdistinct : parent.longname ∉ found.map (·.longname) ∧ (found.map (·.longname)).Nodup :=
      List.nodup_cons.1 h.distinct
    refine ⟨(List.isChain_cons_cons.1 h.owners).2, fun a ha s hmem => ?_, hdistinct.2, fun o hlastOwner => ?_⟩
    · rcases List.mem_cons.1 hmem with rfl | hmem
      · rw [← hl]
        exact fun he => hdistinct.1 (he ▸ List.mem_map_of_mem ha)
      · exact h.fresh a (List.mem_cons_of_mem _ ha) s hmem
    · rcases h.ended o (by rwa [hlast]) with hnone | hmem | hmem
      · exact .inl hnone
      · exact .inr (.inl (List.mem_cons_of_mem _ hmem))
      · rw [List.map_cons, List.mem_cons, hl, Option.some.injEq] at hmem
        exact .inr (hmem.imp_left fun he => List.mem_cons.2 (.inl he))
  · intro h
    refine ⟨.cons_cons ⟨owner, ho, hfirst⟩ h.owners, fun a ha s hmem => ?_, ?_, fun o hlastOwner => ?_⟩
    · rcases List.mem_cons.1 ha with rfl | ha
      · rw [hl]
        exact fun he => hs (Option.some.inj he ▸ hmem)
      · exact h.fresh a ha s (List.mem_cons_of_mem _ hmem)
    · rw [List.map_cons, List.nodup_cons, hl]
      refine ⟨fun hmem => ?_, h.distinct⟩
      obtain ⟨a, ha, he⟩ := List.mem_map.1 hmem
      exact h.fresh a ha owner List.mem_cons_self he
    · rw [hlast] at hlastOwner
      rcases h.ended o hlastOwner with hnone | hmem | hmem
      · exact .inl hnone
      · rcases List.mem_cons.1 hmem with rfl | hmem
        · exact .inr (.inr (by simp [hl]))
        · exact .inr (.inl hmem)
      · exact .inr (.inr (List.mem_cons_of_mem _ hmem))

/-- **A walk finds the one trace that there is.** -/
theorem Walk.trace_iff (h : Walk db seen d found repeated) {as : List Doclet} : Trace db seen d as ↔ as = found := by
  -- Where the walk ends a trace cannot go on, and where it goes on a trace cannot end.
  induction h generalizing as with
  | noOwner ho =>
    cases as with
    | nil => simp [trace_nil_iff, ho]
    | cons a as =>
      refine iff_of_false (fun ht => ?_) nofun
      obtain ⟨owner, ho', -⟩ := (List.isChain_cons_cons.1 ht.owners).1
      rw [ho] at ho'
      cases ho'
  | @repeated seen d owner ho hs =>
    cases as with
    | nil => simp [trace_nil_iff, ho, hs]
    | cons a as =>
      refine iff_of_false (fun ht => ?_) nofun
      have hfirst := (List.isChain_cons_cons.1 ht.owners).1.first? ho
      exact ht.fresh a List.mem_cons_self owner hs (longname_of_first? hfirst)
  | undocumented ho hs hnone =>
    cases as with
    | nil => simp [trace_nil_iff, ho, hnone]
    | cons a as =>
      refine iff_of_false (fun ht => ?_) nofun
      have hfirst := (List.isChain_cons_cons.1 ht.owners).1.first? ho
      rw [hnone] at hfirst
      cases hfirst
  | step ho hs hfirst _ ih =>
    cases as with
    | nil => simp [trace_nil_iff, ho, hs, hfirst]
    | cons a as =>
      rw [List.cons.injEq, ← ih]
      constructor
      · intro ht
        have ha := (List.isChain_cons_cons.1 ht.owners).1.first? ho
        rw [hfirst] at ha
        cases ha
        exact ⟨rfl, (trace_cons_iff ho hs hfirst).1 ht⟩
      · rintro ⟨rfl, ht⟩
        exact (trace_cons_iff ho hs hfirst).2 ht

/-- A walk ends with the owner of its last doclet if the walk has passed this owner before. -/
theorem Walk.repeated_eq (h : Walk db seen d found repeated) :
    repeated = (nonempty (found.getLast?.getD d).memberof).filter fun owner =>
      seen.contains owner || found.any (·.longname = some owner) := by
  induction h with
  | noOwner ho => simp [ho]
  | repeated ho hs => simp [ho, hs, Option.filter]
  | undocumented ho hs _ => simp [ho, hs, Option.filter]
  | step ho hs hfirst _ ih =>
    rw [ih, List.getLast?_cons, Option.getD_some]
    congr 1
    funext o
    rw [List.any_cons, longname_of_first? hfirst, List.contains_cons, Bool.or_assoc, Bool.or_left_comm]
    simp [eq_comm, Bool.beq_eq_decide_eq]

/-! ## Ancestors -/

/-- The outermost one of a doclet and its ancestors, where the most distant ancestor stands first. -/
def outermost (d : Doclet) (as : List Doclet) : Doclet := as.head?.getD d

/-- The owner of the outermost one, if this is the longname of one of them. -/
def repeated? (d : Doclet) (as : List Doclet) : Option String :=
  (nonempty (outermost d as).memberof).filter fun owner => (as ++ [d]).any (·.longname = some owner)

/-- The ancestors of a doclet, the most distant one first. -/
structure Ancestry (db : Database) (d : Doclet) (as : List Doclet) : Prop where
  /-- Each ancestor is the first doclet of the longname that is the owner of the next one, and the last one is that of
  the owner of the doclet. -/
  owners : (as ++ [d]).IsChain fun parent child => db.FirstOwner child parent
  distinct : ((as ++ [d]).map (·.longname)).Nodup
  /-- The outermost one has no owner, or one that is not documented, or its owner is one of them. -/
  ended : ∀ owner, nonempty (outermost d as).memberof = some owner →
    (∀ d' ∈ db.doclets, d'.longname ≠ some owner) ∨ ∃ a ∈ as ++ [d], a.longname = some owner

theorem outermost_reverse (d : Doclet) (found : List Doclet) :
    outermost d found.reverse = found.getLast?.getD d := by
  rw [outermost, List.head?_reverse]

theorem mem_nonempty_toList {s : Option String} : owner ∈ (nonempty s).toList ↔ s = some owner ∧ owner ≠ "" := by
  rw [Option.mem_toList, Naming.nonempty_eq_some_iff]

/-- Each doclet on a way outwards is the first one of its longname, which is not empty. -/
theorem exists_first?_of_isChain (h : (d :: found).IsChain db.FirstOwner) :
    ∀ a ∈ found, ∃ owner, owner ≠ "" ∧ db.first? owner = some a := by
  induction found generalizing d with
  | nil => exact fun a ha => by cases ha
  | cons parent found ih =>
    obtain ⟨⟨owner, ho, hfirst⟩, hrest⟩ := List.isChain_cons_cons.1 h
    exact List.forall_mem_cons.2 ⟨⟨owner, (Naming.nonempty_eq_some_iff.1 ho).2, hfirst⟩, ih hrest⟩

/-- The ancestors of a doclet are a trace that has passed the longname of the doclet. -/
theorem ancestry_reverse_iff :
    db.Ancestry d found.reverse ↔ Trace db (nonempty d.longname).toList d found := by
  have hmap : (found.reverse ++ [d]).map (·.longname) = (d.longname :: found.map (·.longname)).reverse := by simp
  constructor
  · intro h
    have hdistinct := List.nodup_cons.1 (List.nodup_reverse.1 (hmap ▸ h.distinct))
    have howners : (d :: found).IsChain db.FirstOwner := by
      rw [← List.isChain_reverse, List.reverse_cons]
      exact h.owners
    refine ⟨howners, fun a ha s hs he => ?_, hdistinct.2, fun owner ho => ?_⟩
    · rw [mem_nonempty_toList] at hs
      exact hdistinct.1 (List.mem_map.2 ⟨a, ha, he.trans hs.1.symm⟩)
    · rw [first?_eq_none_iff, mem_nonempty_toList]
      rcases h.ended owner (by rwa [outermost_reverse]) with hnone | ⟨a, ha, he⟩
      · exact .inl hnone
      · rcases List.mem_append.1 ha with ha | ha
        · exact .inr (.inr (List.mem_map.2 ⟨a, List.mem_reverse.1 ha, he⟩))
        · obtain rfl := List.mem_singleton.1 ha
          exact .inr (.inl ⟨he, (Naming.nonempty_eq_some_iff.1 ho).2⟩)
  · intro h
    refine ⟨?_, ?_, fun owner ho => ?_⟩
    · rw [← List.reverse_cons, List.isChain_reverse]
      exact h.owners
    · rw [hmap, List.nodup_reverse, List.nodup_cons]
      refine ⟨fun hmem => ?_, h.distinct⟩
      obtain ⟨a, ha, he⟩ := List.mem_map.1 hmem
      obtain ⟨owner, hne, hfirst⟩ := exists_first?_of_isChain h.owners a ha
      have hl := longname_of_first? hfirst
      exact h.fresh a ha owner (mem_nonempty_toList.2 ⟨he.symm.trans hl, hne⟩) hl
    · rw [outermost_reverse] at ho
      rcases h.ended owner ho with hnone | hs | hs
      · exact .inl (first?_eq_none_iff.1 hnone)
      · exact .inr ⟨d, by simp, (mem_nonempty_toList.1 hs).1⟩
      · obtain ⟨a, ha, he⟩ := List.mem_map.1 hs
        exact .inr ⟨a, by simp [ha], he⟩

/-- **In a database whose index is right a doclet has one list of ancestors.** -/
theorem Indexed.ancestry_iff (h : db.Indexed) : db.Ancestry d as ↔ as = db.ancestors d := by
  obtain ⟨found, rfl⟩ : ∃ found, as = found.reverse := ⟨as.reverse, (List.reverse_reverse as).symm⟩
  rw [ancestry_reverse_iff, (h.walk _ d).trace_iff, ancestors, List.reverse_inj, ownerWalk]

/-- The owner that ends the walk is the one to which the ancestors lead back. -/
theorem Indexed.ownerWalk_snd (h : db.Indexed) (d : Doclet) : (db.ownerWalk d).2 = repeated? d (db.ancestors d) := by
  rw [ancestors, repeated?, outermost_reverse, ownerWalk, (h.walk _ d).repeated_eq]
  generalize (db.walkOwners (nonempty d.longname).toList d).1 = found
  cases ho : nonempty (found.getLast?.getD d).memberof with
  | none => rfl
  | some owner =>
    have hstart : (nonempty d.longname).toList.contains owner = decide (d.longname = some owner) := by
      rw [Bool.eq_iff_iff, List.contains_iff_mem, mem_nonempty_toList, decide_eq_true_iff]
      exact and_iff_left (Naming.nonempty_eq_some_iff.1 ho).2
    have hany : (found.reverse ++ [d]).any (·.longname = some owner) =
        (decide (d.longname = some owner) || found.any (·.longname = some owner)) := by
      rw [List.any_append, List.any_reverse, List.any_cons, List.any_nil, Bool.or_false, Bool.or_comm]
    simp only [Option.filter, hstart, hany]

/-- There are no more ancestors than doclets in the database. -/
theorem Ancestry.length_le (h : db.Ancestry d as) : as.length ≤ db.size := by
  have hchain : (d :: as.reverse).IsChain db.FirstOwner := by
    rw [← List.isChain_reverse, List.reverse_cons, List.reverse_reverse]
    exact h.owners
  have hnodup : (as.map (·.longname)).Nodup := by
    have hdistinct := h.distinct
    rw [List.map_append] at hdistinct
    exact hdistinct.of_append_left
  refine hnodup.of_map.length_le_of_subset fun a ha => ?_
  obtain ⟨owner, -, hfirst⟩ := exists_first?_of_isChain hchain a (List.mem_reverse.2 ha)
  exact List.mem_of_find?_eq_some hfirst

/-! ## The reporter -/

/-- Tells a reporter that the owners of a doclet lead back to one of them, if they do. -/
def tellLoop (d : Doclet) (repeated : Option String) (r : Reporter) : Reporter :=
  match repeated with
  | some owner => r.reportOnce (d.longname.getD "") (.cyclicAncestry (d.longname.getD "") owner) d.location
  | none => r

/-- One walk finds the ancestors and tells the reporter. -/
theorem gatherOwners_eq (start : Doclet) (reporter : Option Reporter) (seen : List String) (found : List Doclet)
    (current : Doclet) : db.gatherOwners start reporter seen found current =
      ((db.walkOwners seen current).1.reverse ++ found,
        reporter.map (tellLoop start (db.walkOwners seen current).2)) := by
  have hnone : reporter.map (tellLoop start none) = reporter := by cases reporter <;> rfl
  fun_induction gatherOwners db start reporter seen found current with
  | case1 seen found current ho =>
    rw [walkOwners, ho]
    simp [hnone]
  | case2 seen found current owner ho hs key =>
    rw [walkOwners, ho]
    simp only [dif_pos hs]
    rfl
  | case3 seen found current owner ho hs hget =>
    rw [walkOwners, ho]
    simp only [dif_neg hs]
    split
    · simp [hnone]
    · next hcons =>
      rw [hget] at hcons
      cases hcons
  | case4 seen found current owner ho hs parent rest hget _ ih =>
    rw [ih, walkOwners.eq_def db seen current, ho]
    simp only [dif_neg hs]
    split
    · next hnil =>
      rw [hget] at hnil
      cases hnil
    · next hcons =>
      rw [hget] at hcons
      cases hcons
      simp

/-- **The list of ancestors is the same with and without a reporter**, who is told if they lead back to one another. -/
theorem Indexed.askAncestors_eq (h : db.Indexed) (d : Doclet) (reporter : Option Reporter) :
    db.askAncestors d reporter =
      (db.ancestors d, reporter.map (tellLoop d (repeated? d (db.ancestors d)))) := by
  rw [askAncestors, gatherOwners_eq, List.append_nil, ← h.ownerWalk_snd]
  rfl

end Database

/-! ## Many walks -/

namespace Reporter

/-- Whether a reporter has been told that the owners above a longname lead back to one another. -/
def knowsLoop (r : Reporter) (start : String) : Bool := r.reportedOnce.contains ("cyclic-ancestry", start)

end Reporter

/-- A walk to the ancestors of a doclet in some database. -/
structure AncestryCall where
  database : Database
  doclet : Doclet

namespace AncestryCall

variable {c : AncestryCall} {calls before : List AncestryCall} {r r' : Reporter}

/-- The longname that a walk starts from. A missing one counts as the empty one. -/
def start (c : AncestryCall) : String := c.doclet.longname.getD ""

/-- The owner to which the ancestors lead back. -/
def loop? (c : AncestryCall) : Option String := Database.repeated? c.doclet (c.database.ancestors c.doclet)

/-- What is to be told about the ancestors. -/
def diagnostic? (c : AncestryCall) : Option Diagnostic :=
  c.loop?.map fun owner => .ofProblem (.cyclicAncestry c.start owner) c.doclet.location

/-- The reporter after a walk. -/
def tell (r : Reporter) (c : AncestryCall) : Reporter := Database.tellLoop c.doclet c.loop? r

/-- The reporter after some walks, each of which gives it back. -/
def toldAll (r : Reporter) (calls : List AncestryCall) : Option Reporter :=
  calls.foldl (fun reporter c => (c.database.askAncestors c.doclet reporter).2) (some r)

theorem toldAll_eq (h : ∀ c ∈ calls, c.database.Indexed) (r : Reporter) :
    toldAll r calls = some (calls.foldl tell r) := by
  unfold toldAll
  induction calls generalizing r with
  | nil => rfl
  | cons c calls ih =>
    obtain ⟨hc, hcalls⟩ := List.forall_mem_cons.1 h
    rw [List.foldl_cons, List.foldl_cons, hc.askAncestors_eq]
    exact ih hcalls (tell r c)

/-- A walk does nothing with a reporter who knows of the loop or if there is none. -/
theorem tell_eq_self (h : c.loop?.isSome → r.knowsLoop c.start = true) : tell r c = r := by
  unfold tell Database.tellLoop
  split
  · next owner ho =>
    rw [ho] at h
    exact if_pos (h rfl)
  · rfl

/-- A walk tells a reporter of a loop that is new. -/
theorem tell_eq {owner : String} (ho : c.loop? = some owner) (h : r.knowsLoop c.start = false) :
    tell r c = { r with reportedOnce := ("cyclic-ancestry", c.start) :: r.reportedOnce }.report
      (.cyclicAncestry c.start owner) c.doclet.location := by
  have hnew : ¬ r.hasReported c.start (.cyclicAncestry c.start owner) = true := by
    rw [Bool.not_eq_true]
    exact h
  unfold tell Database.tellLoop
  rw [ho]
  exact if_neg hnew

theorem records_tell {owner : String} (ho : c.loop? = some owner) (h : r.knowsLoop c.start = false) :
    (tell r c).records = r.records ++ [.ofProblem (.cyclicAncestry c.start owner) c.doclet.location] := by
  rw [tell_eq ho h, Reporter.report, Reporter.records_emit]

/-- A reporter knows of a loop after a walk if he knew of it before or the walk ends in it. -/
theorem knowsLoop_tell {start : String} :
    (tell r c).knowsLoop start = true ↔ r.knowsLoop start = true ∨ (c.loop?.isSome ∧ c.start = start) := by
  by_cases hknown : c.loop?.isSome → r.knowsLoop c.start = true
  · rw [tell_eq_self hknown]
    refine ⟨.inl, ?_⟩
    rintro (h | ⟨hloop, rfl⟩)
    · exact h
    · exact hknown hloop
  · obtain ⟨hloop, hnew⟩ := Classical.not_imp.1 hknown
    obtain ⟨owner, ho⟩ := Option.isSome_iff_exists.1 hloop
    have hmemory : (tell r c).reportedOnce = ("cyclic-ancestry", c.start) :: r.reportedOnce := by
      rw [tell_eq ho (Bool.eq_false_iff.2 hnew)]
      rfl
    have hcons : (tell r c).knowsLoop start = true ↔ start = c.start ∨ r.knowsLoop start = true := by
      rw [Reporter.knowsLoop, hmemory, List.contains_iff_mem, List.mem_cons, Prod.mk.injEq, and_iff_right rfl,
        ← List.contains_iff_mem, Reporter.knowsLoop]
    rw [hcons, and_iff_right hloop, or_comm]
    exact or_congr Iff.rfl eq_comm

theorem knowsLoop_foldl {start : String} : (calls.foldl tell r).knowsLoop start = true ↔
    r.knowsLoop start = true ∨ ∃ c ∈ calls, c.loop?.isSome ∧ c.start = start := by
  induction calls generalizing r with
  | nil => simp
  | cons c calls ih => rw [List.foldl_cons, ih, knowsLoop_tell, List.exists_mem_cons_iff, or_assoc]

/-- After some walks a walk is the first one that ends in a loop from its longname, and a reporter did not know of such
a loop before the walks. -/
def First (r : Reporter) (before : List AncestryCall) (c : AncestryCall) : Prop :=
  c.loop?.isSome ∧ r.knowsLoop c.start = false ∧ ∀ c' ∈ before, c'.loop?.isSome → c'.start ≠ c.start

instance (r : Reporter) (before : List AncestryCall) (c : AncestryCall) : Decidable (First r before c) :=
  inferInstanceAs (Decidable (_ ∧ _ ∧ _))

theorem first_iff : First r before c ↔ c.loop?.isSome ∧ (before.foldl tell r).knowsLoop c.start = false := by
  rw [Bool.eq_false_iff, ne_eq, knowsLoop_foldl, First, Bool.eq_false_iff]
  simp

/-- The diagnostics of some walks come from walks with different starts. -/
theorem exists_reported (r : Reporter) (calls : List AncestryCall) :
    ∃ reported : List AncestryCall, reported.Sublist calls ∧ (reported.map start).Nodup ∧
      (∀ c ∈ reported, r.knowsLoop c.start = false) ∧
      (calls.foldl tell r).records = r.records ++ reported.filterMap diagnostic? := by
  induction calls generalizing r with
  | nil => exact ⟨[], .slnil, List.nodup_nil, fun c hc => (by cases hc), (List.append_nil _).symm⟩
  | cons c calls ih =>
    obtain ⟨reported, hsub, hnodup, hnew, hrecords⟩ := ih (tell r c)
    have hnew' : ∀ c' ∈ reported, r.knowsLoop c'.start = false ∧ ¬ (c.loop?.isSome ∧ c.start = c'.start) := by
      intro c' hc'
      have h := hnew c' hc'
      rw [Bool.eq_false_iff, ne_eq, knowsLoop_tell, not_or, ← ne_eq, ← Bool.eq_false_iff] at h
      exact h
    rw [List.foldl_cons, hrecords]
    -- The first call is among those that are told unless it has no loop or the reporter knows of it.
    by_cases hknown : c.loop?.isSome → r.knowsLoop c.start = true
    · refine ⟨reported, hsub.cons c, hnodup, fun c' hc' => (hnew' c' hc').1, ?_⟩
      rw [tell_eq_self hknown]
    · obtain ⟨hloop, hfresh⟩ := Classical.not_imp.1 hknown
      obtain ⟨owner, ho⟩ := Option.isSome_iff_exists.1 hloop
      have hfresh := Bool.eq_false_iff.2 hfresh
      refine ⟨c :: reported, hsub.cons_cons c, List.nodup_cons.2 ⟨fun hmem => ?_, hnodup⟩,
        List.forall_mem_cons.2 ⟨hfresh, fun c' hc' => (hnew' c' hc').1⟩, ?_⟩
      · obtain ⟨c', hc', hstart⟩ := List.mem_map.1 hmem
        exact (hnew' c' hc').2 ⟨hloop, hstart.symm⟩
      · have hdiagnostic : c.diagnostic? = some (.ofProblem (.cyclicAncestry c.start owner) c.doclet.location) := by
          rw [diagnostic?, ho]
          rfl
        rw [records_tell ho hfresh, List.filterMap_cons_some hdiagnostic, List.append_assoc, List.singleton_append]

/-- **Walks to ancestors end, whatever the owners are, and tell a reporter of each loop once.** With and without a
reporter a walk finds the one list of ancestors that there is, which is not longer than the database. A reporter is told
of a loop by the first of the walks from its longname that end in one, and of nothing else. -/
theorem walks_told (h : ∀ c ∈ calls, c.database.Made) (r : Reporter) :
    (∀ c ∈ calls, ∀ reporter,
      (c.database.askAncestors c.doclet reporter).1 = c.database.ancestors c.doclet ∧
      (c.database.ancestors c.doclet).length ≤ c.database.size ∧
      ∀ as, c.database.Ancestry c.doclet as ↔ as = c.database.ancestors c.doclet) ∧
    (∀ before c after, calls = before ++ c :: after → ∃ r₀, toldAll r before = some r₀ ∧
      (¬ First r before c → toldAll r (before ++ [c]) = some r₀) ∧
      (First r before c → ∃ owner r₁, c.loop? = some owner ∧ toldAll r (before ++ [c]) = some r₁ ∧
        r₁.records = r₀.records ++ [.ofProblem (.cyclicAncestry c.start owner) c.doclet.location])) ∧
    ∃ reported : List AncestryCall, reported.Sublist calls ∧ (reported.map start).Nodup ∧
      (toldAll r calls).map (·.records) = some (r.records ++ reported.filterMap diagnostic?) := by
  have hindexed : ∀ c ∈ calls, c.database.Indexed := fun c hc => (h c hc).inStep.indexed
  refine ⟨fun c hc reporter => ?_, fun before c after hcalls => ?_, ?_⟩
  · have hc := hindexed c hc
    exact ⟨by rw [hc.askAncestors_eq], (hc.ancestry_iff.2 rfl).length_le, fun as => hc.ancestry_iff⟩
  · have hbefore : ∀ c' ∈ before ++ [c], c'.database.Indexed := by
      intro c' hc'
      refine hindexed c' ?_
      rw [hcalls, List.append_cons]
      exact List.mem_append_left _ hc'
    have hconcat := toldAll_eq hbefore r
    rw [List.foldl_concat] at hconcat
    refine ⟨before.foldl tell r, toldAll_eq (fun c' hc' => hbefore c' (List.mem_append_left _ hc')) r, ?_, ?_⟩
    · intro hnot
      rw [hconcat]
      refine congrArg some (tell_eq_self fun hloop => ?_)
      rw [first_iff] at hnot
      simpa [hloop] using hnot
    · intro hfirst
      obtain ⟨hloop, hnew⟩ := first_iff.1 hfirst
      obtain ⟨owner, ho⟩ := Option.isSome_iff_exists.1 hloop
      exact ⟨owner, _, ho, hconcat, records_tell ho hnew⟩
  · obtain ⟨reported, hsub, hnodup, -, hrecords⟩ := exists_reported r calls
    refine ⟨reported, hsub, hnodup, ?_⟩
    rw [toldAll_eq hindexed, Option.map_some, hrecords]

/-- Two namespaces that are each other's owner. -/
def twoOwners : Database :=
  .ofList [{ longname := some "x", memberof := some "y" }, { longname := some "y", memberof := some "x" }]

theorem walks_told_twoOwners :
    let x : AncestryCall := { database := twoOwners, doclet := { longname := some "x", memberof := some "y" } }
    let stray : AncestryCall := { database := twoOwners, doclet := { longname := some "s", memberof := some "y" } }
    let calls := [x, stray, x]
    (∀ c ∈ calls, c.database.Made) ∧
      (twoOwners.askAncestors x.doclet none).1.map (·.longname) = [some "y"] ∧
      (twoOwners.askAncestors stray.doclet none).1.map (·.longname) = [some "x", some "y"] ∧
      twoOwners.Ancestry stray.doclet (twoOwners.ancestors stray.doclet) ∧
      First {} [] x ∧ First {} [x] stray ∧ ¬ First {} [x, stray] x ∧
      toldAll {} calls = toldAll {} [x, stray] ∧
      ∃ reported : List AncestryCall, reported.Sublist calls ∧ (reported.map start).Nodup ∧
        (toldAll {} calls).map (·.records) = some (reported.filterMap diagnostic?) := by
  intro x stray calls
  have htwo : twoOwners.Made := .ofList _
  have hmade : ∀ c ∈ calls, c.database.Made :=
    List.forall_mem_cons.2 ⟨htwo, List.forall_mem_cons.2 ⟨htwo, List.forall_mem_singleton.2 htwo⟩⟩
  obtain ⟨hlists, hcalls, hreported⟩ := walks_told hmade {}
  obtain ⟨r₀, hr₀, hknown, -⟩ := hcalls [x, stray] x [] rfl
  have hlast : ¬ First {} [x, stray] x := by decide +kernel
  refine ⟨hmade, by decide +kernel, by decide +kernel, ?_, by decide +kernel, by decide +kernel, hlast, ?_, hreported⟩
  · exact ((hlists stray (by simp [calls]) none).2.2 _).2 rfl
  · rw [hr₀]
    exact hknown hlast

end AncestryCall
end SymbolDocs
