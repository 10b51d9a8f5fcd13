import Mathlib.Data.List.Basic
import SymbolDocs.Database.Pruning

/-!
# Pruning

Pruning keeps some of the doclets, in their order, and changes nothing about them but their state
(`Database.doclets_pruned`). Whether a doclet is kept does not depend on its state, so one pruning after another keeps
what both keep (`Database.pruned_pruned`). There are four reasons why an access level is allowed
(`PruneOptions.allowsAccess_iff`), and options that permit more leave each of them standing
(`PruneOptions.Permits.publishes`). `Database.pruned_filters` puts this together.
-/

namespace SymbolDocs

variable {o o₁ o₂ : PruneOptions} {level : Option String} {d : Doclet}

/-! ## What is published -/

namespace PruneOptions

/-- The reasons why symbols of an access level are published. -/
inductive Allows (o : PruneOptions) : Option String → Prop
  /-- Without a list, every level but the private one. -/
  | unlisted {level : Option String} (hnone : o.access = none) (hlevel : level ≠ some "private") : Allows o level
  /-- The private level, by the option for it. -/
  | shown (hshow : o.showPrivate = true) : Allows o (some "private")
  /-- Every level, by the word for all. -/
  | all {level : Option String} {listed : List String} {word : String} (hlist : o.access = some listed)
      (hmem : word ∈ listed) (hword : Text.lower word = "all") : Allows o level
  /-- A level that is listed, where a symbol without a level is listed by a word of its own. -/
  | listed {level : Option String} {listed : List String} {word : String} (hlist : o.access = some listed)
      (hmem : word ∈ listed) (hword : Text.lower word = level.getD "undefined") : Allows o level

theorem contains_map_lower {listed : List String} {word : String} :
    (listed.map Text.lower).contains word = true ↔ ∃ word' ∈ listed, Text.lower word' = word := by
  rw [List.contains_iff_mem, List.mem_map]

theorem allowsAccess_unlisted (h : o.access = none) :
    o.allowsAccess level = true ↔ level ≠ some "private" ∨ o.showPrivate = true := by
  simp [allowsAccess, levels, h]

theorem allowsAccess_listed {listed : List String} (h : o.access = some listed) :
    o.allowsAccess level = true ↔ (∃ word ∈ listed, Text.lower word = "all") ∨
      (level = some "private" ∧ o.showPrivate = true) ∨
      ∃ word ∈ listed, Text.lower word = level.getD "undefined" := by
  have hlevels : o.levels = some (listed.map Text.lower) := by rw [levels, h, Option.map_some]
  rw [allowsAccess, hlevels]
  dsimp only
  rw [Bool.or_eq_true, contains_map_lower]
  refine or_congr_right ?_
  split
  · rw [contains_map_lower]
    simp
  · rw [Bool.or_eq_true, contains_map_lower]
    simp
  · next level hprivate =>
    have hlevel : some level ≠ some "private" := fun he => hprivate (Option.some.inj he)
    rw [contains_map_lower, Option.getD_some]
    simp [hlevel]

/-- **When symbols of an access level are published.** -/
theorem allowsAccess_iff : o.allowsAccess level = true ↔ o.Allows level := by
  -- Without a list the last two reasons are no reasons, and with a list the first one is none.
  cases haccess : o.access with
  | none =>
    rw [allowsAccess_unlisted haccess]
    constructor
    · rintro (hlevel | hshow)
      · exact .unlisted haccess hlevel
      · rcases eq_or_ne level (some "private") with rfl | hlevel
        · exact .shown hshow
        · exact .unlisted haccess hlevel
    · rintro (⟨-, hlevel⟩ | hshow | ⟨hlist, -, -⟩ | ⟨hlist, -, -⟩)
      · exact .inl hlevel
      · exact .inr hshow
      · rw [haccess] at hlist
        cases hlist
      · rw [haccess] at hlist
        cases hlist
  | some listed =>
    rw [allowsAccess_listed haccess]
    constructor
    · rintro (⟨word, hmem, hword⟩ | ⟨rfl, hshow⟩ | ⟨word, hmem, hword⟩)
      · exact .all haccess hmem hword
      · exact .shown hshow
      · exact .listed haccess hmem hword
    · rintro (⟨hnone, -⟩ | hshow | ⟨hlist, hmem, hword⟩ | ⟨hlist, hmem, hword⟩)
      · rw [haccess] at hnone
        cases hnone
      · exact .inr (.inl ⟨rfl, hshow⟩)
      · rw [haccess] at hlist
        cases hlist
        exact .inl ⟨_, hmem, hword⟩
      · rw [haccess] at hlist
        cases hlist
        exact .inr (.inr ⟨_, hmem, hword⟩)

/-- A doclet is published: it is documented or need not be, it is not to be ignored, its owner has a name, and its
access level is allowed. -/
structure Publishes (o : PruneOptions) (d : Doclet) : Prop where
  documented : d.undocumented = true → o.includeUndocumented = true
  heeded : d.ignore = false
  placed : d.memberof ≠ some nameless
  allowed : o.Allows d.access

/-- **When a doclet is kept.** -/
theorem keeps_iff : o.keeps d = true ↔ o.Publishes d := by
  have hparts : o.keeps d = true ↔ (d.undocumented = true → o.includeUndocumented = true) ∧ d.ignore = false ∧
      d.memberof ≠ some nameless ∧ o.allowsAccess d.access = true := by
    rw [keeps]
    cases d.undocumented <;> simp [and_assoc]
  rw [hparts, allowsAccess_iff]
  exact ⟨fun ⟨hd, hi, hm, ha⟩ => ⟨hd, hi, hm, ha⟩, fun h => ⟨h.documented, h.heeded, h.placed, h.allowed⟩⟩

/-- The second options permit at least what the first ones permit. -/
structure Permits (o₁ o₂ : PruneOptions) : Prop where
  showPrivate (h : o₁.showPrivate = true) : o₂.showPrivate = true
  includeUndocumented (h : o₁.includeUndocumented = true) : o₂.includeUndocumented = true
  access : (o₁.access = none ∧ o₂.access = none) ∨ ∃ listed₁ listed₂, o₁.access = some listed₁ ∧
    o₂.access = some listed₂ ∧ ∀ word ∈ listed₁, ∃ word' ∈ listed₂, Text.lower word = Text.lower word'

namespace Permits

/-- A word of the first list is in the second one too, perhaps in other letters. -/
theorem listed (h : o₁.Permits o₂) {listed : List String} (hlist : o₁.access = some listed) {word : String}
    (hmem : word ∈ listed) :
    ∃ listed₂ word', o₂.access = some listed₂ ∧ word' ∈ listed₂ ∧ Text.lower word' = Text.lower word := by
  rcases h.access with ⟨hnone, -⟩ | ⟨listed₁, listed₂, h₁, h₂, hsub⟩
  · rw [hlist] at hnone
    cases hnone
  · rw [hlist] at h₁
    cases h₁
    obtain ⟨word', hmem', he⟩ := hsub word hmem
    exact ⟨listed₂, word', h₂, hmem', he.symm⟩

theorem allows (h : o₁.Permits o₂) (ha : o₁.Allows level) : o₂.Allows level := by
  cases ha with
  | unlisted hnone hlevel =>
    rcases h.access with ⟨-, hnone₂⟩ | ⟨listed₁, listed₂, h₁, -, -⟩
    · exact .unlisted hnone₂ hlevel
    · rw [hnone] at h₁
      cases h₁
  | shown hshow => exact .shown (h.showPrivate hshow)
  | all hlist hmem hword =>
    obtain ⟨listed₂, word', hlist₂, hmem₂, he⟩ := h.listed hlist hmem
    exact .all hlist₂ hmem₂ (he.trans hword)
  | listed hlist hmem hword =>
    obtain ⟨listed₂, word', hlist₂, hmem₂, he⟩ := h.listed hlist hmem
    exact .listed hlist₂ hmem₂ (he.trans hword)

/-- **Options that permit more publish more.** -/
theorem publishes (h : o₁.Permits o₂) (hp : o₁.Publishes d) : o₂.Publishes d where
  documented hu := h.includeUndocumented (hp.documented hu)
  heeded := hp.heeded
  placed := hp.placed
  allowed := h.allows hp.allowed

theorem keeps (h : o₁.Permits o₂) (hk : o₁.keeps d = true) : o₂.keeps d = true :=
  keeps_iff.2 (h.publishes (keeps_iff.1 hk))

end Permits

end PruneOptions

/-! ## Pruned databases -/

/-- The copy of a doclet that is published. -/
def Doclet.asPruned (d : Doclet) : Doclet := { d with state := .pruned }

/-- Whether a doclet is published does not depend on its state. -/
theorem PruneOptions.keeps_asPruned (o : PruneOptions) : o.keeps ∘ Doclet.asPruned = o.keeps := rfl

namespace Database

theorem doclets_extend (db : Database) (ds : List Doclet) : (db.extend ds).doclets = db.doclets ++ ds := by
  induction ds generalizing db with
  | nil => exact (List.append_nil _).symm
  | cons d ds ih =>
    have hextend : db.extend (d :: ds) = (db.add d).extend ds := rfl
    rw [hextend, ih, doclets_add, List.append_assoc, List.singleton_append]

theorem doclets_ofList (ds : List Doclet) : (ofList ds).doclets = ds := doclets_extend {} ds

theorem pruned_eq (db : Database) (o : PruneOptions) :
    db.pruned o = .ofList ((db.doclets.filter o.keeps).map Doclet.asPruned) := rfl

/-- **What a pruned database has.** -/
theorem doclets_pruned (db : Database) (o : PruneOptions) :
    (db.pruned o).doclets = (db.doclets.filter o.keeps).map Doclet.asPruned :=
  doclets_ofList _

/-- **One pruning after another keeps what both keep.** -/
theorem pruned_pruned (db : Database) (o₁ o₂ : PruneOptions) : (db.pruned o₁).pruned o₂ =
    .ofList ((db.doclets.filter fun d => o₁.keeps d && o₂.keeps d).map Doclet.asPruned) := by
  have htwice : Doclet.asPruned ∘ Doclet.asPruned = Doclet.asPruned := rfl
  rw [pruned_eq, doclets_pruned, List.filter_map, o₂.keeps_asPruned, List.map_map, htwice, List.filter_filter]
  simp only [Bool.and_comm]

/-- **Pruning is a filter that grows with its options.** It keeps the doclets that are published in their order and
changes nothing but their state. Pruning again with the same options changes nothing, pruning with other options
afterwards keeps what both keep, whichever come first, and options that permit more keep more. The database that is
pruned is a value and stays what it is. -/
theorem pruned_filters (db : Database) (o o₁ o₂ : PruneOptions) :
    ((∀ d, o.keeps d = true ↔ o.Publishes d) ∧ (db.doclets.filter o.keeps).Sublist db.doclets ∧
      (db.pruned o).doclets = (db.doclets.filter o.keeps).map fun d => { d with state := .pruned }) ∧
    (db.pruned o).pruned o = db.pruned o ∧
    ((db.pruned o₁).pruned o₂ = (db.pruned o₂).pruned o₁ ∧
      ((db.pruned o₁).pruned o₂).doclets =
        (db.doclets.filter fun d => o₁.keeps d && o₂.keeps d).map fun d => { d with state := .pruned }) ∧
    (o₁.Permits o₂ → (∀ d ∈ db.doclets, o₁.keeps d = true → o₂.keeps d = true) ∧
      (db.pruned o₁).doclets.Sublist (db.pruned o₂).doclets) := by
  have hkept := doclets_pruned db o
  refine ⟨⟨fun _ => PruneOptions.keeps_iff, List.filter_sublist, hkept⟩, ?_, ⟨?_, ?_⟩, fun h => ⟨?_, ?_⟩⟩
  · rw [pruned_pruned, pruned_eq]
    simp only [Bool.and_self]
  · rw [pruned_pruned, pruned_pruned]
    simp only [Bool.and_comm]
  · rw [pruned_pruned, doclets_ofList]
    rfl
  · exact fun d _ hk => h.keeps hk
  · rw [doclets_pruned, doclets_pruned]
    exact (List.monotone_filter_right db.doclets fun d hk => h.keeps hk).map Doclet.asPruned

/-- A level in other letters, a private symbol and one without a level. -/
theorem pruned_filters_levels :
    let db := ofList [{ access := some "private" }, {}, { access := some "public" }, { ignore := true }]
    let narrow : PruneOptions := { access := some ["Public"] }
    let wide : PruneOptions := { access := some ["undefined", "PUBLIC"], showPrivate := true }
    narrow.Permits wide ∧ (∀ d ∈ db.doclets, narrow.keeps d = true → wide.keeps d = true) ∧
      (db.pruned narrow).doclets.Sublist (db.pruned wide).doclets ∧
      (db.pruned narrow).size = 1 ∧ (db.pruned wide).size = 3 := by
  intro db narrow wide
  have hpermits : narrow.Permits wide := by
    refine ⟨fun h => (Bool.false_ne_true h).elim, fun h => h, .inr ⟨_, _, rfl, rfl, fun word hmem => ?_⟩⟩
    rw [List.mem_singleton.1 hmem]
    exact ⟨"PUBLIC", List.mem_cons_of_mem _ List.mem_cons_self, by decide +kernel⟩
  obtain ⟨-, -, -, hmonotone⟩ := pruned_filters db narrow narrow wide
  obtain ⟨hkeeps, hsublist⟩ := hmonotone hpermits
  exact ⟨hpermits, hkeeps, hsublist, by decide +kernel, by decide +kernel⟩

end Database

end SymbolDocs
