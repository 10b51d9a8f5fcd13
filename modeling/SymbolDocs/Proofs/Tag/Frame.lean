import SymbolDocs.Proofs.Outcome
import SymbolDocs.Tag.Applying

/-!
# What tags leave alone

Tags fill most fields of a doclet, but not all: where the doclet comes from, its state and its links to other doclets
are none of their business. An effect leaves these fields and the references to events alone (`Effect.frame_of_apply`),
with two exceptions: the rules of the tags for events add a reference, and an effect of a foreign grammar may store what
the doclet is borrowed from (`Effect.writesSource`). The lists of values are left alone too, except by effects that
append to them and by the rule of the tag for modules (`Handler.holdings_of_apply`). What each effect does, the tags of
a comment do together (`Tag.Carries.applyAll`). So they never change what a doclet comes from, unless one of their
effects writes it (`Tag.source_of_applyAll`), and whatever they are, its construct stays the same
(`Tag.origin_of_applyAll`).
-/

namespace SymbolDocs

open SymbolDocs.Text Handler.apply

/-- The fields of a doclet that tags do not fill, and its references to events. -/
structure Frame where
  comment : String
  origin : Origin
  state : DocletState
  borrowedFrom : Option String
  borrowed : List Borrow
  listeners : List String
  mixes : List String
  augments : List String
  fires : List String
  listens : List String

namespace Doclet

/-- The frame of a doclet. -/
def frame (d : Doclet) : Frame :=
  { comment := d.comment, origin := d.origin, state := d.state, borrowedFrom := d.borrowedFrom, borrowed := d.borrowed
    listeners := d.listeners, mixes := d.mixes, augments := d.augments, fires := d.fires, listens := d.listens }

/-- The frame of a doclet and its lists of values. -/
def holdings (d : Doclet) : Frame × (ListField → List TagValue) := (d.frame, d.values)

/-- The frame of a doclet without its references to events. -/
def source (d : Doclet) : Frame := { d.frame with fires := [], listens := [] }

end Doclet

variable {tag : Tag} {d d' : Doclet} {path : String}

/-! ## Single effects -/

/-- Whether an effect stores what the doclet is borrowed from. -/
def Effect.writesSource : Effect → Bool
  | .store (.text .borrowedFrom) _ => true
  | .assign (.text .borrowedFrom) _ => true
  | _ => false

theorem frame_appendValue (d : Doclet) (v : TagValue) (field : ListField) :
    (d.appendValue v field).frame = d.frame := by
  cases field <;> rfl

theorem holdings_setText (d : Doclet) (text : Option String) {field : TextField} (hf : field ≠ .borrowedFrom) :
    (d.setText text field).holdings = d.holdings := by
  cases field <;> first | rfl | exact absurd rfl hf

theorem holdings_setFlag (d : Doclet) (b : Bool) (field : FlagField) : (d.setFlag b field).holdings = d.holdings := by
  cases field <;> rfl

theorem holdings_assign (d : Doclet) (datum : Option Datum) {field : ScalarField} (hf : field ≠ .text .borrowedFrom) :
    (d.assign datum field).holdings = d.holdings := by
  cases field with
  | text field =>
    have hf : field ≠ .borrowedFrom := fun he => hf (congrArg ScalarField.text he)
    rcases datum with - | (b | (t | spec | v))
    · exact holdings_setText d none hf
    · rfl
    · exact holdings_setText d (some t) hf
    · rfl
    · rfl
  | flag field =>
    rcases datum with - | (b | v)
    · rfl
    · exact holdings_setFlag d b field
    · rfl
  | scope => rfl
  | type => rcases datum with - | (b | (t | spec | v)) <;> rfl
  | deprecated => rfl

theorem holdings_tagNameIfNonempty (d : Doclet) (name : Option String) :
    (d.tagNameIfNonempty name).holdings = d.holdings := by
  unfold Doclet.tagNameIfNonempty
  split <;> rfl

theorem holdings_stateKind (d : Doclet) (tag : Tag) (kind : String) : (d.stateKind tag kind).holdings = d.holdings := by
  unfold Doclet.stateKind
  dsimp only
  split
  · rw [holdings_tagNameIfNonempty]
    rfl
  · rw [holdings_tagNameIfNonempty]
    rfl
  · rfl

theorem holdings_store {datum : Option Datum} {field : ScalarField} (hf : field ≠ .text .borrowedFrom)
    (h : d.store tag datum field = .ok d') : d'.holdings = d.holdings := by
  unfold Doclet.store at h
  extract_lets text at h
  clear_value text
  split at h
  · split at h <;> cases h
    rfl
  · split at h <;> cases h
    rfl
  · split at h
    · cases h
    · split at h <;> cases h
      rfl
  · cases h
    exact holdings_assign d datum hf

theorem value_of_statedText (h : tag.statedText = .ok path) : tag.value = some (.text path) := by
  unfold Tag.statedText at h
  split at h <;> cases h
  assumption

/-- The rule of a tag for events adds the event of its path to the references, that of a tag for modules adds a value to
the list of these, and all other rules leave the frame and the lists alone. -/
theorem Handler.holdings_of_apply {handler : Handler} (h : handler.apply tag d = .ok d') :
    d'.holdings = d.holdings ∨
      (∃ path, handler = .fires ∧ tag.value = some (.text path) ∧
        d' = { d with fires := addNew (NamePath.addNamespace path "event") d.fires }) ∨
      (∃ path, handler = .listens ∧ tag.value = some (.text path) ∧
        d' = { d with listens := addNew (NamePath.addNamespace path "event") d.listens }) ∨
      ∃ v, handler = .requires ∧ d' = { d with requires := d.requires ++ [v] } := by
  cases handler with
  | fires =>
    obtain ⟨path, ht, rfl⟩ := map_eq_ok.1 h
    exact .inr (.inl ⟨path, rfl, value_of_statedText ht, rfl⟩)
  | listens =>
    obtain ⟨path, ht, rfl⟩ := map_eq_ok.1 h
    exact .inr (.inr (.inl ⟨path, rfl, value_of_statedText ht, rfl⟩))
  | requires =>
    obtain ⟨name, -, rfl⟩ := map_eq_ok.1 h
    exact .inr (.inr (.inr ⟨_, rfl, rfl⟩))
  | augments | mixes | template =>
    obtain ⟨text, -, rfl⟩ := map_eq_ok.1 h
    exact .inl rfl
  | borrows =>
    obtain ⟨text, -, h⟩ := bind_eq_ok.1 h
    split at h <;> cases h
    exact .inl rfl
  | access | kind =>
    unfold Handler.apply at h
    dsimp only at h
    split at h <;> cases h
    exact .inl rfl
  | callback =>
    cases h
    exact .inl (holdings_tagNameIfNonempty { d with kind := some "typedef" } (some tag.valueText))
  | constant =>
    unfold Handler.apply at h
    dsimp only at h
    split at h <;> cases h
    · exact .inl (by rw [holdings_tagNameIfNonempty]; rfl)
    · exact .inl rfl
  | type | define =>
    unfold Handler.apply at h
    dsimp only at h
    split at h <;> cases h <;> exact .inl rfl
  | _ =>
    cases h
    exact .inl rfl

theorem Handler.frame_of_apply {handler : Handler} (h : handler.apply tag d = .ok d') :
    d'.frame = d.frame ∨
      (∃ path, handler = .fires ∧ tag.value = some (.text path) ∧
        d' = { d with fires := addNew (NamePath.addNamespace path "event") d.fires }) ∨
      ∃ path, handler = .listens ∧ tag.value = some (.text path) ∧
        d' = { d with listens := addNew (NamePath.addNamespace path "event") d.listens } := by
  rcases Handler.holdings_of_apply h with hs | hfires | hlistens | ⟨v, -, rfl⟩
  · exact .inl (congrArg Prod.fst hs)
  · exact .inr (.inl hfires)
  · exact .inr (.inr hlistens)
  · exact .inl rfl

/-- **An effect leaves the frame alone**, unless it is the rule of a tag for events or stores what the doclet is
borrowed from. -/
theorem Effect.frame_of_apply {e : Effect} (he : e.writesSource = false) (h : e.apply tag d = .ok d') :
    d'.frame = d.frame ∨
      (∃ path, e = .rule .fires ∧ tag.value = some (.text path) ∧
        d' = { d with fires := addNew (NamePath.addNamespace path "event") d.fires }) ∨
      ∃ path, e = .rule .listens ∧ tag.value = some (.text path) ∧
        d' = { d with listens := addNew (NamePath.addNamespace path "event") d.listens } := by
  cases e with
  | store field fixed =>
    refine .inl (congrArg Prod.fst (holdings_store ?_ h))
    rintro rfl
    cases he
  | append field =>
    simp only [Effect.apply] at h
    split at h <;> cases h
    · exact .inl (frame_appendValue d _ field)
    · exact .inl rfl
  | assign field datum =>
    cases h
    refine .inl (congrArg Prod.fst (holdings_assign d _ ?_))
    rintro rfl
    cases he
  | addModifier modifier =>
    cases h
    exact .inl rfl
  | stateKind kind =>
    cases h
    exact .inl (congrArg Prod.fst (holdings_stateKind d tag kind))
  | rule handler =>
    rcases Handler.frame_of_apply h with hs | ⟨path, rfl, hp⟩ | ⟨path, rfl, hp⟩
    · exact .inl hs
    · exact .inr (.inl ⟨path, rfl, hp⟩)
    · exact .inr (.inr ⟨path, rfl, hp⟩)

theorem Effect.source_of_apply {e : Effect} (he : e.writesSource = false) (h : e.apply tag d = .ok d') :
    d'.source = d.source := by
  rcases Effect.frame_of_apply he h with hs | ⟨path, -, -, rfl⟩ | ⟨path, -, -, rfl⟩
  · rw [Doclet.source, hs, Doclet.source]
  · rfl
  · rfl

/-- An effect that stores what the doclet is borrowed from changes nothing else. -/
theorem Effect.eq_of_writesSource {e : Effect} (he : e.writesSource = true) (h : e.apply tag d = .ok d') :
    ∃ source, d' = { d with borrowedFrom := source } := by
  have hassign (datum : Option Datum) :
      ∃ source, d.assign datum (.text .borrowedFrom) = { d with borrowedFrom := source } := by
    rcases datum with - | (b | (t | spec | v)) <;> exact ⟨_, rfl⟩
  unfold Effect.writesSource at he
  split at he
  · cases h
    exact hassign _
  · cases h
    exact hassign _
  · cases he

theorem Effect.origin_of_apply {e : Effect} (h : e.apply tag d = .ok d') : d'.origin = d.origin := by
  cases he : e.writesSource with
  | true =>
    obtain ⟨source, rfl⟩ := Effect.eq_of_writesSource he h
    rfl
  | false => exact congrArg Frame.origin (Effect.source_of_apply he h)

/-! ## All tags of a comment -/

namespace Tag

variable {dict : Dictionary} {location : Location} {tags : List Tag}

/-- The doclet after a tag. -/
def afterTag (dict : Dictionary) (tag : Tag) (d : Doclet) : Doclet :=
  match effectsOf dict tag with
  | [] => d.withTag tag
  | effects => (runEffects tag effects d).1

/-- The first of some tags is applied before the others. -/
theorem applyAll_of_cons (h : (applyAll dict location (tag :: tags) d).2 = .ok d') :
    (applyAll dict location tags (afterTag dict tag d)).2 = .ok d' := by
  unfold applyAll at h
  split at h
  · next hnil =>
    have hafter : afterTag dict tag d = d.withTag tag := by
      unfold afterTag
      rw [hnil]
    rw [hafter]
    exact h
  · next hne =>
    have hafter : afterTag dict tag d = (runEffects tag (effectsOf dict tag) d).1 := by
      unfold afterTag
      split
      · next hnil => exact absurd hnil hne
      · rfl
    rw [hafter]
    split at h
    · next hr =>
      rw [hr]
      exact h
    · next hr =>
      rw [hr]
      exact h
    · cases h

/-- A relation between a doclet before some tags and after them. -/
structure Carries (R : Doclet → Doclet → Prop) : Prop where
  refl : ∀ d, R d d
  trans : ∀ {d d' d''}, R d d' → R d' d'' → R d d''
  withTag : ∀ d tag, R d (d.withTag tag)

namespace Carries

variable {R : Doclet → Doclet → Prop} (hR : Carries R)
include hR

theorem runEffects {es : List Effect} (hs : ∀ e ∈ es, ∀ d d', e.apply tag d = .ok d' → R d d') (d : Doclet) :
    R d (runEffects tag es d).1 := by
  induction es generalizing d with
  | nil => exact hR.refl d
  | cons e es ih =>
    rw [List.forall_mem_cons] at hs
    unfold Tag.runEffects
    split
    · next d₁ he => exact hR.trans (hs.1 d d₁ he) (ih hs.2 d₁)
    · rw [Effect.leave_builtIn]
      exact hR.refl d

/-- **What each effect does, all tags of a comment do together.** -/
theorem applyAll (hs : ∀ tag ∈ tags, ∀ e ∈ effectsOf dict tag, ∀ d d', e.apply tag d = .ok d' → R d d')
    (h : (applyAll dict location tags d).2 = .ok d') : R d d' := by
  induction tags generalizing d with
  | nil =>
    cases h
    exact hR.refl _
  | cons tag tags ih =>
    rw [List.forall_mem_cons] at hs
    have hafter : R d (afterTag dict tag d) := by
      unfold afterTag
      split
      · exact hR.withTag d tag
      · exact hR.runEffects hs.1 d
    exact hR.trans hafter (ih hs.2 (applyAll_of_cons h))

end Carries

/-- A part of the doclet that is the same after the tags. -/
theorem Carries.same {α : Type} {f : Doclet → α} (hf : ∀ d tag, f (d.withTag tag) = f d) :
    Carries fun d d' => f d' = f d :=
  ⟨fun _ => rfl, fun h h' => h'.trans h, hf⟩

/-- **Tags do not change where a doclet comes from**, its state and its links. -/
theorem source_of_applyAll (hs : ∀ tag ∈ tags, ∀ e ∈ effectsOf dict tag, e.writesSource = false)
    (h : (applyAll dict location tags d).2 = .ok d') : d'.source = d.source :=
  (Carries.same fun _ _ => rfl).applyAll (fun tag ht e he _ _ => Effect.source_of_apply (hs tag ht e he)) h

/-- The construct that a doclet documents stays the same, whatever its tags are. -/
theorem origin_of_applyAll (h : (applyAll dict location tags d).2 = .ok d') : d'.origin = d.origin :=
  (Carries.same fun _ _ => rfl).applyAll (fun _ _ _ _ _ _ => Effect.origin_of_apply) h

end Tag
end SymbolDocs
