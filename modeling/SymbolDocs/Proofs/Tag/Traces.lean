import Mathlib.Data.List.Induction
import SymbolDocs.Proofs.Grammar.Assembly
import SymbolDocs.Tag.Applying

/-!
# Tags that fail

The effects of a tag are applied one by one, so what stands before the effect that refuses the value of the tag has been
done to the doclet already, and nothing takes it back. Whether an effect refuses the value is no matter of the doclet
(`Effect.response_eq`), and an effect that does anything at all has a doclet that it never gives
(`Effect.idle_or_misses`). So a tag that fails leaves every doclet as it was exactly if all effects before the one that
fails do nothing (`Tag.traceless_iff`), and a list of such tags has the effect of its other tags
(`Tag.applyAll_filter`). The tags of the built-in grammars are among them: none has more than one effect.

The effects may be any, and their rules are the built-in ones. Another rule could do anything before it fails.
-/

namespace SymbolDocs

open SymbolDocs.Text Handler.apply

variable {tag : Tag} {d d' : Doclet} {e : Effect} {es before after : List Effect} {problem : Problem}

/-! ## Effects and the value of a tag -/

/-- How an effect takes the value of a tag. -/
inductive Response where
  | accepted
  /-- The value does not fit, which costs the tag. -/
  | refused
  /-- The effect cannot be had at all. -/
  | broken
  deriving DecidableEq, Repr

/-- The response that the outcome of an effect shows. -/
def Response.ofOutcome : Except EffectFault Doclet → Response
  | .ok _ => .accepted
  | .error (.value _) => .refused
  | .error (.fatal _) => .broken

namespace Effect

/-- The response of an effect to a tag. -/
def response (tag : Tag) (e : Effect) : Response := .ofOutcome (e.apply tag {})

/-- The effect does nothing with the tag. -/
def Idle (tag : Tag) (e : Effect) : Prop := ∀ d, e.apply tag d = .ok d

end Effect

theorem ofOutcome_store (tag : Tag) (datum : Option Datum) (field : ScalarField) (d d' : Doclet) :
    Response.ofOutcome (d.store tag datum field) = Response.ofOutcome (d'.store tag datum field) := by
  unfold Doclet.store
  extract_lets text
  clear_value text
  cases field with
  | text field =>
    cases field with
    | name | memberof =>
      dsimp only
      split <;> rfl
    | _ => rfl
  | scope =>
    dsimp only
    split
    · rfl
    · split <;> rfl
  | flag | type | deprecated => rfl

theorem ofOutcome_handler (tag : Tag) (handler : Handler) (d d' : Doclet) :
    Response.ofOutcome (handler.apply tag d) = Response.ofOutcome (handler.apply tag d') := by
  cases handler with
  | access | kind =>
    simp only [Handler.apply]
    split <;> rfl
  | augments | mixes | fires | listens | requires =>
    simp only [Handler.apply]
    cases tag.statedText <;> rfl
  | template =>
    simp only [Handler.apply]
    cases tag.optionalText <;> rfl
  | borrows =>
    simp only [Handler.apply]
    cases tag.optionalText with
    | error => rfl
    | ok text =>
      simp only [Except.bind]
      split <;> rfl
  | constant | type | define =>
    simp only [Handler.apply]
    split <;> rfl
  | _ => rfl

namespace Effect

/-- The response of an effect is the same whatever the doclet is. -/
theorem response_eq (tag : Tag) (e : Effect) (d : Doclet) : Response.ofOutcome (e.apply tag d) = e.response tag := by
  cases e with
  | store field fixed => exact ofOutcome_store ..
  | rule handler => exact ofOutcome_handler ..
  | append field =>
    simp only [response, Effect.apply]
    split <;> rfl
  | assign | addModifier | stateKind => rfl

theorem accepted_iff : e.response tag = .accepted ↔ ∃ d', e.apply tag d = .ok d' := by
  rw [← response_eq tag e d]
  rcases e.apply tag d with (_ | _) | _ <;> simp [Response.ofOutcome]

theorem refused_iff : e.response tag = .refused ↔ ∃ problem, e.apply tag d = .error (.value problem) := by
  rw [← response_eq tag e d]
  rcases e.apply tag d with (_ | _) | _ <;> simp [Response.ofOutcome]

end Effect

/-! ## Effects that do something -/

namespace Doclet

/-- The yes or no in a field. -/
def flag (d : Doclet) : FlagField → Option Bool
  | .virtual => d.virtual
  | .readonly => d.readonly
  | .nullable => d.nullable
  | .undocumented => some d.undocumented
  | .ignore => some d.ignore
  | .isEnum => some d.isEnum
  | .override => d.override
  | .async => d.async
  | .generator => d.generator
  | .hideconstructor => d.hideconstructor

theorem flag_setFlag (d : Doclet) (b : Bool) (field : FlagField) : (d.setFlag b field).flag field = some b := by
  cases field <;> rfl

theorem kind_tagNameIfNonempty (d : Doclet) (name : Option String) : (d.tagNameIfNonempty name).kind = d.kind := by
  unfold tagNameIfNonempty
  split <;> rfl

theorem kind_stateKind (d : Doclet) (tag : Tag) (kind : String) : (d.stateKind tag kind).kind = some kind := by
  unfold stateKind
  dsimp only
  split
  · rw [kind_tagNameIfNonempty]
    rfl
  · rw [kind_tagNameIfNonempty]
  · rfl

end Doclet

/-- There is a doclet that the change never gives. -/
def Misses (change : Doclet → Except EffectFault Doclet) : Prop := ∃ d₀, ∀ d, change d ≠ .ok d₀

/-- A change that keeps a field away from the value it has in one doclet misses this doclet. -/
theorem misses_of_ne {α : Type} {change : Doclet → Except EffectFault Doclet} (field : Doclet → α) (d₀ : Doclet)
    (h : ∀ d d', change d = .ok d' → field d' ≠ field d₀) : Misses change :=
  ⟨d₀, fun d hd => h d d₀ hd rfl⟩

theorem assign_idle_or_misses (datum : Option Datum) (field : ScalarField) :
    (∀ d : Doclet, d.assign datum field = d) ∨ Misses (fun d => .ok (d.assign datum field)) := by
  cases field with
  | text field =>
    rcases datum with - | (b | (t | spec | v))
    · refine .inr (misses_of_ne (·.text field) (({} : Doclet).setText (some "") field) ?_)
      rintro d _ ⟨⟩
      simp [Doclet.assign, Doclet.text_setText]
    · exact .inl fun _ => rfl
    · refine .inr (misses_of_ne (·.text field) (({} : Doclet).setText none field) ?_)
      rintro d _ ⟨⟩
      simp [Doclet.assign, Doclet.text_setText]
    · exact .inl fun _ => rfl
    · exact .inl fun _ => rfl
  | flag field =>
    rcases datum with - | (b | v)
    · exact .inl fun _ => rfl
    · refine .inr (misses_of_ne (·.flag field) (({} : Doclet).setFlag (!b) field) ?_)
      rintro d _ ⟨⟩
      simp [Doclet.assign, Doclet.flag_setFlag]
    · exact .inl fun _ => rfl
  | scope => exact .inl fun _ => rfl
  | type =>
    rcases datum with - | (b | (t | spec | v))
    · refine .inr (misses_of_ne Doclet.type { type := some { expression := "" } } ?_)
      rintro d _ ⟨⟩
      nofun
    · exact .inl fun _ => rfl
    · exact .inl fun _ => rfl
    · refine .inr (misses_of_ne Doclet.type {} ?_)
      rintro d _ ⟨⟩
      nofun
    · exact .inl fun _ => rfl
  | deprecated =>
    rcases datum with - | datum
    · refine .inr (misses_of_ne Doclet.deprecated { deprecated := some (.flag true) } ?_)
      rintro d _ ⟨⟩
      nofun
    · refine .inr (misses_of_ne Doclet.deprecated {} ?_)
      rintro d _ ⟨⟩
      nofun

theorem store_idle_or_misses (tag : Tag) (datum : Option Datum) (field : ScalarField) :
    (∀ d : Doclet, d.store tag datum field = .ok d) ∨ Misses (·.store tag datum field) := by
  have plain : (∀ d : Doclet, (.ok (d.assign datum field) : Except EffectFault Doclet) = .ok d) ∨
      Misses (fun d => .ok (d.assign datum field)) :=
    (assign_idle_or_misses datum field).imp_left fun h d => congrArg _ (h d)
  unfold Doclet.store
  extract_lets text
  clear_value text
  cases field with
  | text field =>
    cases field with
    | name =>
      refine .inr (misses_of_ne Doclet.explicitName {} fun d d' h => ?_)
      dsimp only at h
      split at h <;> cases h
      nofun
    | memberof =>
      refine .inr (misses_of_ne Doclet.explicitMemberof {} fun d d' h => ?_)
      dsimp only at h
      split at h <;> cases h
      nofun
    | _ => exact plain
  | scope =>
    refine .inr (misses_of_ne Doclet.explicitScope {} fun d d' h => ?_)
    dsimp only at h
    split at h
    · cases h
    · split at h <;> cases h
      nofun
  | flag | type | deprecated => exact plain

theorem addNew_ne_nil (item : String) (items : List String) : addNew item items ≠ [] := by
  unfold addNew
  split
  · rintro rfl
    simp at *
  · simp

/-- Names that are added to a list stay in it. -/
theorem foldl_addNew_ne_nil {names items : List String} (h : names ≠ [] ∨ items ≠ []) :
    names.foldl (fun found name => addNew name found) items ≠ [] := by
  induction names generalizing items with
  | nil => exact h.resolve_left fun hne => hne rfl
  | cons name names ih => exact ih (.inr (addNew_ne_nil name items))

theorem default_misses (tag : Tag) : Misses (Handler.apply tag · .default) := by
  cases htext : nonempty (some tag.valueText) with
  | some text =>
    refine misses_of_ne Doclet.defaultValue {} ?_
    rintro d _ ⟨⟩
    rw [htext]
    nofun
  | none =>
    -- Without a text the value in the code counts, so a value without one in the code is never given.
    refine ⟨{ defaultValue := some "" }, fun d h => ?_⟩
    have hvalue : d.origin.codeValue = some "" := by
      have := congrArg Doclet.defaultValue (Except.ok.inj h)
      rwa [htext] at this
    have horigin : d.origin = {} := congrArg Doclet.origin (Except.ok.inj h)
    rw [horigin] at hvalue
    cases hvalue

/-- A rule leaves every doclet as it is, or there is a doclet that it never gives. -/
theorem Handler.idle_or_misses (tag : Tag) (handler : Handler) :
    (∀ d, handler.apply tag d = .ok d) ∨ Misses (handler.apply tag ·) := by
  cases handler with
  | accessLevel | aliasOf | callback | deprecated | enum | file | scope | inheritdoc | lends | final =>
    -- Each of these rules sets a field that is not set in the empty doclet.
    refine .inr ⟨{}, fun d h => ?_⟩
    simp [Handler.apply, Doclet.setTypeIfSome, Doclet.withStatedName, Doclet.withStatedScope] at h
  | access | kind =>
    refine .inr ⟨{}, fun d h => ?_⟩
    simp only [Handler.apply] at h
    split at h
    · simp at h
    · cases h
  | constant | define =>
    refine .inr (misses_of_ne Doclet.kind {} fun d d' h => ?_)
    simp only [Handler.apply] at h
    split at h <;> cases h <;> simp [Doclet.kind_tagNameIfNonempty, Doclet.setTypeIfSome]
  | augments | mixes | fires | listens | requires =>
    refine .inr ⟨{}, fun d h => ?_⟩
    obtain ⟨name, -, h⟩ := map_eq_ok.1 h
    simp [addNew_ne_nil] at h
  | borrows =>
    refine .inr (misses_of_ne (·.declared.borrows) {} fun d d' h => ?_)
    obtain ⟨text, -, h⟩ := bind_eq_ok.1 h
    split at h <;> cases h
    simp
  | default => exact .inr (default_misses tag)
  | type =>
    cases htype : tag.valueType with
    | none => exact .inl fun d => by simp only [Handler.apply, htype]
    | some spec =>
      refine .inr ⟨{}, fun d h => ?_⟩
      simp [Handler.apply, htype] at h
  | template =>
    rcases htext : tag.optionalText with fault | text
    · refine .inr ⟨{}, fun d h => ?_⟩
      simp only [Handler.apply, htext] at h
      cases h
    · by_cases hnames : pieces (fun c => isBlank c || c = ',') text.toList = []
      · left
        intro d
        rw [Handler.apply, htext]
        simp [Except.map, hnames]
      · refine .inr (misses_of_ne Doclet.templates {} fun d d' h => ?_)
        simp only [Handler.apply, htext] at h
        cases h
        exact foldl_addNew_ne_nil (.inl (by simpa using hnames))

namespace Effect

/-- **An effect does nothing with a tag, or there is a doclet that it never gives.** -/
theorem idle_or_misses (tag : Tag) (e : Effect) : e.Idle tag ∨ Misses (e.apply tag ·) := by
  cases e with
  | store field fixed => exact store_idle_or_misses ..
  | append field =>
    cases hvalue : tag.nonemptyValue with
    | none => exact .inl fun d => by simp only [Effect.apply, hvalue]
    | some v =>
      refine .inr (misses_of_ne (·.values field) {} fun d d' h => ?_)
      rw [Effect.apply, hvalue] at h
      cases h
      rw [Doclet.values_appendValue]
      cases field <;> simp [Doclet.values]
  | assign field datum =>
    exact (assign_idle_or_misses (some datum) field).imp_left fun h d => congrArg _ (h d)
  | addModifier modifier =>
    refine .inr (misses_of_ne Doclet.modifiers {} ?_)
    rintro d _ ⟨⟩
    exact List.ne_nil_of_mem List.mem_insert_self
  | stateKind kind =>
    refine .inr (misses_of_ne Doclet.kind {} ?_)
    rintro d _ ⟨⟩
    rw [Doclet.kind_stateKind]
    nofun
  | rule handler => exact Handler.idle_or_misses tag handler

/-- An effect that gives every doclet does nothing. -/
theorem idle_of_surjective (h : ∀ d, ∃ d₀, e.apply tag d₀ = .ok d) : e.Idle tag := by
  refine (idle_or_misses tag e).resolve_right ?_
  rintro ⟨d, hd⟩
  obtain ⟨d₀, h₀⟩ := h d
  exact hd d₀ h₀

end Effect

/-! ## Runs of effects -/

namespace Tag

theorem runEffects_cons (he : e.apply tag d = .ok d') (es : List Effect) :
    runEffects tag (e :: es) d = runEffects tag es d' := by
  rw [runEffects, he]

/-- Effects behind others go on where these end. -/
theorem runEffects_append (h : runEffects tag before d = (d', none)) :
    runEffects tag (before ++ after) d = runEffects tag after d' := by
  induction before generalizing d with
  | nil =>
    cases h
    rfl
  | cons e before ih =>
    rw [runEffects] at h
    split at h
    · next he =>
      rw [List.cons_append, runEffects_cons he]
      exact ih h
    · cases h

theorem accepted_of_runEffects (h : runEffects tag es d = (d', none)) : ∀ e ∈ es, e.response tag = .accepted := by
  induction es generalizing d with
  | nil => exact fun e he => by cases he
  | cons e es ih =>
    rw [runEffects] at h
    split at h
    · next he => exact List.forall_mem_cons.2 ⟨Effect.accepted_iff.2 ⟨_, he⟩, ih h⟩
    · cases h

theorem runEffects_of_accepted (h : ∀ e ∈ es, e.response tag = .accepted) (d : Doclet) :
    ∃ d', runEffects tag es d = (d', none) := by
  induction es generalizing d with
  | nil => exact ⟨d, rfl⟩
  | cons e es ih =>
    obtain ⟨he, hes⟩ := List.forall_mem_cons.1 h
    obtain ⟨mid, hmid⟩ := Effect.accepted_iff.1 he
    obtain ⟨d', hd'⟩ := ih hes mid
    exact ⟨d', by rw [runEffects_cons hmid, hd']⟩

/-- A run that ends with a value that does not fit ends at an effect that refuses it, and the doclet is what the effects
before this one made of it. -/
theorem refusal_of_runEffects (h : runEffects tag es d = (d', some (.value problem))) :
    ∃ before e after, es = before ++ e :: after ∧ runEffects tag before d = (d', none) ∧
      e.apply tag d' = .error (.value problem) := by
  induction es generalizing d with
  | nil => cases h
  | cons e es ih =>
    rw [runEffects] at h
    split at h
    · next he =>
      obtain ⟨before, e', after, rfl, hbefore, he'⟩ := ih h
      exact ⟨e :: before, e', after, rfl, by rw [runEffects_cons he, hbefore], he'⟩
    · next he =>
      rw [Effect.leave_builtIn] at h
      cases h
      exact ⟨[], e, es, rfl, rfl, he⟩

/-- The effects before the first one that refuses the tag. -/
structure Refusal (tag : Tag) (es before : List Effect) : Prop where
  accepted : ∀ b ∈ before, b.response tag = .accepted
  refused : ∃ e after, es = before ++ e :: after ∧ e.response tag = .refused

theorem Refusal.runEffects_eq (h : Refusal tag es before) (d : Doclet) :
    ∃ d' problem, runEffects tag before d = (d', none) ∧ runEffects tag es d = (d', some (.value problem)) := by
  obtain ⟨e, after, rfl, he⟩ := h.refused
  obtain ⟨d', hd'⟩ := runEffects_of_accepted h.accepted d
  obtain ⟨problem, hproblem⟩ := Effect.refused_iff.1 he
  refine ⟨d', problem, hd', ?_⟩
  rw [runEffects_append hd', runEffects, hproblem, Effect.leave_builtIn]

theorem exists_refusal (h : runEffects tag es d = (d', some (.value problem))) :
    ∃ before, Refusal tag es before ∧ runEffects tag before d = (d', none) := by
  obtain ⟨before, e, after, he, hbefore, herror⟩ := refusal_of_runEffects h
  exact ⟨before, ⟨accepted_of_runEffects hbefore, e, after, he, Effect.refused_iff.2 ⟨problem, herror⟩⟩, hbefore⟩

/-! ## Traces -/

theorem runEffects_of_idle (h : ∀ e ∈ es, e.Idle tag) (d : Doclet) : runEffects tag es d = (d, none) := by
  induction es with
  | nil => rfl
  | cons e es ih =>
    obtain ⟨he, hes⟩ := List.forall_mem_cons.1 h
    rw [runEffects_cons (he d)]
    exact ih hes

/-- Effects that together do nothing do nothing one by one: the last one gives every doclet. -/
theorem idle_of_runEffects (h : ∀ d, runEffects tag es d = (d, none)) : ∀ e ∈ es, e.Idle tag := by
  induction es using List.reverseRecOn with
  | nil => exact fun e he => by cases he
  | append_singleton es e ih =>
    have haccepted := accepted_of_runEffects (h {})
    have hstep (d : Doclet) : ∃ mid, runEffects tag es d = (mid, none) ∧ e.apply tag mid = .ok d := by
      obtain ⟨mid, hmid⟩ := runEffects_of_accepted (fun e' he' => haccepted e' (List.mem_append_left _ he')) d
      refine ⟨mid, hmid, ?_⟩
      have hlast := h d
      rw [runEffects_append hmid, runEffects] at hlast
      split at hlast
      · next he =>
        rw [he]
        cases hlast
        rfl
      · cases hlast
    have hidle : e.Idle tag := Effect.idle_of_surjective fun d => (hstep d).imp fun _ hmid => hmid.2
    refine List.forall_mem_append.2 ⟨ih fun d => ?_, List.forall_mem_singleton.2 hidle⟩
    obtain ⟨mid, hmid, he⟩ := hstep d
    rw [hidle mid] at he
    cases he
    exact hmid

/-- A tag whose value is refused leaves every doclet as it was. -/
def Traceless (tag : Tag) (es : List Effect) : Prop :=
  ∀ d d' problem, runEffects tag es d = (d', some (.value problem)) → d' = d

/-- **A tag leaves no trace exactly if all effects before the one that refuses it do nothing.** -/
theorem traceless_iff : Traceless tag es ↔ ∀ before, Refusal tag es before → ∀ e ∈ before, e.Idle tag := by
  constructor
  · intro h before hrefusal
    refine idle_of_runEffects fun d => ?_
    obtain ⟨d', problem, hbefore, hrun⟩ := hrefusal.runEffects_eq d
    rwa [h d d' problem hrun] at hbefore
  · intro h d d' problem hrun
    obtain ⟨before, hrefusal, hbefore⟩ := exists_refusal hrun
    rw [runEffects_of_idle (h before hrefusal)] at hbefore
    cases hbefore
    rfl

theorem traceless_of_length (h : es.length ≤ 1) : Traceless tag es := by
  refine traceless_iff.2 fun before hrefusal e he => ?_
  obtain ⟨e', after, rfl, -⟩ := hrefusal.refused
  have hlength := List.length_pos_of_mem he
  simp only [List.length_append, List.length_cons] at h
  omega

/-! ## All tags of a comment -/

variable {dict : Dictionary} {tags : List Tag}

/-- Whether an effect of the tag refuses its value. -/
def fails (dict : Dictionary) (tag : Tag) : Bool :=
  match (runEffects tag (effectsOf dict tag) {}).2 with
  | some (.value _) => true
  | _ => false

/-- Whether a tag fails is no matter of the doclet. -/
theorem fails_iff (d : Doclet) : fails dict tag = true ↔
    ∃ d' problem, runEffects tag (effectsOf dict tag) d = (d', some (.value problem)) := by
  have transfer (d₂ : Doclet) {d₁ d₁' : Doclet} {problem : Problem}
      (h : runEffects tag (effectsOf dict tag) d₁ = (d₁', some (.value problem))) :
      ∃ d₂' problem, runEffects tag (effectsOf dict tag) d₂ = (d₂', some (.value problem)) := by
    obtain ⟨before, hrefusal, -⟩ := exists_refusal h
    obtain ⟨d₂', problem', -, hrun⟩ := hrefusal.runEffects_eq d₂
    exact ⟨d₂', problem', hrun⟩
  unfold fails
  constructor
  · intro h
    split at h
    · next problem hproblem => exact transfer d (Prod.ext rfl hproblem)
    · cases h
  · rintro ⟨d', problem, h⟩
    obtain ⟨d₀, problem₀, h₀⟩ := transfer {} h
    rw [h₀]

theorem applyAll_cons_failing (h : runEffects tag (effectsOf dict tag) d = (d', some (.value problem)))
    (location : Location) (tags : List Tag) :
    (applyAll dict location (tag :: tags) d).2 = (applyAll dict location tags d').2 := by
  rw [applyAll]
  split
  · next hnil =>
    rw [hnil] at h
    cases h
  · rw [h]

/-- **Tags without traces have the effect of those among them that do not fail.** -/
theorem applyAll_filter (h : ∀ tag ∈ tags, Traceless tag (effectsOf dict tag)) (location : Location) (d : Doclet) :
    (applyAll dict location tags d).2 = (applyAll dict location (tags.filter (!fails dict ·)) d).2 := by
  induction tags generalizing d with
  | nil => rfl
  | cons tag tags ih =>
    obtain ⟨htag, htags⟩ := List.forall_mem_cons.1 h
    cases hfails : fails dict tag with
    | true =>
      rw [List.filter_cons_of_neg (by simp [hfails])]
      obtain ⟨d', problem, hrun⟩ := (fails_iff d).1 hfails
      obtain rfl := htag d d' problem hrun
      rw [applyAll_cons_failing hrun, ih htags]
    | false =>
      rw [List.filter_cons_of_pos (by simp [hfails]), applyAll, applyAll]
      split
      · exact ih htags _
      · split
        · exact ih htags _
        · next d' problem hrun =>
          rw [(fails_iff d).2 ⟨d', problem, hrun⟩] at hfails
          cases hfails
        · rfl

/-- A tag that can be left out of a comment if it fails leaves no trace. -/
theorem traceless_of_applyAll (h : ∀ location d, (applyAll dict location [tag] d).2 =
    (applyAll dict location ([tag].filter (!fails dict ·)) d).2) : Traceless tag (effectsOf dict tag) := by
  intro d d' problem hrun
  have hfails : fails dict tag = true := (fails_iff d).2 ⟨d', problem, hrun⟩
  have hstep := h {} d
  rw [applyAll_cons_failing hrun, List.filter_cons_of_neg (by simp [hfails])] at hstep
  exact Except.ok.inj hstep

/-- A dictionary of one definition gives its effects to the tags with its title. -/
theorem effectsOf_define {definition : Definition} (h : tag.originalTitle = some definition.name) :
    effectsOf (({} : Dictionary).define definition) tag = definition.effects := by
  simp [effectsOf, h, Dictionary.lookup, Dictionary.define, Dictionary.put]

/-! ## Built-in grammars -/

/-- No tag of the built-in grammars has more than one effect. -/
theorem effects_length (g : Grammar) : ∀ d ∈ Grammar.sharedTags ++ g.definitions, d.effects.length ≤ 1 := by
  cases g <;> decide +kernel

theorem effectsOf_length (h : dict.All (·.effects.length ≤ 1)) (tag : Tag) : (effectsOf dict tag).length ≤ 1 := by
  unfold effectsOf
  cases hl : dict.lookup (tag.originalTitle.getD tag.title) with
  | some d => exact h.of_lookup hl
  | none =>
    rw [Option.none_or]
    split
    · exact Nat.le_refl 1
    · exact Nat.zero_le 1

theorem traceless_of_buildAll {names : List String} {allowUnknown : AllowUnknown}
    (h : Grammar.buildAll names allowUnknown = .ok dict) (tag : Tag) : Traceless tag (effectsOf dict tag) :=
  traceless_of_length (effectsOf_length (Grammar.buildAll_all effects_length h) tag)

/-- **What tags that fail leave behind.** A tag leaves every doclet as it was if it fails, exactly if all effects before
the one that refuses its value do nothing. The lists of such tags, and of no others, can lose the tags that fail and
make the same doclet. With a dictionary of built-in grammars this holds of all tags. -/
theorem failing_tags (dict : Dictionary) :
    (∀ tag, Traceless tag (effectsOf dict tag) ↔
      ∀ before, Refusal tag (effectsOf dict tag) before → ∀ e ∈ before, e.Idle tag) ∧
    (∀ tags, (∀ tag ∈ tags, Traceless tag (effectsOf dict tag)) ↔
      ∀ tags' ⊆ tags, ∀ location d,
        (applyAll dict location tags' d).2 = (applyAll dict location (tags'.filter (!fails dict ·)) d).2) ∧
    ∀ names allowUnknown, Grammar.buildAll names allowUnknown = .ok dict →
      ∀ tag, Traceless tag (effectsOf dict tag) := by
  refine ⟨fun tag => traceless_iff, fun tags => ⟨fun h tags' hsub => ?_, fun h tag htag => ?_⟩,
    fun names allowUnknown h => traceless_of_buildAll h⟩
  · exact applyAll_filter fun tag htag => h tag (hsub htag)
  · exact traceless_of_applyAll (h [tag] (by simpa using htag))

/-- A tag that adds its value to a list and stores it as the name: without a value the first effect does nothing. -/
def remark : Definition := { name := "remark", effects := [.append .see, .store (.text .name) none] }

theorem failing_tags_remark :
    let dict := ({} : Dictionary).define remark
    let tag : Tag := { title := "remark", originalTitle := some "remark", value := some (.text "") }
    (readComment dict {} "/** @remark */").2.map (fun t => (t.title, t.originalTitle, t.text, t.value.bind (·.text?))) =
        [("remark", some "remark", "", some "")] ∧
      fails dict tag = true ∧ Traceless tag (effectsOf dict tag) ∧
      (∀ location d, (applyAll dict location [tag] d).2 = .ok d) ∧
      Grammar.buildAll ["jsdoc"] (.all false) = .ok Grammar.jsdoc.dictionary ∧
      ∀ tag, Traceless tag (effectsOf Grammar.jsdoc.dictionary tag) := by
  intro dict tag
  have hfails : fails dict tag = true := by decide +kernel
  have hbuilt : Grammar.buildAll ["jsdoc"] (.all false) = .ok Grammar.jsdoc.dictionary := by with_unfolding_all rfl
  obtain ⟨htraceless, hlists, -⟩ := failing_tags dict
  have htag : Traceless tag (effectsOf dict tag) := by
    refine (htraceless tag).2 fun before hrefusal => ?_
    obtain ⟨e, after, heffects, -⟩ := hrefusal.refused
    rw [effectsOf_define rfl, remark] at heffects
    rcases before with _ | ⟨e₁, _ | ⟨e₂, before⟩⟩
    · exact fun e he => by cases he
    · cases heffects
      exact List.forall_mem_singleton.2 fun _ => rfl
    · simp at heffects
  refine ⟨by decide +kernel, hfails, htag, fun location d => ?_, hbuilt, (failing_tags _).2.2 _ _ hbuilt⟩
  rw [(hlists [tag]).1 (List.forall_mem_singleton.2 htag) [tag] (List.Subset.refl _) location d,
    List.filter_cons_of_neg (by simp [hfails])]
  rfl

/-- A tag that states the kind and stores its value as the name. -/
def component : Definition := { name := "component", effects := [.stateKind "class", .store (.text .name) none] }

/-- **Without a value the tag fails, and leaves the kind behind.** -/
theorem trace_of_component :
    let dict := ({} : Dictionary).define component
    let tag : Tag := { title := "component", originalTitle := some "component", value := some (.text "") }
    (readComment dict {} "/** @component */").2.map
        (fun t => (t.title, t.originalTitle, t.text, t.value.bind (·.text?))) =
          [("component", some "component", "", some "")] ∧
      fails dict tag = true ∧
      (applyAll dict {} [tag] {}).2.map Doclet.kind = .ok (some "class") ∧
      (applyAll dict {} ([tag].filter (!fails dict ·)) {}).2.map Doclet.kind = .ok none ∧
      ¬ Traceless tag (effectsOf dict tag) := by
  intro dict tag
  refine ⟨by decide +kernel, by decide +kernel, by decide +kernel, by decide +kernel, fun h => ?_⟩
  have hrun : runEffects tag (effectsOf dict tag) {} =
      ({ kind := some "class" }, some (.value (.tagValue "component" "requires a value" none))) := by
    rw [effectsOf_define rfl]
    rfl
  have hblank : ({ kind := some "class" } : Doclet) = {} := h _ _ _ hrun
  exact Option.some_ne_none "class" (congrArg Doclet.kind hblank)

end Tag
end SymbolDocs
