import SymbolDocs.Proofs.Outcome
import SymbolDocs.TypeExpr.Parser

/-!
# The grammar of type expressions

`Derives ts p rest` says that the tokens `ts` start with the phrase `p` and go on with `rest`. The rules are those of
the reading functions, with what each of them looks at ahead, so the relation and the functions agree
(`derives_iff_reads`): an induction over a derivation stands for an induction over the twelve functions.
-/

namespace SymbolDocs.TypeExpr

open SymbolDocs.Text

/-! ## Phrases and their rules -/

/-- What a reading function gives. -/
inductive Phrase where
  | union (t : TypeExpr)
  | alternatives (ts : List TypeExpr)
  | modified (t : TypeExpr)
  /-- A type with its pairs of brackets. -/
  | arrayed (t : TypeExpr)
  | primary (t : TypeExpr)
  /-- The type that a base and the type arguments behind it make. -/
  | args (base t : TypeExpr)
  | argList (ts : List TypeExpr)
  | returns (t : Option TypeExpr)
  | param (p : Param)
  | params (ps : List Param)
  | field (f : TypeField)
  | fields (fs : List TypeField)

/-- The lexeme ahead, if there is one. -/
def ahead (ts : List Token) : Option Lexeme := ts.head?.map (·.lexeme)

/-- Whether the type of `this` or of the constructed object is ahead. -/
def labelAhead : List Token → Bool
  | ⟨.name "this", _⟩ :: ⟨.mark .colon, _⟩ :: _ => true
  | ⟨.name "new", _⟩ :: ⟨.mark .colon, _⟩ :: _ => true
  | _ => false

/-- The tokens start with a phrase, and these tokens follow it. -/
inductive Derives : List Token → Phrase → List Token → Prop
  | union {ts rest rest' t others} : Derives ts (.modified t) rest → Derives rest (.alternatives others) rest' →
      Derives ts (.union (ofAlternatives t others)) rest'
  | alternative {ts rest rest' t p others} : Derives ts (.modified t) rest →
      Derives rest (.alternatives others) rest' → Derives (⟨.mark .bar, p⟩ :: ts) (.alternatives (t :: others)) rest'
  | noAlternative {ts} : ahead ts ≠ some (.mark .bar) → Derives ts (.alternatives []) ts
  | repeatable {ts rest t p} : mayStart (readNullable ts).2.1 = true →
      Derives (readNullable ts).2.1 (.arrayed t) rest →
      Derives (⟨.mark .ellipsis, p⟩ :: ts) (.modified (modifyBy t (readNullable ts).1 true rest).1)
        (modifyBy t (readNullable ts).1 true rest).2.1
  | repeatableAny {ts p} : mayStart (readNullable ts).2.1 = false →
      Derives (⟨.mark .ellipsis, p⟩ :: ts)
        (.modified (modifyBy .all (readNullable ts).1 true (readNullable ts).2.1).1)
        (modifyBy .all (readNullable ts).1 true (readNullable ts).2.1).2.1
  | single {ts rest t} : ahead ts ≠ some (.mark .ellipsis) → Derives (readNullable ts).2.1 (.arrayed t) rest →
      Derives ts (.modified (modifyBy t (readNullable ts).1 false rest).1)
        (modifyBy t (readNullable ts).1 false rest).2.1
  | arrayed {ts rest t} : Derives ts (.primary t) rest →
      Derives ts (.arrayed (readArrays t rest).1) (readArrays t rest).2.1
  | all {ts p} : Derives (⟨.mark .star, p⟩ :: ts) (.primary .all) ts
  | unknown {ts p} : Derives (⟨.mark .question, p⟩ :: ts) (.primary .unknown) ts
  | group {ts rest t p q} : Derives ts (.union t) (⟨.mark .closeParen, q⟩ :: rest) →
      Derives (⟨.mark .openParen, p⟩ :: ts) (.primary t) rest
  | emptyRecord {ts p q} : Derives (⟨.mark .openBrace, p⟩ :: ⟨.mark .closeBrace, q⟩ :: ts) (.primary (.record [])) ts
  | record {ts rest p q fs} : ahead ts ≠ some (.mark .closeBrace) →
      Derives ts (.fields fs) (⟨.mark .closeBrace, q⟩ :: rest) →
      Derives (⟨.mark .openBrace, p⟩ :: ts) (.primary (.record fs)) rest
  | quoted {ts p text} : Derives (⟨.quoted text, p⟩ :: ts) (.primary (.literal text)) ts
  | number {ts p text} : Derives (⟨.number text, p⟩ :: ts) (.primary (.literal text)) ts
  | emptyFunction {ts rest p p₁ p₂ result} : Derives ts (.returns result) rest →
      Derives (⟨.name "function", p⟩ :: ⟨.mark .openParen, p₁⟩ :: ⟨.mark .closeParen, p₂⟩ :: ts)
        (.primary (ofParams [] result)) rest
  | function {ts rest rest' p q p₁ ps result} : ahead ts ≠ some (.mark .closeParen) →
      Derives ts (.params ps) (⟨.mark .closeParen, q⟩ :: rest) → Derives rest (.returns result) rest' →
      Derives (⟨.name "function", p⟩ :: ⟨.mark .openParen, p₁⟩ :: ts) (.primary (ofParams ps result)) rest'
  | null {ts p} : Derives (⟨.name "null", p⟩ :: ts) (.primary .null) ts
  | undefined {ts p} : Derives (⟨.name "undefined", p⟩ :: ts) (.primary .undefined) ts
  | name {ts rest t p path} : path ≠ "null" → path ≠ "undefined" →
      (path = "function" → ahead ts ≠ some (.mark .openParen)) → Derives ts (.args (.name path) t) rest →
      Derives (⟨.name path, p⟩ :: ts) (.primary t) rest
  | dotArgs {ts rest p q base args} : Derives ts (.argList args) (⟨.mark .greater, q⟩ :: rest) →
      Derives (⟨.mark .dotLess, p⟩ :: ts) (.args base (.application base args)) rest
  | lessArgs {ts rest p q base args} : Derives ts (.argList args) (⟨.mark .greater, q⟩ :: rest) →
      Derives (⟨.mark .less, p⟩ :: ts) (.args base (.application base args)) rest
  | noArgs {ts base} : ahead ts ≠ some (.mark .dotLess) → ahead ts ≠ some (.mark .less) →
      Derives ts (.args base base) ts
  | lastArg {ts rest t} : Derives ts (.union t) rest → ahead rest ≠ some (.mark .comma) →
      Derives ts (.argList [t]) rest
  | moreArgs {ts rest rest' t p others} : Derives ts (.union t) (⟨.mark .comma, p⟩ :: rest) →
      Derives rest (.argList others) rest' → Derives ts (.argList (t :: others)) rest'
  | returns {ts rest t p} : Derives ts (.modified t) rest →
      Derives (⟨.mark .colon, p⟩ :: ts) (.returns (some t)) rest
  | noReturns {ts} : ahead ts ≠ some (.mark .colon) → Derives ts (.returns none) ts
  | this {ts rest t p q} : Derives ts (.union t) rest →
      Derives (⟨.name "this", p⟩ :: ⟨.mark .colon, q⟩ :: ts) (.param (.this t)) rest
  | new {ts rest t p q} : Derives ts (.union t) rest →
      Derives (⟨.name "new", p⟩ :: ⟨.mark .colon, q⟩ :: ts) (.param (.new t)) rest
  | positional {ts rest t} : labelAhead ts = false → Derives ts (.modified t) rest →
      Derives ts (.param (.positional t)) rest
  | lastParam {ts rest x} : Derives ts (.param x) rest → ahead rest ≠ some (.mark .comma) →
      Derives ts (.params [x]) rest
  | moreParams {ts rest rest' p x others} : Derives ts (.param x) (⟨.mark .comma, p⟩ :: rest) →
      Derives rest (.params others) rest' → Derives ts (.params (x :: others)) rest'
  | typedField {ts rest t p q l key} : keyText l = some key → Derives ts (.union t) rest →
      Derives (⟨l, p⟩ :: ⟨.mark .colon, q⟩ :: ts) (.field (.typed key t)) rest
  | bareField {ts p l key} : keyText l = some key → ahead ts ≠ some (.mark .colon) →
      Derives (⟨l, p⟩ :: ts) (.field (.bare key)) ts
  | lastField {ts rest f} : Derives ts (.field f) rest → ahead rest ≠ some (.mark .comma) →
      Derives ts (.fields [f]) rest
  | moreFields {ts rest rest' p f others} : Derives ts (.field f) (⟨.mark .comma, p⟩ :: rest) →
      Derives rest (.fields others) rest' → Derives ts (.fields (f :: others)) rest'

/-! ## The reading functions -/

/-- The reading function of the phrase gives it and leaves the tokens `rest`. -/
def Phrase.Reads (stop : Nat) (ts rest : List Token) : Phrase → Prop
  | .union t => ∃ h, readUnion stop ts = .ok (t, ⟨rest, h⟩)
  | .alternatives es => ∃ h, readAlternatives stop ts = .ok (es, ⟨rest, h⟩)
  | .modified t => ∃ h, readModified stop ts = .ok (t, ⟨rest, h⟩)
  | .arrayed t => ∃ h, readPostfix stop ts = .ok (t, ⟨rest, h⟩)
  | .primary t => ∃ h, readPrimary stop ts = .ok (t, ⟨rest, h⟩)
  | .args base t => ∃ h, readArgs stop base ts = .ok (t, ⟨rest, h⟩)
  | .argList es => ∃ h, readArgList stop ts = .ok (es, ⟨rest, h⟩)
  | .returns t => ∃ h, readReturns stop ts = .ok (t, ⟨rest, h⟩)
  | .param x => ∃ h, readParam stop ts = .ok (x, ⟨rest, h⟩)
  | .params xs => ∃ h, readParams stop ts = .ok (xs, ⟨rest, h⟩)
  | .field f => ∃ h, readField stop ts = .ok (f, ⟨rest, h⟩)
  | .fields fs => ∃ h, readFields stop ts = .ok (fs, ⟨rest, h⟩)

/-- The order in which the functions call one another on the same tokens. -/
def Phrase.rank : Phrase → Nat
  | .alternatives _ | .args .. | .returns _ => 0
  | .primary _ => 1
  | .arrayed _ => 2
  | .modified _ => 3
  | .union _ | .param _ | .field _ => 4
  | .argList _ | .params _ | .fields _ => 5

/-- Whatever is read from fewer tokens, or of a phrase of a lower rank, is derived. -/
def SoundBelow (stop n : Nat) : Prop :=
  ∀ (p : Phrase) (ts rest : List Token), 6 * ts.length + p.rank < n → p.Reads stop ts rest → Derives ts p rest

variable {stop q : Nat} {ts rest : List Token} {t : TypeExpr}

/-! ## What is read is derived -/

theorem derives_union (ih : SoundBelow stop (6 * ts.length + 4)) (h : (Phrase.union t).Reads stop ts rest) :
    Derives ts (.union t) rest := by
  obtain ⟨hlt, h⟩ := h
  rw [readUnion] at h
  obtain ⟨⟨first, rest₁, h₁⟩, hfirst, h⟩ := bind_eq_ok.1 h
  obtain ⟨⟨others, rest₂, h₂⟩, hothers, h⟩ := bind_eq_ok.1 h
  cases h
  have d₁ := ih (.modified first) ts rest₁ (by simp [Phrase.rank]) ⟨h₁, hfirst⟩
  have d₂ := ih (.alternatives others) rest₁ rest (by simp [Phrase.rank]; omega) ⟨h₂, hothers⟩
  exact .union d₁ d₂

theorem ahead_ne {m : Mark} (h : ∀ (pos : Nat) (ts' : List Token), ts = ⟨.mark m, pos⟩ :: ts' → False) :
    ahead ts ≠ some (.mark m) := by
  rcases ts with _ | ⟨⟨l, pos⟩, ts'⟩
  · simp [ahead]
  · intro he
    simp only [ahead, List.head?_cons, Option.map_some, Option.some.injEq] at he
    exact h pos ts' (by rw [he])

theorem derives_alternatives {es : List TypeExpr} (ih : SoundBelow stop (6 * ts.length))
    (h : (Phrase.alternatives es).Reads stop ts rest) : Derives ts (.alternatives es) rest := by
  obtain ⟨hle, h⟩ := h
  unfold readAlternatives at h
  split at h
  · next pos ts =>
    obtain ⟨⟨t, rest₁, h₁⟩, ht, h⟩ := bind_eq_ok.1 h
    obtain ⟨⟨others, rest₂, h₂⟩, hothers, h⟩ := bind_eq_ok.1 h
    cases h
    have d₁ := ih (.modified t) ts rest₁ (by simp [Phrase.rank]; omega) ⟨h₁, ht⟩
    have d₂ := ih (.alternatives others) rest₁ rest (by simp [Phrase.rank]; omega) ⟨h₂, hothers⟩
    exact .alternative d₁ d₂
  · next hne =>
    cases h
    exact .noAlternative (ahead_ne hne)

theorem derives_modified (ih : SoundBelow stop (6 * ts.length + 3)) (h : (Phrase.modified t).Reads stop ts rest) :
    Derives ts (.modified t) rest := by
  obtain ⟨hlt, h⟩ := h
  unfold readModified at h
  split at h
  · next pos ts =>
    dsimp only at h
    split at h
    · next hs =>
      obtain ⟨⟨t, rest₁, h₁⟩, ht, h⟩ := bind_eq_ok.1 h
      cases h
      have hle := (readNullable ts).2.2
      exact .repeatable hs (ih (.arrayed t) _ rest₁ (by simp [Phrase.rank]; omega) ⟨h₁, ht⟩)
    · next hs =>
      cases h
      exact .repeatableAny (by simpa using hs)
  · next hne =>
    obtain ⟨⟨t, rest₁, h₁⟩, ht, h⟩ := bind_eq_ok.1 h
    cases h
    have hle := (readNullable ts).2.2
    exact .single (ahead_ne hne) (ih (.arrayed t) _ rest₁ (by simp [Phrase.rank]; omega) ⟨h₁, ht⟩)

theorem derives_arrayed (ih : SoundBelow stop (6 * ts.length + 2)) (h : (Phrase.arrayed t).Reads stop ts rest) :
    Derives ts (.arrayed t) rest := by
  obtain ⟨hlt, h⟩ := h
  rw [readPostfix] at h
  obtain ⟨⟨t, rest₁, h₁⟩, ht, h⟩ := bind_eq_ok.1 h
  cases h
  exact .arrayed (ih (.primary t) ts rest₁ (by simp [Phrase.rank]) ⟨h₁, ht⟩)

theorem expectMark_eq_ok {m : Mark} {h} (he : expectMark stop m ts = .ok ⟨rest, h⟩) :
    ∃ q, ts = ⟨.mark m, q⟩ :: rest := by
  unfold expectMark at he
  split at he
  · next m' q rest' =>
    split at he
    · next hm =>
      cases he
      exact ⟨q, by rw [hm]⟩
    · cases he
  · cases he

theorem derives_args {base : TypeExpr} (ih : SoundBelow stop (6 * ts.length))
    (h : (Phrase.args base t).Reads stop ts rest) : Derives ts (.args base t) rest := by
  obtain ⟨hle, h⟩ := h
  unfold readArgs at h
  split at h
  · next pos ts =>
    obtain ⟨⟨args, rest₁, h₁⟩, hargs, h⟩ := bind_eq_ok.1 h
    obtain ⟨⟨rest₂, h₂⟩, hm, h⟩ := bind_eq_ok.1 h
    cases h
    obtain ⟨q, rfl⟩ := expectMark_eq_ok hm
    exact .dotArgs (ih (.argList args) ts _ (by simp [Phrase.rank]; omega) ⟨h₁, hargs⟩)
  · next pos ts =>
    obtain ⟨⟨args, rest₁, h₁⟩, hargs, h⟩ := bind_eq_ok.1 h
    obtain ⟨⟨rest₂, h₂⟩, hm, h⟩ := bind_eq_ok.1 h
    cases h
    obtain ⟨q, rfl⟩ := expectMark_eq_ok hm
    exact .lessArgs (ih (.argList args) ts _ (by simp [Phrase.rank]; omega) ⟨h₁, hargs⟩)
  · next hdot hless =>
    cases h
    exact .noArgs (ahead_ne hdot) (ahead_ne hless)

theorem derives_argList {es : List TypeExpr} (ih : SoundBelow stop (6 * ts.length + 5))
    (h : (Phrase.argList es).Reads stop ts rest) : Derives ts (.argList es) rest := by
  obtain ⟨hlt, h⟩ := h
  rw [readArgList] at h
  obtain ⟨⟨t, rest₁, h₁⟩, ht, h⟩ := bind_eq_ok.1 h
  have d₁ := ih (.union t) ts rest₁ (by simp [Phrase.rank]) ⟨h₁, ht⟩
  dsimp only at h
  split at h
  · next pos rest₁ h₁ =>
    obtain ⟨⟨others, rest₂, h₂⟩, hothers, h⟩ := bind_eq_ok.1 h
    cases h
    exact .moreArgs d₁ (ih (.argList others) _ _ (by simp at h₁; simp [Phrase.rank]; omega) ⟨h₂, hothers⟩)
  · next hne =>
    cases h
    exact .lastArg d₁ (ahead_ne fun pos ts' he => by subst he; exact hne _ _ h₁ rfl HEq.rfl)

theorem derives_returns {result : Option TypeExpr} (ih : SoundBelow stop (6 * ts.length))
    (h : (Phrase.returns result).Reads stop ts rest) : Derives ts (.returns result) rest := by
  obtain ⟨hle, h⟩ := h
  unfold readReturns at h
  split at h
  · next pos ts =>
    obtain ⟨⟨t, rest₁, h₁⟩, ht, h⟩ := bind_eq_ok.1 h
    cases h
    exact .returns (ih (.modified t) ts _ (by simp [Phrase.rank]; omega) ⟨h₁, ht⟩)
  · next hne =>
    cases h
    exact .noReturns (ahead_ne hne)

theorem derives_param {x : Param} (ih : SoundBelow stop (6 * ts.length + 4)) (h : (Phrase.param x).Reads stop ts rest) :
    Derives ts (.param x) rest := by
  obtain ⟨hlt, h⟩ := h
  unfold readParam at h
  split at h
  · next p q ts =>
    obtain ⟨⟨t, rest₁, h₁⟩, ht, h⟩ := bind_eq_ok.1 h
    cases h
    exact .this (ih (.union t) ts _ (by simp only [Phrase.rank, List.length_cons]; omega) ⟨h₁, ht⟩)
  · next p q ts =>
    obtain ⟨⟨t, rest₁, h₁⟩, ht, h⟩ := bind_eq_ok.1 h
    cases h
    exact .new (ih (.union t) ts _ (by simp only [Phrase.rank, List.length_cons]; omega) ⟨h₁, ht⟩)
  · next hthis hnew =>
    obtain ⟨⟨t, rest₁, h₁⟩, ht, h⟩ := bind_eq_ok.1 h
    cases h
    have hlabel : labelAhead ts = false := by
      unfold labelAhead
      split
      · next p q ts' => exact (hthis p q ts' rfl).elim
      · next p q ts' => exact (hnew p q ts' rfl).elim
      · rfl
    exact .positional hlabel (ih (.modified t) ts _ (by simp [Phrase.rank]) ⟨h₁, ht⟩)

theorem derives_params {xs : List Param} (ih : SoundBelow stop (6 * ts.length + 5))
    (h : (Phrase.params xs).Reads stop ts rest) : Derives ts (.params xs) rest := by
  obtain ⟨hlt, h⟩ := h
  rw [readParams] at h
  obtain ⟨⟨x, rest₁, h₁⟩, hx, h⟩ := bind_eq_ok.1 h
  have d₁ := ih (.param x) ts rest₁ (by simp [Phrase.rank]) ⟨h₁, hx⟩
  dsimp only at h
  split at h
  · next pos rest₁ h₁ =>
    obtain ⟨⟨others, rest₂, h₂⟩, hothers, h⟩ := bind_eq_ok.1 h
    cases h
    exact .moreParams d₁ (ih (.params others) _ _ (by simp at h₁; simp [Phrase.rank]; omega) ⟨h₂, hothers⟩)
  · next hne =>
    cases h
    exact .lastParam d₁ (ahead_ne fun pos ts' he => by subst he; exact hne _ _ h₁ rfl HEq.rfl)

theorem derives_field {f : TypeField} (ih : SoundBelow stop (6 * ts.length + 4))
    (h : (Phrase.field f).Reads stop ts rest) : Derives ts (.field f) rest := by
  obtain ⟨hlt, h⟩ := h
  unfold readField at h
  split at h
  · cases h
  · next token ts =>
    split at h
    · cases h
    · next key hkey =>
      split at h
      · next pos ts =>
        obtain ⟨⟨t, rest₁, h₁⟩, ht, h⟩ := bind_eq_ok.1 h
        cases h
        exact .typedField hkey (ih (.union t) ts _ (by simp only [Phrase.rank, List.length_cons]; omega) ⟨h₁, ht⟩)
      · next hne =>
        cases h
        exact .bareField hkey (ahead_ne hne)

theorem derives_fields {fs : List TypeField} (ih : SoundBelow stop (6 * ts.length + 5))
    (h : (Phrase.fields fs).Reads stop ts rest) : Derives ts (.fields fs) rest := by
  obtain ⟨hlt, h⟩ := h
  rw [readFields] at h
  obtain ⟨⟨f, rest₁, h₁⟩, hf, h⟩ := bind_eq_ok.1 h
  have d₁ := ih (.field f) ts rest₁ (by simp [Phrase.rank]) ⟨h₁, hf⟩
  dsimp only at h
  split at h
  · next pos rest₁ h₁ =>
    obtain ⟨⟨others, rest₂, h₂⟩, hothers, h⟩ := bind_eq_ok.1 h
    cases h
    exact .moreFields d₁ (ih (.fields others) _ _ (by simp at h₁; simp [Phrase.rank]; omega) ⟨h₂, hothers⟩)
  · next hne =>
    cases h
    exact .lastField d₁ (ahead_ne fun pos ts' he => by subst he; exact hne _ _ h₁ rfl HEq.rfl)

theorem derives_function {pos : Nat} (ih : SoundBelow stop (6 * (ts.length + 1) + 1))
    (h : (Phrase.primary t).Reads stop (⟨.name "function", pos⟩ :: ts) rest) :
    Derives (⟨.name "function", pos⟩ :: ts) (.primary t) rest := by
  obtain ⟨hlt, h⟩ := h
  unfold readPrimary at h
  rw [if_pos rfl] at h
  split at h
  · next p₁ p₂ ts =>
    obtain ⟨⟨result, rest₁, h₁⟩, hr, h⟩ := bind_eq_ok.1 h
    cases h
    exact .emptyFunction (ih (.returns result) ts _ (by simp [Phrase.rank]; omega) ⟨h₁, hr⟩)
  · next p₁ ts hne =>
    obtain ⟨⟨xs, rest₁, h₁⟩, hxs, h⟩ := bind_eq_ok.1 h
    obtain ⟨⟨rest₂, h₂⟩, hm, h⟩ := bind_eq_ok.1 h
    obtain ⟨⟨result, rest₃, h₃⟩, hr, h⟩ := bind_eq_ok.1 h
    cases h
    obtain ⟨q, rfl⟩ := expectMark_eq_ok hm
    have d₁ := ih (.params xs) ts _ (by simp [Phrase.rank]; omega) ⟨h₁, hxs⟩
    have d₂ := ih (.returns result) rest₂ _ (by simp at h₁ h₂; simp [Phrase.rank]; omega) ⟨h₃, hr⟩
    exact .function (ahead_ne hne) d₁ d₂
  · next hne₁ hne₂ =>
    obtain ⟨⟨t, rest₁, h₁⟩, ht, h⟩ := bind_eq_ok.1 h
    cases h
    exact .name (by decide) (by decide) (fun _ => ahead_ne hne₂)
      (ih (.args (.name "function") t) ts _ (by simp only [Phrase.rank]; omega) ⟨h₁, ht⟩)

theorem derives_primary (ih : SoundBelow stop (6 * ts.length + 1)) (h : (Phrase.primary t).Reads stop ts rest) :
    Derives ts (.primary t) rest := by
  obtain ⟨hlt, h'⟩ := h
  have h := h'
  unfold readPrimary at h
  split at h
  · cases h
    exact .all
  · cases h
    exact .unknown
  · next p ts =>
    obtain ⟨⟨t, rest₁, h₁⟩, ht, h⟩ := bind_eq_ok.1 h
    obtain ⟨⟨rest₂, h₂⟩, hm, h⟩ := bind_eq_ok.1 h
    cases h
    obtain ⟨q, rfl⟩ := expectMark_eq_ok hm
    exact .group (ih (.union t) ts _ (by simp [Phrase.rank]; omega) ⟨h₁, ht⟩)
  · cases h
    exact .emptyRecord
  · next p ts hne =>
    obtain ⟨⟨fs, rest₁, h₁⟩, hfs, h⟩ := bind_eq_ok.1 h
    obtain ⟨⟨rest₂, h₂⟩, hm, h⟩ := bind_eq_ok.1 h
    cases h
    obtain ⟨q, rfl⟩ := expectMark_eq_ok hm
    exact .record (ahead_ne hne)
      (ih (.fields fs) ts _ (by simp [Phrase.rank]; omega) ⟨h₁, hfs⟩)
  · cases h
    exact .quoted
  · cases h
    exact .number
  · next path p ts =>
    by_cases hf : path = "function"
    · subst hf
      exact derives_function ih ⟨hlt, h'⟩
    rw [if_neg hf] at h
    split at h
    · next hnull =>
      cases h
      exact hnull ▸ .null
    · next hnull =>
      split at h
      · next hun =>
        cases h
        exact hun ▸ .undefined
      · next hun =>
        obtain ⟨⟨t, rest₁, h₁⟩, ht, h⟩ := bind_eq_ok.1 h
        cases h
        exact .name hnull hun (fun he => (hf he).elim)
          (ih (.args (.name path) t) ts _ (by simp only [Phrase.rank, List.length_cons]; omega) ⟨h₁, ht⟩)
  · cases h

/-- Whatever a reading function gives is derived. -/
theorem derives_of_reads {ph : Phrase} (h : ph.Reads stop ts rest) : Derives ts ph rest := by
  have below : ∀ n, SoundBelow stop n := by
    intro n
    induction n using Nat.strongRecOn with
    | ind n ih =>
      intro ph ts rest hlt h
      have ih' := ih _ hlt
      cases ph with
      | union t => exact derives_union ih' h
      | alternatives es => exact derives_alternatives ih' h
      | modified t => exact derives_modified ih' h
      | arrayed t => exact derives_arrayed ih' h
      | primary t => exact derives_primary ih' h
      | args base t => exact derives_args ih' h
      | argList es => exact derives_argList ih' h
      | returns r => exact derives_returns ih' h
      | param x => exact derives_param ih' h
      | params xs => exact derives_params ih' h
      | field f => exact derives_field ih' h
      | fields fs => exact derives_fields ih' h
  exact below _ ph ts rest (Nat.lt_succ_self _) h

/-! ## What is derived is read -/

theorem expectMark_self {m : Mark} :
    expectMark stop m (⟨.mark m, q⟩ :: ts) = .ok ⟨ts, Nat.lt_succ_self _⟩ := by
  simp [expectMark]

/-- The reading functions follow every derivation. -/
theorem Derives.reads {ph : Phrase} (d : Derives ts ph rest) : ph.Reads stop ts rest := by
  induction d with
  | union _ _ ih₁ ih₂ =>
    obtain ⟨h₁, e₁⟩ := ih₁
    obtain ⟨h₂, e₂⟩ := ih₂
    refine ⟨by omega, ?_⟩
    rw [readUnion]
    exact bind_eq_ok.2 ⟨_, e₁, bind_eq_ok.2 ⟨_, e₂, rfl⟩⟩
  | alternative _ _ ih₁ ih₂ =>
    obtain ⟨h₁, e₁⟩ := ih₁
    obtain ⟨h₂, e₂⟩ := ih₂
    refine ⟨by simp only [List.length_cons]; omega, ?_⟩
    rw [readAlternatives]
    exact bind_eq_ok.2 ⟨_, e₁, bind_eq_ok.2 ⟨_, e₂, rfl⟩⟩
  | noAlternative hne =>
    refine ⟨Nat.le_refl _, ?_⟩
    unfold readAlternatives
    split
    · exact (hne rfl).elim
    · rfl
  | @repeatable ts rest t p hs _ ih =>
    obtain ⟨h, e⟩ := ih
    have h₁ := (readNullable ts).2.2
    have h₂ := (modifyBy t (readNullable ts).1 true rest).2.2
    refine ⟨by simp only [List.length_cons]; omega, ?_⟩
    rw [readModified]
    dsimp only
    rw [if_pos hs]
    exact bind_eq_ok.2 ⟨_, e, rfl⟩
  | @repeatableAny ts p hs =>
    have h₁ := (readNullable ts).2.2
    have h₂ := (modifyBy .all (readNullable ts).1 true (readNullable ts).2.1).2.2
    refine ⟨by simp only [List.length_cons]; omega, ?_⟩
    rw [readModified]
    dsimp only
    rw [if_neg (by simp [hs])]
    rfl
  | @single ts rest t hne _ ih =>
    obtain ⟨h, e⟩ := ih
    have h₁ := (readNullable ts).2.2
    have h₂ := (modifyBy t (readNullable ts).1 false rest).2.2
    refine ⟨by omega, ?_⟩
    unfold readModified
    split
    · exact (hne rfl).elim
    · exact bind_eq_ok.2 ⟨_, e, rfl⟩
  | arrayed _ ih =>
    obtain ⟨h, e⟩ := ih
    refine ⟨Nat.lt_of_le_of_lt (readArrays _ _).2.2 h, ?_⟩
    rw [readPostfix]
    exact bind_eq_ok.2 ⟨_, e, rfl⟩
  | all =>
    refine ⟨by simp, ?_⟩
    rw [readPrimary]
    rfl
  | unknown =>
    refine ⟨by simp, ?_⟩
    rw [readPrimary]
    rfl
  | group _ ih =>
    obtain ⟨h, e⟩ := ih
    refine ⟨by simp at h ⊢; omega, ?_⟩
    rw [readPrimary]
    exact bind_eq_ok.2 ⟨_, e, bind_eq_ok.2 ⟨_, expectMark_self, rfl⟩⟩
  | emptyRecord =>
    refine ⟨by simp only [List.length_cons]; omega, ?_⟩
    rw [readPrimary]
    rfl
  | record hne _ ih =>
    obtain ⟨h, e⟩ := ih
    refine ⟨by simp at h ⊢; omega, ?_⟩
    rw [readPrimary]
    · exact bind_eq_ok.2 ⟨_, e, bind_eq_ok.2 ⟨_, expectMark_self, rfl⟩⟩
    · rintro pos ts rfl
      exact hne rfl
  | quoted =>
    refine ⟨by simp, ?_⟩
    rw [readPrimary]
    rfl
  | number =>
    refine ⟨by simp, ?_⟩
    rw [readPrimary]
    rfl
  | emptyFunction _ ih =>
    obtain ⟨h, e⟩ := ih
    refine ⟨by simp only [List.length_cons]; omega, ?_⟩
    rw [readPrimary, if_pos rfl]
    exact bind_eq_ok.2 ⟨_, e, rfl⟩
  | function hne _ _ ih₁ ih₂ =>
    obtain ⟨h₁, e₁⟩ := ih₁
    obtain ⟨h₂, e₂⟩ := ih₂
    refine ⟨by simp at h₁ ⊢; omega, ?_⟩
    rw [readPrimary, if_pos rfl]
    · exact bind_eq_ok.2 ⟨_, e₁, bind_eq_ok.2 ⟨_, expectMark_self, bind_eq_ok.2 ⟨_, e₂, rfl⟩⟩⟩
    · rintro pos ts rfl
      exact hne rfl
  | null =>
    refine ⟨by simp, ?_⟩
    unfold readPrimary
    rfl
  | undefined =>
    refine ⟨by simp, ?_⟩
    unfold readPrimary
    rfl
  | name hnull hun hfun _ ih =>
    obtain ⟨h, e⟩ := ih
    refine ⟨by simp only [List.length_cons]; omega, ?_⟩
    unfold readPrimary
    split
    · next hf =>
      split
      · exact (hfun hf rfl).elim
      · exact (hfun hf rfl).elim
      · exact bind_eq_ok.2 ⟨_, e, rfl⟩
    · exact bind_eq_ok.2 ⟨_, e, rfl⟩
  | dotArgs _ ih =>
    obtain ⟨h, e⟩ := ih
    refine ⟨by simp at h ⊢; omega, ?_⟩
    rw [readArgs]
    exact bind_eq_ok.2 ⟨_, e, bind_eq_ok.2 ⟨_, expectMark_self, rfl⟩⟩
  | lessArgs _ ih =>
    obtain ⟨h, e⟩ := ih
    refine ⟨by simp at h ⊢; omega, ?_⟩
    rw [readArgs]
    exact bind_eq_ok.2 ⟨_, e, bind_eq_ok.2 ⟨_, expectMark_self, rfl⟩⟩
  | noArgs hdot hless =>
    refine ⟨Nat.le_refl _, ?_⟩
    unfold readArgs
    split
    · exact (hdot rfl).elim
    · exact (hless rfl).elim
    · rfl
  | lastArg _ hne ih =>
    obtain ⟨h, e⟩ := ih
    refine ⟨h, ?_⟩
    rw [readArgList]
    refine bind_eq_ok.2 ⟨_, e, ?_⟩
    dsimp only
    split
    · exact (hne rfl).elim
    · rfl
  | moreArgs _ _ ih₁ ih₂ =>
    obtain ⟨h₁, e₁⟩ := ih₁
    obtain ⟨h₂, e₂⟩ := ih₂
    refine ⟨by simp at h₁; omega, ?_⟩
    rw [readArgList]
    exact bind_eq_ok.2 ⟨_, e₁, bind_eq_ok.2 ⟨_, e₂, rfl⟩⟩
  | returns _ ih =>
    obtain ⟨h, e⟩ := ih
    refine ⟨by simp only [List.length_cons]; omega, ?_⟩
    rw [readReturns]
    exact bind_eq_ok.2 ⟨_, e, rfl⟩
  | noReturns hne =>
    refine ⟨Nat.le_refl _, ?_⟩
    unfold readReturns
    split
    · exact (hne rfl).elim
    · rfl
  | this _ ih =>
    obtain ⟨h, e⟩ := ih
    refine ⟨by simp only [List.length_cons]; omega, ?_⟩
    rw [readParam]
    exact bind_eq_ok.2 ⟨_, e, rfl⟩
  | new _ ih =>
    obtain ⟨h, e⟩ := ih
    refine ⟨by simp only [List.length_cons]; omega, ?_⟩
    rw [readParam]
    exact bind_eq_ok.2 ⟨_, e, rfl⟩
  | positional hlabel _ ih =>
    obtain ⟨h, e⟩ := ih
    refine ⟨h, ?_⟩
    unfold readParam
    split
    · simp [labelAhead] at hlabel
    · simp [labelAhead] at hlabel
    · exact bind_eq_ok.2 ⟨_, e, rfl⟩
  | lastParam _ hne ih =>
    obtain ⟨h, e⟩ := ih
    refine ⟨h, ?_⟩
    rw [readParams]
    refine bind_eq_ok.2 ⟨_, e, ?_⟩
    dsimp only
    split
    · exact (hne rfl).elim
    · rfl
  | moreParams _ _ ih₁ ih₂ =>
    obtain ⟨h₁, e₁⟩ := ih₁
    obtain ⟨h₂, e₂⟩ := ih₂
    refine ⟨by simp at h₁; omega, ?_⟩
    rw [readParams]
    exact bind_eq_ok.2 ⟨_, e₁, bind_eq_ok.2 ⟨_, e₂, rfl⟩⟩
  | typedField hkey _ ih =>
    obtain ⟨h, e⟩ := ih
    refine ⟨by simp only [List.length_cons]; omega, ?_⟩
    rw [readField]
    simp only [hkey]
    exact bind_eq_ok.2 ⟨_, e, rfl⟩
  | bareField hkey hne =>
    refine ⟨by simp, ?_⟩
    rw [readField]
    simp only [hkey]
    split
    · exact (hne rfl).elim
    · rfl
  | lastField _ hne ih =>
    obtain ⟨h, e⟩ := ih
    refine ⟨h, ?_⟩
    rw [readFields]
    refine bind_eq_ok.2 ⟨_, e, ?_⟩
    dsimp only
    split
    · exact (hne rfl).elim
    · rfl
  | moreFields _ _ ih₁ ih₂ =>
    obtain ⟨h₁, e₁⟩ := ih₁
    obtain ⟨h₂, e₂⟩ := ih₂
    refine ⟨by simp at h₁; omega, ?_⟩
    rw [readFields]
    exact bind_eq_ok.2 ⟨_, e₁, bind_eq_ok.2 ⟨_, e₂, rfl⟩⟩

/-- **The grammar and the reading functions agree.** -/
theorem derives_iff_reads {ph : Phrase} : Derives ts ph rest ↔ ph.Reads stop ts rest :=
  ⟨Derives.reads, derives_of_reads⟩

/-! ## Tokens that follow -/

theorem suffix_readNullable : (readNullable ts).2.1 <:+ ts := by
  unfold readNullable
  split
  · split
    · exact List.suffix_cons _ _
    · exact List.suffix_rfl
  · exact List.suffix_cons _ _
  · exact List.suffix_rfl

theorem suffix_readSuffixes {optional : Bool} {nullable : Option Bool} :
    (readSuffixes t optional nullable ts).2.1 <:+ ts := by
  fun_induction readSuffixes t optional nullable ts with
  | case1 _ _ _ _ _ _ _ he ih | case2 _ _ _ _ _ _ _ _ he ih | case4 _ _ _ _ _ _ _ _ he ih =>
    rw [he] at ih
    exact ih.trans (List.suffix_cons _ _)
  | case3 | case5 | case6 => exact List.suffix_rfl

theorem suffix_readArrays : (readArrays t ts).2.1 <:+ ts := by
  fun_induction readArrays t ts with
  | case1 _ _ _ _ _ _ _ he ih =>
    rw [he] at ih
    exact (ih.trans (List.suffix_cons _ _)).trans (List.suffix_cons _ _)
  | case2 => exact List.suffix_rfl

theorem suffix_modifyBy {nullable : Option Bool} {repeatable : Bool} : (modifyBy t nullable repeatable ts).2.1 <:+ ts :=
  suffix_readSuffixes

/-- The tokens that follow a phrase end the tokens that it was read from. -/
theorem Derives.suffix {ph : Phrase} (d : Derives ts ph rest) : rest <:+ ts := by
  induction d with
  | union _ _ ih₁ ih₂ => exact ih₂.trans ih₁
  | alternative _ _ ih₁ ih₂ => exact (ih₂.trans ih₁).trans (List.suffix_cons _ _)
  | noAlternative | noArgs | noReturns => exact List.suffix_rfl
  | repeatable _ _ ih =>
    exact ((suffix_modifyBy.trans ih).trans suffix_readNullable).trans (List.suffix_cons _ _)
  | repeatableAny => exact (suffix_modifyBy.trans suffix_readNullable).trans (List.suffix_cons _ _)
  | single _ _ ih => exact (suffix_modifyBy.trans ih).trans suffix_readNullable
  | arrayed _ ih => exact suffix_readArrays.trans ih
  | all | unknown | quoted | number | null | undefined | bareField => exact List.suffix_cons _ _
  | group _ ih | dotArgs _ ih | lessArgs _ ih | record _ _ ih =>
    exact ((List.suffix_cons _ _).trans ih).trans (List.suffix_cons _ _)
  | emptyRecord => exact (List.suffix_cons _ _).trans (List.suffix_cons _ _)
  | emptyFunction _ ih =>
    exact ih.trans ((List.suffix_cons _ _).trans ((List.suffix_cons _ _).trans (List.suffix_cons _ _)))
  | function _ _ _ ih₁ ih₂ =>
    exact (ih₂.trans ((List.suffix_cons _ _).trans ih₁)).trans ((List.suffix_cons _ _).trans (List.suffix_cons _ _))
  | name _ _ _ _ ih | returns _ ih => exact ih.trans (List.suffix_cons _ _)
  | lastArg _ _ ih | positional _ _ ih | lastParam _ _ ih | lastField _ _ ih => exact ih
  | moreArgs _ _ ih₁ ih₂ | moreParams _ _ ih₁ ih₂ | moreFields _ _ ih₁ ih₂ =>
    exact ih₂.trans ((List.suffix_cons _ _).trans ih₁)
  | this _ ih | new _ ih | typedField _ _ ih => exact ih.trans ((List.suffix_cons _ _).trans (List.suffix_cons _ _))

/-! ## Whole texts -/

theorem ofTokens_eq_ok : ofTokens stop ts = .ok t ↔ Derives ts (.union t) [] := by
  constructor
  · intro h
    unfold ofTokens at h
    split at h
    · cases h
    · obtain ⟨⟨t, rest, hlt⟩, ht, h⟩ := bind_eq_ok.1 h
      dsimp only at h
      split at h
      · cases h
        exact derives_of_reads ⟨hlt, ht⟩
      · cases h
  · intro d
    obtain ⟨hlt, h⟩ : (Phrase.union t).Reads stop ts [] := d.reads
    unfold ofTokens
    split
    · simp at hlt
    · exact bind_eq_ok.2 ⟨_, h, rfl⟩

/-- A text states a type if its tokens are a derivation of it. -/
theorem parse_eq_ok {e : String} :
    parse e = .ok t ↔ ∃ ts, tokensOf (trim e.toList) = .ok ts ∧ Derives ts (.union t) [] := by
  unfold parse
  rw [bind_eq_ok]
  simp only [ofTokens_eq_ok]

end SymbolDocs.TypeExpr
