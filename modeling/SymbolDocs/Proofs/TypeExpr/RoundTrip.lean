import SymbolDocs.Proofs.TypeExpr.Printing

/-!
# The canonical text of a type states it

`restated` says that the lexemes of a printed type are read as that type again, before everything that may follow it in
a larger type: after a union stands a closing mark or a comma, after a type with modifiers perhaps a bar, after a type
without modifiers perhaps an equals sign. With `spells_render` this makes `parse_toText`.
-/

namespace SymbolDocs.TypeExpr

open SymbolDocs.Text

/-! ## What may follow a printed type -/

/-- Whether a type with its modifiers ends before the lexeme ahead. -/
def endsModified : Option Lexeme → Bool
  | none => true
  | some (.mark .bar) | some (.mark .closeParen) | some (.mark .comma) | some (.mark .greater) => true
  | some (.mark .closeBrace) => true
  | _ => false

/-- Whether a type without modifiers ends before the lexeme ahead. -/
def endsPlain : Option Lexeme → Bool
  | some (.mark .equals) => true
  | l => endsModified l

/-- Whether a union ends before the lexeme ahead. -/
def endsUnion : Option Lexeme → Bool
  | some (.mark .bar) => false
  | l => endsModified l

variable {t : TypeExpr} {ts rest : List Token} {ls ls' : List Lexeme} {ph : Phrase}

/-- Tokens with these lexemes start with the phrase, and tokens with the lexemes `ls'` follow it. -/
def Parses (ls : List Lexeme) (ph : Phrase) (ls' : List Lexeme) : Prop :=
  ∀ ts : List Token, ts.map (·.lexeme) = ls → ∃ rest, rest.map (·.lexeme) = ls' ∧ Derives ts ph rest

theorem ahead_eq_head? : ahead ts = (ts.map (·.lexeme)).head? := by
  rw [ahead, List.head?_map]

theorem ne_of_ends {f : Option Lexeme → Bool} {m : Mark} (he : f (ahead ts) = true)
    (hm : f (some (.mark m)) = false) : ahead ts ≠ some (.mark m) := by
  intro h
  rw [h, hm] at he
  cases he

theorem endsPlain_of_endsModified {l : Option Lexeme} (h : endsModified l = true) : endsPlain l = true := by
  unfold endsPlain
  split
  · rfl
  · exact h

theorem endsModified_of_endsUnion {l : Option Lexeme} (h : endsUnion l = true) : endsModified l = true := by
  unfold endsUnion at h
  split at h
  · cases h
  · exact h

theorem mayStart_of_endsPlain (h : endsPlain (ahead ts) = true) : mayStart ts = false := by
  rcases ts with _ | ⟨⟨l, p⟩, ts⟩
  · rfl
  · rcases l with _ | _ | _ | m
    · cases h
    · cases h
    · cases h
    · cases m <;> first | rfl | cases h

/-! ## Modifiers -/

theorem readArrays_eq (h : ahead ts ≠ some (.mark .openBracket)) : readArrays t ts = (t, ⟨ts, Nat.le_refl _⟩) := by
  unfold readArrays
  split
  · exact (h rfl).elim
  · rfl

theorem readSuffixes_eq {optional : Bool} {nullable : Option Bool} (h : endsModified (ahead ts) = true) :
    readSuffixes t optional nullable ts = ((optional, nullable), ⟨ts, Nat.le_refl _⟩) := by
  unfold readSuffixes
  split
  · cases h
  · cases h
  · cases h
  · rfl

theorem readSuffixes_equals {p : Nat} {optional : Bool} {nullable : Option Bool} (h : endsModified (ahead ts) = true) :
    readSuffixes t optional nullable (⟨.mark .equals, p⟩ :: ts) =
      ((true, nullable), ⟨ts, Nat.le_succ _⟩) := by
  rw [readSuffixes, readSuffixes_eq h]

theorem readNullable_eq (hb : ahead ts ≠ some (.mark .bang))
    (hq : ∀ p ts', ts = ⟨.mark .question, p⟩ :: ts' → mayStart ts' = false) :
    readNullable ts = (none, ⟨ts, Nat.le_refl _⟩) := by
  unfold readNullable
  split
  · next p ts' =>
    rw [if_neg (by simp [hq p ts' rfl])]
  · exact (hb rfl).elim
  · rfl

/-- A mark of nullability is taken off the type that it stands before. -/
theorem readNullable_leading {nullable : Option Bool} (h : ∀ ts' : List Token, ts'.map (·.lexeme) = ls →
      mayStart ts' = true ∧ readNullable ts' = (none, ⟨ts', Nat.le_refl _⟩))
    (hts : ts.map (·.lexeme) = nullableLexemes nullable ++ ls) :
    ∃ ts', ts'.1.map (·.lexeme) = ls ∧ readNullable ts = (nullable, ts') := by
  rcases nullable with _ | _ | _
  · exact ⟨⟨ts, Nat.le_refl _⟩, hts, (h ts hts).2⟩
  · obtain ⟨⟨l, p⟩, ts', rfl, rfl, hts'⟩ := List.map_eq_cons_iff.1 hts
    exact ⟨⟨ts', by simp⟩, hts', rfl⟩
  · obtain ⟨⟨l, p⟩, ts', rfl, rfl, hts'⟩ := List.map_eq_cons_iff.1 hts
    refine ⟨⟨ts', by simp⟩, hts', ?_⟩
    rw [readNullable, if_pos (h ts' hts').1]

/-- Whether the type carries modifiers. -/
def isModified : TypeExpr → Bool
  | .modified .. => true
  | _ => false

/-- Whether the type is that of a function with a result. -/
def hasResult : TypeExpr → Bool
  | .function _ (some _) _ _ => true
  | _ => false

/-- The first lexeme of a type without modifiers starts a type, and is not a mark of a modifier. -/
theorem lexemes_eq_cons (h : t.Everywhere Readable) (hm : t.isModified = false) :
    ∃ l ls, t.lexemes = l :: ls ∧ (∀ p ts, mayStart (⟨l, p⟩ :: ts) = true) ∧ l ≠ .mark .bang ∧
      (l = .mark .question → ls = []) := by
  cases t with
  | name path => exact ⟨_, _, rfl, fun _ _ => rfl, by simp, by simp⟩
  | all => exact ⟨_, _, rfl, fun _ _ => rfl, by simp, by simp⟩
  | unknown => exact ⟨_, _, rfl, fun _ _ => rfl, by simp, by simp⟩
  | null => exact ⟨_, _, rfl, fun _ _ => rfl, by simp, by simp⟩
  | undefined => exact ⟨_, _, rfl, fun _ _ => rfl, by simp, by simp⟩
  | literal text =>
    rcases h.self with hs | hs
    · exact ⟨_, _, by rw [lexemes, Lexeme.ofText_eq rfl hs], fun _ _ => rfl, by simp, by simp⟩
    · exact ⟨_, _, by rw [lexemes, Lexeme.ofText_eq rfl hs], fun _ _ => rfl, by simp, by simp⟩
  | union es => exact ⟨_, _, rfl, fun _ _ => rfl, by simp, by simp⟩
  | application base args =>
    obtain ⟨⟨path, rfl⟩, -⟩ := h.self
    exact ⟨_, _, rfl, fun _ _ => rfl, by simp, by simp⟩
  | function params returns this new => exact ⟨_, _, rfl, fun _ _ => rfl, by simp, by simp⟩
  | record fs => exact ⟨_, _, rfl, fun _ _ => rfl, by simp, by simp⟩
  | modified => cases hm

/-- What is read behind the leading marks of a printed type: the type and its trailing mark. -/
theorem parses_marked {inner : TypeExpr} {optional : Bool}
    (ih : ∀ {ls}, endsPlain ls.head? = true → (inner.hasResult = true → endsModified ls.head? = true) →
      Parses (inner.lexemes ++ ls) (.primary inner) ls)
    (hr : inner.hasResult = true → optional = false) (he : endsModified ls.head? = true)
    (hts : ts.map (·.lexeme) = inner.lexemes ++ (trailingLexemes optional ++ ls)) :
    ∃ rest rest', Derives ts (.arrayed inner) rest ∧ rest'.1.map (·.lexeme) = ls ∧
      ∀ nullable repeatable, modifyBy inner nullable repeatable rest =
        (inner.modify optional nullable repeatable, rest') := by
  have hends : endsPlain (trailingLexemes optional ++ ls).head? = true := by
    cases optional
    · exact endsPlain_of_endsModified he
    · rfl
  have hresult : inner.hasResult = true →
      endsModified (trailingLexemes optional ++ ls).head? = true := by
    intro hf
    rw [hr hf]
    exact he
  obtain ⟨rest, hrest, d⟩ := ih hends hresult ts hts
  have hahead : endsPlain (ahead rest) = true := by
    rw [ahead_eq_head?, hrest]
    exact hends
  have d' := Derives.arrayed d
  rw [readArrays_eq (ne_of_ends hahead rfl)] at d'
  cases optional with
  | false =>
    have hahead' : endsModified (ahead rest) = true := by
      rw [ahead_eq_head?, hrest]
      exact he
    refine ⟨rest, ⟨rest, Nat.le_refl _⟩, d', hrest, fun nullable repeatable => ?_⟩
    rw [modifyBy, readSuffixes_eq hahead']
  | true =>
    obtain ⟨⟨l, p⟩, rest', rfl, rfl, hrest'⟩ := List.map_eq_cons_iff.1 hrest
    have hahead' : endsModified (ahead rest') = true := by
      rw [ahead_eq_head?, hrest']
      exact he
    refine ⟨_, ⟨rest', by simp⟩, d', hrest', fun nullable repeatable => ?_⟩
    rw [modifyBy, readSuffixes_equals hahead']

/-- A type without modifiers starts where a mark of nullability is looked for, and is none. -/
theorem start_of_lexemes {inner : TypeExpr} (hin : inner.Everywhere Readable) (hm : inner.isModified = false)
    (he : endsPlain ls.head? = true) (hts : ts.map (·.lexeme) = inner.lexemes ++ ls) :
    mayStart ts = true ∧ readNullable ts = (none, ⟨ts, Nat.le_refl _⟩) := by
  obtain ⟨l, ls₀, hl, hstart, hbang, hquestion⟩ := lexemes_eq_cons hin hm
  rw [hl, List.cons_append] at hts
  obtain ⟨⟨l, p⟩, ts', rfl, rfl, hts'⟩ := List.map_eq_cons_iff.1 hts
  refine ⟨hstart p ts', readNullable_eq ?_ ?_⟩
  · intro h
    exact hbang (Option.some.inj h)
  · rintro _ _ ⟨⟩
    rw [hquestion rfl, List.nil_append] at hts'
    refine mayStart_of_endsPlain ?_
    rw [ahead_eq_head?, hts']
    exact he

/-- A type with its modifiers is read from its lexemes. -/
theorem parses_modified {inner : TypeExpr} (optional : Bool) (nullable : Option Bool) (repeatable : Bool)
    (hin : inner.Everywhere Readable) (hm : inner.isModified = false)
    (ih : ∀ {ls}, endsPlain ls.head? = true → (inner.hasResult = true → endsModified ls.head? = true) →
      Parses (inner.lexemes ++ ls) (.primary inner) ls)
    (hr : inner.hasResult = true → optional = false) (he : endsModified ls.head? = true) :
    Parses (leadingLexemes nullable repeatable ++ inner.lexemes ++ trailingLexemes optional ++ ls)
      (.modified (inner.modify optional nullable repeatable)) ls := by
  intro ts hts
  have hends : endsPlain (trailingLexemes optional ++ ls).head? = true := by
    cases optional
    · exact endsPlain_of_endsModified he
    · rfl
  have hstart (ts' : List Token) (h : ts'.map (·.lexeme) = inner.lexemes ++ (trailingLexemes optional ++ ls)) :=
    start_of_lexemes hin hm hends h
  rw [leadingLexemes, List.append_assoc, List.append_assoc, List.append_assoc] at hts
  cases repeatable with
  | true =>
    obtain ⟨⟨l, p⟩, ts₁, rfl, rfl, hts₁⟩ := List.map_eq_cons_iff.1 hts
    obtain ⟨ts₂, hts₂, hnull⟩ := readNullable_leading hstart hts₁
    obtain ⟨rest, rest', d, hrest, hmod⟩ := parses_marked ih hr he hts₂
    have hs : mayStart (readNullable ts₁).2.1 = true := by
      rw [hnull]
      exact (hstart _ hts₂).1
    have d' := Derives.repeatable (p := p) hs (by rwa [hnull])
    rw [hnull, hmod] at d'
    exact ⟨rest', hrest, d'⟩
  | false =>
    obtain ⟨ts₂, hts₂, hnull⟩ := readNullable_leading hstart hts
    obtain ⟨rest, rest', d, hrest, hmod⟩ := parses_marked ih hr he hts₂
    have hne : ahead ts ≠ some (.mark .ellipsis) := by
      intro h
      rcases ts with _ | ⟨⟨l, p⟩, ts⟩
      · cases h
      · obtain rfl : l = .mark .ellipsis := Option.some.inj h
        cases hnull
        cases (hstart _ hts₂).1
    have d' := Derives.single hne (by rwa [hnull])
    rw [hnull, hmod] at d'
    exact ⟨rest', hrest, d'⟩

/-! ## Lists -/

theorem separate_cons {α : Type} (sep x : List α) (xs : List (List α)) :
    separate sep (x :: xs) = x ++ xs.flatMap (sep ++ ·) := by
  induction xs generalizing x with
  | nil => simp [separate]
  | cons y ys ih => simp [separate, ih]

/-- A list between commas is read from its lexemes if its elements are. -/
theorem parses_list {α : Type} {item : α → Phrase} {items : List α → Phrase} {print : α → List Lexeme}
    (last : ∀ {ts rest x}, Derives ts (item x) rest → ahead rest ≠ some (.mark .comma) → Derives ts (items [x]) rest)
    (more : ∀ {ts rest rest' p x xs}, Derives ts (item x) (⟨.mark .comma, p⟩ :: rest) →
      Derives rest (items xs) rest' → Derives ts (items (x :: xs)) rest')
    (hls : ls.head? ≠ some (.mark .comma)) (he : endsUnion ls.head? = true) (x : α) (xs : List α)
    (h : ∀ y ∈ x :: xs, ∀ ls, endsUnion ls.head? = true → Parses (print y ++ ls) (item y) ls) :
    Parses (separate [.mark .comma] ((x :: xs).map print) ++ ls) (items (x :: xs)) ls := by
  induction xs generalizing x with
  | nil =>
    intro ts hts
    obtain ⟨rest, hrest, d⟩ := h x (List.mem_singleton_self x) ls he ts hts
    refine ⟨rest, hrest, last d ?_⟩
    rwa [ahead_eq_head?, hrest]
  | cons y ys ih =>
    intro ts hts
    rw [List.map_cons, List.map_cons, separate, List.append_assoc, List.append_assoc] at hts
    obtain ⟨rest, hrest, d⟩ := h x List.mem_cons_self _ rfl ts hts
    obtain ⟨⟨l, p⟩, rest, rfl, rfl, hmore⟩ := List.map_eq_cons_iff.1 hrest
    obtain ⟨rest', hrest', d'⟩ := ih y (fun z hz => h z (List.mem_cons_of_mem x hz)) rest hmore
    exact ⟨rest', hrest', more d d'⟩

theorem parses_alternatives {es : List TypeExpr} (he : endsUnion ls.head? = true)
    (h : ∀ e ∈ es, ∀ ls, endsModified ls.head? = true → Parses (e.lexemes ++ ls) (.modified e) ls) :
    Parses ((es.map lexemes).flatMap ([.mark .bar] ++ ·) ++ ls) (.alternatives es) ls := by
  induction es with
  | nil =>
    intro ts hts
    refine ⟨ts, hts, .noAlternative (ne_of_ends (f := endsUnion) ?_ rfl)⟩
    rw [ahead_eq_head?, hts]
    exact he
  | cons e es ih =>
    intro ts hts
    rw [List.map_cons, List.flatMap_cons, List.append_assoc, List.append_assoc] at hts
    obtain ⟨⟨l, p⟩, ts, rfl, rfl, hmore⟩ := List.map_eq_cons_iff.1 hts
    have hnext : endsModified ((es.map lexemes).flatMap ([Lexeme.mark .bar] ++ ·) ++ ls).head? = true := by
      cases es with
      | nil => exact endsModified_of_endsUnion he
      | cons => rfl
    obtain ⟨rest, hrest, d⟩ := h e List.mem_cons_self _ hnext ts hmore
    obtain ⟨rest', hrest', d'⟩ := ih (fun e' he' => h e' (List.mem_cons_of_mem e he')) rest hrest
    exact ⟨rest', hrest', .alternative d d'⟩

theorem parses_union (he : endsUnion ls.head? = true)
    (h : ∀ ls, endsModified ls.head? = true → Parses (t.lexemes ++ ls) (.modified t) ls) :
    Parses (t.lexemes ++ ls) (.union t) ls := by
  intro ts hts
  obtain ⟨rest, hrest, d⟩ := h ls (endsModified_of_endsUnion he) ts hts
  refine ⟨rest, hrest, .union d (.noAlternative (ne_of_ends (f := endsUnion) ?_ rfl))⟩
  rw [ahead_eq_head?, hrest]
  exact he

/-! ## Functions -/

/-- The lexemes of a parameter. -/
def Param.lexemes : Param → List Lexeme
  | .positional t => t.lexemes
  | .this t => [.name "this", .mark .colon] ++ t.lexemes
  | .new t => [.name "new", .mark .colon] ++ t.lexemes

/-- The parameter list of a function type, in the order in which it is printed. -/
def paramsOf (params : List TypeExpr) (this new : Option TypeExpr) : List Param :=
  (this.map Param.this).toList ++ (new.map Param.new).toList ++ params.map .positional

theorem ofParams_paramsOf (params : List TypeExpr) (returns this new : Option TypeExpr) :
    ofParams (paramsOf params this new) returns = .function params returns this new := by
  have hnone (f : Param → Option TypeExpr) (hf : ∀ t, f (.positional t) = none) :
      (params.map Param.positional).reverse.findSome? f = none := by
    simp [List.findSome?_eq_none_iff, hf]
  cases this <;> cases new <;> simp [ofParams, paramsOf, hnone]

theorem Derives.ahead_of_word {word : String} {p q : Nat}
    (d : Derives (⟨.name word, p⟩ :: ⟨.mark .colon, q⟩ :: ts) (.modified t) rest)
    (hw : word ≠ "null" ∧ word ≠ "undefined") : ahead rest = some (.mark .colon) := by
  cases d with
  | single _ d =>
    change Derives (⟨.name word, p⟩ :: ⟨.mark .colon, q⟩ :: ts) _ _ at d
    cases d with
    | arrayed d =>
      cases d with
      | null => exact (hw.1 rfl).elim
      | undefined => exact (hw.2 rfl).elim
      | name _ _ _ d =>
        cases d with
        | noArgs => rfl

/-- A label is no type: what was read of it leaves its colon. -/
theorem Derives.ahead_of_label (d : Derives ts (.modified t) rest) (h : labelAhead ts = true) :
    ahead rest = some (.mark .colon) := by
  unfold labelAhead at h
  split at h
  · exact d.ahead_of_word (by decide)
  · exact d.ahead_of_word (by decide)
  · cases h

theorem lexemes_paramsOf (params : List TypeExpr) (this new : Option TypeExpr) :
    (paramsOf params this new).map Param.lexemes = lexemesLabelled [.name "this", .mark .colon] this ++
      lexemesLabelled [.name "new", .mark .colon] new ++ lexemesAll params := by
  cases this <;> cases new <;> simp [paramsOf, lexemesLabelled, lexemesAll_eq_map, Param.lexemes]

theorem parses_param {x : Param}
    (h : ∀ ls, endsModified ls.head? = true → Parses (x.type.lexemes ++ ls) (.modified x.type) ls)
    (ls : List Lexeme) (he : endsUnion ls.head? = true) : Parses (x.lexemes ++ ls) (.param x) ls := by
  intro ts hts
  cases x with
  | positional t =>
    obtain ⟨rest, hrest, d⟩ := h ls (endsModified_of_endsUnion he) ts hts
    refine ⟨rest, hrest, .positional ?_ d⟩
    rw [Bool.eq_false_iff]
    intro hlabel
    have hcolon := d.ahead_of_label hlabel
    rw [ahead_eq_head?, hrest] at hcolon
    rw [hcolon] at he
    cases he
  | this t =>
    obtain ⟨⟨_, p⟩, ts₁, rfl, rfl, hts₁⟩ := List.map_eq_cons_iff.1 hts
    obtain ⟨⟨_, q⟩, ts₂, rfl, rfl, hts₂⟩ := List.map_eq_cons_iff.1 hts₁
    obtain ⟨rest, hrest, d⟩ := parses_union he h ts₂ hts₂
    exact ⟨rest, hrest, .this d⟩
  | new t =>
    obtain ⟨⟨_, p⟩, ts₁, rfl, rfl, hts₁⟩ := List.map_eq_cons_iff.1 hts
    obtain ⟨⟨_, q⟩, ts₂, rfl, rfl, hts₂⟩ := List.map_eq_cons_iff.1 hts₁
    obtain ⟨rest, hrest, d⟩ := parses_union he h ts₂ hts₂
    exact ⟨rest, hrest, .new d⟩

theorem parses_returns {result : Option TypeExpr}
    (h : ∀ t ∈ result, ∀ ls, endsModified ls.head? = true → Parses (t.lexemes ++ ls) (.modified t) ls)
    (he : endsPlain ls.head? = true) (hr : result.isSome = true → endsModified ls.head? = true) :
    Parses ((lexemesLabelled [.mark .colon] result).flatten ++ ls) (.returns result) ls := by
  intro ts hts
  cases result with
  | none =>
    refine ⟨ts, hts, .noReturns (ne_of_ends (f := endsPlain) ?_ rfl)⟩
    rw [ahead_eq_head?, hts]
    exact he
  | some t =>
    simp only [lexemesLabelled, List.flatten_cons, List.flatten_nil, List.append_nil, List.append_assoc] at hts
    obtain ⟨⟨_, p⟩, ts₁, rfl, rfl, hts₁⟩ := List.map_eq_cons_iff.1 hts
    obtain ⟨rest, hrest, d⟩ := h t rfl ls (hr rfl) ts₁ hts₁
    exact ⟨rest, hrest, .returns d⟩

theorem Derives.ahead_ne_closeParen {xs : List Param} (d : Derives ts (.params xs) rest) :
    ahead ts ≠ some (.mark .closeParen) := by
  have modified {p : Nat} {ts rest : List Token} {t : TypeExpr}
      (d : Derives (⟨.mark .closeParen, p⟩ :: ts) (.modified t) rest) : False := by
    cases d with
    | single _ d =>
      change Derives (⟨.mark .closeParen, p⟩ :: ts) _ _ at d
      cases d with
      | arrayed d => cases d
  have param {p : Nat} {ts rest : List Token} {x : Param}
      (d : Derives (⟨.mark .closeParen, p⟩ :: ts) (.param x) rest) : False := by
    cases d with
    | positional _ d => exact modified d
  intro h
  rcases ts with _ | ⟨⟨l, p⟩, ts⟩
  · cases h
  · obtain rfl : l = .mark .closeParen := Option.some.inj h
    cases d with
    | lastParam d => exact param d
    | moreParams d => exact param d

theorem parses_function {params : List TypeExpr} {returns this new : Option TypeExpr}
    (hparams : ∀ x ∈ paramsOf params this new, ∀ ls, endsModified ls.head? = true →
      Parses (x.type.lexemes ++ ls) (.modified x.type) ls)
    (hreturns : ∀ t ∈ returns, ∀ ls, endsModified ls.head? = true → Parses (t.lexemes ++ ls) (.modified t) ls)
    (he : endsPlain ls.head? = true) (hr : returns.isSome = true → endsModified ls.head? = true) :
    Parses ((function params returns this new).lexemes ++ ls) (.primary (.function params returns this new)) ls := by
  intro ts hts
  rw [lexemes, ← lexemes_paramsOf, ← ofParams_paramsOf] at *
  simp only [List.append_assoc, List.cons_append, List.nil_append] at hts
  obtain ⟨⟨_, p⟩, ts₁, rfl, rfl, hts₁⟩ := List.map_eq_cons_iff.1 hts
  obtain ⟨⟨_, p₁⟩, ts₂, rfl, rfl, hts₂⟩ := List.map_eq_cons_iff.1 hts₁
  generalize paramsOf params this new = xs at *
  cases xs with
  | nil =>
    obtain ⟨⟨_, p₂⟩, ts₃, rfl, rfl, hts₃⟩ := List.map_eq_cons_iff.1 hts₂
    obtain ⟨rest, hrest, d⟩ := parses_returns hreturns he hr ts₃ hts₃
    exact ⟨rest, hrest, .emptyFunction d⟩
  | cons x xs =>
    obtain ⟨ts₃, hts₃, dparams⟩ := parses_list .lastParam .moreParams (by simp) rfl x xs
      (fun y hy => parses_param (hparams y hy)) ts₂ hts₂
    obtain ⟨⟨_, p₂⟩, ts₄, rfl, rfl, hts₄⟩ := List.map_eq_cons_iff.1 hts₃
    obtain ⟨rest, hrest, dreturns⟩ := parses_returns hreturns he hr ts₄ hts₄
    exact ⟨rest, hrest, .function dparams.ahead_ne_closeParen dparams dreturns⟩

/-! ## Records -/

theorem parses_field {f : TypeField} (hkey : ∃ l, keyText l = some f.key ∧ l.Stable)
    (h : ∀ key t, f = .typed key t → ∀ ls, endsModified ls.head? = true → Parses (t.lexemes ++ ls) (.modified t) ls)
    (ls : List Lexeme) (he : endsUnion ls.head? = true) : Parses (lexemesField f ++ ls) (.field f) ls := by
  obtain ⟨l, hl, hs⟩ := hkey
  have htext := Lexeme.ofText_eq hl hs
  intro ts hts
  cases f with
  | bare key =>
    obtain ⟨⟨_, p⟩, ts₁, rfl, rfl, hts₁⟩ := List.map_eq_cons_iff.1 hts
    refine ⟨ts₁, hts₁, .bareField (htext ▸ hl) (ne_of_ends (f := endsUnion) ?_ rfl)⟩
    rw [ahead_eq_head?, hts₁]
    exact he
  | typed key t =>
    obtain ⟨⟨_, p⟩, ts₁, rfl, rfl, hts₁⟩ := List.map_eq_cons_iff.1 hts
    obtain ⟨⟨_, q⟩, ts₂, rfl, rfl, hts₂⟩ := List.map_eq_cons_iff.1 hts₁
    obtain ⟨rest, hrest, d⟩ := parses_union he (h key t rfl) ts₂ hts₂
    exact ⟨rest, hrest, .typedField (htext ▸ hl) d⟩

theorem Derives.ahead_ne_closeBrace {fs : List TypeField} (d : Derives ts (.fields fs) rest) :
    ahead ts ≠ some (.mark .closeBrace) := by
  have field {p : Nat} {ts rest : List Token} {f : TypeField}
      (d : Derives (⟨.mark .closeBrace, p⟩ :: ts) (.field f) rest) : False := by
    cases d with
    | typedField hkey => cases hkey
    | bareField hkey => cases hkey
  intro h
  rcases ts with _ | ⟨⟨l, p⟩, ts⟩
  · cases h
  · obtain rfl : l = .mark .closeBrace := Option.some.inj h
    cases d with
    | lastField d => exact field d
    | moreFields d => exact field d

theorem parses_record {fs : List TypeField} (hkeys : ∀ f ∈ fs, ∃ l, keyText l = some f.key ∧ l.Stable)
    (h : ∀ key t, .typed key t ∈ fs → ∀ ls, endsModified ls.head? = true →
      Parses (t.lexemes ++ ls) (.modified t) ls) : Parses ((record fs).lexemes ++ ls) (.primary (.record fs)) ls := by
  intro ts hts
  rw [lexemes, lexemesFields_eq_map] at hts
  simp only [List.append_assoc, List.cons_append, List.nil_append] at hts
  obtain ⟨⟨_, p⟩, ts₁, rfl, rfl, hts₁⟩ := List.map_eq_cons_iff.1 hts
  cases fs with
  | nil =>
    obtain ⟨⟨_, p₂⟩, ts₂, rfl, rfl, hts₂⟩ := List.map_eq_cons_iff.1 hts₁
    exact ⟨ts₂, hts₂, .emptyRecord⟩
  | cons f fs =>
    obtain ⟨ts₂, hts₂, d⟩ := parses_list .lastField .moreFields (by simp) rfl f fs
      (fun g hg => parses_field (hkeys g hg) fun key t he => h key t (he ▸ hg)) ts₁ hts₁
    obtain ⟨⟨_, p₂⟩, ts₃, rfl, rfl, hts₃⟩ := List.map_eq_cons_iff.1 hts₂
    exact ⟨ts₃, hts₃, .record d.ahead_ne_closeBrace d⟩

/-! ## Unions and applications -/

theorem parses_elements {es : List TypeExpr} (hlen : 2 ≤ es.length)
    (h : ∀ e ∈ es, ∀ ls, endsModified ls.head? = true → Parses (e.lexemes ++ ls) (.modified e) ls) :
    Parses ((TypeExpr.union es).lexemes ++ ls) (.primary (.union es)) ls := by
  intro ts hts
  rw [lexemes, lexemesAll_eq_map] at hts
  simp only [List.append_assoc, List.cons_append, List.nil_append] at hts
  obtain ⟨⟨_, p⟩, ts₁, rfl, rfl, hts₁⟩ := List.map_eq_cons_iff.1 hts
  rcases es with _ | ⟨e₁, _ | ⟨e₂, es⟩⟩
  · simp at hlen
  · simp at hlen
  · rw [List.map_cons, separate_cons, List.append_assoc] at hts₁
    obtain ⟨ts₂, hts₂, d₁⟩ := h e₁ List.mem_cons_self _ rfl ts₁ hts₁
    obtain ⟨ts₃, hts₃, d₂⟩ := parses_alternatives rfl
      (fun e he => h e (List.mem_cons_of_mem e₁ he)) ts₂ hts₂
    obtain ⟨⟨_, p₂⟩, ts₄, rfl, rfl, hts₄⟩ := List.map_eq_cons_iff.1 hts₃
    exact ⟨ts₄, hts₄, .group (.union d₁ d₂)⟩

theorem parses_application {path : String} {args : List TypeExpr} (hnull : path ≠ "null") (hun : path ≠ "undefined")
    (hargs : args ≠ [])
    (h : ∀ e ∈ args, ∀ ls, endsModified ls.head? = true → Parses (e.lexemes ++ ls) (.modified e) ls) :
    Parses ((application (.name path) args).lexemes ++ ls) (.primary (.application (.name path) args)) ls := by
  intro ts hts
  rw [lexemes, lexemes, lexemesAll_eq_map] at hts
  simp only [List.append_assoc, List.cons_append, List.nil_append] at hts
  obtain ⟨⟨_, p⟩, ts₁, rfl, rfl, hts₁⟩ := List.map_eq_cons_iff.1 hts
  obtain ⟨⟨_, p₁⟩, ts₂, rfl, rfl, hts₂⟩ := List.map_eq_cons_iff.1 hts₁
  rcases args with _ | ⟨e, es⟩
  · exact (hargs rfl).elim
  · obtain ⟨ts₃, hts₃, d⟩ := parses_list .lastArg .moreArgs (by simp) rfl e es
      (fun e' he' ls he => parses_union he (h e' he')) ts₂ hts₂
    obtain ⟨⟨_, p₂⟩, ts₄, rfl, rfl, hts₄⟩ := List.map_eq_cons_iff.1 hts₃
    refine ⟨ts₄, hts₄, .name hnull hun (fun _ => ?_) (.dotArgs d)⟩
    simp [ahead]

theorem parses_name {path : String} (hnull : path ≠ "null") (hun : path ≠ "undefined")
    (he : endsPlain ls.head? = true) : Parses ((name path).lexemes ++ ls) (.primary (.name path)) ls := by
  intro ts hts
  obtain ⟨⟨_, p⟩, ts₁, rfl, rfl, hts₁⟩ := List.map_eq_cons_iff.1 hts
  have hahead : endsPlain (ahead ts₁) = true := by
    rw [ahead_eq_head?, hts₁]
    exact he
  exact ⟨ts₁, hts₁, .name hnull hun (fun _ => ne_of_ends hahead rfl)
    (.noArgs (ne_of_ends hahead rfl) (ne_of_ends hahead rfl))⟩

theorem parses_atom {l : Lexeme} (h : ∀ p ts, Derives (⟨l, p⟩ :: ts) ph ts) : Parses ([l] ++ ls) ph ls := by
  intro ts hts
  obtain ⟨⟨_, p⟩, ts₁, rfl, rfl, hts₁⟩ := List.map_eq_cons_iff.1 hts
  exact ⟨ts₁, hts₁, h p ts₁⟩

/-! ## Types -/

/-- No modifiers stand around modifiers, and no optional mark around a function type with a result: the canonical text
puts nothing between the two. -/
def Unstacked : TypeExpr → Prop
  | .modified (.modified ..) .. => False
  | .modified (.function _ (some _) _ _) true .. => False
  | _ => True

/-- The lexemes of a type are read as that type. -/
structure Restated (t : TypeExpr) : Prop where
  primary : t.isModified = false → ∀ {ls}, endsPlain ls.head? = true →
    (t.hasResult = true → endsModified ls.head? = true) → Parses (t.lexemes ++ ls) (.primary t) ls
  modified : ∀ ls, endsModified ls.head? = true → Parses (t.lexemes ++ ls) (.modified t) ls

/-- A type without modifiers is read as a type with modifiers, too. -/
theorem Restated.of_primary (hr : t.Everywhere Readable) (hm : t.isModified = false)
    (h : ∀ {ls}, endsPlain ls.head? = true → (t.hasResult = true → endsModified ls.head? = true) →
      Parses (t.lexemes ++ ls) (.primary t) ls) : Restated t where
  primary := fun _ => h
  modified := fun ls he => by
    have := parses_modified false none false hr hm h (fun _ => rfl) he
    simpa [leadingLexemes, nullableLexemes, trailingLexemes, modify] using this

theorem restated (hr : t.Everywhere Readable) (hu : t.Everywhere Unstacked) : Restated t := by
  induction t using induct with
  | name path => exact .of_primary hr rfl fun he _ => parses_name hr.self.1 hr.self.2.1 he
  | all => exact .of_primary hr rfl fun _ _ => parses_atom fun _ _ => .all
  | unknown => exact .of_primary hr rfl fun _ _ => parses_atom fun _ _ => .unknown
  | null => exact .of_primary hr rfl fun _ _ => parses_atom fun _ _ => .null
  | undefined => exact .of_primary hr rfl fun _ _ => parses_atom fun _ _ => .undefined
  | literal text =>
    refine .of_primary hr rfl fun _ _ => ?_
    rcases hr.self with hs | hs
    · rw [lexemes, Lexeme.ofText_eq rfl hs]
      exact parses_atom fun _ _ => .quoted
    · rw [lexemes, Lexeme.ofText_eq rfl hs]
      exact parses_atom fun _ _ => .number
  | union es ih =>
    obtain ⟨hlen, hes⟩ := everywhere_union.1 hr
    have hus := (everywhere_union.1 hu).2
    exact .of_primary hr rfl fun _ _ => parses_elements hlen fun e he => (ih e he (hes e he) (hus e he)).modified
  | application base args _ ih =>
    obtain ⟨⟨⟨path, rfl⟩, hne⟩, hbase, hargs⟩ := everywhere_application.1 hr
    have hus := (everywhere_application.1 hu).2.2
    exact .of_primary hr rfl fun _ _ => parses_application hbase.self.1 hbase.self.2.1 hne
      fun e he => (ih e he (hargs e he) (hus e he)).modified
  | function params returns this new ihp ihr iht ihn =>
    obtain ⟨-, hparams, hreturns, hthis, hnew⟩ := everywhere_function.1 hr
    obtain ⟨-, huparams, hureturns, huthis, hunew⟩ := everywhere_function.1 hu
    have hall : ∀ x ∈ paramsOf params this new, Restated x.type := by
      intro x hx
      simp only [paramsOf, List.mem_append, Option.mem_toList, Option.map_eq_some_iff, List.mem_map] at hx
      rcases hx with (⟨t, ht, rfl⟩ | ⟨t, ht, rfl⟩) | ⟨t, ht, rfl⟩
      · exact iht t ht (hthis t ht) (huthis t ht)
      · exact ihn t ht (hnew t ht) (hunew t ht)
      · exact ihp t ht (hparams t ht) (huparams t ht)
    have hresult : (function params returns this new).hasResult = returns.isSome := by cases returns <;> rfl
    exact .of_primary hr rfl fun he hends => parses_function (fun x hx => (hall x hx).modified)
      (fun t ht => (ihr t ht (hreturns t ht) (hureturns t ht)).modified) he (hresult ▸ hends)
  | record fs ih =>
    obtain ⟨hkeys, hvalues⟩ := everywhere_record.1 hr
    have hus := (everywhere_record.1 hu).2
    exact .of_primary hr rfl fun _ _ => parses_record hkeys
      fun key t hm => (ih key t hm (hvalues key t hm) (hus key t hm)).modified
  | modified inner optional nullable repeatable ih =>
    obtain ⟨hmarks, hinner⟩ := everywhere_modified.1 hr
    obtain ⟨hstack, huinner⟩ := everywhere_modified.1 hu
    have hm : inner.isModified = false := by
      cases inner <;> first | rfl | exact hstack.elim
    have hopt : inner.hasResult = true → optional = false := by
      intro h
      cases optional with
      | false => rfl
      | true =>
        cases inner with
        | function params returns this new =>
          cases returns with
          | none => cases h
          | some result => exact hstack.elim
        | _ => cases h
    have hmodify : inner.modify optional nullable repeatable = .modified inner optional nullable repeatable :=
      if_pos (by simpa [Readable, or_assoc] using hmarks)
    refine ⟨fun h => absurd h (by simp [isModified]), fun ls he => ?_⟩
    have := parses_modified optional nullable repeatable hinner hm
      ((ih hinner huinner).primary hm) hopt he
    rwa [hmodify] at this

/-! ## The round trip -/

/-- **A type that was read from a text is read again from its canonical text.** The exception are types whose canonical
text runs two marks together: modifiers around modifiers, and an optional mark around a function type with a result. -/
theorem parse_toText {e : String} (h : parse e = .ok t) (hu : t.Everywhere Unstacked) : parse t.toText = .ok t := by
  obtain ⟨ts, hts, d⟩ := parse_eq_ok.1 h
  have hr : t.Everywhere Readable := d.readable (legible_of_tokensFrom hts) rfl
  have hlexes : Lexes t.render t.lexemes [] := by
    have := spells_render hr [] rfl
    rwa [List.append_nil] at this
  obtain ⟨ts', hts', hls⟩ := hlexes.tokens 0
  rw [← List.append_nil t.lexemes] at hls
  obtain ⟨rest, hrest, d'⟩ := parses_union rfl (restated hr hu).modified ts' hls
  obtain rfl := List.map_eq_nil_iff.1 hrest
  rw [parse_eq_ok, toText, String.toList_ofList, trim_render hr]
  exact ⟨ts', hts', d'⟩

theorem parse_toText_arrayUnion : ∃ t, parse "?a[]|b=" = .ok t ∧ t.Everywhere Unstacked ∧ parse t.toText = .ok t := by
  have h : parse "?a[]|b=" = .ok (.union [.modified (.application (.name "Array") [.name "a"]) false (some true) false,
      .modified (.name "b") true none false]) := by with_unfolding_all rfl
  refine ⟨_, h, ?_, parse_toText h ?_⟩ <;> simp [Everywhere, parts, partsAll, Unstacked]

end SymbolDocs.TypeExpr
