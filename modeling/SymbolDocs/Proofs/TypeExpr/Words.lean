import Mathlib.Data.List.Infix
import SymbolDocs.Proofs.TypeExpr.RoundTrip

/-!
# The words of a type expression

The names, literals, constants and keys of a type are its `leaves`; the words of its text are counted on the tokens,
with no more knowledge of the grammar than which parentheses are those of a parameter list (`words`). Reading keeps all
words, except for those of a type of `this` or of the constructed object that a later one in the same parameter list
takes the place of (`lostWords`): `leaves_of_parse`. What the tokens of each phrase make is followed through its
derivation (`Derives.spends`); only a function type loses anything (`count_leaves_ofParams`).
-/

namespace SymbolDocs.TypeExpr

open SymbolDocs.Text

/-! ## The words of a type -/

/-- The words that a type has of its own, apart from those of the types inside it. -/
def ownWords : TypeExpr → List String
  | .name path => [path]
  | .literal text => [text]
  | .null => ["null"]
  | .undefined => ["undefined"]
  | .record fields => fields.map TypeField.key
  | .all | .unknown | .union _ | .application .. | .function .. | .modified .. => []

/-- The names, literals, constants and keys in a type. -/
def leaves (t : TypeExpr) : List String := t.parts.flatMap ownWords

variable {t : TypeExpr} {ts rest : List Token} {st : List Bool} {p q : Nat} {l : Lexeme} {path w : String}

theorem flatMap_partsAll (es : List TypeExpr) : (partsAll es).flatMap ownWords = es.flatMap leaves := by
  induction es with
  | nil => rfl
  | cons e es ih => rw [partsAll, List.flatMap_append, ih, List.flatMap_cons, leaves]

theorem flatMap_partsOption (o : Option TypeExpr) : (partsOption o).flatMap ownWords = o.toList.flatMap leaves := by
  cases o <;> simp [partsOption, leaves]

theorem leaves_union (es : List TypeExpr) : (union es).leaves = es.flatMap leaves := by
  rw [leaves, parts, List.flatMap_cons, flatMap_partsAll, ownWords, List.nil_append]

theorem leaves_application (base : TypeExpr) (args : List TypeExpr) :
    (application base args).leaves = base.leaves ++ args.flatMap leaves := by
  rw [leaves, parts, List.flatMap_cons, List.flatMap_append, flatMap_partsAll, ← leaves, ownWords, List.nil_append]

theorem leaves_function (params : List TypeExpr) (returns this new : Option TypeExpr) :
    (function params returns this new).leaves = params.flatMap leaves ++ returns.toList.flatMap leaves ++
      this.toList.flatMap leaves ++ new.toList.flatMap leaves := by
  simp only [leaves, parts, List.flatMap_cons, List.flatMap_append, flatMap_partsAll, flatMap_partsOption, ownWords,
    List.nil_append]

theorem leaves_modified (optional repeatable : Bool) (nullable : Option Bool) :
    (modified t optional nullable repeatable).leaves = t.leaves := by
  rw [leaves, parts, List.flatMap_cons, ← leaves, ownWords, List.nil_append]

theorem leaves_modify (optional repeatable : Bool) (nullable : Option Bool) :
    (t.modify optional nullable repeatable).leaves = t.leaves := by
  unfold modify
  split
  · exact leaves_modified ..
  · rfl

theorem leaves_typed (key : String) (t : TypeExpr) : (record [.typed key t]).leaves = key :: t.leaves := by
  simp [leaves, parts, partsFields, ownWords, TypeField.key]

/-- A record has the words of its fields, in another order. -/
theorem count_leaves_record (f : TypeField) (fs : List TypeField) :
    (record (f :: fs)).leaves.count w = (record [f]).leaves.count w + (record fs).leaves.count w := by
  cases f <;> simp [leaves, parts, partsFields, ownWords, List.count_append, List.count_cons] <;> omega

theorem leaves_ofAlternatives (es : List TypeExpr) :
    (ofAlternatives t es).leaves = t.leaves ++ es.flatMap leaves := by
  cases es with
  | nil => exact (List.append_nil _).symm
  | cons e es => exact leaves_union (t :: e :: es)

theorem leaves_arrayOf (t : TypeExpr) : (arrayOf t).leaves = "Array" :: t.leaves := by
  rw [arrayOf, leaves_application, List.flatMap_singleton]
  rfl

/-! ## Parts of a parameter list that are replaced -/

namespace Param

/-- The type of a parameter without label. -/
def positional? : Param → Option TypeExpr
  | .positional t => some t
  | _ => none

/-- The type that a part states of `this`. -/
def this? : Param → Option TypeExpr
  | .this t => some t
  | _ => none

/-- The type that a part states of the constructed object. -/
def new? : Param → Option TypeExpr
  | .new t => some t
  | _ => none

end Param

/-- The types in a parameter list that a later part with the same label takes the place of. -/
def superseded (xs : List Param) : List TypeExpr :=
  (xs.filterMap Param.this?).dropLast ++ (xs.filterMap Param.new?).dropLast

theorem ofParams_eq (xs : List Param) (result : Option TypeExpr) :
    ofParams xs result = .function (xs.filterMap Param.positional?) result (xs.filterMap Param.this?).getLast?
      (xs.filterMap Param.new?).getLast? := by
  rw [List.getLast?_filterMap, List.getLast?_filterMap]
  rfl

/-- Every part of a parameter list is of one of the three sorts. -/
theorem count_leaves_params (xs : List Param) :
    (xs.flatMap (·.type.leaves)).count w = ((xs.filterMap Param.positional?).flatMap leaves).count w +
      ((xs.filterMap Param.this?).flatMap leaves).count w + ((xs.filterMap Param.new?).flatMap leaves).count w := by
  induction xs with
  | nil => rfl
  | cons x xs ih =>
    rw [List.flatMap_cons, List.count_append, ih]
    cases x with
    | positional t | this t | new t =>
      simp [Param.type, List.filterMap_cons, Param.positional?, Param.this?, Param.new?]
      omega

/-- The words of the last type and of those before it. -/
theorem count_leaves_getLast? (es : List TypeExpr) : (es.flatMap leaves).count w =
    (es.dropLast.flatMap leaves).count w + (es.getLast?.toList.flatMap leaves).count w := by
  rcases List.eq_nil_or_concat es with rfl | ⟨es, e, rfl⟩
  · rfl
  · simp [List.count_append]

/-- **A function type has the words of its parts**, except for those of the parts that are replaced. -/
theorem count_leaves_ofParams (xs : List Param) (result : Option TypeExpr) :
    (xs.flatMap (·.type.leaves)).count w + (result.toList.flatMap leaves).count w =
      (ofParams xs result).leaves.count w + ((superseded xs).flatMap leaves).count w := by
  have hthis := count_leaves_getLast? (w := w) (xs.filterMap Param.this?)
  have hnew := count_leaves_getLast? (w := w) (xs.filterMap Param.new?)
  rw [count_leaves_params, ofParams_eq, leaves_function, superseded, List.flatMap_append]
  simp only [List.count_append]
  omega

/-! ## The words of tokens -/

/-- The brackets around the tokens behind a mark. Parentheses and braces enclose; those of parameter lists are marked
`true`. -/
def Lexeme.enclose (st : List Bool) : Lexeme → List Bool
  | .mark .openParen | .mark .openBrace => false :: st
  | .mark .closeParen | .mark .closeBrace => st.tail
  | _ => st

/-- Whether a word is a label of a parameter list. -/
def isLabel (word : String) : Bool := word = "this" || word = "new"

/-- The words of tokens between the given brackets, innermost first: the texts of the names, quoted texts and numbers,
and the word for each pair of square brackets. The word in front of a parameter list and the labels inside it do not
count. -/
def words (st : List Bool) : List Token → List String
  | [] => []
  | ⟨.name path, _⟩ :: ⟨.mark .openParen, _⟩ :: ts =>
    if path = "function" then words (true :: st) ts else path :: words (false :: st) ts
  | ⟨.name path, _⟩ :: ⟨.mark .colon, _⟩ :: ts =>
    if isLabel path && st.head? = some true then words st ts else path :: words st ts
  | ⟨.mark .openBracket, _⟩ :: ⟨.mark .closeBracket, _⟩ :: ts => "Array" :: words st ts
  | ⟨l, _⟩ :: ts => (keyText l).toList ++ words (l.enclose st) ts

theorem words_function : words st (⟨.name "function", p⟩ :: ⟨.mark .openParen, q⟩ :: ts) = words (true :: st) ts := by
  rw [words, if_pos rfl]

theorem words_label (hp : isLabel path = true) (hst : st.head? = some true) :
    words st (⟨.name path, p⟩ :: ⟨.mark .colon, q⟩ :: ts) = words st ts := by
  rw [words, if_pos (by simp [hp, hst])]

theorem words_name (hcolon : ahead ts ≠ some (.mark .colon))
    (hparen : path = "function" → ahead ts ≠ some (.mark .openParen)) :
    words st (⟨.name path, p⟩ :: ts) = path :: words st ts := by
  rcases ts with _ | ⟨⟨l, q⟩, ts⟩
  · rfl
  · by_cases hl : l = .mark .openParen
    · subst hl
      rw [words, if_neg fun hf => hparen hf rfl]
      rfl
    · rw [words]
      · rfl
      · exact fun _ _ _ he _ => hl (congrArg Token.lexeme (List.cons.inj he).1)
      · exact fun _ _ _ he _ => hcolon (congrArg (fun t : Token => some t.lexeme) (List.cons.inj he).1)
      · exact fun _ _ _ => nofun

theorem words_key {key : String} (hkey : keyText l = some key) (hst : st.head? ≠ some true)
    (hparen : ahead ts ≠ some (.mark .openParen)) : words st (⟨l, p⟩ :: ts) = key :: words st ts := by
  cases l with
  | quoted text | number text =>
    cases hkey
    rfl
  | mark m => cases hkey
  | name path =>
    cases hkey
    by_cases hcolon : ahead ts = some (.mark .colon)
    · rcases ts with _ | ⟨⟨l, q⟩, ts⟩
      · cases hcolon
      · obtain rfl : l = .mark .colon := Option.some.inj hcolon
        rw [words, if_neg (by simp [hst])]
        rfl
    · exact words_name hcolon fun _ => hparen

/-! ## Words that a text loses -/

/-- The parameter list that the tokens start with, if they start with one. -/
def paramList (ts : List Token) : List Param :=
  match readParams 0 ts with
  | .ok (xs, _) => xs
  | .error _ => []

/-- The parameter list of the function type that the tokens start with, if they start with one. -/
def paramsAhead : List Token → List Param
  | ⟨.name "function", _⟩ :: ⟨.mark .openParen, _⟩ :: ts => paramList ts
  | _ => []

/-- The words of the types that the function types among the tokens do not keep. -/
def lostWords (ts : List Token) : List String := ts.tails.flatMap fun ts => (superseded (paramsAhead ts)).flatMap leaves

theorem lostWords_cons (token : Token) (ts : List Token) :
    lostWords (token :: ts) = (superseded (paramsAhead (token :: ts))).flatMap leaves ++ lostWords ts := by
  rfl

theorem paramsAhead_eq_nil (h : l = .name "function" → ahead ts ≠ some (.mark .openParen)) :
    paramsAhead (⟨l, p⟩ :: ts) = [] := by
  unfold paramsAhead
  split
  · next he =>
    cases he
    exact (h rfl rfl).elim
  · rfl

theorem lostWords_cons_of_ne (h : l = .name "function" → ahead ts ≠ some (.mark .openParen)) :
    lostWords (⟨l, p⟩ :: ts) = lostWords ts := by
  rw [lostWords_cons, paramsAhead_eq_nil h]
  rfl

theorem paramList_eq {xs : List Param} (d : Derives ts (.params xs) rest) : paramList ts = xs := by
  obtain ⟨h, hread⟩ : (Phrase.params xs).Reads 0 ts rest := d.reads
  rw [paramList, hread]

theorem paramList_eq_nil (h : ahead ts = some (.mark .closeParen)) : paramList ts = [] := by
  unfold paramList
  split
  · next xs tail hread =>
    have d : Derives ts (.params xs) tail.1 := derives_of_reads ⟨tail.2, hread⟩
    exact (d.ahead_ne_closeParen h).elim
  · rfl

/-! ## What follows a phrase -/

/-- The tokens go on with neither a colon nor a parenthesis, which would change what the word before them is. -/
def Detached (ts : List Token) : Prop := ahead ts ≠ some (.mark .colon) ∧ ahead ts ≠ some (.mark .openParen)

theorem detached_mark {m : Mark} (h : m ≠ .colon ∧ m ≠ .openParen) : Detached (⟨.mark m, p⟩ :: ts) := by
  simpa [Detached, ahead] using h

theorem detached_nil : Detached [] := ⟨nofun, nofun⟩

theorem Detached.of_readArrays (h : Detached (readArrays t ts).2.1) : Detached ts := by
  unfold readArrays at h
  split at h
  · exact detached_mark (by decide)
  · exact h

theorem Detached.of_readSuffixes {optional : Bool} {nullable : Option Bool}
    (h : Detached (readSuffixes t optional nullable ts).2.1) : Detached ts := by
  unfold readSuffixes at h
  split at h
  · exact detached_mark (by decide)
  · exact detached_mark (by decide)
  · exact detached_mark (by decide)
  · exact h

theorem Detached.of_modifyBy {repeatable : Bool} {nullable : Option Bool}
    (h : Detached (modifyBy t nullable repeatable ts).2.1) : Detached ts :=
  h.of_readSuffixes

theorem Detached.of_alternatives {es : List TypeExpr} (h : Detached rest) (d : Derives ts (.alternatives es) rest) :
    Detached ts := by
  cases d with
  | alternative => exact detached_mark (by decide)
  | noAlternative => exact h

theorem Detached.of_args {base : TypeExpr} (h : Detached rest) (d : Derives ts (.args base t) rest) : Detached ts := by
  cases d with
  | dotArgs | lessArgs => exact detached_mark (by decide)
  | noArgs => exact h

/-! ## What the tokens before a place keep -/

theorem lostWords_mark (m : Mark) : lostWords (⟨.mark m, p⟩ :: ts) = lostWords ts := lostWords_cons_of_ne nofun

/-- The tokens between `ts` and `rest`, together with some words that are there already, make the words `ws`, apart
from those that are lost. -/
def Spends (st : List Bool) (gs : List String) (ts : List Token) (ws : List String) (rest : List Token) : Prop :=
  ∀ w, (words st ts).count w + gs.count w + (lostWords rest).count w =
    ws.count w + (words st rest).count w + (lostWords ts).count w

variable {gs ws xs : List String} {mid : List Token} {m : Mark}

theorem Spends.refl : Spends st ws ts ws ts := fun _ => by omega

theorem Spends.trans (h : Spends st gs ts ws mid) (h' : Spends st ws mid xs rest) : Spends st gs ts xs rest := by
  intro w
  have := h w
  have := h' w
  omega

theorem Spends.append (h : Spends st [] ts ws mid) (h' : Spends st [] mid xs rest) :
    Spends st [] ts (ws ++ xs) rest := by
  intro w
  have := h w
  have := h' w
  simp only [List.count_append, List.count_nil] at *
  omega

/-- More words that are there already. -/
theorem Spends.frame (h : Spends st [] ts ws rest) (gs : List String) : Spends st gs ts (gs ++ ws) rest := by
  intro w
  have := h w
  simp only [List.count_append, List.count_nil] at *
  omega

theorem Spends.congr (h : Spends st gs ts ws rest) (hw : ∀ w, ws.count w = xs.count w) :
    Spends st gs ts xs rest :=
  fun w => hw w ▸ h w

/-- A mark without words in front. -/
theorem Spends.mark (h : Spends st gs ts ws rest) (hm : words st (⟨.mark m, p⟩ :: ts) = words st ts) :
    Spends st gs (⟨.mark m, p⟩ :: ts) ws rest := by
  intro w
  rw [hm, lostWords_mark]
  exact h w

/-- A mark without words behind. -/
theorem Spends.of_mark (h : Spends st gs ts ws (⟨.mark m, p⟩ :: rest))
    (hm : words st (⟨.mark m, p⟩ :: rest) = words st rest) : Spends st gs ts ws rest := by
  intro w
  have := h w
  rwa [hm, lostWords_mark] at this

/-- Brackets around. -/
theorem Spends.enclose {b : Bool} {m' : Mark} (h : Spends (b :: st) gs ts ws (⟨.mark m', q⟩ :: rest))
    (hm : words st (⟨.mark m, p⟩ :: ts) = words (b :: st) ts)
    (hm' : words (b :: st) (⟨.mark m', q⟩ :: rest) = words st rest) :
    Spends st gs (⟨.mark m, p⟩ :: ts) ws rest := by
  intro w
  have := h w
  rwa [hm', lostWords_mark, ← hm, ← lostWords_mark (p := p) m] at this

/-- A word in front. -/
theorem Spends.word (h : Spends st [path] ts ws rest) (hw : words st (⟨l, p⟩ :: ts) = path :: words st ts)
    (hl : l = .name "function" → ahead ts ≠ some (.mark .openParen)) : Spends st [] (⟨l, p⟩ :: ts) ws rest := by
  intro w
  have := h w
  rw [hw, lostWords_cons_of_ne hl]
  simp only [List.count_cons, List.count_nil] at *
  omega

/-- A label in front, inside a parameter list. -/
theorem Spends.label (h : Spends st gs ts ws rest) (hp : isLabel path = true) (hst : st.head? = some true) :
    Spends st gs (⟨.name path, p⟩ :: ⟨.mark .colon, q⟩ :: ts) ws rest := by
  have hne : ahead (⟨.mark .colon, q⟩ :: ts) ≠ some (.mark .openParen) := nofun
  intro w
  rw [words_label hp hst, lostWords_cons_of_ne fun _ => hne, lostWords_mark]
  exact h w

theorem spends_readNullable : Spends st gs ts gs (readNullable ts).2.1 := by
  unfold readNullable
  split
  · split
    · exact Spends.refl.mark rfl
    · exact .refl
  · exact Spends.refl.mark rfl
  · exact .refl

theorem spends_modifyBy {repeatable : Bool} {nullable : Option Bool} :
    Spends st t.leaves ts (modifyBy t nullable repeatable ts).1.leaves (modifyBy t nullable repeatable ts).2.1 := by
  have suffixes {optional : Bool} {ws : List String} :
      Spends st ws ts ws (readSuffixes t optional nullable ts).2.1 := by
    fun_induction readSuffixes t optional nullable ts with
    | case1 _ _ _ _ _ _ _ he ih | case2 _ _ _ _ _ _ _ _ he ih | case4 _ _ _ _ _ _ _ _ he ih =>
      rw [he] at ih
      exact ih.mark rfl
    | case3 | case5 | case6 => exact .refl
  exact suffixes.congr fun w => by rw [modifyBy, leaves_modify]

/-- Each pair of square brackets is a word of the array type that it makes. -/
theorem spends_readArrays : Spends st t.leaves ts (readArrays t ts).1.leaves (readArrays t ts).2.1 := by
  fun_induction readArrays t ts with
  | case1 t p q rest array tail hle he ih =>
    rw [he, leaves_arrayOf] at ih
    intro w
    have := ih w
    rw [lostWords_mark, lostWords_mark, words]
    simp only [List.count_cons] at *
    omega
  | case2 => exact .refl

/-! ## Derivations -/

namespace Phrase

/-- The words of what a phrase gives. -/
def leaves : Phrase → List String
  | .union t | .modified t | .arrayed t | .primary t | .args _ t => t.leaves
  | .alternatives es | .argList es => es.flatMap TypeExpr.leaves
  | .returns result => result.toList.flatMap TypeExpr.leaves
  | .param x => x.type.leaves
  | .params xs => xs.flatMap (·.type.leaves)
  | .field f => (record [f]).leaves
  | .fields fs => (record fs).leaves

/-- The words that are there before a phrase. -/
def given : Phrase → List String
  | .args base _ => base.leaves
  | _ => []

/-- The brackets that a phrase can stand in: parts of a parameter list between its parentheses, fields outside. -/
def Within (st : List Bool) : Phrase → Prop
  | .param _ | .params _ => st.head? = some true
  | .field _ | .fields _ => st.head? ≠ some true
  | _ => True

end Phrase

/-- A function type makes the words of its parts, except for those of the parts that are replaced. -/
theorem spends_function {ps : List Param} {result : Option TypeExpr} {p₁ q : Nat}
    (hps : paramList ts = ps)
    (h : Spends (true :: st) [] ts (ps.flatMap (·.type.leaves)) (⟨.mark .closeParen, q⟩ :: mid))
    (h' : Spends st [] mid (result.toList.flatMap leaves) rest) :
    Spends st [] (⟨.name "function", p⟩ :: ⟨.mark .openParen, p₁⟩ :: ts) (ofParams ps result).leaves rest := by
  intro w
  have h₁ := h w
  have h₂ := h' w
  have h₃ := count_leaves_ofParams (w := w) ps result
  have hclose : words (true :: st) (⟨.mark .closeParen, q⟩ :: mid) = words st mid := rfl
  rw [words_function, lostWords_cons, lostWords_mark, paramsAhead, hps]
  rw [hclose, lostWords_mark] at h₁
  simp only [List.count_append, List.count_nil] at *
  omega

/-- **The tokens of a phrase make the words of what it gives**, apart from those that are lost. -/
theorem Derives.spends {ph : Phrase} (d : Derives ts ph rest) (h : Detached rest) (hst : ph.Within st) :
    Spends st ph.given ts ph.leaves rest := by
  induction d generalizing st with
  | @union ts mid rest t others _ d₂ ih₁ ih₂ =>
    rw [Phrase.leaves, leaves_ofAlternatives]
    exact (ih₁ (h.of_alternatives d₂) hst).append (ih₂ h hst)
  | alternative _ d₂ ih₁ ih₂ => exact ((ih₁ (h.of_alternatives d₂) hst).append (ih₂ h hst)).mark rfl
  | noAlternative | noArgs | noReturns => exact .refl
  | repeatable _ _ ih =>
    exact ((spends_readNullable.trans (ih h.of_modifyBy hst)).trans spends_modifyBy).mark rfl
  | repeatableAny => exact (spends_readNullable.trans (spends_modifyBy (t := .all))).mark rfl
  | single _ _ ih => exact (spends_readNullable.trans (ih h.of_modifyBy hst)).trans spends_modifyBy
  | arrayed _ ih => exact (ih h.of_readArrays hst).trans spends_readArrays
  | all | unknown => exact Spends.refl.mark rfl
  | group _ ih => exact (ih (detached_mark (by decide)) trivial).enclose rfl rfl
  | emptyRecord => exact Spends.enclose (b := false) .refl rfl rfl
  | record _ _ ih => exact (ih (detached_mark (by decide)) (by simp [Phrase.Within])).enclose rfl rfl
  | quoted | number => exact Spends.refl.word rfl nofun
  | emptyFunction _ ih => exact spends_function (paramList_eq_nil rfl) .refl (ih h trivial)
  | function _ d₁ _ ih₁ ih₂ =>
    exact spends_function (paramList_eq d₁) (ih₁ (detached_mark (by decide)) rfl) (ih₂ h trivial)
  | null | undefined => exact Spends.refl.word (words_name h.1 nofun) nofun
  | name _ _ hfun d ih =>
    exact (ih h trivial).word (words_name (h.of_args d).1 hfun) fun he => hfun (Lexeme.name.inj he)
  | dotArgs _ ih | lessArgs _ ih =>
    rw [Phrase.leaves, leaves_application]
    exact (((ih (detached_mark (by decide)) trivial).of_mark rfl).frame _).mark rfl
  | lastArg _ _ ih =>
    rw [Phrase.leaves, List.flatMap_singleton]
    exact ih h trivial
  | moreArgs _ _ ih₁ ih₂ => exact ((ih₁ (detached_mark (by decide)) hst).of_mark rfl).append (ih₂ h hst)
  | returns _ ih =>
    rw [Phrase.leaves, Option.toList_some, List.flatMap_singleton]
    exact (ih h trivial).mark rfl
  | this _ ih => exact (ih h trivial).label (by decide) hst
  | new _ ih => exact (ih h trivial).label (by decide) hst
  | positional _ _ ih => exact ih h trivial
  | lastParam _ _ ih =>
    rw [Phrase.leaves, List.flatMap_singleton]
    exact ih h hst
  | moreParams _ _ ih₁ ih₂ => exact ((ih₁ (detached_mark (by decide)) hst).of_mark rfl).append (ih₂ h hst)
  | @typedField ts rest t p q l key hkey _ ih =>
    rw [Phrase.leaves, leaves_typed]
    exact (((ih h trivial).frame [key]).mark rfl).word (words_key hkey hst nofun) fun _ => nofun
  | bareField hkey _ => exact Spends.refl.word (words_key hkey hst h.2) fun _ => h.2
  | lastField _ _ ih => exact ih h hst
  | moreFields _ _ ih₁ ih₂ =>
    refine (((ih₁ (detached_mark (by decide)) hst).of_mark rfl).append (ih₂ h hst)).congr fun w => ?_
    rw [Phrase.leaves, Phrase.leaves, Phrase.leaves, count_leaves_record, List.count_append]

/-! ## Whole texts -/

theorem lostWords_eq_nil_iff :
    lostWords ts = [] ↔ ∀ tail, tail <:+ ts → ∀ s ∈ superseded (paramsAhead tail), s.leaves = [] := by
  simp only [lostWords, List.flatMap_eq_nil_iff, List.mem_tails]

/-- **The words of a text are those of the type that it states**, apart from the words of the types that a later part of
the same parameter list takes the place of. Hence none is lost exactly if there are no such words. -/
theorem leaves_of_parse {e : String} (h : parse e = .ok t) :
    ∃ ts, tokensOf (trim e.toList) = .ok ts ∧ (words [] ts).Perm (t.leaves ++ lostWords ts) ∧
      ((words [] ts).Perm t.leaves ↔ ∀ tail, tail <:+ ts → ∀ s ∈ superseded (paramsAhead tail), s.leaves = []) := by
  obtain ⟨ts, hts, d⟩ := parse_eq_ok.1 h
  have hspends : Spends [] [] ts t.leaves [] := d.spends detached_nil trivial
  have hperm : (words [] ts).Perm (t.leaves ++ lostWords ts) := by
    rw [List.perm_iff_count]
    intro w
    have hcount : (words [] ts).count w + 0 + 0 = t.leaves.count w + 0 + (lostWords ts).count w := hspends w
    rw [List.count_append]
    omega
  refine ⟨ts, hts, hperm, ?_⟩
  rw [← lostWords_eq_nil_iff]
  constructor
  · intro hkept
    have hlength := (hperm.symm.trans hkept).length_eq
    rw [List.length_append] at hlength
    exact List.eq_nil_of_length_eq_zero (by omega)
  · intro hlost
    rwa [hlost, List.append_nil] at hperm

/-- Labels, keys that look like labels, and brackets. -/
theorem leaves_of_parse_labels : ∃ t ts,
    parse "function(new:{this: b[]}, ...?c): null|'d'" = .ok t ∧
      tokensOf (trim "function(new:{this: b[]}, ...?c): null|'d'".toList) = .ok ts ∧
      t.leaves = ["c", "null", "this", "Array", "b", "'d'"] ∧ words [] ts = ["this", "b", "Array", "c", "null", "'d'"] ∧
      ∀ tail, tail <:+ ts → ∀ s ∈ superseded (paramsAhead tail), s.leaves = [] := by
  have h : parse "function(new:{this: b[]}, ...?c): null|'d'" = .ok (.union [.function
      [.modified (.name "c") false (some true) true] (some .null) none
      (some (.record [.typed "this" (arrayOf (.name "b"))])), .literal "'d'"]) := by with_unfolding_all rfl
  obtain ⟨ts, hts, -, hiff⟩ := leaves_of_parse h
  have hwords : (tokensOf (trim "function(new:{this: b[]}, ...?c): null|'d'".toList)).map (words []) =
      .ok ["this", "b", "Array", "c", "null", "'d'"] := by with_unfolding_all rfl
  rw [hts] at hwords
  have hwords : words [] ts = ["this", "b", "Array", "c", "null", "'d'"] := Except.ok.inj hwords
  exact ⟨_, ts, h, hts, rfl, hwords, hiff.1 (hwords ▸ by decide)⟩

/-- Of two types of `this` the first one is lost. -/
theorem lost_first_this : ∃ ts, parse "function(this:A, this:B)" = .ok (.function [] none (some (.name "B")) none) ∧
    tokensOf (trim "function(this:A, this:B)".toList) = .ok ts ∧ words [] ts = ["A", "B"] ∧
    ¬(words [] ts).Perm (TypeExpr.function [] none (some (.name "B")) none).leaves := by
  refine ⟨_, by with_unfolding_all rfl, by with_unfolding_all rfl, rfl, by decide⟩

end SymbolDocs.TypeExpr
