import SymbolDocs.Proofs.Text.Nesting
import SymbolDocs.Proofs.TypeExpr.Derivation
import SymbolDocs.Proofs.TypeExpr.Scanning

/-!
# The braces of a type expression are properly nested

Only a record type has marks that are braces, one before and one behind its fields, so the braces among the tokens of
a type are properly nested (`Derives.nestedAhead`). All other braces of its text stand in quoted parts. Hence the
braces of a text that states a type are properly nested if there are none in its quoted parts (`nested_of_parse`).
-/

namespace SymbolDocs.TypeExpr

open SymbolDocs.Text

/-! ## Quoted parts -/

/-- The quoted parts of a text, each from behind its opening quote up to and including its closing quote. -/
def quotedParts (cs : List Char) : List (List Char) :=
  match cs with
  | [] => []
  | c :: cs =>
    if isQuote c then
      match h : scanQuoted c cs with
      | some (text, rest) =>
        have : rest.length ≤ cs.length := scanQuoted_length h
        text :: quotedParts rest
      | none => []
    else quotedParts cs
termination_by cs.length

/-- A curly brace. -/
def isBrace (c : Char) : Bool := c = '\x7b' || c = '\x7d'

/-- No quoted part of the text has a brace. -/
def BracelessQuotes (cs : List Char) : Prop := ∀ part ∈ quotedParts cs, ∀ c ∈ part, isBrace c = false

variable {quote c : Char} {taken cs ds text rest : List Char} {pos : Nat} {l : Lexeme} {ts mid last : List Token}

theorem quotedParts_cons (hc : isQuote c = false) (cs : List Char) : quotedParts (c :: cs) = quotedParts cs := by
  rw [quotedParts, if_neg (by simp [hc])]

theorem quotedParts_cons_quote (hc : isQuote c = true) (h : scanQuoted c cs = some (text, rest)) :
    quotedParts (c :: cs) = text :: quotedParts rest := by
  rw [quotedParts, if_pos hc]
  split
  · next text' rest' h' =>
    rw [h] at h'
    cases h'
    rfl
  · next h' =>
    rw [h] at h'
    cases h'

/-- Text without quotes in front adds no quoted part. -/
theorem quotedParts_append (h : ∀ c ∈ ds, isQuote c = false) (cs : List Char) :
    quotedParts (ds ++ cs) = quotedParts cs := by
  induction ds with
  | nil => rfl
  | cons d ds ih =>
    obtain ⟨hd, hds⟩ := List.forall_mem_cons.1 h
    rw [List.cons_append, quotedParts_cons hd, ih hds]

theorem quotedParts_subset_append (cs ds : List Char) : quotedParts cs ⊆ quotedParts (cs ++ ds) := by
  fun_induction quotedParts cs with
  | case1 => exact List.nil_subset _
  | case2 c cs hc text rest h _ ih =>
    rw [List.cons_append, quotedParts_cons_quote hc (scanQuoted_append_right h ds)]
    exact List.cons_subset_cons _ ih
  | case3 => exact List.nil_subset _
  | case4 c cs hc ih =>
    rwa [List.cons_append, quotedParts_cons (by simpa using hc)]

theorem BracelessQuotes.of_append (h : BracelessQuotes (ds ++ cs)) (hd : ∀ c ∈ ds, isQuote c = false) :
    BracelessQuotes cs := by
  unfold BracelessQuotes at h
  rwa [quotedParts_append hd] at h

theorem BracelessQuotes.mono (h : BracelessQuotes cs) (hd : ds <+: cs) : BracelessQuotes ds := by
  obtain ⟨rest, rfl⟩ := hd
  exact fun part hp => h part (quotedParts_subset_append ds rest hp)

/-! ## Lexemes -/

/-- A character that is neither a quote nor a brace. -/
def Plain (c : Char) : Prop := isQuote c = false ∧ isBrace c = false

instance : Decidable (Plain c) := inferInstanceAs (Decidable (_ ∧ _))

theorem plain_of_toNat (h : c.toNat ≠ 34 ∧ c.toNat ≠ 39 ∧ c.toNat ≠ 123 ∧ c.toNat ≠ 125) : Plain c := by
  simp only [Plain, isQuote, isBrace, Bool.or_eq_false_iff, decide_eq_false_iff_not]
  refine ⟨⟨?_, ?_⟩, ?_, ?_⟩
  · rintro rfl
    exact h.1 rfl
  · rintro rfl
    exact h.2.1 rfl
  · rintro rfl
    exact h.2.2.1 rfl
  · rintro rfl
    exact h.2.2.2 rfl

theorem plain_of_isDigit (h : isDigit c = true) : Plain c := by
  have := toNat_of_isDigit h
  exact plain_of_toNat (by omega)

theorem plain_of_isBlank (h : isBlank c = true) : Plain c := by
  simp only [isBlank, Bool.or_eq_true, Bool.and_eq_true, decide_eq_true_eq] at h
  exact plain_of_toNat (by omega)

theorem plain_of_isNameStart (h : isNameStart c = true) : Plain c := by
  have := toNat_of_isNameStart h
  exact plain_of_toNat (by omega)

/-- The characters of a name outside its quoted segments. -/
theorem plain_of_name (h : isNameChar c = true ∨ isPathMark c = true ∨ c = ':') : Plain c := by
  simp only [isNameChar, isPathMark, Bool.or_eq_true, decide_eq_true_eq] at h
  rcases h with (((h | h) | rfl) | rfl) | ((rfl | rfl) | rfl) | rfl
  · exact plain_of_isNameStart h
  · exact plain_of_isDigit (isDigit_of_isDecimal (isDecimal_of_ascii h))
  all_goals decide

/-- A name has no brace, since its quoted segments have none. -/
theorem scanPath_braces (h : scanPath taken cs = .ok (text, rest)) (hq : BracelessQuotes cs)
    (ht : ∀ c ∈ taken, isBrace c = false) : BracelessQuotes rest ∧ ∀ c ∈ text, isBrace c = false := by
  fun_induction scanPath taken cs with
  | case1 taken =>
    cases h
    exact ⟨hq, fun c hc => ht c (List.mem_reverse.1 hc)⟩
  | case2 taken c cs hc ih =>
    have hp : Plain c := by
      simp only [Bool.or_eq_true, Bool.and_eq_true] at hc
      exact plain_of_name (hc.imp_right fun h => .inl h.1)
    have hcs : BracelessQuotes cs := by rwa [BracelessQuotes, quotedParts_cons hp.1] at hq
    exact ih h hcs (List.forall_mem_cons.2 ⟨hp.2, ht⟩)
  | case3 taken c cs _ hc ih =>
    have hp : Plain c := by
      simp only [Bool.and_eq_true, decide_eq_true_eq] at hc
      exact plain_of_name (.inr (.inr hc.1.1))
    have hcs : BracelessQuotes cs := by rwa [BracelessQuotes, quotedParts_cons hp.1] at hq
    exact ih h hcs (List.forall_mem_cons.2 ⟨hp.2, ht⟩)
  | case4 => cases h
  | case5 taken c cs _ _ hc text' rest' hquoted _ ih =>
    have hc : isQuote c = true := (Bool.and_eq_true_iff.1 hc).1
    rw [BracelessQuotes, quotedParts_cons_quote hc hquoted, List.forall_mem_cons] at hq
    have hbrace : isBrace c = false := by
      rcases isQuote_iff.1 hc with rfl | rfl <;> rfl
    have ht' : ∀ x ∈ c :: taken, isBrace x = false := List.forall_mem_cons.2 ⟨hbrace, ht⟩
    refine ih h hq.2 fun x hx => ?_
    rcases List.mem_append.1 hx with hx | hx
    · exact hq.1 x (List.mem_reverse.1 hx)
    · exact ht' x hx
  | case6 taken =>
    cases h
    exact ⟨hq, fun c hc => ht c (List.mem_reverse.1 hc)⟩

theorem scanDigits_plain (h : scanDigits cs = some (text, rest)) : ∀ c ∈ text, Plain c := by
  unfold scanDigits at h
  split at h <;> cases h
  exact fun c hc => plain_of_isDigit (isDigit_of_isDecimal (List.all_eq_true.1 List.all_takeWhile c hc))

theorem scanUnsigned_plain (h : scanUnsigned cs = some (text, rest)) : ∀ c ∈ text, Plain c := by
  unfold scanUnsigned at h
  split at h
  · cases h
  · next whole rest' hw =>
    split at h
    · next fraction rest'' hf =>
      cases h
      refine List.forall_mem_append.2 ⟨scanDigits_plain hw, List.forall_mem_cons.2 ⟨by decide, scanDigits_plain hf⟩⟩
    · cases h
      exact scanDigits_plain hw
  · next hw =>
    cases h
    exact scanDigits_plain hw

theorem scanNumber_plain (h : scanNumber cs = some (text, rest)) : ∀ c ∈ text, Plain c := by
  unfold scanNumber at h
  split at h
  · obtain ⟨p, hp, he⟩ := Option.map_eq_some_iff.1 h
    cases he
    exact List.forall_mem_cons.2 ⟨by decide, scanUnsigned_plain hp⟩
  · exact scanUnsigned_plain h

/-- The braces of a lexeme: one, if it is a mark that is a brace. -/
def Lexeme.braces : Lexeme → List Char
  | .mark .openBrace => ['\x7b']
  | .mark .closeBrace => ['\x7d']
  | _ => []

/-- A lexeme has no other braces, if no quoted part has any. -/
theorem scanLexeme_braces (h : scanLexeme pos c cs = .ok (l, rest)) (hq : BracelessQuotes (c :: cs)) :
    BracelessQuotes rest ∧ l.chars.filter isBrace = l.braces := by
  have hnone {text : List Char} (ht : ∀ c ∈ text, isBrace c = false) : text.filter isBrace = [] := by
    rw [List.filter_eq_nil_iff]
    exact fun c hc => by simp [ht c hc]
  unfold scanLexeme at h
  split at h
  · next hstart =>
    have hp := plain_of_isNameStart hstart
    rw [BracelessQuotes, quotedParts_cons hp.1] at hq
    split at h
    · next text rest' hpath =>
      cases h
      obtain ⟨hrest, htext⟩ := scanPath_braces hpath hq (by simpa using hp.2)
      exact ⟨hrest, hnone (by simpa [Lexeme.chars] using htext)⟩
    · cases h
  · split at h
    · next hc =>
      split at h
      · next text rest' hquoted =>
        cases h
        rw [BracelessQuotes, quotedParts_cons_quote hc hquoted, List.forall_mem_cons] at hq
        have hbrace : isBrace c = false := by
          rcases isQuote_iff.1 hc with rfl | rfl <;> rfl
        exact ⟨hq.2, hnone (by simpa [Lexeme.chars, hbrace] using hq.1)⟩
      · cases h
    · split at h
      · next text rest' hn =>
        cases h
        have hp := scanNumber_plain hn
        rw [(scanNumber_append hn).1] at hq
        exact ⟨hq.of_append fun c hc => (hp c hc).1, hnone (by simpa [Lexeme.chars] using fun c hc => (hp c hc).2)⟩
      · split at h
        · next m rest' hm =>
          cases h
          rw [scanMark_append hm] at hq
          have hall : m.chars.all (!isQuote ·) = true := by cases m <;> rfl
          refine ⟨hq.of_append fun c hc => by simpa using List.all_eq_true.1 hall c hc, ?_⟩
          cases m <;> rfl
        · cases h

/-! ## Tokens -/

/-- The braces of some tokens. -/
def bracesOf (ts : List Token) : List Char := ts.flatMap (·.lexeme.braces)

/-- The braces of a text are those of its tokens, if no quoted part has any. -/
theorem tokensFrom_braces (h : tokensFrom pos cs = .ok ts) (hq : BracelessQuotes cs) :
    cs.filter isBrace = bracesOf ts := by
  fun_induction tokensFrom pos cs generalizing ts with
  | case1 =>
    cases h
    rfl
  | case2 pos c cs hb ih =>
    have hp := plain_of_isBlank hb
    have hcs : BracelessQuotes cs := by rwa [BracelessQuotes, quotedParts_cons hp.1] at hq
    rw [List.filter_cons_of_neg (by simp [hp.2])]
    exact ih h hcs
  | case3 => cases h
  | case4 pos c cs _ l rest hl _ ih =>
    obtain ⟨ts', hts, rfl⟩ := map_eq_ok.1 h
    obtain ⟨hrest, hbraces⟩ := scanLexeme_braces hl hq
    rw [scanLexeme_append hl, List.filter_append, hbraces, ih hts hrest]
    rfl

/-! ## Derivations -/

/-- The braces among the tokens that a phrase takes are properly nested. -/
def NestedAhead (ts rest : List Token) : Prop :=
  ∃ braces, Nested '\x7b' '\x7d' braces ∧ bracesOf ts = braces ++ bracesOf rest

theorem NestedAhead.refl (ts : List Token) : NestedAhead ts ts := ⟨[], nested_nil, rfl⟩

theorem NestedAhead.of_eq (h : bracesOf ts = bracesOf last) : NestedAhead ts last := ⟨[], nested_nil, h⟩

theorem NestedAhead.trans (h : NestedAhead ts mid) (h' : NestedAhead mid last) : NestedAhead ts last := by
  obtain ⟨bs, hbs, he⟩ := h
  obtain ⟨bs', hbs', he'⟩ := h'
  exact ⟨bs ++ bs', hbs.append hbs', by rw [he, he', List.append_assoc]⟩

/-- A token without brace in front. -/
theorem NestedAhead.cons {t : Token} (ht : t.lexeme.braces = []) (h : NestedAhead ts last) :
    NestedAhead (t :: ts) last := by
  obtain ⟨bs, hbs, he⟩ := h
  exact ⟨bs, hbs, by rw [bracesOf, List.flatMap_cons, ht, List.nil_append, ← bracesOf, he]⟩

/-- A token without brace behind what was taken. -/
theorem NestedAhead.of_cons {t : Token} (ht : t.lexeme.braces = []) (h : NestedAhead ts (t :: last)) :
    NestedAhead ts last := by
  obtain ⟨bs, hbs, he⟩ := h
  exact ⟨bs, hbs, by rw [he, bracesOf, List.flatMap_cons, ht, List.nil_append, ← bracesOf]⟩

/-- Braces around what was taken. -/
theorem NestedAhead.enclose {p q : Nat} (h : NestedAhead ts (⟨.mark .closeBrace, q⟩ :: last)) :
    NestedAhead (⟨.mark .openBrace, p⟩ :: ts) last := by
  obtain ⟨bs, hbs, he⟩ := h
  refine ⟨_, hbs.enclose (by decide), ?_⟩
  rw [bracesOf, List.flatMap_cons, ← bracesOf, he]
  simp [bracesOf, Lexeme.braces]

theorem nestedAhead_readNullable : NestedAhead ts (readNullable ts).2.1 := by
  unfold readNullable
  split
  · split
    · exact .of_eq rfl
    · exact .refl _
  · exact .of_eq rfl
  · exact .refl _

theorem nestedAhead_readSuffixes {t : TypeExpr} {optional : Bool} {nullable : Option Bool} :
    NestedAhead ts (readSuffixes t optional nullable ts).2.1 := by
  fun_induction readSuffixes t optional nullable ts with
  | case1 _ _ _ _ _ _ _ he ih | case2 _ _ _ _ _ _ _ _ he ih | case4 _ _ _ _ _ _ _ _ he ih =>
    rw [he] at ih
    exact ih.cons rfl
  | case3 | case5 | case6 => exact .refl _

theorem nestedAhead_readArrays {t : TypeExpr} : NestedAhead ts (readArrays t ts).2.1 := by
  fun_induction readArrays t ts with
  | case1 _ _ _ _ _ _ _ he ih =>
    rw [he] at ih
    exact (ih.cons rfl).cons rfl
  | case2 => exact .refl _

theorem nestedAhead_modifyBy {t : TypeExpr} {nullable : Option Bool} {repeatable : Bool} :
    NestedAhead ts (modifyBy t nullable repeatable ts).2.1 :=
  nestedAhead_readSuffixes

theorem braces_of_keyText {key : String} (h : keyText l = some key) : l.braces = [] := by
  cases l with
  | name | quoted | number => rfl
  | mark => cases h

/-- **The braces among the tokens of a phrase are properly nested**: only record types have any. -/
theorem Derives.nestedAhead {ph : Phrase} (d : Derives ts ph last) : NestedAhead ts last := by
  induction d with
  | union _ _ ih₁ ih₂ => exact ih₁.trans ih₂
  | alternative _ _ ih₁ ih₂ => exact (ih₁.trans ih₂).cons rfl
  | noAlternative | noArgs | noReturns => exact .refl _
  | repeatable _ _ ih => exact ((nestedAhead_readNullable.trans ih).trans nestedAhead_modifyBy).cons rfl
  | repeatableAny => exact (nestedAhead_readNullable.trans nestedAhead_modifyBy).cons rfl
  | single _ _ ih => exact (nestedAhead_readNullable.trans ih).trans nestedAhead_modifyBy
  | arrayed _ ih => exact ih.trans nestedAhead_readArrays
  | all | unknown | quoted | number | null | undefined => exact (NestedAhead.refl _).cons rfl
  | bareField hkey => exact (NestedAhead.refl _).cons (braces_of_keyText hkey)
  | emptyRecord => exact (NestedAhead.refl _).enclose
  | record _ _ ih => exact ih.enclose
  | group _ ih | dotArgs _ ih | lessArgs _ ih => exact (ih.of_cons rfl).cons rfl
  | emptyFunction _ ih => exact ((ih.cons rfl).cons rfl).cons rfl
  | function _ _ _ ih₁ ih₂ => exact (((ih₁.of_cons rfl).trans ih₂).cons rfl).cons rfl
  | name _ _ _ _ ih | returns _ ih => exact ih.cons rfl
  | lastArg _ _ ih | positional _ _ ih | lastParam _ _ ih | lastField _ _ ih => exact ih
  | moreArgs _ _ ih₁ ih₂ | moreParams _ _ ih₁ ih₂ | moreFields _ _ ih₁ ih₂ => exact (ih₁.of_cons rfl).trans ih₂
  | this _ ih | new _ ih => exact (ih.cons rfl).cons rfl
  | typedField hkey _ ih => exact (ih.cons rfl).cons (braces_of_keyText hkey)

/-! ## Whole texts -/

/-- **The braces of a text that states a type are properly nested, if no quoted part of it has a brace.** -/
theorem nested_of_parse {e : String} {t : TypeExpr} (h : parse e = .ok t) (hq : BracelessQuotes e.toList) :
    Nested '\x7b' '\x7d' e.toList := by
  obtain ⟨ts, hts, d⟩ := parse_eq_ok.1 h
  obtain ⟨braces, hnested, hbraces⟩ := d.nestedAhead
  obtain ⟨before, after, he, hbefore, hafter⟩ := exists_trim e.toList
  have hnone {text : List Char} (hb : ∀ c ∈ text, isBlank c = true) : text.filter isBrace = [] := by
    rw [List.filter_eq_nil_iff]
    exact fun c hc => by simp [(plain_of_isBlank (hb c hc)).2]
  have htrim : BracelessQuotes (trim e.toList) := by
    rw [he, List.append_assoc] at hq
    exact (hq.of_append fun c hc => (plain_of_isBlank (hbefore c hc)).1).mono (List.prefix_append _ _)
  have hfilter : e.toList.filter isBrace = braces := by
    rw [he, List.filter_append, List.filter_append, hnone hbefore, hnone hafter, tokensFrom_braces hts htrim, hbraces]
    simp [bracesOf]
  rw [← nested_filter_iff (p := isBrace) rfl rfl, hfilter]
  exact hnested

end SymbolDocs.TypeExpr
