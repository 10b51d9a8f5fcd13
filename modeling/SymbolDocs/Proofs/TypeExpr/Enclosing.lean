import SymbolDocs.Proofs.TypeExpr.RoundTrip

/-!
# Types inside other texts

A text that states a type can be put between parentheses, between the marks of type arguments and under marks of
nullability, and the text that comes out states what the marks make of the type (`parse_enclosed`).

Two facts carry this. The text is cut into the same lexemes if something comes behind it that no lexeme goes on into
(`lexes_of_tokensOf`). And its tokens are read as the same type if a closing mark comes behind them: each place where a
reading function looks ahead decides in front of a closing mark as it does at the end of the text (`Derives.before`).
-/

namespace SymbolDocs.TypeExpr

open SymbolDocs.Text

/-! ## Lexemes in front of other text -/

section Scanning

/-- A character that no name, number or quoted text goes on into. -/
def endsLexeme (c : Char) : Bool := !(isNameChar c || isPathMark c || isQuote c || c = ':' || isDigit c)

/-- No lexeme goes on into the characters ahead. -/
def Apart (ahead : List Char) : Prop := ∀ c ∈ ahead.head?, endsLexeme c = true

variable {taken cs text rest ahead : List Char} {pos : Nat} {l : Lexeme} {c : Char}

theorem endsLexeme_iff : endsLexeme c = true ↔
    isNameChar c = false ∧ isPathMark c = false ∧ isQuote c = false ∧ c ≠ ':' ∧ isDigit c = false := by
  simp [endsLexeme, and_assoc]

theorem endsLexeme_of_isBlank (h : isBlank c = true) : endsLexeme c = true := by
  have hnot {p : Char → Bool} (hp : p c = true → isBlank c = false) : p c = false := by
    rw [Bool.eq_false_iff]
    intro hc
    rw [hp hc] at h
    cases h
  refine endsLexeme_iff.2 ⟨hnot fun hc => isBlank_of_taken (.inl hc), hnot fun hc => isBlank_of_taken (.inr (.inl hc)),
    hnot isBlank_of_isQuote, ?_, hnot isBlank_of_isDigit⟩
  rintro rfl
  cases h

theorem apart_cons (h : endsLexeme c = true) (cs : List Char) : Apart (c :: cs) := by
  rintro d hd
  cases hd
  exact h

theorem apart_append (h : ∀ c ∈ cs, isBlank c = true) (ha : Apart ahead) : Apart (cs ++ ahead) := by
  cases cs with
  | nil => exact ha
  | cons c cs => exact apart_cons (endsLexeme_of_isBlank (h c List.mem_cons_self)) _

theorem Apart.endsName (h : Apart ahead) : EndsName ahead := by
  rcases ahead with _ | ⟨c, ahead⟩
  · exact ⟨rfl, fun taken => by rw [scanPath]⟩
  · obtain ⟨hname, hpath, hquote, hcolon, hdigit⟩ := endsLexeme_iff.1 (h c rfl)
    have hstart : isNameStart c = false := by
      simp only [isNameChar, Bool.or_eq_false_iff] at hname
      exact hname.1.1.1
    refine ⟨by simp [continuesPath, hstart, hdigit, hquote], fun taken => scanPath_stop ?_ ?_ ?_⟩
    · rw [hname, hpath]
      rfl
    · simp [hcolon]
    · rw [hquote]
      rfl

theorem Apart.decimalAhead (h : Apart ahead) : decimalAhead ahead = false := by
  rcases ahead with _ | ⟨c, ahead⟩
  · rfl
  · rw [TypeExpr.decimalAhead, Bool.eq_false_iff]
    intro hc
    have hdigit := (endsLexeme_iff.1 (h c rfl)).2.2.2.2
    rw [isDigit_of_isDecimal hc] at hdigit
    cases hdigit

/-- Digits are the same in front of anything but a digit. -/
theorem scanDigits_append_right (cs : List Char) (h : decimalAhead ahead = false) :
    scanDigits (cs ++ ahead) = (scanDigits cs).map fun p => (p.1, p.2 ++ ahead) := by
  have hspan : (cs ++ ahead).takeWhile isDecimal = cs.takeWhile isDecimal ∧
      (cs ++ ahead).dropWhile isDecimal = cs.dropWhile isDecimal ++ ahead := by
    induction cs with
    | nil =>
      rcases ahead with _ | ⟨c, ahead⟩
      · exact ⟨rfl, rfl⟩
      · have hc : isDecimal c = false := h
        simp [hc]
    | cons c cs ih =>
      cases hc : isDecimal c
      · simp [hc]
      · simp [hc, ih]
  rw [scanDigits, hspan.1, hspan.2, scanDigits]
  cases cs.takeWhile isDecimal <;> rfl

theorem scanUnsigned_append_right (cs : List Char) (h : Apart ahead) :
    scanUnsigned (cs ++ ahead) = (scanUnsigned cs).map fun p => (p.1, p.2 ++ ahead) := by
  rw [scanUnsigned, scanDigits_append_right cs h.decimalAhead, scanUnsigned]
  rcases scanDigits cs with _ | ⟨whole, _ | ⟨c, rest⟩⟩
  · rfl
  · -- The digits run up to the characters ahead, which start with no point.
    rcases ahead with _ | ⟨c, ahead⟩
    · rfl
    · have hpoint : c ≠ '.' := by
        rintro rfl
        exact absurd (h '.' rfl) (by decide)
      simp [hpoint]
  · by_cases hpoint : c = '.'
    · subst hpoint
      simp only [Option.map_some, List.cons_append, scanDigits_append_right rest h.decimalAhead]
      cases scanDigits rest <;> rfl
    · simp [hpoint]

theorem scanNumber_append_right (c : Char) (cs : List Char) (h : Apart ahead) :
    scanNumber (c :: cs ++ ahead) = (scanNumber (c :: cs)).map fun p => (p.1, p.2 ++ ahead) := by
  by_cases hminus : c = '-'
  · subst hminus
    rw [List.cons_append, scanNumber, scanUnsigned_append_right cs h, scanNumber, Option.map_map, Option.map_map]
    rfl
  · have hne (cs' ds : List Char) : c :: cs' ≠ '-' :: ds := by
      rintro ⟨⟩
      exact hminus rfl
    rw [List.cons_append, scanNumber, scanNumber, ← List.cons_append, scanUnsigned_append_right _ h]
    · exact fun ds he => hne _ ds he
    · exact fun ds he => hne _ ds he

theorem scanMark_append_right {m : Mark} (h : scanMark cs = some (m, rest)) (ahead : List Char) :
    scanMark (cs ++ ahead) = some (m, rest ++ ahead) := by
  rw [scanMark_append h, List.append_assoc, scanMark_text]

/-- **A lexeme is the same in front of characters that it does not go on into**, at every offset. -/
theorem scanLexeme_append_right (h : scanLexeme pos c cs = .ok (l, rest)) (ha : Apart ahead) (pos' : Nat) :
    scanLexeme pos' c (cs ++ ahead) = .ok (l, rest ++ ahead) := by
  unfold scanLexeme at h ⊢
  split at h
  · next hstart =>
    rw [if_pos hstart]
    split at h
    · next hpath =>
      cases h
      rw [scanPath_append_right hpath ha.endsName]
    · cases h
  · next hstart =>
    rw [if_neg hstart]
    split at h
    · next hquote =>
      rw [if_pos hquote]
      split at h
      · next hquoted =>
        cases h
        rw [scanQuoted_append_right hquoted]
      · cases h
    · next hquote =>
      rw [if_neg hquote, ← List.cons_append, scanNumber_append_right c cs ha]
      split at h
      · next hnumber =>
        cases h
        rw [hnumber]
        rfl
      · next hnumber =>
        rw [hnumber]
        split at h
        · next hmark =>
          cases h
          rw [Option.map_none, scanMark_append_right hmark]
        · cases h

/-- **A text is cut into the same lexemes in front of characters that none of them goes on into.** -/
theorem lexes_of_tokensFrom {ts : List Token} (h : tokensFrom pos cs = .ok ts) (ha : Apart ahead) :
    Lexes (cs ++ ahead) (ts.map (·.lexeme)) ahead := by
  fun_induction tokensFrom pos cs generalizing ts with
  | case1 =>
    cases h
    exact .done
  | case2 _ _ _ hb ih => exact .blank hb (ih h)
  | case3 => cases h
  | case4 pos c cs hb l rest hl _ ih =>
    obtain ⟨ts', hts, rfl⟩ := map_eq_ok.1 h
    exact .lexeme (by simpa using hb) (scanLexeme_append_right hl ha) (ih hts)

theorem lexes_blanks (h : ∀ c ∈ cs, isBlank c = true) : Lexes (cs ++ ahead) [] ahead := by
  induction cs with
  | nil => exact .done
  | cons c cs ih =>
    obtain ⟨hc, hcs⟩ := List.forall_mem_cons.1 h
    exact .blank hc (ih hcs)

/-- The lexemes of a text are those of the text without the blanks at its ends. -/
theorem lexes_of_tokensOf {ts : List Token} (h : tokensOf (trim cs) = .ok ts) (ha : Apart ahead) :
    Lexes (cs ++ ahead) (ts.map (·.lexeme)) ahead := by
  obtain ⟨before, after, he, hbefore, hafter⟩ := exists_trim cs
  rw [he, List.append_assoc, List.append_assoc, ← List.append_nil (ts.map _), ← List.nil_append (ts.map _)]
  have htext := lexes_of_tokensFrom h (apart_append hafter ha)
  exact ((lexes_blanks hbefore).append htext).append (lexes_blanks hafter)

end Scanning

/-! ## Tokens in front of a closing mark -/

/-- Whether every list of types, arguments or fields ends before the lexeme ahead. -/
def endsList : Option Lexeme → Bool
  | some (.mark .comma) => false
  | l => endsUnion l

theorem endsModified_of_endsList {l : Option Lexeme} (h : endsList l = true) : endsModified l = true := by
  unfold endsList at h
  split at h
  · cases h
  · exact endsModified_of_endsUnion h

/-- The second tokens are the first ones, at whatever offsets, with the lexemes behind them. -/
def Extends (ls : List Lexeme) (ts ts' : List Token) : Prop := ts'.map (·.lexeme) = ts.map (·.lexeme) ++ ls

variable {ls : List Lexeme} {l : Lexeme} {ts ts' rest : List Token} {t : TypeExpr} {m : Mark} {p : Nat}

theorem Extends.exists_cons (h : Extends ls (⟨l, p⟩ :: ts) ts') :
    ∃ p' ts₁, ts' = ⟨l, p'⟩ :: ts₁ ∧ Extends ls ts ts₁ := by
  obtain ⟨⟨l', p'⟩, ts₁, rfl, rfl, h₁⟩ := List.map_eq_cons_iff.1 h
  exact ⟨p', ts₁, rfl, h₁⟩

/-- A token that ends no list is one of the first tokens. -/
theorem Extends.of_cons (h : Extends ls ts (⟨l, p⟩ :: ts')) (he : endsList ls.head? = true)
    (hl : endsList (some l) = false) : ∃ p₀ ts₀, ts = ⟨l, p₀⟩ :: ts₀ ∧ Extends ls ts₀ ts' := by
  rcases ts with _ | ⟨⟨l', p₀⟩, ts₀⟩
  · obtain rfl : l :: ts'.map (·.lexeme) = ls := h
    rw [List.head?_cons, hl] at he
    cases he
  · obtain ⟨rfl, h₀⟩ := List.cons.inj h
    exact ⟨p₀, ts₀, rfl, h₀⟩

theorem Extends.ahead_ne (h : Extends ls ts ts') (he : endsList ls.head? = true)
    (hm : endsList (some (.mark m)) = false) (hne : ahead ts ≠ some (.mark m)) : ahead ts' ≠ some (.mark m) := by
  intro hahead
  obtain ⟨⟨l, p⟩, hhead, rfl⟩ := Option.map_eq_some_iff.1 hahead
  obtain ⟨ts₁, rfl⟩ := List.head?_eq_some_iff.1 hhead
  obtain ⟨p₀, ts₀, rfl, -⟩ := h.of_cons he hm
  exact hne rfl

theorem Extends.mayStart_eq (h : Extends ls ts ts') (he : endsList ls.head? = true) : mayStart ts' = mayStart ts := by
  rcases ts with _ | ⟨⟨l, p⟩, ts⟩
  · have hls : ts'.map (·.lexeme) = ls := h
    refine mayStart_of_endsPlain (endsPlain_of_endsModified (endsModified_of_endsList ?_))
    rwa [ahead_eq_head?, hls]
  · obtain ⟨p', ts₁, rfl, -⟩ := h.exists_cons
    rcases l with _ | _ | _ | m
    · rfl
    · rfl
    · rfl
    · cases m <;> rfl

theorem Extends.labelAhead_eq (h : Extends ls ts ts') (he : endsList ls.head? = true) (hl : labelAhead ts = false) :
    labelAhead ts' = false := by
  unfold labelAhead
  split
  · obtain ⟨p₀, ts₀, rfl, h₀⟩ := h.of_cons he rfl
    obtain ⟨q₀, ts₁, rfl, -⟩ := h₀.of_cons he rfl
    cases hl
  · obtain ⟨p₀, ts₀, rfl, h₀⟩ := h.of_cons he rfl
    obtain ⟨q₀, ts₁, rfl, -⟩ := h₀.of_cons he rfl
    cases hl
  · rfl

theorem Extends.readNullable (h : Extends ls ts ts') (he : endsList ls.head? = true) :
    (readNullable ts').1 = (readNullable ts).1 ∧ Extends ls (readNullable ts).2.1 (readNullable ts').2.1 := by
  fun_cases TypeExpr.readNullable ts with
  | case1 q rest hstart =>
    obtain ⟨_, ts₁, rfl, h₁⟩ := h.exists_cons
    rw [TypeExpr.readNullable, if_pos (by rwa [h₁.mayStart_eq he]), TypeExpr.readNullable, if_pos hstart]
    exact ⟨rfl, h₁⟩
  | case2 q rest hstart =>
    obtain ⟨_, ts₁, rfl, h₁⟩ := h.exists_cons
    rw [TypeExpr.readNullable, if_neg (by rwa [h₁.mayStart_eq he]), TypeExpr.readNullable, if_neg hstart]
    exact ⟨rfl, h⟩
  | case3 q rest =>
    obtain ⟨_, ts₁, rfl, h₁⟩ := h.exists_cons
    exact ⟨rfl, h₁⟩
  | case4 ts hquestion hbang =>
    unfold TypeExpr.readNullable
    split
    · obtain ⟨p₀, ts₀, rfl, -⟩ := h.of_cons he rfl
      exact (hquestion _ _ rfl).elim
    · obtain ⟨p₀, ts₀, rfl, -⟩ := h.of_cons he rfl
      exact (hbang _ _ rfl).elim
    · exact ⟨rfl, h⟩

theorem Extends.readArrays (t : TypeExpr) (h : Extends ls ts ts') (he : endsList ls.head? = true) :
    (readArrays t ts').1 = (readArrays t ts).1 ∧ Extends ls (readArrays t ts).2.1 (readArrays t ts').2.1 := by
  fun_induction TypeExpr.readArrays t ts generalizing ts' with
  | case1 t p q rest array tail hle hread ih =>
    obtain ⟨_, ts₁, rfl, h₁⟩ := h.exists_cons
    obtain ⟨_, ts₂, rfl, h₂⟩ := h₁.exists_cons
    have := ih h₂
    rw [hread] at this
    exact this
  | case2 t ts hne =>
    unfold TypeExpr.readArrays
    split
    · obtain ⟨p₀, ts₀, rfl, h₀⟩ := h.of_cons he rfl
      obtain ⟨q₀, ts₁, rfl, -⟩ := h₀.of_cons he rfl
      exact (hne _ _ _ rfl).elim
    · exact ⟨rfl, h⟩

theorem Extends.readSuffixes (t : TypeExpr) (optional : Bool) (nullable : Option Bool) (h : Extends ls ts ts')
    (he : endsList ls.head? = true) :
    (readSuffixes t optional nullable ts').1 = (readSuffixes t optional nullable ts).1 ∧
      Extends ls (readSuffixes t optional nullable ts).2.1 (readSuffixes t optional nullable ts').2.1 := by
  fun_induction TypeExpr.readSuffixes t optional nullable ts generalizing ts' with
  | case1 _ _ _ _ _ _ _ hread ih =>
    obtain ⟨_, ts₁, rfl, h₁⟩ := h.exists_cons
    have := ih h₁
    rw [hread] at this
    exact this
  | case2 _ _ _ _ hopen _ _ _ hread ih =>
    obtain ⟨_, ts₁, rfl, h₁⟩ := h.exists_cons
    have := ih h₁
    rw [hread] at this
    rw [TypeExpr.readSuffixes, if_pos hopen]
    exact this
  | case3 _ _ _ _ hopen =>
    obtain ⟨_, ts₁, rfl, h₁⟩ := h.exists_cons
    rw [TypeExpr.readSuffixes, if_neg hopen]
    exact ⟨rfl, h⟩
  | case4 _ _ _ _ hopen _ _ _ hread ih =>
    obtain ⟨_, ts₁, rfl, h₁⟩ := h.exists_cons
    have := ih h₁
    rw [hread] at this
    rw [TypeExpr.readSuffixes, if_pos hopen]
    exact this
  | case5 _ _ _ _ hopen =>
    obtain ⟨_, ts₁, rfl, h₁⟩ := h.exists_cons
    rw [TypeExpr.readSuffixes, if_neg hopen]
    exact ⟨rfl, h⟩
  | case6 _ _ ts hequals hquestion hbang =>
    unfold TypeExpr.readSuffixes
    split
    · obtain ⟨p₀, ts₀, rfl, -⟩ := h.of_cons he rfl
      exact (hequals _ _ rfl).elim
    · obtain ⟨p₀, ts₀, rfl, -⟩ := h.of_cons he rfl
      exact (hquestion _ _ rfl).elim
    · obtain ⟨p₀, ts₀, rfl, -⟩ := h.of_cons he rfl
      exact (hbang _ _ rfl).elim
    · exact ⟨rfl, h⟩

theorem Extends.modifyBy (t : TypeExpr) (nullable : Option Bool) (repeatable : Bool) (h : Extends ls ts ts')
    (he : endsList ls.head? = true) : (modifyBy t nullable repeatable ts').1 = (modifyBy t nullable repeatable ts).1 ∧
      Extends ls (modifyBy t nullable repeatable ts).2.1 (modifyBy t nullable repeatable ts').2.1 := by
  obtain ⟨hmarks, hrest⟩ := h.readSuffixes t false nullable he
  exact ⟨congrArg (fun marks : Bool × Option Bool => t.modify marks.1 marks.2 repeatable) hmarks, hrest⟩

/-- **A phrase is read in front of a closing mark as it is at the end of the text.** -/
theorem Derives.before {ph : Phrase} (d : Derives ts ph rest) (he : endsList ls.head? = true)
    (h : Extends ls ts ts') : ∃ rest', Extends ls rest rest' ∧ Derives ts' ph rest' := by
  induction d generalizing ts' with
  | union _ _ ih₁ ih₂ =>
    obtain ⟨mid, hmid, d₁⟩ := ih₁ h
    obtain ⟨rest', hrest, d₂⟩ := ih₂ hmid
    exact ⟨rest', hrest, .union d₁ d₂⟩
  | alternative _ _ ih₁ ih₂ =>
    obtain ⟨_, ts₁, rfl, h₁⟩ := h.exists_cons
    obtain ⟨mid, hmid, d₁⟩ := ih₁ h₁
    obtain ⟨rest', hrest, d₂⟩ := ih₂ hmid
    exact ⟨rest', hrest, .alternative d₁ d₂⟩
  | noAlternative hne => exact ⟨ts', h, .noAlternative (h.ahead_ne he rfl hne)⟩
  | @repeatable ts rest t p hs _ ih =>
    obtain ⟨_, ts₁, rfl, h₁⟩ := h.exists_cons
    obtain ⟨hnull, htail⟩ := h₁.readNullable he
    obtain ⟨rest', hrest, d⟩ := ih htail
    have d' := Derives.repeatable (p := ‹Nat›) (by rwa [htail.mayStart_eq he]) d
    obtain ⟨hmod, hlast⟩ := hrest.modifyBy t (TypeExpr.readNullable ts).1 true he
    rw [hnull, hmod] at d'
    exact ⟨_, hlast, d'⟩
  | @repeatableAny ts p hs =>
    obtain ⟨_, ts₁, rfl, h₁⟩ := h.exists_cons
    obtain ⟨hnull, htail⟩ := h₁.readNullable he
    have d' := Derives.repeatableAny (p := ‹Nat›) (by rwa [htail.mayStart_eq he])
    obtain ⟨hmod, hlast⟩ := htail.modifyBy .all (TypeExpr.readNullable ts).1 true he
    rw [hnull, hmod] at d'
    exact ⟨_, hlast, d'⟩
  | @single ts rest t hne _ ih =>
    obtain ⟨hnull, htail⟩ := h.readNullable he
    obtain ⟨rest', hrest, d⟩ := ih htail
    have d' := Derives.single (h.ahead_ne he rfl hne) d
    obtain ⟨hmod, hlast⟩ := hrest.modifyBy t (TypeExpr.readNullable ts).1 false he
    rw [hnull, hmod] at d'
    exact ⟨_, hlast, d'⟩
  | @arrayed ts rest t _ ih =>
    obtain ⟨rest', hrest, d⟩ := ih h
    have d' := Derives.arrayed d
    obtain ⟨harray, hlast⟩ := hrest.readArrays t he
    rw [harray] at d'
    exact ⟨_, hlast, d'⟩
  | all =>
    obtain ⟨_, ts₁, rfl, h₁⟩ := h.exists_cons
    exact ⟨ts₁, h₁, .all⟩
  | unknown =>
    obtain ⟨_, ts₁, rfl, h₁⟩ := h.exists_cons
    exact ⟨ts₁, h₁, .unknown⟩
  | group _ ih =>
    obtain ⟨_, ts₁, rfl, h₁⟩ := h.exists_cons
    obtain ⟨mid, hmid, d⟩ := ih h₁
    obtain ⟨_, rest', rfl, hrest⟩ := hmid.exists_cons
    exact ⟨rest', hrest, .group d⟩
  | emptyRecord =>
    obtain ⟨_, ts₁, rfl, h₁⟩ := h.exists_cons
    obtain ⟨_, ts₂, rfl, h₂⟩ := h₁.exists_cons
    exact ⟨ts₂, h₂, .emptyRecord⟩
  | record _ _ ih =>
    obtain ⟨_, ts₁, rfl, h₁⟩ := h.exists_cons
    obtain ⟨mid, hmid, d⟩ := ih h₁
    obtain ⟨_, rest', rfl, hrest⟩ := hmid.exists_cons
    exact ⟨rest', hrest, .record d.ahead_ne_closeBrace d⟩
  | quoted =>
    obtain ⟨_, ts₁, rfl, h₁⟩ := h.exists_cons
    exact ⟨ts₁, h₁, .quoted⟩
  | number =>
    obtain ⟨_, ts₁, rfl, h₁⟩ := h.exists_cons
    exact ⟨ts₁, h₁, .number⟩
  | emptyFunction _ ih =>
    obtain ⟨_, ts₁, rfl, h₁⟩ := h.exists_cons
    obtain ⟨_, ts₂, rfl, h₂⟩ := h₁.exists_cons
    obtain ⟨_, ts₃, rfl, h₃⟩ := h₂.exists_cons
    obtain ⟨rest', hrest, d⟩ := ih h₃
    exact ⟨rest', hrest, .emptyFunction d⟩
  | function _ _ _ ih₁ ih₂ =>
    obtain ⟨_, ts₁, rfl, h₁⟩ := h.exists_cons
    obtain ⟨_, ts₂, rfl, h₂⟩ := h₁.exists_cons
    obtain ⟨mid, hmid, d₁⟩ := ih₁ h₂
    obtain ⟨_, ts₃, rfl, h₃⟩ := hmid.exists_cons
    obtain ⟨rest', hrest, d₂⟩ := ih₂ h₃
    exact ⟨rest', hrest, .function d₁.ahead_ne_closeParen d₁ d₂⟩
  | null =>
    obtain ⟨_, ts₁, rfl, h₁⟩ := h.exists_cons
    exact ⟨ts₁, h₁, .null⟩
  | undefined =>
    obtain ⟨_, ts₁, rfl, h₁⟩ := h.exists_cons
    exact ⟨ts₁, h₁, .undefined⟩
  | name hnull hun hfun _ ih =>
    obtain ⟨_, ts₁, rfl, h₁⟩ := h.exists_cons
    obtain ⟨rest', hrest, d⟩ := ih h₁
    exact ⟨rest', hrest, .name hnull hun (fun hp => h₁.ahead_ne he rfl (hfun hp)) d⟩
  | dotArgs _ ih =>
    obtain ⟨_, ts₁, rfl, h₁⟩ := h.exists_cons
    obtain ⟨mid, hmid, d⟩ := ih h₁
    obtain ⟨_, rest', rfl, hrest⟩ := hmid.exists_cons
    exact ⟨rest', hrest, .dotArgs d⟩
  | lessArgs _ ih =>
    obtain ⟨_, ts₁, rfl, h₁⟩ := h.exists_cons
    obtain ⟨mid, hmid, d⟩ := ih h₁
    obtain ⟨_, rest', rfl, hrest⟩ := hmid.exists_cons
    exact ⟨rest', hrest, .lessArgs d⟩
  | noArgs hdot hless => exact ⟨ts', h, .noArgs (h.ahead_ne he rfl hdot) (h.ahead_ne he rfl hless)⟩
  | lastArg _ hne ih =>
    obtain ⟨rest', hrest, d⟩ := ih h
    exact ⟨rest', hrest, .lastArg d (hrest.ahead_ne he rfl hne)⟩
  | moreArgs _ _ ih₁ ih₂ =>
    obtain ⟨mid, hmid, d₁⟩ := ih₁ h
    obtain ⟨_, ts₁, rfl, h₁⟩ := hmid.exists_cons
    obtain ⟨rest', hrest, d₂⟩ := ih₂ h₁
    exact ⟨rest', hrest, .moreArgs d₁ d₂⟩
  | returns _ ih =>
    obtain ⟨_, ts₁, rfl, h₁⟩ := h.exists_cons
    obtain ⟨rest', hrest, d⟩ := ih h₁
    exact ⟨rest', hrest, .returns d⟩
  | noReturns hne => exact ⟨ts', h, .noReturns (h.ahead_ne he rfl hne)⟩
  | this _ ih =>
    obtain ⟨_, ts₁, rfl, h₁⟩ := h.exists_cons
    obtain ⟨_, ts₂, rfl, h₂⟩ := h₁.exists_cons
    obtain ⟨rest', hrest, d⟩ := ih h₂
    exact ⟨rest', hrest, .this d⟩
  | new _ ih =>
    obtain ⟨_, ts₁, rfl, h₁⟩ := h.exists_cons
    obtain ⟨_, ts₂, rfl, h₂⟩ := h₁.exists_cons
    obtain ⟨rest', hrest, d⟩ := ih h₂
    exact ⟨rest', hrest, .new d⟩
  | positional hlabel _ ih =>
    obtain ⟨rest', hrest, d⟩ := ih h
    exact ⟨rest', hrest, .positional (h.labelAhead_eq he hlabel) d⟩
  | lastParam _ hne ih =>
    obtain ⟨rest', hrest, d⟩ := ih h
    exact ⟨rest', hrest, .lastParam d (hrest.ahead_ne he rfl hne)⟩
  | moreParams _ _ ih₁ ih₂ =>
    obtain ⟨mid, hmid, d₁⟩ := ih₁ h
    obtain ⟨_, ts₁, rfl, h₁⟩ := hmid.exists_cons
    obtain ⟨rest', hrest, d₂⟩ := ih₂ h₁
    exact ⟨rest', hrest, .moreParams d₁ d₂⟩
  | typedField hkey _ ih =>
    obtain ⟨_, ts₁, rfl, h₁⟩ := h.exists_cons
    obtain ⟨_, ts₂, rfl, h₂⟩ := h₁.exists_cons
    obtain ⟨rest', hrest, d⟩ := ih h₂
    exact ⟨rest', hrest, .typedField hkey d⟩
  | bareField hkey hne =>
    obtain ⟨_, ts₁, rfl, h₁⟩ := h.exists_cons
    exact ⟨ts₁, h₁, .bareField hkey (h₁.ahead_ne he rfl hne)⟩
  | lastField _ hne ih =>
    obtain ⟨rest', hrest, d⟩ := ih h
    exact ⟨rest', hrest, .lastField d (hrest.ahead_ne he rfl hne)⟩
  | moreFields _ _ ih₁ ih₂ =>
    obtain ⟨mid, hmid, d₁⟩ := ih₁ h
    obtain ⟨_, ts₁, rfl, h₁⟩ := hmid.exists_cons
    obtain ⟨rest', hrest, d₂⟩ := ih₂ h₁
    exact ⟨rest', hrest, .moreFields d₁ d₂⟩

/-! ## Lexemes between marks -/

variable {t' : TypeExpr} {ls' : List Lexeme}

theorem Derives.parses_before (d : Derives ts (.union t) []) (he : endsList ls.head? = true) :
    Parses (ts.map (·.lexeme) ++ ls) (.union t) ls :=
  fun _ h => d.before he h

theorem parses_grouped (d : Derives ts (.union t) []) :
    Parses (.mark .openParen :: (ts.map (·.lexeme) ++ .mark .closeParen :: ls)) (.primary t) ls := by
  intro ts' hts'
  obtain ⟨⟨_, p⟩, ts₁, rfl, rfl, hts₁⟩ := List.map_eq_cons_iff.1 hts'
  obtain ⟨mid, hmid, d'⟩ := d.parses_before rfl ts₁ hts₁
  obtain ⟨⟨_, q⟩, rest, rfl, rfl, hrest⟩ := List.map_eq_cons_iff.1 hmid
  exact ⟨rest, hrest, .group d'⟩

theorem parses_arrayOf (d : Derives ts (.union t) []) (hm : m = .dotLess ∨ m = .less) :
    Parses (.name "Array" :: .mark m :: (ts.map (·.lexeme) ++ .mark .greater :: ls)) (.primary (arrayOf t)) ls := by
  intro ts' hts'
  obtain ⟨⟨_, p⟩, ts₁, rfl, rfl, hts₁⟩ := List.map_eq_cons_iff.1 hts'
  obtain ⟨⟨_, p₁⟩, ts₂, rfl, rfl, hts₂⟩ := List.map_eq_cons_iff.1 hts₁
  obtain ⟨mid, hmid, d'⟩ := d.parses_before rfl ts₂ hts₂
  obtain ⟨⟨_, q⟩, rest, rfl, rfl, hrest⟩ := List.map_eq_cons_iff.1 hmid
  have hargs : Derives ts₂ (.argList [t]) (⟨.mark .greater, q⟩ :: rest) := .lastArg d' (by simp [ahead])
  refine ⟨rest, hrest, .name (by decide) (by decide) (fun hf => absurd hf (by decide)) ?_⟩
  rcases hm with rfl | rfl
  · exact .dotArgs hargs
  · exact .lessArgs hargs

/-- What a mark of nullability in front of a type and the marks behind it make of the type, and the lexemes that are
left of these marks. -/
def marked (t : TypeExpr) (nullable : Option Bool) (marks : List Mark) : TypeExpr × List Lexeme :=
  let (array, ⟨rest, _⟩) := readArrays t (marks.map (⟨.mark ·, 0⟩))
  let (t', ⟨rest', _⟩) := modifyBy array nullable false rest
  (t', rest'.map (·.lexeme))

variable {marks : List Mark}

theorem marked_eq (t : TypeExpr) (nullable : Option Bool) (h : rest.map (·.lexeme) = marks.map .mark) :
    (modifyBy (readArrays t rest).1 nullable false (readArrays t rest).2.1).1 = (marked t nullable marks).1 ∧
      (modifyBy (readArrays t rest).1 nullable false (readArrays t rest).2.1).2.1.map (·.lexeme) =
        (marked t nullable marks).2 := by
  have hext : Extends [] (marks.map (⟨.mark ·, 0⟩)) rest := by
    simp [Extends, h]
  obtain ⟨harray, hrest⟩ := hext.readArrays t rfl
  obtain ⟨hmod, hlast⟩ := hrest.modifyBy _ nullable false rfl
  rw [harray]
  exact ⟨hmod, hlast.trans (List.append_nil _)⟩

/-- A type without modifiers is read together with the marks around it. -/
theorem parses_marked_primary (nullable : Option Bool) (marks : List Mark)
    (hp : Parses ls (.primary t) (marks.map .mark))
    (hstart : ∀ ts' : List Token, ts'.map (·.lexeme) = ls →
      mayStart ts' = true ∧ readNullable ts' = (none, ⟨ts', Nat.le_refl _⟩))
    (hbar : (marked t nullable marks).2.head? ≠ some (.mark .bar)) :
    Parses (nullableLexemes nullable ++ ls) (.union (marked t nullable marks).1) (marked t nullable marks).2 := by
  intro ts hts
  obtain ⟨ts₁, hts₁, hnull⟩ := readNullable_leading hstart hts
  obtain ⟨rest, hrest, d⟩ := hp ts₁ hts₁
  obtain ⟨htype, hlast⟩ := marked_eq t nullable hrest
  have hne : ahead ts ≠ some (.mark .ellipsis) := by
    intro h
    rcases ts with _ | ⟨⟨l, p⟩, ts⟩
    · cases h
    · obtain rfl : l = .mark .ellipsis := Option.some.inj h
      cases hnull
      cases (hstart _ hts₁).1
  have d' := Derives.single hne (by
    rw [hnull]
    exact .arrayed d)
  rw [hnull, htype] at d'
  refine ⟨_, hlast, .union d' (.noAlternative ?_)⟩
  rwa [ahead_eq_head?, hlast]

/-! ## Texts between marks -/

/-- A text states the type that is read from its lexemes, if nothing is left of them. -/
theorem parse_of_lexes {e : String} (hs : Solid e.toList) (hl : Lexes e.toList ls []) (hp : Parses ls (.union t) ls') :
    parse e = .ok t' ↔ ls' = [] ∧ t' = t := by
  obtain ⟨ts, hts, hls⟩ := hl.tokens 0
  obtain ⟨rest, hrest, d⟩ := hp ts hls
  rw [parse_eq_ok, trim_of_solid hs]
  constructor
  · rintro ⟨ts', hts', d'⟩
    obtain rfl : ts = ts' := Except.ok.inj (hts.symm.trans hts')
    obtain ⟨_, hread⟩ : (Phrase.union t).Reads 0 ts rest := d.reads
    obtain ⟨_, hread'⟩ : (Phrase.union t').Reads 0 ts [] := d'.reads
    cases hread.symm.trans hread'
    exact ⟨hrest.symm, rfl⟩
  · rintro ⟨rfl, rfl⟩
    obtain rfl := List.map_eq_nil_iff.1 hrest
    exact ⟨ts, hts, d⟩

variable {e front back : String} {cs : List Char} {ls₁ ls₂ : List Lexeme}

theorem isBlank_of_mem_chars {c : Char} (h : c ∈ m.chars) : isBlank c = false := by
  have hall : m.chars.all (!isBlank ·) = true := by cases m <;> decide
  simpa using List.all_eq_true.1 hall c h

theorem spells_marks (ms : List Mark) : SpellsAnywhere (ms.flatMap Mark.chars) (ms.map .mark) := by
  induction ms with
  | nil => exact spells_nil
  | cons m ms ih => exact (spells_mark m).append ih

/-- A word is a name in front of characters that no name goes on into. -/
theorem lexes_word {word : String} {ahead : List Char} (h : isWord word = true) (ha : EndsName ahead) :
    Lexes (word.toList ++ ahead) [.name word] ahead := by
  obtain ⟨c, cs, rfl, hc, hcs⟩ := isWord_iff.1 h
  rw [String.toList_ofList, List.cons_append]
  refine .lexeme (isBlank_of_isNameStart hc) (fun pos => ?_) .done
  rw [scanLexeme, if_pos hc, scanPath_word hcs, ha.ends]
  simp

/-- What a text between two others states is decided by the lexemes of the three. -/
theorem parse_between (hts : tokensOf (trim e.toList) = .ok ts) (hfront : SpellsAnywhere front.toList ls₁)
    (hback : SpellsAnywhere back.toList ls₂) (hs : Solid front.toList) (hs' : Solid back.toList)
    (ha : Apart back.toList) (hp : Parses (ls₁ ++ (ts.map (·.lexeme) ++ ls₂)) (.union t) ls') :
    parse (front ++ e ++ back) = .ok t' ↔ ls' = [] ∧ t' = t := by
  have htext : (front ++ e ++ back).toList = front.toList ++ e.toList ++ back.toList := by
    rw [String.toList_append, String.toList_append]
  have hlexes : Lexes (front ++ e ++ back).toList (ls₁ ++ (ts.map (·.lexeme) ++ ls₂)) [] := by
    rw [htext, List.append_assoc]
    refine (hfront _).append ((lexes_of_tokensOf hts ha).append ?_)
    rw [← List.append_nil back.toList]
    exact hback []
  exact parse_of_lexes (htext ▸ hs.append hs' _) hlexes hp

/-- **What a text in parentheses states** between a mark of nullability and other marks. -/
theorem parse_grouped (nullable : Option Bool) (marks : List Mark) (h : parse e = .ok t)
    (hfront : front.toList = leadingMarks nullable false ++ ['('])
    (hback : back.toList = ')' :: marks.flatMap Mark.chars)
    (hbar : (marked t nullable marks).2.head? ≠ some (.mark .bar)) :
    parse (front ++ e ++ back) = .ok t' ↔ marked t nullable marks = (t', []) := by
  obtain ⟨ts, hts, d⟩ := parse_eq_ok.1 h
  have hspells : SpellsAnywhere front.toList (leadingLexemes nullable false ++ [.mark .openParen]) :=
    hfront ▸ (spells_leading nullable false).append (spells_mark .openParen)
  have hspells' : SpellsAnywhere back.toList ((.closeParen :: marks).map .mark) :=
    hback ▸ spells_marks (.closeParen :: marks)
  have hsolid : Solid front.toList := by
    have hall : front.toList.all (!isBlank ·) = true := by
      rw [hfront]
      rcases nullable with _ | _ | _ <;> decide
    exact solid_of_forall (by simp [hfront]) fun c hc => by simpa using List.all_eq_true.1 hall c hc
  have hsolid' : Solid back.toList := by
    refine solid_of_forall (by simp [hback]) fun c hc => ?_
    rw [hback, List.mem_cons, List.mem_flatMap] at hc
    rcases hc with rfl | ⟨m, -, hc⟩
    · decide
    · exact isBlank_of_mem_chars hc
  have hapart : Apart back.toList := hback ▸ apart_cons (by decide) _
  have hparses := parses_marked_primary nullable marks (parses_grouped d) (fun ts' hts' => by
    obtain ⟨⟨_, p⟩, ts₁, rfl, rfl, -⟩ := List.map_eq_cons_iff.1 hts'
    exact ⟨rfl, rfl⟩) hbar
  rw [parse_between hts hspells hspells' hsolid hsolid' hapart (by rwa [List.append_assoc]), Prod.ext_iff, and_comm,
    eq_comm (a := t')]

/-- A text between the marks of type arguments states the only argument of the type in front of it. -/
theorem parse_arrayOf (h : parse e = .ok t) (hm : m = .dotLess ∨ m = .less)
    (hfront : front.toList = "Array".toList ++ m.chars) : parse (front ++ e ++ ">") = .ok (arrayOf t) := by
  obtain ⟨ts, hts, d⟩ := parse_eq_ok.1 h
  have hends (ahead : List Char) : EndsName (m.chars ++ ahead) := by
    rcases hm with rfl | rfl
    · exact endsName_of_stops rfl
    · exact (apart_cons (by decide) _).endsName
  have hspells : SpellsAnywhere front.toList [.name "Array", .mark m] := by
    intro ahead
    rw [hfront, List.append_assoc]
    exact (lexes_word (by decide) (hends ahead)).append (lexes_mark m)
  have hback : ">".toList = ['>'] := by decide
  have hspells' : SpellsAnywhere ">".toList [.mark .greater] := hback ▸ spells_mark .greater
  have hsolid : Solid front.toList := by
    refine solid_of_forall (by simp [hfront]) fun c hc => ?_
    rw [hfront, List.mem_append] at hc
    have hword : "Array".toList.all (!isBlank ·) = true := by decide
    rcases hc with hc | hc
    · simpa using List.all_eq_true.1 hword c hc
    · exact isBlank_of_mem_chars hc
  have hsolid' : Solid ">".toList := hback ▸ solid_singleton (by decide)
  have hapart : Apart ">".toList := hback ▸ apart_cons (by decide) _
  have hparses := parses_marked_primary none [] (parses_arrayOf d hm) (fun ts' hts' => by
    obtain ⟨⟨_, p⟩, ts₁, rfl, rfl, -⟩ := List.map_eq_cons_iff.1 hts'
    exact ⟨rfl, rfl⟩) nofun
  exact (parse_between hts hspells hspells' hsolid hsolid' hapart hparses).2 ⟨rfl, rfl⟩

/-- A question mark behind the type counts unless the type is the unknown one. -/
theorem marked_question : marked t none [.question] = (.modified t false (some true) false, []) ↔ t ≠ .unknown := by
  constructor
  · rintro h rfl
    cases (Prod.ext_iff.1 h).2
  · intro ht
    cases t with
    | unknown => exact (ht rfl).elim
    | _ => rfl

/-- **A text that states a type states it in parentheses too, and as the element type of an array in each of the three
spellings.** A mark of nullability in front of the parentheses or behind them counts for the whole type, except that the
unknown type takes no question mark behind it. -/
theorem parse_enclosed (h : parse e = .ok t) :
    parse ("(" ++ e ++ ")") = .ok t ∧
    parse ("Array.<" ++ e ++ ">") = .ok (arrayOf t) ∧ parse ("Array<" ++ e ++ ">") = .ok (arrayOf t) ∧
    parse ("(" ++ e ++ ")[]") = .ok (arrayOf t) ∧
    parse ("!(" ++ e ++ ")") = .ok (.modified t false (some false) false) ∧
    parse ("(" ++ e ++ ")!") = .ok (.modified t false (some false) false) ∧
    parse ("?(" ++ e ++ ")") = .ok (.modified t false (some true) false) ∧
    (parse ("(" ++ e ++ ")?") = .ok (.modified t false (some true) false) ↔ t ≠ .unknown) := by
  have grouped {front back : String} (nullable : Option Bool) (marks : List Mark) {t' : TypeExpr}
      (hfront : front.toList = leadingMarks nullable false ++ ['('])
      (hback : back.toList = ')' :: marks.flatMap Mark.chars) (hmarked : marked t nullable marks = (t', [])) :
      parse (front ++ e ++ back) = .ok t' :=
    (parse_grouped nullable marks h hfront hback (by simp [hmarked])).2 hmarked
  have question : parse ("(" ++ e ++ ")?") = .ok (.modified t false (some true) false) ↔ t ≠ .unknown := by
    rw [← marked_question]
    refine parse_grouped none [.question] h (by decide) (by decide) ?_
    cases t <;> nofun
  exact ⟨grouped none [] (by decide) (by decide) rfl,
    parse_arrayOf h (.inl rfl) (by decide), parse_arrayOf h (.inr rfl) (by decide),
    grouped none [.openBracket, .closeBracket] (by decide) (by decide) rfl,
    grouped (some false) [] (by decide) (by decide) rfl,
    grouped none [.bang] (by decide) (by decide) rfl,
    grouped (some true) [] (by decide) (by decide) rfl, question⟩

theorem parse_enclosed_union : ∃ t, parse " ?a[] | function(...b): c.d " = .ok t ∧
    parse ("(" ++ " ?a[] | function(...b): c.d " ++ ")") = .ok t ∧
    parse ("Array<" ++ " ?a[] | function(...b): c.d " ++ ">") = .ok (arrayOf t) ∧
    parse ("(" ++ " ?a[] | function(...b): c.d " ++ ")?") = .ok (.modified t false (some true) false) := by
  have h : parse " ?a[] | function(...b): c.d " = .ok (.union [.modified (arrayOf (.name "a")) false (some true) false,
      .function [.modified (.name "b") false none true] (some (.name "c.d")) none none]) := by with_unfolding_all rfl
  obtain ⟨hgroup, -, harray, -, -, -, -, hquestion⟩ := parse_enclosed h
  exact ⟨_, h, hgroup, harray, hquestion.2 nofun⟩

end SymbolDocs.TypeExpr
