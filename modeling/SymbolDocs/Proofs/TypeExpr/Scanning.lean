import SymbolDocs.Proofs.Outcome
import SymbolDocs.TypeExpr.Token

/-!
# Scanning a text again

A lexeme is stable if its own characters, followed by what may follow it in a printed type, are read as that lexeme
again. `legible_of_tokensFrom` says that the lexemes of a text are stable. The exception is a name before a number:
`a.` is read as a name in front of a digit of another script, and as the name `a` in front of anything else.
-/

namespace SymbolDocs.TypeExpr

open SymbolDocs.Text

/-! ## Texts cut into lexemes -/

/-- The characters are cut into these lexemes, and the rest of them is left. -/
inductive Lexes : List Char → List Lexeme → List Char → Prop
  | done {cs} : Lexes cs [] cs
  | blank {c cs ls rest} : isBlank c = true → Lexes cs ls rest → Lexes (c :: cs) ls rest
  | lexeme {c cs l mid ls rest} : isBlank c = false → (∀ pos, scanLexeme pos c cs = .ok (l, mid)) →
      Lexes mid ls rest → Lexes (c :: cs) (l :: ls) rest

/-- Whether no lexeme of a printed type goes on into the characters ahead. -/
def stops : List Char → Bool
  | [] => true
  | '.' :: '<' :: _ => true
  | ':' :: ' ' :: _ => true
  | c :: _ => c = '|' || c = '(' || c = ')' || c = ',' || c = '>' || c = '\x7d' || c = '='

/-- A lexeme that is read from its own characters whatever a printed type goes on with. -/
def Lexeme.Stable (l : Lexeme) : Prop :=
  ∃ c cs, l.chars = c :: cs ∧ isBlank c = false ∧
    ∀ pos ahead, stops ahead = true → scanLexeme pos c (cs ++ ahead) = .ok (l, ahead)

variable {quote : Char} {taken cs ds text rest ahead : List Char} {pos : Nat} {l : Lexeme}

/-- Any property of the characters ahead that holds of the ends of a lexeme. -/
theorem stops_cases {P : List Char → Prop} (h : stops rest = true) (nil : P []) (args : ∀ cs, P ('.' :: '<' :: cs))
    (value : ∀ cs, P (':' :: ' ' :: cs))
    (mark : ∀ c cs, c ∈ ['|', '(', ')', ',', '>', '\x7d', '='] → P (c :: cs)) : P rest := by
  unfold stops at h
  split at h
  · exact nil
  · exact args _
  · exact value _
  · next c cs _ _ => exact mark c cs (by simpa [or_assoc] using h)

/-- The marks that end a lexeme are not part of names, paths and numbers. -/
theorem mark_ends {c : Char} (hc : c ∈ ['|', '(', ')', ',', '>', '\x7d', '=']) :
    isNameChar c = false ∧ isPathMark c = false ∧ isQuote c = false ∧ c ≠ ':' ∧ isDecimal c = false := by
  simp only [List.mem_cons, List.not_mem_nil, or_false] at hc
  rcases hc with rfl | rfl | rfl | rfl | rfl | rfl | rfl <;> decide

/-! ## Quoted texts -/

theorem scanQuoted_cons {c : Char} (hc : c ≠ '\\') : scanQuoted quote (c :: cs) =
    if c = quote then some ([c], cs) else (scanQuoted quote cs).map fun p => (c :: p.1, p.2) := by
  rw [scanQuoted]
  · rintro rfl
    exact absurd rfl hc
  · rintro c' cs' rfl
    exact absurd rfl hc

/-- A character of a quoted text that is read alone is no backslash. -/
theorem ne_backslash_of_alone {c : Char} (hlast : c = '\\' → cs = [] → False)
    (hmore : ∀ c' cs', c = '\\' → cs = c' :: cs' → False) : c ≠ '\\' := by
  intro hc
  cases cs with
  | nil => exact hlast hc rfl
  | cons c' cs => exact hmore c' cs hc rfl

/-- A quoted text ends at its closing quote, whatever follows. -/
theorem scanQuoted_text (h : scanQuoted quote cs = some (text, rest)) (ahead : List Char) :
    scanQuoted quote (text ++ ahead) = some (text, ahead) := by
  fun_induction scanQuoted quote cs generalizing text rest with
  | case1 => cases h
  | case2 => cases h
  | case3 c cs ih =>
    obtain ⟨p, hp, he⟩ := Option.map_eq_some_iff.1 h
    cases he
    simp [scanQuoted, ih hp]
  | case4 cs hlast hmore =>
    cases h
    rw [List.singleton_append, scanQuoted_cons (ne_backslash_of_alone hlast hmore), if_pos rfl]
  | case5 c cs hlast hmore hq ih =>
    obtain ⟨p, hp, he⟩ := Option.map_eq_some_iff.1 h
    cases he
    rw [List.cons_append, scanQuoted_cons (ne_backslash_of_alone hlast hmore), if_neg hq, ih hp]
    rfl

/-- A quoted text is the same whatever comes behind it. -/
theorem scanQuoted_append_right (h : scanQuoted quote cs = some (text, rest)) (ahead : List Char) :
    scanQuoted quote (cs ++ ahead) = some (text, rest ++ ahead) := by
  rw [scanQuoted_append h, List.append_assoc]
  exact scanQuoted_text h _

/-! ## Names -/

theorem isQuote_iff {c : Char} : isQuote c = true ↔ c = '"' ∨ c = '\'' := by
  simp [isQuote]

theorem scanPath_char {c : Char} (h : (isNameChar c || (isPathMark c && continuesPath cs)) = true) :
    scanPath taken (c :: cs) = scanPath (c :: taken) cs := by
  rw [scanPath, if_pos h]

theorem scanPath_colon (h : (namespaceWords.contains (lastSegment taken) && continuesNamespace cs) = true) :
    scanPath taken (':' :: cs) = scanPath (':' :: taken) cs := by
  rw [scanPath, if_neg (by rw [show isNameChar ':' = false from rfl]; simp [isPathMark]), if_pos (by simpa using h)]

theorem scanPath_quoted {c : Char} (hq : (isQuote c && opensSegment taken) = true)
    (h : scanQuoted c cs = some (text, rest)) :
    scanPath taken (c :: cs) = scanPath (text.reverse ++ c :: taken) rest := by
  have hc : isNameChar c = false ∧ isPathMark c = false ∧ c ≠ ':' := by
    rcases isQuote_iff.1 (Bool.and_eq_true_iff.1 hq).1 with rfl | rfl <;> decide
  obtain ⟨hname, hpath, hcolon⟩ := hc
  rw [scanPath, if_neg (by simp [hname, hpath]), if_neg (by simp [hcolon]), if_pos hq]
  split
  · next hnone => simp [h] at hnone
  · next hsome =>
    rw [h] at hsome
    cases hsome
    rfl

theorem scanPath_stop {c : Char} (hname : (isNameChar c || (isPathMark c && continuesPath cs)) = false)
    (hcolon : (c = ':' && namespaceWords.contains (lastSegment taken) && continuesNamespace cs) = false)
    (hquote : (isQuote c && opensSegment taken) = false) :
    scanPath taken (c :: cs) = .ok (taken.reverse, c :: cs) := by
  rw [scanPath, if_neg (by simp [hname]), if_neg (by simpa using hcolon), if_neg (by simp [hquote])]

/-- A name ends before the characters that end a lexeme. -/
theorem scanPath_of_stops (h : stops rest = true) : scanPath taken rest = .ok (taken.reverse, rest) := by
  refine stops_cases (P := fun rest => scanPath taken rest = .ok (taken.reverse, rest)) h ?_ ?_ ?_ ?_
  · rw [scanPath]
  · intro cs
    have hname : (isNameChar '.' || (isPathMark '.' && continuesPath ('<' :: cs))) = false := by
      show (isNameChar '.' || (isPathMark '.' && (isNameStart '<' || isDigit '<' || isQuote '<'))) = false
      decide
    exact scanPath_stop hname rfl rfl
  · intro cs
    have hcolon : continuesNamespace (' ' :: cs) = false := by
      show (isNameStart ' ' || isQuote ' ') = false
      decide
    exact scanPath_stop rfl (by rw [hcolon, Bool.and_false]) rfl
  · intro c cs hc
    obtain ⟨hname, hpath, hquote, hcolon, -⟩ := mark_ends hc
    exact scanPath_stop (by rw [hname, hpath]; rfl) (by simp [hcolon]) (by rw [hquote]; rfl)

/-- No name goes on into characters that none of the rules for names takes. -/
structure EndsName (ahead : List Char) : Prop where
  path : continuesPath ahead = false
  ends : ∀ taken, scanPath taken ahead = .ok (taken.reverse, ahead)

theorem endsName_of_stops (h : stops ahead = true) : EndsName ahead where
  path := by
    refine stops_cases (P := fun ahead => continuesPath ahead = false) h rfl ?_ ?_ ?_
    · intro cs
      show (isNameStart '.' || isDigit '.' || isQuote '.') = false
      decide
    · intro cs
      show (isNameStart ':' || isDigit ':' || isQuote ':') = false
      decide
    · intro c cs hc
      show (isNameStart c || isDigit c || isQuote c) = false
      simp only [List.mem_cons, List.not_mem_nil, or_false] at hc
      rcases hc with rfl | rfl | rfl | rfl | rfl | rfl | rfl <;> decide
  ends := fun _ => scanPath_of_stops h

theorem EndsName.continuesPath_append (h : EndsName ahead) (cs : List Char) :
    continuesPath (cs ++ ahead) = continuesPath cs := by
  cases cs with
  | nil => exact h.path
  | cons => rfl

theorem EndsName.continuesNamespace_append (h : EndsName ahead) (cs : List Char) :
    continuesNamespace (cs ++ ahead) = continuesNamespace cs := by
  cases cs with
  | nil =>
    have hpath := h.path
    rcases ahead with _ | ⟨c, ahead⟩
    · rfl
    · simp only [continuesPath, Bool.or_eq_false_iff] at hpath
      simp [continuesNamespace, hpath.1.1, hpath.2]
  | cons => rfl

/-- A name takes the same before characters that it does not go on into. -/
theorem scanPath_append_right (h : scanPath taken cs = .ok (text, rest)) (ha : EndsName ahead) :
    scanPath taken (cs ++ ahead) = .ok (text, rest ++ ahead) := by
  fun_induction scanPath taken cs with
  | case1 taken =>
    cases h
    exact ha.ends taken
  | case2 taken c cs hc ih =>
    rw [List.cons_append, scanPath_char (by rwa [ha.continuesPath_append]), ih h]
  | case3 taken c cs _ hcolon ih =>
    simp only [Bool.and_eq_true, decide_eq_true_eq] at hcolon
    obtain ⟨⟨rfl, hword⟩, hnext⟩ := hcolon
    rw [List.cons_append, scanPath_colon (by rw [hword, ha.continuesNamespace_append, hnext]; rfl), ih h]
  | case4 => cases h
  | case5 taken c cs _ _ hq text' rest' hquoted _ ih =>
    rw [List.cons_append, scanPath_quoted hq (scanQuoted_append_right hquoted ahead), ih h]
  | case6 taken c cs hname hcolon hquote =>
    cases h
    rw [List.cons_append, scanPath_stop]
    · rw [ha.continuesPath_append]
      simpa using hname
    · rw [ha.continuesNamespace_append]
      simpa using hcolon
    · simpa using hquote

/-- A name goes on over a character that starts a name, and over a quote behind a separator. -/
theorem scanPath_progress {c : Char} (h : scanPath taken (c :: cs) = .ok (text, rest))
    (hc : isNameStart c = true ∨ (isQuote c && opensSegment taken) = true) : rest.length ≤ cs.length := by
  rw [scanPath] at h
  split at h
  · exact scanPath_length h
  · next hname =>
    split at h
    · exact scanPath_length h
    · split at h
      · split at h
        · cases h
        · next text' rest' hq => exact Nat.le_trans (scanPath_length h) (scanQuoted_length hq)
      · next hquote =>
        rcases hc with hc | hc
        · exact (hname (by simp [isNameChar, hc])).elim
        · exact (hquote hc).elim

/-- A name does not end before a character that continues it. -/
theorem scanPath_self {c : Char} (h : scanPath taken (c :: cs) = .ok (text, c :: cs)) :
    isNameStart c = false ∧ (isQuote c && opensSegment taken) = false := by
  constructor
  · rw [Bool.eq_false_iff]
    intro hc
    exact Nat.not_succ_le_self _ (scanPath_progress h (.inl hc))
  · rw [Bool.eq_false_iff]
    intro hc
    exact Nat.not_succ_le_self _ (scanPath_progress h (.inr hc))

/-- A name takes any number of name characters. -/
theorem scanPath_word (h : ∀ c ∈ cs, isNameChar c = true) :
    scanPath taken (cs ++ ahead) = scanPath (cs.reverse ++ taken) ahead := by
  induction cs generalizing taken with
  | nil => rfl
  | cons c cs ih =>
    obtain ⟨hc, hcs⟩ := List.forall_mem_cons.1 h
    rw [List.cons_append, scanPath_char (by rw [hc, Bool.true_or]), ih hcs]
    simp

/-- Whether the text goes on with a digit. -/
def digitAhead : List Char → Bool
  | c :: _ => isDigit c
  | [] => false

/-- What was taken of a name is a name, unless a digit follows it that is no part of it. -/
theorem scanPath_taken (h : scanPath taken cs = .ok (text, rest)) (hd : digitAhead rest = false) :
    ∃ more, cs = more ++ rest ∧ scanPath taken more = .ok (text, []) := by
  fun_induction scanPath taken cs with
  | case1 taken =>
    cases h
    exact ⟨[], rfl, by rw [scanPath]⟩
  | case2 taken c cs hc ih =>
    obtain ⟨more, rfl, hmore⟩ := ih h
    refine ⟨c :: more, rfl, ?_⟩
    rw [scanPath_char, hmore]
    simp only [Bool.or_eq_true, Bool.and_eq_true] at hc ⊢
    rcases hc with hname | ⟨hpath, hnext⟩
    · exact .inl hname
    · refine .inr ⟨hpath, ?_⟩
      rcases more with _ | ⟨d, more⟩
      · rcases rest with _ | ⟨d, rest⟩
        · exact hnext
        · obtain ⟨hstart, hquote⟩ := scanPath_self h
          simp [continuesPath, hstart, show isDigit d = false from hd] at hnext
          simp [hnext, opensSegment, hpath] at hquote
      · exact hnext
  | case3 taken c cs _ hcolon ih =>
    simp only [Bool.and_eq_true, decide_eq_true_eq] at hcolon
    obtain ⟨⟨rfl, hword⟩, hnext⟩ := hcolon
    obtain ⟨more, rfl, hmore⟩ := ih h
    refine ⟨':' :: more, rfl, ?_⟩
    rw [scanPath_colon, hmore]
    rw [hword, Bool.true_and]
    rcases more with _ | ⟨d, more⟩
    · rcases rest with _ | ⟨d, rest⟩
      · exact hnext
      · obtain ⟨hstart, hquote⟩ := scanPath_self h
        simp [continuesNamespace, hstart] at hnext
        simp [hnext, opensSegment] at hquote
    · exact hnext
  | case4 => cases h
  | case5 taken c cs _ _ hq text' rest' hquoted _ ih =>
    obtain ⟨more, rfl, hmore⟩ := ih h
    refine ⟨c :: text' ++ more, by simp [scanQuoted_append hquoted], ?_⟩
    rw [List.cons_append, scanPath_quoted hq (scanQuoted_text hquoted more), hmore]
  | case6 taken c cs hname hcolon hq =>
    cases h
    exact ⟨[], rfl, by rw [scanPath]⟩

/-! ## Numbers -/

/-- Whether the text goes on with a decimal digit. -/
def decimalAhead : List Char → Bool
  | c :: _ => isDecimal c
  | [] => false

theorem scanDigits_text (h : scanDigits cs = some (text, rest)) (hd : decimalAhead ahead = false) :
    scanDigits (text ++ ahead) = some (text, ahead) := by
  have hall : ∀ d ∈ text, isDecimal d = true := by
    unfold scanDigits at h
    split at h
    · cases h
    · cases h
      exact fun d hd => List.all_eq_true.1 List.all_takeWhile d hd
  have htake : ahead.takeWhile isDecimal = [] ∧ ahead.dropWhile isDecimal = ahead := by
    rcases ahead with _ | ⟨c, cs⟩
    · exact ⟨rfl, rfl⟩
    · have hc : isDecimal c = false := hd
      simp [hc]
  unfold scanDigits
  rw [List.takeWhile_append_of_pos hall, List.dropWhile_append_of_pos hall, htake.1, htake.2, List.append_nil]
  split
  · exact ((scanDigits_append h).2 rfl).elim
  · rfl

theorem decimalAhead_of_stops (hs : stops ahead = true) : decimalAhead ahead = false := by
  refine stops_cases (P := fun ahead => decimalAhead ahead = false) hs rfl ?_ ?_ ?_
  · intro cs
    show isDecimal '.' = false
    decide
  · intro cs
    show isDecimal ':' = false
    decide
  · intro c cs hc
    exact (mark_ends hc).2.2.2.2

/-- A point that ends a lexeme starts no fraction. -/
theorem scanDigits_of_stops (hs : stops ('.' :: cs) = true) : scanDigits cs = none := by
  unfold stops at hs
  split at hs
  · next he => cases he
  · next he =>
    cases he
    simp [scanDigits, show isDecimal '<' = false by decide]
  · next he => cases he
  · next he =>
    cases he
    exact absurd hs (by decide)

/-- A number ends before the characters that end a lexeme. -/
theorem scanUnsigned_text (h : scanUnsigned cs = some (text, rest)) (hs : stops ahead = true) :
    scanUnsigned (text ++ ahead) = some (text, ahead) := by
  have hd := decimalAhead_of_stops hs
  have whole {ds rest : List Char} (hw : scanDigits cs = some (ds, rest)) :
      scanUnsigned (ds ++ ahead) = some (ds, ahead) := by
    unfold scanUnsigned
    rw [scanDigits_text hw hd]
    split
    · next he => cases he
    · next he =>
      cases he
      rw [scanDigits_of_stops hs]
    · next he =>
      cases he
      rfl
  unfold scanUnsigned at h
  split at h
  · cases h
  · next ds rest' hw =>
    split at h
    · next fraction rest'' hf =>
      cases h
      have hw' : scanDigits (ds ++ '.' :: (fraction ++ ahead)) = some (ds, '.' :: (fraction ++ ahead)) :=
        scanDigits_text hw (by show isDecimal '.' = false; decide)
      rw [List.append_assoc, List.cons_append, scanUnsigned]
      simp only [hw', scanDigits_text hf hd]
    · cases h
      exact whole hw
  · next hw =>
    cases h
    exact whole hw

theorem scanNumber_text (h : scanNumber cs = some (text, rest)) (hs : stops ahead = true) :
    scanNumber (text ++ ahead) = some (text, ahead) := by
  unfold scanNumber at h
  split at h
  · obtain ⟨p, hp, he⟩ := Option.map_eq_some_iff.1 h
    cases he
    rw [List.cons_append, scanNumber, scanUnsigned_text hp hs]
    rfl
  · next hminus =>
    obtain ⟨he, hne⟩ := scanUnsigned_append h
    rcases text with _ | ⟨c, text⟩
    · exact (hne rfl).elim
    · rw [List.cons_append, scanNumber]
      · exact scanUnsigned_text h hs
      · rintro cs' he'
        cases he'
        exact hminus _ he

/-! ## Marks and digits -/

theorem scanMark_text (m : Mark) : scanMark (m.chars ++ ahead) = some (m, ahead) := by
  cases m <;> rfl

/-- Digits lie between the blanks. -/
theorem toNat_of_isDigit {c : Char} (h : isDigit c = true) : (48 ≤ c.toNat ∧ c.toNat ≤ 57) ∨
    (0xA0 < c.toNat ∧ c.toNat < 0x1680) ∨ (0x1680 < c.toNat ∧ c.toNat < 0x2000) ∨
    (0x205F < c.toNat ∧ c.toNat < 0x3000) ∨ 0x3000 < c.toNat := by
  have apart : ∀ r ∈ decimalRanges ++ loneDigitRanges, (0xA0 < r.1 ∧ r.2 < 0x1680) ∨ (0x1680 < r.1 ∧ r.2 < 0x2000) ∨
      (0x205F < r.1 ∧ r.2 < 0x3000) ∨ 0x3000 < r.1 := by decide
  have ranges {rs : CodeRanges} (hsub : ∀ r ∈ rs, r ∈ decimalRanges ++ loneDigitRanges) (hc : rs.mem c = true) :
      (0xA0 < c.toNat ∧ c.toNat < 0x1680) ∨ (0x1680 < c.toNat ∧ c.toNat < 0x2000) ∨
      (0x205F < c.toNat ∧ c.toNat < 0x3000) ∨ 0x3000 < c.toNat := by
    obtain ⟨r, hr, hlo, hhi⟩ := (CodeRanges.mem_iff rs c).1 hc
    have := apart r (hsub r hr)
    omega
  simp only [isDigit, isDecimal, Bool.or_eq_true] at h
  rcases h with (h | h) | h
  · left
    simp only [Char.isDigit, Bool.and_eq_true, decide_eq_true_eq, UInt32.le_iff_toNat_le] at h
    exact h
  · exact .inr (ranges (fun r hr => List.mem_append_left _ hr) h)
  · exact .inr (ranges (fun r hr => List.mem_append_right _ hr) h)

theorem isBlank_of_isDigit {c : Char} (h : isDigit c = true) : isBlank c = false := by
  have := toNat_of_isDigit h
  simp only [isBlank, Bool.or_eq_false_iff, Bool.and_eq_false_iff, decide_eq_false_iff_not]
  omega

theorem toNat_of_isNameStart {c : Char} (h : isNameStart c = true) :
    c.toNat = 36 ∨ (64 ≤ c.toNat ∧ c.toNat ≤ 90) ∨ c.toNat = 95 ∨ (97 ≤ c.toNat ∧ c.toNat ≤ 122) := by
  have halpha : c.isAlpha = (decide (c.val ≥ 'A'.val ∧ c.val ≤ 'Z'.val) ||
      (decide (c.val ≥ 'a'.val) && decide (c.val ≤ 'z'.val))) := rfl
  simp only [isNameStart, halpha, Bool.or_eq_true, Bool.and_eq_true, decide_eq_true_eq, ge_iff_le,
    UInt32.le_iff_toNat_le] at h
  rcases h with (((⟨hlo, hhi⟩ | ⟨hlo, hhi⟩) | rfl) | rfl) | rfl
  · change 65 ≤ c.toNat at hlo
    change c.toNat ≤ 90 at hhi
    omega
  · change 97 ≤ c.toNat at hlo
    change c.toNat ≤ 122 at hhi
    omega
  · decide
  · decide
  · decide

theorem isBlank_of_isNameStart {c : Char} (h : isNameStart c = true) : isBlank c = false := by
  have := toNat_of_isNameStart h
  simp only [isBlank, Bool.or_eq_false_iff, Bool.and_eq_false_iff, decide_eq_false_iff_not]
  omega

/-- A digit that starts no number starts nothing at all. -/
theorem scanLexeme_of_isDigit {c : Char} (hc : isDigit c = true) (h : scanLexeme pos c cs = .ok (l, rest)) :
    ∃ text, l = .number text := by
  have hn := toNat_of_isDigit hc
  have hstart : isNameStart c = false := by
    rw [Bool.eq_false_iff]
    intro hs
    have := toNat_of_isNameStart hs
    omega
  have hquote : isQuote c = false := by
    rw [Bool.eq_false_iff]
    intro hq
    rcases isQuote_iff.1 hq with rfl | rfl <;> simp at hn
  unfold scanLexeme at h
  rw [if_neg (by simp [hstart]), if_neg (by simp [hquote])] at h
  split at h
  · cases h
    exact ⟨_, rfl⟩
  · split at h
    · next m _ hm =>
      have hcs := scanMark_append hm
      cases m <;> cases hcs <;> simp at hn
    · cases h

/-! ## Lexemes -/

theorem scanNumber_eq_none {c : Char} (hd : isDecimal c = false) (hm : c ≠ '-') : scanNumber (c :: cs) = none := by
  rw [scanNumber]
  · simp [scanUnsigned, scanDigits, hd]
  · rintro cs' ⟨⟩
    exact hm rfl

/-- A mark is read from its characters, whatever follows. -/
theorem scanLexeme_mark (m : Mark) : ∃ c cs, m.chars = c :: cs ∧ isBlank c = false ∧
    ∀ pos ahead, scanLexeme pos c (cs ++ ahead) = .ok (.mark m, ahead) := by
  have hm : ∀ c cs, m.chars = c :: cs →
      isBlank c = false ∧ isNameStart c = false ∧ isQuote c = false ∧ isDecimal c = false ∧ c ≠ '-' := by
    cases m <;> rintro c cs ⟨⟩ <;> decide
  rcases hcs : m.chars with _ | ⟨c, cs⟩
  · exact (m.chars_ne_nil hcs).elim
  · obtain ⟨hb, hstart, hquote, hdec, hminus⟩ := hm c cs hcs
    refine ⟨c, cs, rfl, hb, fun pos ahead => ?_⟩
    have hmark : scanMark (m.chars ++ ahead) = some (m, ahead) := scanMark_text m
    rw [hcs, List.cons_append] at hmark
    rw [scanLexeme, if_neg (by simp [hstart]), if_neg (by simp [hquote]), scanNumber_eq_none hdec hminus]
    simp only [hmark]

/-- What a scanner read it reads again before the end of a lexeme, unless it is a name and a digit follows. -/
theorem stable_of_scanLexeme {c : Char} (hb : isBlank c = false) (h : scanLexeme pos c cs = .ok (l, rest))
    (hd : digitAhead rest = false) : l.Stable := by
  unfold scanLexeme at h
  split at h
  · next hstart =>
    split at h
    · next text rest' hpath =>
      cases h
      obtain ⟨more, rfl, hmore⟩ := scanPath_taken hpath hd
      have htext : text = c :: more := by simpa using (scanPath_append hmore).symm
      subst htext
      refine ⟨c, more, String.toList_ofList, hb, fun pos ahead hs => ?_⟩
      rw [scanLexeme, if_pos hstart, scanPath_append_right hmore (endsName_of_stops hs), List.nil_append]
    · cases h
  · next hstart =>
    split at h
    · next hquote =>
      split at h
      · next text rest' hq =>
        cases h
        refine ⟨c, text, String.toList_ofList, hb, fun pos ahead hs => ?_⟩
        rw [scanLexeme, if_neg hstart, if_pos hquote, scanQuoted_text hq]
      · cases h
    · next hquote =>
      split at h
      · next text rest' hn =>
        cases h
        obtain ⟨he, hne⟩ := scanNumber_append hn
        rcases text with _ | ⟨c', text⟩
        · exact (hne rfl).elim
        · cases he
          refine ⟨c, text, String.toList_ofList, hb, fun pos ahead hs => ?_⟩
          rw [scanLexeme, if_neg hstart, if_neg hquote, ← List.cons_append, scanNumber_text hn hs]
      · split at h
        · next m rest' hm =>
          cases h
          obtain ⟨c', cs', hcs, hb', hread⟩ := scanLexeme_mark m
          exact ⟨c', cs', hcs, hb', fun pos ahead _ => hread pos ahead⟩
        · cases h

/-- Whether a text is a name without separators and quotes. -/
def isWord (word : String) : Bool :=
  match word.toList with
  | c :: cs => isNameStart c && cs.all isNameChar
  | [] => false

theorem isWord_iff {word : String} :
    isWord word = true ↔
      ∃ c cs, word = String.ofList (c :: cs) ∧ isNameStart c = true ∧ ∀ d ∈ cs, isNameChar d = true := by
  unfold isWord
  constructor
  · intro h
    split at h
    · next c cs hcs =>
      simp only [Bool.and_eq_true, List.all_eq_true] at h
      exact ⟨c, cs, by rw [← hcs, String.ofList_toList], h⟩
    · cases h
  · rintro ⟨c, cs, rfl, hc, hcs⟩
    simpa [hc] using hcs

/-- A word is a stable name. -/
theorem stable_word {word : String} (h : isWord word = true) : (Lexeme.name word).Stable := by
  obtain ⟨c, cs, rfl, hc, hcs⟩ := isWord_iff.1 h
  have hpath : scanPath [c] (cs ++ []) = .ok (c :: cs, []) := by
    rw [scanPath_word hcs, scanPath]
    simp
  rw [List.append_nil] at hpath
  have hl : scanLexeme 0 c cs = .ok (.name (String.ofList (c :: cs)), []) := by
    rw [scanLexeme, if_pos hc, hpath]
  exact stable_of_scanLexeme (isBlank_of_isNameStart hc) hl rfl

/-! ## Tokens -/

variable {ls ls' : List Lexeme} {mid : List Char}

theorem Lexes.append (h : Lexes cs ls mid) (h' : Lexes mid ls' rest) : Lexes cs (ls ++ ls') rest := by
  induction h with
  | done => exact h'
  | blank hb _ ih => exact .blank hb (ih h')
  | lexeme hb hl _ ih => exact .lexeme hb hl (ih h')

theorem lexes_mark (m : Mark) : Lexes (m.chars ++ ahead) [.mark m] ahead := by
  obtain ⟨c, cs, hcs, hb, hread⟩ := scanLexeme_mark m
  rw [hcs]
  exact .lexeme hb (fun pos => hread pos ahead) .done

theorem Lexeme.Stable.lexes (h : l.Stable) (hs : stops ahead = true) : Lexes (l.chars ++ ahead) [l] ahead := by
  obtain ⟨c, cs, hcs, hb, hread⟩ := h
  rw [hcs]
  exact .lexeme hb (fun pos => hread pos ahead hs) .done

/-- The tokens of a text that is cut into lexemes are these lexemes. -/
theorem Lexes.tokens (h : Lexes cs ls []) (pos : Nat) :
    ∃ ts, tokensFrom pos cs = .ok ts ∧ ts.map (·.lexeme) = ls := by
  generalize hr : ([] : List Char) = rest at h
  induction h generalizing pos with
  | done =>
    subst hr
    exact ⟨[], by rw [tokensFrom], rfl⟩
  | blank hb _ ih =>
    obtain ⟨ts, hts, hls⟩ := ih (pos + 1) hr
    exact ⟨ts, by rw [tokensFrom, if_pos hb, hts], hls⟩
  | @lexeme c cs l mid ls rest hb hl _ ih =>
    obtain ⟨ts, hts, hls⟩ := ih (pos + (cs.length + 1 - mid.length)) hr
    refine ⟨⟨l, pos⟩ :: ts, ?_, by rw [List.map_cons, hls]⟩
    rw [tokensFrom, if_neg (by simp [hb])]
    split
    · next he => simp [hl] at he
    · next he =>
      rw [hl] at he
      cases he
      rw [hts]
      rfl

/-- Whether a number is ahead. -/
def numberAhead : List Token → Bool
  | ⟨.number _, _⟩ :: _ => true
  | _ => false

/-- Every lexeme that no number follows is stable. -/
def Legible : List Token → Prop
  | [] => True
  | t :: ts => (numberAhead ts = false → t.lexeme.Stable) ∧ Legible ts

theorem Legible.of_suffix {ts ts' : List Token} (h : Legible ts) (hs : ts' <:+ ts) : Legible ts' := by
  induction ts with
  | nil =>
    rw [List.suffix_nil.1 hs]
    exact h
  | cons t ts ih =>
    rcases List.suffix_cons_iff.1 hs with rfl | hs
    · exact h
    · exact ih h.2 hs

/-- A text that goes on with a digit goes on with a number. -/
theorem numberAhead_of_digitAhead {ts : List Token} (h : tokensFrom pos cs = .ok ts) (hd : digitAhead cs = true) :
    numberAhead ts = true := by
  rcases cs with _ | ⟨c, cs⟩
  · cases hd
  · rw [tokensFrom, if_neg (by simp [isBlank_of_isDigit hd])] at h
    split at h
    · cases h
    · next hl =>
      obtain ⟨text, rfl⟩ := scanLexeme_of_isDigit hd hl
      obtain ⟨ts', -, rfl⟩ := map_eq_ok.1 h
      rfl

/-- The tokens of a text are legible. -/
theorem legible_of_tokensFrom {ts : List Token} (h : tokensFrom pos cs = .ok ts) : Legible ts := by
  fun_induction tokensFrom pos cs generalizing ts with
  | case1 =>
    cases h
    trivial
  | case2 _ _ _ _ ih => exact ih h
  | case3 => cases h
  | case4 pos c cs hb l rest hl _ ih =>
    obtain ⟨ts', hts, rfl⟩ := map_eq_ok.1 h
    refine ⟨fun hn => ?_, ih hts⟩
    refine stable_of_scanLexeme (by simpa using hb) hl ?_
    rw [Bool.eq_false_iff]
    intro hd
    simp [numberAhead_of_digitAhead hts hd] at hn

end SymbolDocs.TypeExpr
