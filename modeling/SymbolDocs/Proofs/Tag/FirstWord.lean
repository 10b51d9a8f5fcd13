import SymbolDocs.Proofs.Outcome
import SymbolDocs.Proofs.Tag.Literals

/-!
# The first word of a text

A text is balanced if its quotes are closed and its brackets of the three kinds are properly nested outside them
(`Balanced`, a grammar of such texts). The first word of a text is its balanced beginning that has every blank inside a
quote or a bracket and goes up to a blank or to the end (`IsWordEnd`). `scanWord_cuts` says that this is what the reader
of words gives, and that it fails only where there is none. What the reader has still to see is described by the quote
and the brackets that are open (`Finishes`, `FinishesQuote`), and each of its steps is one iff about the next character.
-/

namespace SymbolDocs.Tag

open SymbolDocs.Text

/-! ## Balanced texts -/

/-- What follows an opening quote up to the closing one, which is the last character. A backslash takes the next
character with it. -/
inductive QuoteBody (quote : Char) : List Char → Prop
  | close : QuoteBody quote [quote]
  | escape {c cs} : QuoteBody quote cs → QuoteBody quote ('\\' :: c :: cs)
  | char {c cs} : c ≠ '\\' → c ≠ quote → QuoteBody quote cs → QuoteBody quote (c :: cs)

/-- A character that is neither a quote nor a bracket. -/
structure Plain (c : Char) : Prop where
  unquoting : isQuote c = false
  unopening : closerOf? c = none
  unclosing : isCloser c = false

/-- A text whose quotes are closed, whose brackets are properly nested by kind outside quotes, and in which `p` holds of
the characters that lie outside of all quotes and brackets. -/
inductive Balanced : (Char → Prop) → List Char → Prop
  | nil {p} : Balanced p []
  | plain {p c cs} : Plain c → p c → Balanced p cs → Balanced p (c :: cs)
  | quoted {p quote body cs} : isQuote quote = true → QuoteBody quote body → Balanced p cs →
      Balanced p (quote :: (body ++ cs))
  | enclosed {p opener closer inner cs} : closerOf? opener = some closer → Balanced (fun _ => True) inner →
      Balanced p cs → Balanced p (opener :: (inner ++ closer :: cs))

/-- The first word of a text ends at this offset: behind it is a blank or nothing, and what stands before it is balanced
and has all its blanks inside quotes and brackets. -/
structure IsWordEnd (cs : List Char) (i : Nat) : Prop where
  le_length : i ≤ cs.length
  ends : i = cs.length ∨ ∃ c, cs[i]? = some c ∧ isBlank c = true
  balanced : Balanced (isBlank · = false) (cs.take i)

/-! ## Kinds of characters -/

variable {p : Char → Prop} {c k quote opener closer : Char} {closers cs word rest : List Char}

theorem plain_of_isBlank (h : isBlank c = true) : Plain c :=
  have ⟨hq, ho, hc⟩ := outside_of_isBlank h
  ⟨hq, ho, hc⟩

theorem isQuote_cases (h : isQuote c = true) : closerOf? c = none ∧ isCloser c = false ∧ c ≠ '\\' := by
  have hc : c = '"' ∨ c = '\'' := by simpa [isQuote] using h
  rcases hc with rfl | rfl <;> decide

theorem closerOf?_cases (h : closerOf? c = some k) : isCloser c = false ∧ isCloser k = true := by
  have hc : (c = '\x7b' ∧ k = '\x7d') ∨ (c = '[' ∧ k = ']') ∨ (c = '(' ∧ k = ')') := by grind [closerOf?]
  rcases hc with ⟨rfl, rfl⟩ | ⟨rfl, rfl⟩ | ⟨rfl, rfl⟩ <;> decide

theorem isCloser_cases (h : isCloser c = true) : isQuote c = false ∧ closerOf? c = none := by
  have hc : (c = '\x7d' ∨ c = ']') ∨ c = ')' := by simpa [isCloser] using h
  rcases hc with (rfl | rfl) | rfl <;> decide

/-! ## The first character of a balanced text -/

/-- A balanced text starts with a plain character, a quoted part or a pair of brackets. -/
theorem balanced_cons_cases (h : Balanced p (c :: cs)) :
    (Plain c ∧ p c ∧ Balanced p cs) ∨
      (isQuote c = true ∧ ∃ body after, cs = body ++ after ∧ QuoteBody c body ∧ Balanced p after) ∨
      ∃ closer inner after, closerOf? c = some closer ∧ cs = inner ++ closer :: after ∧
        Balanced (fun _ => True) inner ∧ Balanced p after := by
  cases h with
  | plain hc hp h => exact .inl ⟨hc, hp, h⟩
  | quoted hq hbody h => exact .inr (.inl ⟨hq, _, _, rfl, hbody, h⟩)
  | enclosed ho hinner h => exact .inr (.inr ⟨_, _, _, ho, rfl, hinner, h⟩)

theorem balanced_plain_iff (hc : Plain c) : Balanced p (c :: cs) ↔ p c ∧ Balanced p cs := by
  constructor
  · intro h
    rcases balanced_cons_cases h with ⟨-, hp, h⟩ | ⟨hq, -⟩ | ⟨closer, -, -, ho, -⟩
    · exact ⟨hp, h⟩
    · rw [hc.unquoting] at hq
      cases hq
    · rw [hc.unopening] at ho
      cases ho
  · rintro ⟨hp, h⟩
    exact .plain hc hp h

theorem balanced_quote_iff (hq : isQuote quote = true) :
    Balanced p (quote :: cs) ↔ ∃ body after, cs = body ++ after ∧ QuoteBody quote body ∧ Balanced p after := by
  constructor
  · intro h
    rcases balanced_cons_cases h with ⟨hc, -⟩ | ⟨-, h⟩ | ⟨closer, -, -, ho, -⟩
    · rw [hc.unquoting] at hq
      cases hq
    · exact h
    · rw [(isQuote_cases hq).1] at ho
      cases ho
  · rintro ⟨body, after, rfl, hbody, h⟩
    exact .quoted hq hbody h

theorem balanced_opener_iff (ho : closerOf? opener = some closer) : Balanced p (opener :: cs) ↔
    ∃ inner after, cs = inner ++ closer :: after ∧ Balanced (fun _ => True) inner ∧ Balanced p after := by
  constructor
  · intro h
    rcases balanced_cons_cases h with ⟨hc, -⟩ | ⟨hq, -⟩ | ⟨closer', inner, after, ho', h⟩
    · rw [hc.unopening] at ho
      cases ho
    · rw [(isQuote_cases hq).1] at ho
      cases ho
    · rw [ho] at ho'
      cases ho'
      exact ⟨inner, after, h⟩
  · rintro ⟨inner, after, rfl, hinner, h⟩
    exact .enclosed ho hinner h

theorem not_balanced_closer (hc : isCloser c = true) : ¬ Balanced p (c :: cs) := by
  obtain ⟨hq, ho⟩ := isCloser_cases hc
  intro h
  rcases balanced_cons_cases h with ⟨hplain, -⟩ | ⟨hq', -⟩ | ⟨closer, -, -, ho', -⟩
  · rw [hplain.unclosing] at hc
    cases hc
  · rw [hq] at hq'
    cases hq'
  · rw [ho] at ho'
    cases ho'

/-! ## Behind open brackets -/

/-- Behind open brackets, a text closes them, the innermost one first, and is balanced between and behind that. -/
def Finishes (p : Char → Prop) : List Char → List Char → Prop
  | [], cs => Balanced p cs
  | closer :: closers, cs => isCloser closer = true ∧
      ∃ inner after, cs = inner ++ closer :: after ∧ Balanced (fun _ => True) inner ∧ Finishes p closers after

theorem finishes_nil_iff : Finishes p closers [] ↔ closers = [] := by
  cases closers with
  | nil => exact ⟨fun _ => rfl, fun _ => .nil⟩
  | cons closer closers =>
    constructor
    · rintro ⟨-, inner, after, heq, -⟩
      simp at heq
    · nofun

/-- The first character of a text behind an open bracket closes it, or belongs to what the bracket encloses. -/
theorem finishes_cons_iff : Finishes p (closer :: closers) (c :: cs) ↔
    isCloser closer = true ∧ (c = closer ∧ Finishes p closers cs ∨
      ∃ inner after, cs = inner ++ closer :: after ∧ Balanced (fun _ => True) (c :: inner) ∧
        Finishes p closers after) := by
  refine and_congr_right fun _ => ⟨?_, ?_⟩
  · rintro ⟨inner, after, heq, hinner, hafter⟩
    cases inner with
    | nil =>
      cases heq
      exact .inl ⟨rfl, hafter⟩
    | cons c' inner =>
      cases heq
      exact .inr ⟨inner, after, rfl, hinner, hafter⟩
  · rintro (⟨rfl, hafter⟩ | ⟨inner, after, rfl, hinner, hafter⟩)
    · exact ⟨[], cs, rfl, .nil, hafter⟩
    · exact ⟨c :: inner, after, rfl, hinner, hafter⟩

/-- A character that does not close brackets belongs to what the innermost open bracket encloses. -/
theorem finishes_inner_iff (hc : isCloser c = false) : Finishes p (closer :: closers) (c :: cs) ↔
    isCloser closer = true ∧ ∃ inner after, cs = inner ++ closer :: after ∧
      Balanced (fun _ => True) (c :: inner) ∧ Finishes p closers after := by
  rw [finishes_cons_iff]
  refine and_congr_right fun hcloser => or_iff_right ?_
  rintro ⟨rfl, -⟩
  rw [hc] at hcloser
  cases hcloser

theorem finishes_plain_iff (hc : Plain c) :
    Finishes p closers (c :: cs) ↔ (closers = [] → p c) ∧ Finishes p closers cs := by
  cases closers with
  | nil => simpa [Finishes] using balanced_plain_iff hc
  | cons closer closers =>
    rw [finishes_inner_iff hc.unclosing]
    simp [balanced_plain_iff hc, Finishes]

theorem finishes_opener_iff (ho : closerOf? opener = some closer) :
    Finishes p closers (opener :: cs) ↔ Finishes p (closer :: closers) cs := by
  obtain ⟨hopener, hcloser⟩ := closerOf?_cases ho
  cases closers with
  | nil =>
    rw [Finishes, balanced_opener_iff ho]
    exact (and_iff_right hcloser).symm
  | cons k closers =>
    rw [finishes_inner_iff hopener, Finishes]
    constructor
    · rintro ⟨hk, between, after, rfl, hbetween, hafter⟩
      obtain ⟨inner, between, rfl, hinner, hbetween⟩ := (balanced_opener_iff ho).1 hbetween
      exact ⟨hcloser, inner, between ++ k :: after, by simp, hinner, hk, between, after, rfl, hbetween, hafter⟩
    · rintro ⟨-, inner, -, rfl, hinner, hk, between, after, rfl, hbetween, hafter⟩
      exact ⟨hk, inner ++ closer :: between, after, by simp, .enclosed ho hinner hbetween, hafter⟩

theorem finishes_closer_iff (hc : isCloser c = true) :
    Finishes p (closer :: closers) (c :: cs) ↔ closer = c ∧ Finishes p closers cs := by
  rw [finishes_cons_iff]
  constructor
  · rintro ⟨-, ⟨rfl, h⟩ | ⟨inner, after, -, hinner, -⟩⟩
    · exact ⟨rfl, h⟩
    · exact absurd hinner (not_balanced_closer hc)
  · rintro ⟨rfl, h⟩
    exact ⟨hc, .inl ⟨rfl, h⟩⟩

/-! ## Inside a quote -/

/-- Inside a quote and behind open brackets, a text closes the quote first. -/
def FinishesQuote (p : Char → Prop) (quote : Char) (closers cs : List Char) : Prop :=
  ∃ body after, cs = body ++ after ∧ QuoteBody quote body ∧ Finishes p closers after

theorem finishes_quote_iff (hq : isQuote quote = true) :
    Finishes p closers (quote :: cs) ↔ FinishesQuote p quote closers cs := by
  obtain ⟨-, hcloser, -⟩ := isQuote_cases hq
  cases closers with
  | nil => exact balanced_quote_iff hq
  | cons k closers =>
    rw [finishes_inner_iff hcloser]
    constructor
    · rintro ⟨hk, inner, after, rfl, hinner, hafter⟩
      obtain ⟨body, inner, rfl, hbody, hinner⟩ := (balanced_quote_iff hq).1 hinner
      exact ⟨body, inner ++ k :: after, by simp, hbody, hk, inner, after, rfl, hinner, hafter⟩
    · rintro ⟨body, -, rfl, hbody, hk, inner, after, rfl, hinner, hafter⟩
      exact ⟨hk, body ++ inner, after, by simp, .quoted hq hbody hinner, hafter⟩

theorem not_finishesQuote_nil : ¬ FinishesQuote p quote closers [] := by
  rintro ⟨body, after, heq, hbody, -⟩
  obtain ⟨rfl, rfl⟩ := List.append_eq_nil_iff.1 heq.symm
  cases hbody

/-- Behind a backslash a quote needs another character, and goes on behind it. -/
theorem finishesQuote_backslash (hq : quote ≠ '\\') (h : FinishesQuote p quote closers ('\\' :: cs)) :
    ∃ c tail, cs = c :: tail ∧ FinishesQuote p quote closers tail := by
  obtain ⟨body, after, heq, hbody, hafter⟩ := h
  cases hbody with
  | close =>
    cases heq
    exact absurd rfl hq
  | escape hbody =>
    cases heq
    exact ⟨_, _, rfl, _, after, rfl, hbody, hafter⟩
  | char hne =>
    cases heq
    exact absurd rfl hne

theorem finishesQuote_escape_iff (hq : quote ≠ '\\') :
    FinishesQuote p quote closers ('\\' :: c :: cs) ↔ FinishesQuote p quote closers cs := by
  constructor
  · intro h
    obtain ⟨c', tail, heq, h⟩ := finishesQuote_backslash hq h
    cases heq
    exact h
  · rintro ⟨body, after, rfl, hbody, hafter⟩
    exact ⟨'\\' :: c :: body, after, rfl, .escape hbody, hafter⟩

theorem not_finishesQuote_backslash (hq : quote ≠ '\\') : ¬ FinishesQuote p quote closers ['\\'] := by
  intro h
  obtain ⟨c, tail, heq, -⟩ := finishesQuote_backslash hq h
  cases heq

theorem finishesQuote_close_iff (hq : quote ≠ '\\') :
    FinishesQuote p quote closers (quote :: cs) ↔ Finishes p closers cs := by
  constructor
  · rintro ⟨body, after, heq, hbody, hafter⟩
    cases hbody with
    | close =>
      cases heq
      exact hafter
    | escape =>
      cases heq
      exact absurd rfl hq
    | char _ hne =>
      cases heq
      exact absurd rfl hne
  · exact fun h => ⟨[quote], cs, rfl, .close, h⟩

theorem finishesQuote_cons_iff (hc : c ≠ '\\') (hne : c ≠ quote) :
    FinishesQuote p quote closers (c :: cs) ↔ FinishesQuote p quote closers cs := by
  constructor
  · rintro ⟨body, after, heq, hbody, hafter⟩
    cases hbody with
    | close =>
      cases heq
      exact absurd rfl hne
    | escape =>
      cases heq
      exact absurd rfl hc
    | char _ _ hbody =>
      cases heq
      exact ⟨_, after, rfl, hbody, hafter⟩
  · rintro ⟨body, after, rfl, hbody, hafter⟩
    exact ⟨c :: body, after, rfl, .char hc hne hbody, hafter⟩

/-! ## Reading a word -/

theorem map_consFst_eq_ok_iff {found : Except ScanFault (List Char × List Char)} :
    found.map (consFst c) = .ok (word, rest) ↔ ∃ tail, word = c :: tail ∧ found = .ok (tail, rest) := by
  rw [map_eq_ok]
  constructor
  · rintro ⟨⟨tail, rest⟩, hfound, heq⟩
    cases heq
    exact ⟨tail, rfl, hfound⟩
  · rintro ⟨tail, rfl, hfound⟩
    exact ⟨(tail, rest), hfound, rfl⟩

/-- What reads a word behind the first character of a text also does so before it, if no word ends there. -/
theorem cons_word_iff {P Q : List Char → Prop} {found : Except ScanFault (List Char × List Char)}
    (hfound : ∀ {word}, found = .ok (word, rest) ↔ cs = word ++ rest ∧ EndsWord rest ∧ P word)
    (hnil : EndsWord (c :: cs) → ¬ Q []) (hcons : ∀ tail, Q (c :: tail) ↔ P tail) :
    found.map (consFst c) = .ok (word, rest) ↔ c :: cs = word ++ rest ∧ EndsWord rest ∧ Q word := by
  rw [map_consFst_eq_ok_iff]
  constructor
  · rintro ⟨tail, rfl, htail⟩
    obtain ⟨rfl, hrest, htail⟩ := hfound.1 htail
    exact ⟨rfl, hrest, (hcons tail).2 htail⟩
  · rintro ⟨heq, hrest, hword⟩
    cases word with
    | nil =>
      cases heq
      exact absurd hword (hnil hrest)
    | cons c' tail =>
      cases heq
      exact ⟨tail, rfl, hfound.2 ⟨rfl, hrest, (hcons tail).1 hword⟩⟩

theorem endsWord_cons_iff : EndsWord (c :: cs) ↔ isBlank c = true := by
  simp [EndsWord]

theorem plain_of_endsWord (h : EndsWord (c :: cs)) : Plain c := plain_of_isBlank (endsWord_cons_iff.1 h)

/-- At the end of the text there is the empty word, if no bracket is open. -/
theorem end_word_iff :
    ([] = word ++ rest ∧ EndsWord rest ∧ Finishes p closers word) ↔ closers = [] ∧ word = [] ∧ rest = [] := by
  constructor
  · rintro ⟨heq, -, hword⟩
    obtain ⟨rfl, rfl⟩ := List.append_eq_nil_iff.1 heq.symm
    exact ⟨finishes_nil_iff.1 hword, rfl, rfl⟩
  · rintro ⟨rfl, rfl, rfl⟩
    exact ⟨rfl, nofun, .nil⟩

/-- A blank outside of all quotes and brackets ends the word: a longer one would have it there. -/
theorem blank_word_iff (hb : isBlank c = true) :
    (c :: cs = word ++ rest ∧ EndsWord rest ∧ Finishes (isBlank · = false) [] word) ↔ word = [] ∧ rest = c :: cs := by
  constructor
  · rintro ⟨heq, -, hword⟩
    cases word with
    | nil => exact ⟨rfl, heq.symm⟩
    | cons c' word =>
      cases heq
      have hc := ((finishes_plain_iff (plain_of_isBlank hb)).1 hword).1 rfl
      rw [hb] at hc
      cases hc
  · rintro ⟨rfl, rfl⟩
    exact ⟨rfl, endsWord_cons_iff.2 hb, .nil⟩

/-- No word reaches a closing bracket that does not close the innermost open one. -/
theorem no_word_closer (hc : isCloser c = true) (hclosers : closers.head? ≠ some c) :
    ¬ (c :: cs = word ++ rest ∧ EndsWord rest ∧ Finishes p closers word) := by
  rintro ⟨heq, hrest, hword⟩
  cases word with
  | nil =>
    cases heq
    rw [(plain_of_endsWord hrest).unclosing] at hc
    cases hc
  | cons c' word =>
    cases heq
    cases closers with
    | nil => exact not_balanced_closer hc hword
    | cons closer closers => exact hclosers (congrArg some ((finishes_closer_iff hc).1 hword).1)

/-- A quote that ends in a lone backslash belongs to no word. -/
theorem no_word_backslash (hq : quote ≠ '\\') :
    ¬ (['\\'] = word ++ rest ∧ EndsWord rest ∧ FinishesQuote p quote closers word) := by
  rintro ⟨heq, -, hword⟩
  rcases word with _ | ⟨c, word⟩
  · exact not_finishesQuote_nil hword
  · obtain ⟨rfl, htail⟩ := List.cons.inj heq
    obtain ⟨rfl, -⟩ := List.append_eq_nil_iff.1 htail.symm
    exact not_finishesQuote_backslash hq hword

-- The recursion is that of the two readers: over the text, outside and inside quotes.
mutual

/-- What is read from outside quotes: a beginning of the text that finishes and goes up to a blank or to the end. -/
theorem scanOutside_eq_ok_iff (closers cs : List Char) {word rest : List Char} :
    scanOutside closers cs = .ok (word, rest) ↔
      cs = word ++ rest ∧ EndsWord rest ∧ Finishes (isBlank · = false) closers word := by
  match cs with
  | [] =>
    rw [end_word_iff, scanOutside]
    cases closers <;> simp [eq_comm]
  | c :: cs =>
    rw [scanOutside.eq_def]
    dsimp only
    split
    · next hq =>
      have hc := isQuote_cases hq
      exact cons_word_iff (scanInside_eq_ok_iff c hc.2.2 closers cs)
        (fun hrest => absurd hq (by simp [(plain_of_endsWord hrest).unquoting]))
        fun _ => finishes_quote_iff hq
    · next hq =>
      split
      · next closer ho =>
        exact cons_word_iff (scanOutside_eq_ok_iff (closer :: closers) cs)
          (fun hrest => absurd ho (by simp [(plain_of_endsWord hrest).unopening]))
          fun _ => finishes_opener_iff ho
      · next ho =>
        split
        · next hc =>
          split
          · next closer closers =>
            split
            · next heq =>
              subst heq
              exact cons_word_iff (scanOutside_eq_ok_iff closers cs)
                (fun hrest => absurd hc (by simp [(plain_of_endsWord hrest).unclosing]))
                fun _ => (finishes_closer_iff hc).trans (and_iff_right rfl)
            · next hne => exact iff_of_false nofun (no_word_closer hc (by simpa using hne))
          · exact iff_of_false nofun (no_word_closer hc nofun)
        · next hc =>
          have hplain : Plain c := ⟨by simpa using hq, ho, by simpa using hc⟩
          split
          · next hend =>
            obtain ⟨hb, hclosers⟩ : isBlank c = true ∧ closers = [] := by simpa using hend
            rw [hclosers, blank_word_iff hb]
            simp [eq_comm]
          · next hgoes =>
            have hcovered : closers = [] → isBlank c = false := by
              rintro rfl
              simpa using hgoes
            refine cons_word_iff (scanOutside_eq_ok_iff closers cs) (fun hrest hfinishes => hgoes ?_)
              fun _ => (finishes_plain_iff hplain).trans (and_iff_right hcovered)
            rw [endsWord_cons_iff.1 hrest, finishes_nil_iff.1 hfinishes]
            rfl

/-- What is read from inside a quote. -/
theorem scanInside_eq_ok_iff (quote : Char) (hq : quote ≠ '\\') (closers cs : List Char) {word rest : List Char} :
    scanInside quote closers cs = .ok (word, rest) ↔
      cs = word ++ rest ∧ EndsWord rest ∧ FinishesQuote (isBlank · = false) quote closers word := by
  match cs with
  | [] =>
    rw [scanInside]
    refine iff_of_false nofun ?_
    rintro ⟨heq, -, hword⟩
    obtain ⟨rfl, rfl⟩ := List.append_eq_nil_iff.1 heq.symm
    exact not_finishesQuote_nil hword
  | c :: cs =>
    by_cases hc : c = '\\'
    · subst hc
      cases cs with
      | nil =>
        rw [scanInside]
        exact iff_of_false nofun (no_word_backslash hq)
      | cons c cs =>
        have hmap : scanInside quote closers ('\\' :: c :: cs) =
            ((scanInside quote closers cs).map (consFst c)).map (consFst '\\') := by
          rw [scanInside]
          cases scanInside quote closers cs <;> rfl
        have hescape {tail : List Char} :
            (scanInside quote closers cs).map (consFst c) = .ok (tail, rest) ↔ c :: cs = tail ++ rest ∧
              EndsWord rest ∧ FinishesQuote (isBlank · = false) quote closers ('\\' :: tail) :=
          cons_word_iff (Q := fun tail => FinishesQuote (isBlank · = false) quote closers ('\\' :: tail))
            (scanInside_eq_ok_iff quote hq closers cs) (fun _ => not_finishesQuote_backslash hq)
            fun _ => finishesQuote_escape_iff hq
        rw [hmap]
        exact cons_word_iff hescape (fun _ => not_finishesQuote_nil) fun _ => Iff.rfl
    · rw [scanInside_cons hc]
      split
      · next heq =>
        subst heq
        exact cons_word_iff (scanOutside_eq_ok_iff closers cs) (fun _ => not_finishesQuote_nil)
          fun _ => finishesQuote_close_iff hc
      · next hne =>
        exact cons_word_iff (scanInside_eq_ok_iff quote hq closers cs) (fun _ => not_finishesQuote_nil)
          fun _ => finishesQuote_cons_iff hc hne

end

/-- **What the reader of words gives**: a beginning of the text that is balanced, has every blank inside a quote or a
bracket, and goes up to a blank or to the end. -/
theorem scanWord_eq_ok_iff :
    scanWord cs = .ok (word, rest) ↔ cs = word ++ rest ∧ EndsWord rest ∧ Balanced (isBlank · = false) word :=
  scanOutside_eq_ok_iff [] cs

theorem isWordEnd_append_iff :
    IsWordEnd (word ++ rest) word.length ↔ EndsWord rest ∧ Balanced (isBlank · = false) word := by
  have hends : (word.length = (word ++ rest).length ∨ ∃ c, (word ++ rest)[word.length]? = some c ∧ isBlank c = true) ↔
      EndsWord rest := by
    cases rest with
    | nil => simp [EndsWord]
    | cons c rest => simp [endsWord_cons_iff]
  constructor
  · rintro ⟨-, hend, hword⟩
    rw [List.take_left] at hword
    exact ⟨hends.1 hend, hword⟩
  · rintro ⟨hrest, hword⟩
    exact ⟨by simp, hends.2 hrest, by rwa [List.take_left]⟩

/-- **The reader of words cuts off the first word.** What it gives is the text up to the offset at which the first word
ends and the text behind that; there is at most one such offset, and the reader fails exactly where there is none. -/
theorem scanWord_cuts (cs : List Char) :
    (∀ word rest, scanWord cs = .ok (word, rest) ↔ cs = word ++ rest ∧ IsWordEnd cs word.length) ∧
      (∀ i j, IsWordEnd cs i → IsWordEnd cs j → i = j) ∧
      ((∃ fault, scanWord cs = .error fault) ↔ ¬ ∃ i, IsWordEnd cs i) := by
  have hcut (word rest : List Char) :
      scanWord cs = .ok (word, rest) ↔ cs = word ++ rest ∧ IsWordEnd cs word.length := by
    rw [scanWord_eq_ok_iff]
    refine and_congr_right fun heq => ?_
    rw [heq, isWordEnd_append_iff]
  have htake {i : Nat} (h : IsWordEnd cs i) : scanWord cs = .ok (cs.take i, cs.drop i) :=
    (hcut _ _).2 ⟨(List.take_append_drop i cs).symm, by rwa [List.length_take_of_le h.le_length]⟩
  refine ⟨hcut, fun i j hi hj => ?_, ?_⟩
  · have heq := (htake hi).symm.trans (htake hj)
    have htakes : cs.take i = cs.take j := (Prod.mk.inj (Except.ok.inj heq)).1
    have hlen := congrArg List.length htakes
    rwa [List.length_take_of_le hi.le_length, List.length_take_of_le hj.le_length] at hlen
  · constructor
    · rintro ⟨fault, hfault⟩ ⟨i, hi⟩
      rw [htake hi] at hfault
      cases hfault
    · intro hnone
      cases hscan : scanWord cs with
      | error fault => exact ⟨fault, rfl⟩
      | ok found => exact absurd ⟨_, ((hcut found.1 found.2).1 hscan).2⟩ hnone

/-- A quoted bracket closes nothing, and blanks in brackets do not end a word. -/
example : scanWord "a['] b' c]d e".toList = .ok ("a['] b' c]d".toList, " e".toList) := by decide +kernel

end SymbolDocs.Tag
