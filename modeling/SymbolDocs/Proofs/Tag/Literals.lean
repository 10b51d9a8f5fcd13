import SymbolDocs.Proofs.Tag.Structured

/-!
# String literals as defaults

A string literal of a type is a quote and what follows it up to the same quote, where a backslash takes the next
character with it (`Literal`). The reader of words takes a literal as one word (`Literal.scanWord_append`). The reader
of square brackets does not know the backslash. A literal is read back as the default of a name in square brackets if
these can enclose it, and only then (`readStructured_literal`); this is so for all literals without a second quote of
their own kind inside (`Literal.enclosable_of_not_mem`).
-/

namespace SymbolDocs.Tag

open SymbolDocs.Text
open TypeExpr (scanQuoted Solid)

/-- A string literal: a quote, and what the reader of types takes up to the closing quote, which is all there is. -/
structure Literal where
  quote : Char
  body : List Char
  isQuote : isQuote quote = true
  accepted : scanQuoted quote body = some (body, [])

/-- The text of a literal. -/
def Literal.text (s : Literal) : String := String.ofList (s.quote :: s.body)

variable {opener closer c q : Char} {quotes : Bool} {cs ds rest body part : List Char} {depth : Nat}

/-! ## Quotes in enclosable texts -/

/-- Inside a quote, all is skipped up to the same quote. -/
theorem closes_quoted_append_iff (h : q ∉ part) :
    Closes opener closer quotes depth (some q) (part ++ q :: rest) ↔ Closes opener closer quotes depth none rest := by
  induction part with
  | nil => rw [List.nil_append, closes_quoted_iff, if_pos rfl]
  | cons c part ih =>
    rw [List.mem_cons, not_or] at h
    rw [List.cons_append, closes_quoted_iff, if_neg (Ne.symm h.1), ih h.2]

/-! ## Literals -/

theorem scanInside_cons {closers : List Char} (hc : c ≠ '\\') : scanInside q closers (c :: cs) =
    if c = q then (scanOutside closers cs).map (consFst c) else (scanInside q closers cs).map (consFst c) := by
  rw [scanInside]
  · rintro rfl
    exact absurd rfl hc
  · rintro c' cs' rfl
    exact absurd rfl hc

/-- Inside a quote, the reader of words ends where the reader of types does. -/
theorem scanInside_of_scanQuoted (hq : q ≠ '\\') (h : scanQuoted q cs = some (body, rest)) (hrest : EndsWord rest) :
    scanInside q [] cs = .ok (body, rest) := by
  fun_induction scanQuoted q cs generalizing body with
  | case1 => cases h
  | case2 => cases h
  | case3 c cs ih =>
    obtain ⟨⟨body', rest'⟩, hbody, heq⟩ := Option.map_eq_some_iff.1 h
    cases heq
    rw [scanInside, ih hbody]
    rfl
  | case4 cs =>
    cases h
    have hend : scanWord ([] ++ rest) = .ok ([], rest) := scanWord_append (List.forall_mem_nil _) hrest
    rw [List.nil_append, scanWord] at hend
    rw [scanInside_cons hq, if_pos rfl, hend]
    rfl
  | case5 c cs hlast hmore hne ih =>
    obtain ⟨⟨body', rest'⟩, hbody, heq⟩ := Option.map_eq_some_iff.1 h
    cases heq
    rw [scanInside_cons (TypeExpr.ne_backslash_of_alone hlast hmore), if_neg hne, ih hbody]
    rfl

namespace Literal

variable (s : Literal)

theorem toList_text : s.text.toList = s.quote :: s.body := String.toList_ofList

theorem quote_eq : s.quote = '"' ∨ s.quote = '\'' := by
  simpa [Tag.isQuote] using s.isQuote

theorem quote_ne_backslash : s.quote ≠ '\\' := by
  rcases s.quote_eq with h | h <;> rw [h] <;> decide

theorem isBlank_quote : isBlank s.quote = false := by
  rcases s.quote_eq with h | h <;> rw [h] <;> decide

theorem getLast_body : s.body.getLast? = some s.quote := TypeExpr.getLast_scanQuoted s.accepted

/-- A literal starts and ends with its quote. -/
theorem solid : Solid s.text.toList := by
  rw [toList_text]
  refine ⟨⟨s.quote, rfl, s.isBlank_quote⟩, s.quote, ?_, s.isBlank_quote⟩
  rw [List.getLast?_cons, s.getLast_body]
  rfl

/-- **The reader of words takes a literal as one word**, quotes behind backslashes included. -/
theorem scanWord_append (hrest : EndsWord rest) :
    scanWord (s.text.toList ++ rest) = .ok (s.text.toList, rest) := by
  have hinside := scanInside_of_scanQuoted s.quote_ne_backslash (TypeExpr.scanQuoted_append_right s.accepted rest) hrest
  rw [toList_text, List.cons_append, scanWord, scanOutside, if_pos s.isQuote, hinside]
  rfl

/-- A literal without a second quote of its own kind inside can stand between square brackets, whatever brackets and
other quotes it has. -/
theorem enclosable_of_not_mem (h : s.quote ∉ s.body.dropLast) : Enclosable '[' ']' true s.text.toList := by
  have hbody : s.body.dropLast ++ [s.quote] = s.body := List.dropLast_append_getLast? _ s.getLast_body
  rw [← closes_zero_iff, toList_text, closes_quote_iff (by simpa using s.isQuote), ← hbody,
    closes_quoted_append_iff h, closes_nil_iff]
  exact ⟨rfl, rfl⟩

/-- A text that trimming makes a literal is the literal, if the two go on with a closing bracket to the same text. -/
theorem eq_of_trim (htrim : trim cs = s.text.toList) (happend : s.text.toList ++ ']' :: ds = cs ++ ']' :: rest) :
    cs = s.text.toList := by
  obtain ⟨before, after, hcs, hbefore, hafter⟩ := exists_trim cs
  rw [htrim] at hcs
  -- What trimming takes off is blank, but the literal starts with a quote and the bracket is not blank.
  have hnil : before = [] := by
    cases before with
    | nil => rfl
    | cons b before =>
      rw [hcs, toList_text] at happend
      have hquote : s.quote = b := by simpa using congrArg List.head? happend
      have hb := hbefore b List.mem_cons_self
      rw [← hquote, s.isBlank_quote] at hb
      cases hb
  rw [hnil, List.nil_append] at hcs
  cases after with
  | nil => rw [hcs, List.append_nil]
  | cons a after =>
    have ha : isBlank a = true := hafter a List.mem_cons_self
    rw [hcs, List.append_assoc, List.append_cancel_left_eq] at happend
    cases happend
    cases ha

end Literal

/-! ## A literal as a default -/

section Defaults

variable (n : PlainName) (s : Literal) (description : String)

/-- What is read in front of a closing bracket starts with the name and the equals sign. -/
theorem exists_default (h : n.text.toList ++ '=' :: cs = ds ++ ']' :: rest) :
    ∃ value, ds = n.text.toList ++ '=' :: value ∧ cs = value ++ ']' :: rest := by
  rcases List.append_eq_append_iff.1 h with ⟨tail, hds, htail⟩ | ⟨tail, hname, htail⟩
  · cases tail with
    | nil => cases htail
    | cons c value =>
      cases htail
      exact ⟨value, hds, rfl⟩
  · have hmem : ']' ∈ n.text.toList := by
      cases tail with
      | nil => cases htail
      | cons c tail =>
        cases htail
        rw [hname]
        simp
    exact absurd hmem (n.not_mem (by decide))

theorem readStructured_brackets (cs ds : List Char) {text : String} (ht : text.toList = '[' :: (cs ++ ']' :: ds)) :
    readStructured true text = (none, readNamed true {} ('[' :: (cs ++ ']' :: trimRight ds))) := by
  have htrim : trim text.toList = '[' :: (cs ++ ']' :: trimRight ds) := by
    rw [ht]
    exact dropEndWhile_append_cons (by decide) ('[' :: cs) ds
  rw [readStructured, htrim]
  rfl

theorem readNamed_brackets {inner : List Char} (h : scanBrackets cs = .ok (inner, rest)) :
    readNamed true {} ('[' :: cs) = .ok (describe (nameInBrackets {} inner) (trim rest)) := by
  rw [readNamed, if_pos rfl, readName, h]
  rfl

theorem default_describe (v : NamedValue) (cs : List Char) : (describe v cs).defaultValue = v.defaultValue := by
  unfold describe
  split <;> rfl

theorem toList_bracketed : ("[" ++ n.text ++ "=" ++ s.text ++ "] - " ++ description).toList =
    '[' :: ((n.text.toList ++ '=' :: s.text.toList) ++ ']' :: (" - " ++ description).toList) := by
  simp

/-- A literal that square brackets can enclose is read as the default. -/
theorem readStructured_of_enclosable (h : Enclosable '[' ']' true s.text.toList) :
    readStructured true ("[" ++ n.text ++ "=" ++ s.text ++ "] - " ++ description) =
      (none, .ok { name := some n.text, description := nonempty (some (strip description)), optional := some true
                   defaultValue := some s.text }) := by
  have hinner : Enclosable '[' ']' true (n.text.toList ++ '=' :: s.text.toList) := n.enclosable_equals_iff.2 h
  have hscan := scanBrackets_eq_ok_iff.2 ⟨Eq.refl (_ ++ ']' :: trimRight (" - " ++ description).toList), hinner⟩
  have hrest : trim (trimRight (" - " ++ description).toList) = trim (" - " ++ description).toList :=
    stripWhile_dropEndWhile _
  rw [readStructured_brackets _ _ (toList_bracketed n s description), readNamed_brackets hscan, nameInBrackets_equals,
    hrest, describe_hyphen rfl, TypeExpr.trim_of_solid s.solid, String.ofList_toList]

/-- A literal that is read as the default can be enclosed by square brackets. -/
theorem enclosable_of_readStructured {value : NamedValue} (hvalue : value.defaultValue = some s.text)
    (h : readStructured true ("[" ++ n.text ++ "=" ++ s.text ++ "] - " ++ description) = (none, .ok value)) :
    Enclosable '[' ']' true s.text.toList := by
  rw [readStructured_brackets _ _ (toList_bracketed n s description)] at h
  have hread := (Prod.mk.inj h).2
  cases hscan : scanBrackets
      ((n.text.toList ++ '=' :: s.text.toList) ++ ']' :: trimRight (" - " ++ description).toList) with
  | error fault =>
    rw [readNamed, if_pos rfl, readName, hscan] at hread
    cases hread
  | ok found =>
    obtain ⟨inner, rest⟩ := found
    obtain ⟨happend, henclosable⟩ := scanBrackets_eq_ok_iff.1 hscan
    rw [List.append_assoc, List.cons_append] at happend
    obtain ⟨cs, rfl, hcs⟩ := exists_default n happend
    rw [readNamed_brackets hscan, nameInBrackets_equals] at hread
    have hdefault : some (String.ofList (trim cs)) = some s.text := by
      rw [← hvalue, ← Except.ok.inj hread, default_describe]
    have htrim : trim cs = s.text.toList := by rw [← Option.some.inj hdefault, String.toList_ofList]
    rw [s.eq_of_trim htrim hcs] at henclosable
    exact n.enclosable_equals_iff.1 henclosable

end Defaults

/-- **String literals as defaults.** A string literal that the reader of types accepts is read back as the default of a
name in square brackets, with the name and the description, exactly if square brackets can enclose it: outside of the
quotes that count without regard to backslashes there is no open quote at its end and its square brackets are properly
nested. All literals without a second quote of their own kind inside are such. The reader of words takes every literal
as one word. -/
theorem readStructured_literal (n : PlainName) (s : Literal) (description : String) :
    (readStructured true ("[" ++ n.text ++ "=" ++ s.text ++ "] - " ++ description) =
        (none, .ok { name := some n.text, description := nonempty (some (strip description)), optional := some true
                     defaultValue := some s.text }) ↔
      Enclosable '[' ']' true s.text.toList) ∧
    (s.quote ∉ s.body.dropLast → Enclosable '[' ']' true s.text.toList) ∧
    scanWord s.text.toList = .ok (s.text.toList, []) := by
  refine ⟨⟨enclosable_of_readStructured n s description rfl, readStructured_of_enclosable n s description⟩,
    s.enclosable_of_not_mem, ?_⟩
  have hword : scanWord (s.text.toList ++ []) = .ok (s.text.toList, []) := s.scanWord_append nofun
  rwa [List.append_nil] at hword

/-- A name for a parameter. -/
def topic : PlainName where
  text := "topic"
  ne_empty := by decide
  plain := by simp [show "topic".toList = ['t', 'o', 'p', 'i', 'c'] from rfl, isBlank, nameBreaks]

/-- A literal with brackets and the other quote inside. -/
def today : Literal where
  quote := '"'
  body := "today's [chat\"".toList
  isQuote := rfl
  accepted := by decide +kernel

theorem readStructured_literal_today :
    today.quote ∉ today.body.dropLast ∧
      readStructured true "[topic=\"today's [chat\"] - the topic" =
        (none, .ok { name := some "topic", description := some "the topic", optional := some true
                     defaultValue := some "\"today's [chat\"" }) := by
  have hquote : today.quote ∉ today.body.dropLast := by decide +kernel
  obtain ⟨hread, henclosable, -⟩ := readStructured_literal topic today "the topic"
  have hdescription : nonempty (some (strip "the topic")) = some "the topic" := by decide +kernel
  have htext : today.text = "\"today's [chat\"" := by decide +kernel
  refine ⟨hquote, ?_⟩
  have hresult := hread.2 (henclosable hquote)
  rw [hdescription, htext] at hresult
  exact hresult

/-- The reader of types accepts a literal with a quote behind a backslash, and the reader of words takes it as one word,
but in square brackets the tag is lost. -/
theorem escaped_quote_not_read :
    scanQuoted '\'' "it\\'s'".toList = some ("it\\'s'".toList, []) ∧
      scanWord "'it\\'s'".toList = .ok ("'it\\'s'".toList, []) ∧
      readStructured true "[topic='it\\'s'] - the topic" = (none, .error (.malformedName (.unclosed '['))) := by
  refine ⟨by decide +kernel, by decide +kernel, ?_⟩
  with_unfolding_all rfl

end SymbolDocs.Tag
