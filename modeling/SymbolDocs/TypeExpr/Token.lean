import SymbolDocs.Text.Blank
import SymbolDocs.Text.Digit
import SymbolDocs.Text.Quoted

/-!
# Tokens of type expressions

`tokensOf` cuts the text of a type into names, quoted texts, numbers and marks. A name is a whole name path: it may
hold the separators `.`, `#` and `~`, quoted segments after a separator, and a colon after a namespace word.
`scanLexeme_append` says that a lexeme is exactly the text it was read from, and that it is not empty.
-/

namespace SymbolDocs.TypeExpr

open SymbolDocs.Text

/-! ## Lexemes -/

/-- The marks of the type syntax. -/
inductive Mark where
  | ellipsis | dotLess | bar | openParen | closeParen | less | greater | comma | openBracket | closeBracket
  | openBrace | closeBrace | colon | equals | question | bang | star
  deriving DecidableEq, Repr

/-- The characters of a mark. -/
def Mark.chars : Mark → List Char
  | .ellipsis => ['.', '.', '.']
  | .dotLess => ['.', '<']
  | .bar => ['|']
  | .openParen => ['(']
  | .closeParen => [')']
  | .less => ['<']
  | .greater => ['>']
  | .comma => [',']
  | .openBracket => ['[']
  | .closeBracket => [']']
  | .openBrace => ['\x7b']
  | .closeBrace => ['\x7d']
  | .colon => [':']
  | .equals => ['=']
  | .question => ['?']
  | .bang => ['!']
  | .star => ['*']

/-- The smallest meaningful piece of a type expression. -/
inductive Lexeme where
  | name (text : String)
  | quoted (text : String)
  | number (text : String)
  | mark (m : Mark)
  deriving DecidableEq, Repr

/-- The characters of a lexeme. -/
def Lexeme.chars : Lexeme → List Char
  | .name text => text.toList
  | .quoted text => text.toList
  | .number text => text.toList
  | .mark m => m.chars

/-- A lexeme and the offset at which it starts. -/
structure Token where
  lexeme : Lexeme
  pos : Nat
  deriving DecidableEq, Repr

/-! ## Faults -/

/-- What the syntax of types asks for at some point. -/
inductive Expectation where
  | anything
  | finish
  | type
  | key
  | mark (m : Mark)
  deriving DecidableEq, Repr

/-- Why a text is not a type expression, and where. -/
inductive Fault where
  | unterminatedText (pos : Nat)
  | unexpectedChar (c : Char) (pos : Nat)
  | unmet (expectation : Expectation) (found : Option Token) (stop : Nat)
  deriving DecidableEq, Repr

/-- The offset of a fault; `stop` stands for the end of the text. -/
def Fault.pos : Fault → Nat
  | .unterminatedText pos => pos
  | .unexpectedChar _ pos => pos
  | .unmet _ (some token) _ => token.pos
  | .unmet _ none stop => stop

/-- The wording of what was expected. -/
def Expectation.text : Expectation → String
  | .anything => "empty type expression"
  | .finish => "unexpected trailing input"
  | .type => "expected a type"
  | .key => "expected a record key"
  | .mark m => "expected " ++ quoted (String.ofList m.chars)

/-- The wording of a fault. -/
def Fault.detail : Fault → String
  | .unterminatedText _ => "unterminated string literal"
  | .unexpectedChar c _ => "unexpected character " ++ quoted (String.singleton c)
  | .unmet expectation found _ =>
    let shown := match found with
      | some token => String.ofList token.lexeme.chars
      | none => "end of expression"
    expectation.text ++ ", found " ++ quoted shown

/-! ## Scanning -/

/-- A character that can start a name. -/
def isNameStart (c : Char) : Bool := c.isAlpha || c = '_' || c = '$' || c = '@'

/-- A character that can stand anywhere in a name. -/
def isNameChar (c : Char) : Bool := isNameStart c || c.isDigit || c = '/' || c = '-'

/-- A separator of name paths. -/
def isPathMark (c : Char) : Bool := c = '.' || c = '#' || c = '~'

/-- A quote. -/
def isQuote (c : Char) : Bool := c = '"' || c = '\''

/-- The words that may be followed by a colon inside a name. -/
def namespaceWords : List (List Char) := ["module".toList, "external".toList, "event".toList]

/-- Reads a quoted text from behind its opening quote up to and including its closing quote. A backslash takes the
next character with it. -/
def scanQuoted (quote : Char) : List Char → Option (List Char × List Char)
  | [] => none
  | ['\\'] => none
  | '\\' :: c :: cs => (scanQuoted quote cs).map fun p => ('\\' :: c :: p.1, p.2)
  | c :: cs => if c = quote then some ([c], cs) else (scanQuoted quote cs).map fun p => (c :: p.1, p.2)

theorem scanQuoted_append {quote : Char} {cs text rest : List Char} (h : scanQuoted quote cs = some (text, rest)) :
    cs = text ++ rest := by
  fun_induction scanQuoted quote cs generalizing text rest with
  | case1 => simp at h
  | case2 => simp at h
  | case3 c cs ih =>
    obtain ⟨p, hp, he⟩ := Option.map_eq_some_iff.1 h
    cases he
    simp [ih hp]
  | case4 cs => cases h; rfl
  | case5 c cs _ _ _ ih =>
    obtain ⟨p, hp, he⟩ := Option.map_eq_some_iff.1 h
    cases he
    simp [ih hp]

theorem scanQuoted_length {quote : Char} {cs text rest : List Char} (h : scanQuoted quote cs = some (text, rest)) :
    rest.length ≤ cs.length := by
  simp [scanQuoted_append h]

/-- Whether a path separator before `cs` continues a name. -/
def continuesPath : List Char → Bool
  | c :: _ => isNameStart c || isDigit c || isQuote c
  | [] => false

/-- Whether a colon before `cs` continues a name. -/
def continuesNamespace : List Char → Bool
  | c :: _ => isNameStart c || isQuote c
  | [] => false

/-- The last segment of the characters read so far, which are given last one first. -/
def lastSegment (taken : List Char) : List Char := (taken.takeWhile (!isPathMark ·)).reverse

/-- Whether a quote behind the characters read so far opens a quoted segment. -/
def opensSegment : List Char → Bool
  | c :: _ => isPathMark c || c = ':'
  | [] => false

/-- Reads the rest of a name, of which `taken` was read, last character first. Fails at the offset inside the name of
a quoted segment without end. -/
def scanPath (taken : List Char) (cs : List Char) : Except Nat (List Char × List Char) :=
  match cs with
  | [] => .ok (taken.reverse, [])
  | c :: cs =>
    if isNameChar c || (isPathMark c && continuesPath cs) then scanPath (c :: taken) cs
    else if c = ':' && namespaceWords.contains (lastSegment taken) && continuesNamespace cs then
      scanPath (c :: taken) cs
    else if isQuote c && opensSegment taken then
      match h : scanQuoted c cs with
      | none => .error taken.length
      | some (text, rest) =>
        have : rest.length ≤ cs.length := scanQuoted_length h
        scanPath (text.reverse ++ c :: taken) rest
    else .ok (taken.reverse, c :: cs)
termination_by cs.length

theorem scanPath_append {taken cs name rest : List Char} (h : scanPath taken cs = .ok (name, rest)) :
    taken.reverse ++ cs = name ++ rest := by
  fun_induction scanPath taken cs with
  | case1 taken => cases h; rfl
  | case2 taken c cs _ ih => simpa using ih h
  | case3 taken c cs _ _ ih => simpa using ih h
  | case4 => cases h
  | case5 taken c cs _ _ _ text rest' hq _ ih =>
    rw [← ih h, scanQuoted_append hq]
    simp
  | case6 => cases h; rfl

/-- A name is read at least as far as it was given. -/
theorem scanPath_length {taken cs name rest : List Char} (h : scanPath taken cs = .ok (name, rest)) :
    rest.length ≤ cs.length := by
  fun_induction scanPath taken cs with
  | case1 => cases h; simp
  | case2 taken c cs _ ih => have := ih h; simp; omega
  | case3 taken c cs _ _ ih => have := ih h; simp; omega
  | case4 => cases h
  | case5 taken c cs _ _ _ text rest' hq hl ih => have := ih h; simp; omega
  | case6 => cases h; simp

/-- Reads decimal digits, at least one. -/
def scanDigits (cs : List Char) : Option (List Char × List Char) :=
  match cs.takeWhile isDecimal with
  | [] => none
  | ds => some (ds, cs.dropWhile isDecimal)

/-- Reads a number without sign: digits, then perhaps a point and further digits. -/
def scanUnsigned (cs : List Char) : Option (List Char × List Char) :=
  match scanDigits cs with
  | none => none
  | some (whole, '.' :: rest) =>
    match scanDigits rest with
    | some (fraction, rest') => some (whole ++ '.' :: fraction, rest')
    | none => some (whole, '.' :: rest)
  | some (whole, rest) => some (whole, rest)

/-- Reads a number. -/
def scanNumber : List Char → Option (List Char × List Char)
  | '-' :: cs => (scanUnsigned cs).map fun p => ('-' :: p.1, p.2)
  | cs => scanUnsigned cs

/-- Reads a mark, the longest one that fits. -/
def scanMark : List Char → Option (Mark × List Char)
  | '.' :: '.' :: '.' :: cs => some (.ellipsis, cs)
  | '.' :: '<' :: cs => some (.dotLess, cs)
  | '|' :: cs => some (.bar, cs)
  | '(' :: cs => some (.openParen, cs)
  | ')' :: cs => some (.closeParen, cs)
  | '<' :: cs => some (.less, cs)
  | '>' :: cs => some (.greater, cs)
  | ',' :: cs => some (.comma, cs)
  | '[' :: cs => some (.openBracket, cs)
  | ']' :: cs => some (.closeBracket, cs)
  | '\x7b' :: cs => some (.openBrace, cs)
  | '\x7d' :: cs => some (.closeBrace, cs)
  | ':' :: cs => some (.colon, cs)
  | '=' :: cs => some (.equals, cs)
  | '?' :: cs => some (.question, cs)
  | '!' :: cs => some (.bang, cs)
  | '*' :: cs => some (.star, cs)
  | _ => none

theorem scanDigits_append {cs ds rest : List Char} (h : scanDigits cs = some (ds, rest)) :
    cs = ds ++ rest ∧ ds ≠ [] := by
  unfold scanDigits at h
  split at h
  · simp at h
  · next hne =>
    cases h
    exact ⟨List.takeWhile_append_dropWhile.symm, fun he => hne he⟩

theorem scanUnsigned_append {cs text rest : List Char} (h : scanUnsigned cs = some (text, rest)) :
    cs = text ++ rest ∧ text ≠ [] := by
  unfold scanUnsigned at h
  split at h
  · simp at h
  · next whole rest' hw =>
    have ⟨hc, hne⟩ := scanDigits_append hw
    split at h
    · next fraction rest'' hf =>
      cases h
      simp [hc, (scanDigits_append hf).1]
    · cases h
      exact ⟨hc, hne⟩
  · next whole rest' _ hw =>
    cases h
    exact scanDigits_append hw

theorem scanNumber_append {cs text rest : List Char} (h : scanNumber cs = some (text, rest)) :
    cs = text ++ rest ∧ text ≠ [] := by
  unfold scanNumber at h
  split at h
  · obtain ⟨p, hp, he⟩ := Option.map_eq_some_iff.1 h
    cases he
    simp [(scanUnsigned_append hp).1]
  · exact scanUnsigned_append h

theorem scanMark_append {cs rest : List Char} {mark : Mark} (h : scanMark cs = some (mark, rest)) :
    cs = mark.chars ++ rest := by
  unfold scanMark at h
  split at h <;> cases h <;> rfl

theorem Mark.chars_ne_nil (mark : Mark) : mark.chars ≠ [] := by cases mark <;> simp [Mark.chars]

/-- Reads one lexeme at the given offset; the text starts with `c`, which is not blank. -/
def scanLexeme (pos : Nat) (c : Char) (cs : List Char) : Except Fault (Lexeme × List Char) :=
  if isNameStart c then
    match scanPath [c] cs with
    | .ok (text, rest) => .ok (.name (String.ofList text), rest)
    | .error offset => .error (.unterminatedText (pos + offset))
  else if isQuote c then
    match scanQuoted c cs with
    | some (text, rest) => .ok (.quoted (String.ofList (c :: text)), rest)
    | none => .error (.unterminatedText pos)
  else match scanNumber (c :: cs) with
    | some (text, rest) => .ok (.number (String.ofList text), rest)
    | none =>
      match scanMark (c :: cs) with
      | some (mark, rest) => .ok (.mark mark, rest)
      | none => .error (.unexpectedChar c pos)

/-- A lexeme is the text it was read from. -/
theorem scanLexeme_append {pos : Nat} {c : Char} {cs rest : List Char} {lexeme : Lexeme}
    (h : scanLexeme pos c cs = .ok (lexeme, rest)) : c :: cs = lexeme.chars ++ rest := by
  unfold scanLexeme at h
  split at h
  · split at h
    · next hn => cases h; simpa [Lexeme.chars] using scanPath_append hn
    · simp at h
  · split at h
    · split at h
      · next hq => cases h; simp [Lexeme.chars, scanQuoted_append hq]
      · simp at h
    · split at h
      · next hn => cases h; simpa [Lexeme.chars] using (scanNumber_append hn).1
      · split at h
        · next hm => cases h; simpa [Lexeme.chars] using scanMark_append hm
        · simp at h

/-- A lexeme is not empty. -/
theorem scanLexeme_length {pos : Nat} {c : Char} {cs rest : List Char} {lexeme : Lexeme}
    (h : scanLexeme pos c cs = .ok (lexeme, rest)) : rest.length ≤ cs.length := by
  have happ := congrArg List.length (scanLexeme_append h)
  unfold scanLexeme at h
  split at h
  · split at h
    · next hn => cases h; exact scanPath_length hn
    · simp at h
  · split at h
    · split at h
      · next hq => cases h; exact scanQuoted_length hq
      · simp at h
    · split at h
      · next hn =>
        cases h
        have ⟨he, hne⟩ := scanNumber_append hn
        have := List.length_pos_iff.2 hne
        have := congrArg List.length he
        simp at this
        omega
      · split at h
        · next mark _ hm =>
          cases h
          have := List.length_pos_iff.2 mark.chars_ne_nil
          simp [Lexeme.chars] at happ
          omega
        · simp at h

/-- The tokens of a text that starts at the given offset. -/
def tokensFrom (pos : Nat) (cs : List Char) : Except Fault (List Token) :=
  match cs with
  | [] => .ok []
  | c :: cs =>
    if isBlank c then tokensFrom (pos + 1) cs
    else match h : scanLexeme pos c cs with
      | .error fault => .error fault
      | .ok (lexeme, rest) =>
        have : rest.length ≤ cs.length := scanLexeme_length h
        (tokensFrom (pos + (cs.length + 1 - rest.length)) rest).map (⟨lexeme, pos⟩ :: ·)
termination_by cs.length

/-- The tokens of a text. -/
def tokensOf (cs : List Char) : Except Fault (List Token) := tokensFrom 0 cs

end SymbolDocs.TypeExpr
