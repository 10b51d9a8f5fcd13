import SymbolDocs.Proofs.Text.Nesting
import SymbolDocs.Tag.Scan

/-!
# What brackets enclose

A text can stand between brackets if they are properly nested in the part of it that lies outside quotes, and if it does
not end inside a quote (`Enclosable`). Reading up to the closing bracket gives such a text and nothing else
(`scanEnclosedFrom_eq_some_iff`). Square brackets do not count inside quotes, and there a backslash is a character like
any other; braces count everywhere.
-/

namespace SymbolDocs.Tag

open SymbolDocs.Text

/-- The characters of a text outside quotes, if it starts inside the given quote or else outside all. Where quotes do
not matter, no character is inside one. -/
def outside (quotes : Bool) : Option Char → List Char → List Char
  | _, [] => []
  | some q, c :: cs => outside quotes (if c = q then none else some q) cs
  | none, c :: cs => if quotes && isQuote c then outside quotes (some c) cs else c :: outside quotes none cs

/-- The quote that a text ends inside of, if it starts inside the given one or else outside all. -/
def quoteAfter (quotes : Bool) : Option Char → List Char → Option Char
  | quote, [] => quote
  | some q, c :: cs => quoteAfter quotes (if c = q then none else some q) cs
  | none, c :: cs => quoteAfter quotes (if quotes && isQuote c then some c else none) cs

/-- A text that may stand between brackets. -/
structure Enclosable (opener closer : Char) (quotes : Bool) (cs : List Char) : Prop where
  unquoted : quoteAfter quotes none cs = none
  nested : Nested opener closer (outside quotes none cs)

/-- A text that may stand before the closing bracket if `depth` more brackets are open and it starts inside the given
quote. -/
structure Closes (opener closer : Char) (quotes : Bool) (depth : Nat) (quote : Option Char) (cs : List Char) :
    Prop where
  unquoted : quoteAfter quotes quote cs = none
  unwinds : Unwinds opener closer depth (outside quotes quote cs)

variable {opener closer c q : Char} {quotes : Bool} {quote : Option Char} {cs before inner rest : List Char}
  {depth : Nat}

theorem closes_zero_iff : Closes opener closer quotes 0 none cs ↔ Enclosable opener closer quotes cs :=
  ⟨fun h => ⟨h.unquoted, unwinds_zero_iff.1 h.unwinds⟩, fun h => ⟨h.unquoted, unwinds_zero_iff.2 h.nested⟩⟩

/-! ## Character by character -/

section Steps

theorem closes_nil_iff : Closes opener closer quotes depth quote [] ↔ quote = none ∧ depth = 0 := by
  have houtside : outside quotes quote [] = [] := by cases quote <;> rfl
  have hafter : quoteAfter quotes quote [] = quote := by cases quote <;> rfl
  constructor
  · rintro ⟨hunquoted, hunwinds⟩
    rw [hafter] at hunquoted
    rw [houtside, unwinds_nil_iff] at hunwinds
    exact ⟨hunquoted, hunwinds⟩
  · rintro ⟨rfl, rfl⟩
    exact ⟨hafter, houtside ▸ unwinds_nil_iff.2 rfl⟩

theorem closes_quoted_iff : Closes opener closer quotes depth (some q) (c :: cs) ↔
    Closes opener closer quotes depth (if c = q then none else some q) cs :=
  ⟨fun ⟨hunquoted, hunwinds⟩ => ⟨hunquoted, hunwinds⟩, fun ⟨hunquoted, hunwinds⟩ => ⟨hunquoted, hunwinds⟩⟩

theorem closes_quote_iff (h : (quotes && isQuote c) = true) :
    Closes opener closer quotes depth none (c :: cs) ↔ Closes opener closer quotes depth (some c) cs := by
  have houtside : outside quotes none (c :: cs) = outside quotes (some c) cs := by rw [outside, if_pos h]
  have hafter : quoteAfter quotes none (c :: cs) = quoteAfter quotes (some c) cs := by rw [quoteAfter, if_pos h]
  exact ⟨fun ⟨hu, hw⟩ => ⟨hafter ▸ hu, houtside ▸ hw⟩, fun ⟨hu, hw⟩ => ⟨hafter ▸ hu, houtside ▸ hw⟩⟩

/-- Outside quotes, a character that is no quote counts for the brackets alone. -/
theorem closes_cons_iff {depth' : Nat} (h : ¬ (quotes && isQuote c) = true)
    (hstep : ∀ ds, Unwinds opener closer depth (c :: ds) ↔ Unwinds opener closer depth' ds) :
    Closes opener closer quotes depth none (c :: cs) ↔ Closes opener closer quotes depth' none cs := by
  have houtside : outside quotes none (c :: cs) = c :: outside quotes none cs := by rw [outside, if_neg h]
  have hafter : quoteAfter quotes none (c :: cs) = quoteAfter quotes none cs := by rw [quoteAfter, if_neg h]
  constructor
  · rintro ⟨hunquoted, hunwinds⟩
    rw [hafter] at hunquoted
    rw [houtside, hstep] at hunwinds
    exact ⟨hunquoted, hunwinds⟩
  · rintro ⟨hunquoted, hunwinds⟩
    rw [← hafter] at hunquoted
    rw [← hstep, ← houtside] at hunwinds
    exact ⟨hunquoted, hunwinds⟩

theorem not_closes_closer (hne : opener ≠ closer) (h : ¬ (quotes && isQuote closer) = true) :
    ¬ Closes opener closer quotes 0 none (closer :: cs) := by
  intro hcloses
  have hunwinds := hcloses.unwinds
  rw [outside, if_neg h] at hunwinds
  exact not_unwinds_zero_closer hne hunwinds

end Steps

/-- A character that is neither a quote nor a bracket. -/
structure Neutral (opener closer c : Char) : Prop where
  unquoting : isQuote c = false
  ne_opener : c ≠ opener
  ne_closer : c ≠ closer

theorem enclosable_nil : Enclosable opener closer quotes [] := closes_zero_iff.1 (closes_nil_iff.2 ⟨rfl, rfl⟩)

/-- Characters that are neither quotes nor brackets do not matter in front of a text. -/
theorem enclosable_append_iff (h : ∀ c ∈ before, Neutral opener closer c) :
    Enclosable opener closer quotes (before ++ cs) ↔ Enclosable opener closer quotes cs := by
  rw [← closes_zero_iff, ← closes_zero_iff]
  induction before with
  | nil => rfl
  | cons c before ih =>
    obtain ⟨hc, hbefore⟩ := List.forall_mem_cons.1 h
    rw [List.cons_append, closes_cons_iff (by simp [hc.unquoting]) fun _ => unwinds_other_iff hc.ne_opener hc.ne_closer,
      ih hbefore]

/-- Where no character is a quote that matters, all of the text is outside. -/
theorem enclosable_iff_of_unquoted (h : ∀ c ∈ cs, (quotes && isQuote c) = false) :
    Enclosable opener closer quotes cs ↔ Nested opener closer cs := by
  have hstays : outside quotes none cs = cs ∧ quoteAfter quotes none cs = none := by
    induction cs with
    | nil => exact ⟨rfl, rfl⟩
    | cons c cs ih =>
      obtain ⟨hc, hcs⟩ := List.forall_mem_cons.1 h
      rw [outside, quoteAfter, hc]
      exact ⟨congrArg (c :: ·) (ih hcs).1, (ih hcs).2⟩
  exact ⟨fun hcs => hstays.1 ▸ hcs.nested, fun hcs => ⟨hstays.2, hstays.1.symm ▸ hcs⟩⟩

/-! ## Reading up to the closing bracket -/

theorem map_consFst_eq_some_iff {found : Option (List Char × List Char)} :
    found.map (consFst c) = some (inner, rest) ↔ ∃ tail, inner = c :: tail ∧ found = some (tail, rest) := by
  rw [Option.map_eq_some_iff]
  constructor
  · rintro ⟨⟨tail, rest⟩, hfound, heq⟩
    cases heq
    exact ⟨tail, rfl, hfound⟩
  · rintro ⟨tail, rfl, hfound⟩
    exact ⟨(tail, rest), hfound, rfl⟩

/-- What reads up to a closing bracket behind the first character also does so before it, if nothing is closed there. -/
theorem cons_enclosed_iff {P Q : List Char → Prop} {found : Option (List Char × List Char)}
    (hfound : ∀ {inner}, found = some (inner, rest) ↔ cs = inner ++ closer :: rest ∧ P inner)
    (hnil : c = closer → ¬ Q []) (hcons : ∀ tail, Q (c :: tail) ↔ P tail) :
    found.map (consFst c) = some (inner, rest) ↔ c :: cs = inner ++ closer :: rest ∧ Q inner := by
  rw [map_consFst_eq_some_iff]
  constructor
  · rintro ⟨tail, rfl, htail⟩
    obtain ⟨rfl, htail⟩ := hfound.1 htail
    exact ⟨rfl, (hcons tail).2 htail⟩
  · rintro ⟨heq, hinner⟩
    cases inner with
    | nil => exact absurd hinner (hnil (List.cons.inj heq).1)
    | cons c' tail =>
      cases heq
      exact ⟨tail, rfl, hfound.2 ⟨rfl, (hcons tail).1 hinner⟩⟩

/-- **What is read from behind an opening bracket**: what stands before a closing bracket, if it leaves all quotes and
closes just the brackets that are open. -/
theorem scanEnclosedFrom_eq_some_iff (hne : opener ≠ closer) (hq : isQuote closer = false) :
    scanEnclosedFrom opener closer quotes depth quote cs = some (inner, rest) ↔
      cs = inner ++ closer :: rest ∧ Closes opener closer quotes depth quote inner := by
  fun_induction scanEnclosedFrom opener closer quotes depth quote cs generalizing inner with
  | case1 => simp
  | case2 depth c cs q ih =>
    exact cons_enclosed_iff ih (fun _ h => nomatch (closes_nil_iff.1 h).1) fun _ => closes_quoted_iff
  | case3 depth c cs hquote ih =>
    refine cons_enclosed_iff ih (fun hc => ?_) fun _ => closes_quote_iff hquote
    rw [hc, hq, Bool.and_false] at hquote
    cases hquote
  | case4 depth cs hquote ih =>
    exact cons_enclosed_iff ih (fun hc => absurd hc hne) fun _ =>
      closes_cons_iff hquote fun _ => unwinds_opener_iff hne
  | case5 cs hquote hopener =>
    constructor
    · intro h
      cases h
      exact ⟨rfl, closes_nil_iff.2 ⟨rfl, rfl⟩⟩
    · rintro ⟨heq, hinner⟩
      cases inner with
      | nil =>
        cases heq
        rfl
      | cons c tail =>
        cases heq
        exact absurd hinner (not_closes_closer hne hquote)
  | case6 cs depth hquote hopener ih =>
    exact cons_enclosed_iff ih (fun _ h => nomatch (closes_nil_iff.1 h).2) fun _ =>
      closes_cons_iff hquote fun _ => unwinds_closer_iff hne
  | case7 depth c cs hquote hopener hcloser ih =>
    exact cons_enclosed_iff ih (fun hc => absurd hc hcloser) fun _ =>
      closes_cons_iff hquote fun _ => unwinds_other_iff hopener hcloser

/-- What is read from behind an opening brace: a text whose braces are properly nested. -/
theorem scanBraces_eq_ok_iff :
    scanBraces cs = .ok (inner, rest) ↔ cs = inner ++ '\x7d' :: rest ∧ Nested '\x7b' '\x7d' inner := by
  rw [← enclosable_iff_of_unquoted (fun _ _ => Bool.false_and _), ← closes_zero_iff,
    ← scanEnclosedFrom_eq_some_iff (by decide) rfl, scanBraces]
  split <;> next hp => rw [hp]; simp

/-- What is read from behind an opening square bracket: a text that square brackets can enclose. -/
theorem scanBrackets_eq_ok_iff :
    scanBrackets cs = .ok (inner, rest) ↔ cs = inner ++ ']' :: rest ∧ Enclosable '[' ']' true inner := by
  rw [← closes_zero_iff, ← scanEnclosedFrom_eq_some_iff (by decide) rfl, scanBrackets]
  split <;> next hp => rw [hp]; simp

/-- Properly nested braces are read up to the brace that closes them all. -/
theorem scanBraces_append (h : Nested '\x7b' '\x7d' cs) (rest : List Char) :
    scanBraces (cs ++ '\x7d' :: rest) = .ok (cs, rest) :=
  scanBraces_eq_ok_iff.2 ⟨rfl, h⟩

end SymbolDocs.Tag
