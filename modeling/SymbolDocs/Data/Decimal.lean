import SymbolDocs.Data.Basic

/-!
# Decimal fractions

The text of a decimal fraction has no superfluous zeros behind the point, but at least one digit there.
-/

namespace SymbolDocs.Data

/-- The digits behind the point without zeros at the end, at least one. -/
def trimFraction (digits : List Char) : List Char :=
  match (digits.reverse.dropWhile (· = '0')).reverse with
  | [] => ['0']
  | ds => ds

/-- The digits before the point without zeros at the start, at least one. -/
def trimWhole (digits : List Char) : List Char :=
  match digits.dropWhile (· = '0') with
  | [] => ['0']
  | ds => ds

/-- The text of a decimal fraction, from its sign and its digits before and behind the point. -/
def fractionText (negative : Bool) (whole fraction : List Char) : String :=
  String.ofList ((if negative then ['-'] else []) ++ trimWhole whole ++ '.' :: trimFraction fraction)

/-- The number whose digits, without sign, have the last `places` ones behind the point. -/
def ofDecimal (negative : Bool) (digits : List Char) (places : Nat) : Data :=
  let padded := List.replicate (places - digits.length) '0' ++ digits
  let whole := padded.take (padded.length - places)
  .decimal (fractionText negative whole (padded.drop (padded.length - places)))

end SymbolDocs.Data
