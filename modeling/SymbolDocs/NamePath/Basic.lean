import SymbolDocs.Scope.Basic
import SymbolDocs.Text.Affix
import SymbolDocs.Text.Choice

/-!
# Name paths

A name path names a symbol by the way to it: owner, separator, name. `split` cuts a path at its last separator
outside quotes and brackets, `compose` puts the parts together again. Paths are first brought to a normal form, in
which instance members are written with `#`. `normalizeChars_length_le` and `splitChars_length_lt` say that the owner
of a path is shorter than the path.
-/

namespace SymbolDocs.NamePath

open SymbolDocs.Text

/-! ## Normal form -/

/-- The word that reaches the members of the instances of a class. -/
def prototypeWord : List Char := ".prototype".toList

/-- What follows the prototype word, if the path goes on with it: a separator, which is dropped, or the end. A
newline at the end of the path does not count. -/
def afterPrototype? (cs : List Char) : Option (List Char) :=
  if prototypeWord.isPrefixOf cs then
    match cs.drop prototypeWord.length with
    | '.' :: rest => some rest
    | [] => some []
    | ['\n'] => some ['\n']
    | _ => none
  else none

theorem afterPrototype?_length {cs rest : List Char} (h : afterPrototype? cs = some rest) :
    rest.length < cs.length := by
  unfold afterPrototype? at h
  split at h
  · next hp =>
    have hl : cs.length = prototypeWord.length + (cs.drop prototypeWord.length).length := by
      have := (List.isPrefixOf_iff_prefix.1 hp).length_le
      simp only [List.length_drop]
      omega
    have hw : 0 < prototypeWord.length := by decide
    generalize cs.drop prototypeWord.length = tail at h hl
    split at h <;> cases h <;> simp only [List.length_cons, List.length_nil] at * <;> omega
  · simp at h

/-- The path with `#` in place of the prototype word. -/
def hashPrototype (cs : List Char) : List Char :=
  match h : afterPrototype? cs with
  | some rest =>
    have := afterPrototype?_length h
    '#' :: hashPrototype rest
  | none =>
    match cs with
    | [] => []
    | c :: cs => c :: hashPrototype cs
termination_by cs.length

/-- The path without a dot behind `#`. -/
def dropDotAfterHash : List Char → List Char
  | '#' :: '.' :: cs => '#' :: dropDotAfterHash cs
  | c :: cs => c :: dropDotAfterHash cs
  | [] => []

/-- The normal form of a path. -/
def normalizeChars (cs : List Char) : List Char := dropDotAfterHash (hashPrototype cs)

theorem hashPrototype_length_le (cs : List Char) : (hashPrototype cs).length ≤ cs.length := by
  fun_induction hashPrototype cs with
  | case1 cs rest h hl ih => simp; omega
  | case2 => simp
  | case3 h c cs ih => simpa using ih

theorem dropDotAfterHash_length_le (cs : List Char) : (dropDotAfterHash cs).length ≤ cs.length := by
  fun_induction dropDotAfterHash cs with
  | case1 cs ih => simp; omega
  | case2 c cs _ ih => simpa using ih
  | case3 => simp

theorem normalizeChars_length_le (cs : List Char) : (normalizeChars cs).length ≤ cs.length :=
  Nat.le_trans (dropDotAfterHash_length_le _) (hashPrototype_length_le cs)

/-! ## Separators -/

/-- A character that separates an owner from a member. -/
def isSeparator (c : Char) : Bool := (Scope.ofPunctuation? c).isSome

/-- Where a reader of a path stands: inside a quote or not, and how many brackets are open. -/
structure Nesting where
  quote : Option Char := none
  depth : Nat := 0
  deriving DecidableEq, Repr

/-- Reads one character. Inside a quote only the same quote counts. -/
def Nesting.step (n : Nesting) (c : Char) : Nesting :=
  match n.quote with
  | some q => if c = q then { n with quote := none } else n
  | none =>
    if c = '"' || c = '\'' then { n with quote := some c }
    else if c = '(' || c = '[' then { n with depth := n.depth + 1 }
    else if c = ')' || c = ']' then { n with depth := n.depth - 1 }
    else n

/-- Outside every quote and bracket. -/
def Nesting.isTop (n : Nesting) : Bool := n.quote.isNone && n.depth = 0

/-- Where a reader stands after some characters. -/
def Nesting.read (n : Nesting) (cs : List Char) : Nesting := cs.foldl Nesting.step n

/-- The parts of a text before and behind its last separator outside quotes and brackets, and that separator. -/
def lastCut (n : Nesting) : List Char → Option (List Char × Char × List Char)
  | [] => none
  | c :: cs =>
    match lastCut (n.step c) cs with
    | some (before, sep, after) => some (c :: before, sep, after)
    | none => if n.isTop && isSeparator c then some ([], c, cs) else none

/-- The cut of a whole path. A separator at the very start is part of the name. -/
def cut : List Char → Option (List Char × Char × List Char)
  | [] => none
  | c :: cs => (lastCut (Nesting.step {} c) cs).map fun (before, sep, after) => (c :: before, sep, after)

theorem append_of_lastCut {n : Nesting} {cs before after : List Char} {sep : Char}
    (h : lastCut n cs = some (before, sep, after)) : before ++ sep :: after = cs := by
  induction cs generalizing n before with
  | nil => simp [lastCut] at h
  | cons c cs ih =>
    simp only [lastCut] at h
    split at h
    · next hc => cases h; simp [ih hc]
    · split at h <;> cases h; rfl

theorem append_of_cut {cs before after : List Char} {sep : Char} (h : cut cs = some (before, sep, after)) :
    before ++ sep :: after = cs := by
  cases cs with
  | nil => simp [cut] at h
  | cons c cs =>
    obtain ⟨⟨b, s, a⟩, hp, he⟩ := Option.map_eq_some_iff.1 h
    cases he
    simp [append_of_lastCut hp]

/-! ## Splitting -/

/-- The parts of a path: its owner and how it belongs to it, if it has an owner, and its own name. -/
structure Parts where
  memberof : Option (List Char)
  scope : Option Scope
  name : List Char
  deriving DecidableEq, Repr

/-- Splits a path at its last separator. A path that ends in a separator has no parts. -/
def splitChars (cs : List Char) : Parts :=
  let path := normalizeChars cs
  match cut path with
  | some (before, sep, c :: after) =>
    { memberof := some before, scope := Scope.ofPunctuation? sep, name := c :: after }
  | _ => { memberof := none, scope := none, name := path }

theorem splitChars_length_lt {cs m : List Char} (h : (splitChars cs).memberof = some m) :
    m.length < cs.length := by
  unfold splitChars at h
  dsimp only at h
  split at h
  · next before sep c after hc =>
    cases h
    have := congrArg List.length (append_of_cut hc)
    have := normalizeChars_length_le cs
    simp at *
    omega
  · cases h

/-- Whether a name has a separator in it. -/
def isNestedChars (cs : List Char) : Bool := (cut (normalizeChars cs)).isSome

/-! ## Strings -/

/-- The normal form of a path. -/
def normalize (path : String) : String := String.ofList (normalizeChars path.toList)

/-- The owner of a path, how it belongs to it, and its own name. -/
def split (path : String) : Option String × Option Scope × String :=
  let parts := splitChars path.toList
  (parts.memberof.map String.ofList, parts.scope, String.ofList parts.name)

/-- Whether a name is a path of several parts. -/
def isNested (name : String) : Bool := isNestedChars name.toList

/-- The text without a line break at its end. -/
def dropFinalBreak (cs : List Char) : List Char :=
  match cs.reverse with
  | '\n' :: rest => rest.reverse
  | _ => cs

/-- The scope that a path states at its end, and the path without it. -/
def splitOwnerChars (cs : List Char) : List Char × Option Scope :=
  let body := dropFinalBreak cs
  if prototypeWord.isSuffixOf body then
    if body.length = prototypeWord.length then (cs, none)
    else (body.take (body.length - prototypeWord.length), some .perInstance)
  else
    match body.reverse with
    | c :: c' :: rest =>
      match Scope.ofPunctuation? c with
      | some scope => ((c' :: rest).reverse, some scope)
      | none => (cs, none)
    | _ => (cs, none)

/-- Strips the suffix of an owner that says how its members belong to it: `Foo.prototype` and `Foo#` mean instance
members. -/
def splitOwner (owner : String) : String × Option Scope :=
  let (owner, scope) := splitOwnerChars owner.toList
  (String.ofList owner, scope)

/-! ## Composing -/

/-- The separator of a scope, and none for no scope. -/
def separator (scope : Option Scope) : String := String.ofList ((scope.map Scope.punctuation).getD [])

/-- The separator of the scope that a word names. -/
def separatorOfWord (word : Option String) : Except UnknownWord String :=
  match word with
  | none => .ok ""
  | some w => (choose "Scope" Scope.ofWord? w).map (separator ∘ some)

/-- What a longname of this kind starts with, where kinds are part of longnames. -/
def kindLabel (kind : Option String) : String :=
  match kind.filter (!·.isEmpty) with
  | some k => k ++ ":"
  | none => ""

/-- The name without a label in front. -/
def dropLabel (name label : String) : String :=
  if label.isEmpty then name else (after? name label).getD name

/-- The name with a label in front, which is not written twice. -/
def addLabel (name label : String) : String := if startsWith name label then name else label ++ name

/-- The longname of a member. -/
def compose (name : String) (memberof : Option String := none) (scope : Option Scope := none)
    (label : String := "") : String :=
  match memberof with
  | none => addLabel name label
  | some owner => if owner.isEmpty then addLabel name label else owner ++ separator scope ++ addLabel name label

/-- The longname of a member whose scope is given by its word, which matters only if there is an owner. -/
def composeByWord (name : String) (memberof scopeWord : Option String) (label : String) :
    Except UnknownWord String :=
  match memberof.filter (!·.isEmpty) with
  | none => .ok (addLabel name label)
  | some owner => do
    let sep ← separatorOfWord scopeWord
    pure (owner ++ sep ++ addLabel name label)

/-- The path with a namespace word in front of its last segment. A path that has it there is left as it is. -/
def addNamespace (path namespaceWord : String) : String :=
  let label := kindLabel (some namespaceWord)
  let (memberof, scope, name) := split path
  if startsWith name label then path
  else match memberof with
    | none => label ++ name
    | some owner => owner ++ separator scope ++ label ++ name

end SymbolDocs.NamePath
