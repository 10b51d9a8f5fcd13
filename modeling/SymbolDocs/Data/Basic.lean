/-!
# Plain data

The values that a data file holds, whatever its format, and the tests on them. `sameAs` is equality up to the
identity of yes and one and of no and zero; no mapping is the same as anything.
-/

namespace SymbolDocs

mutual

/-- A value of a data file. -/
inductive Data where
  | null
  | flag (b : Bool)
  | int (n : Int)
  /-- A number with a fraction, by its text. -/
  | decimal (text : String)
  | text (s : String)
  | list (items : List Data)
  | mapping (entries : List DataEntry)

/-- An entry of a mapping. -/
inductive DataEntry where
  | entry (key : String) (value : Data)

end

instance : Inhabited Data := ⟨.null⟩

namespace DataEntry

/-- The key of an entry. -/
def key : DataEntry → String
  | .entry key _ => key

/-- The value of an entry. -/
def value : DataEntry → Data
  | .entry _ value => value

end DataEntry

namespace Data

/-- A mapping from pairs. -/
def ofPairs (pairs : List (String × Data)) : Data := .mapping (pairs.map fun (k, v) => .entry k v)

/-- A list of texts. -/
def ofTexts (texts : List String) : Data := .list (texts.map .text)

/-- A text that may be missing. -/
def ofText? (s : Option String) : Data := (s.map Data.text).getD .null

/-- A yes or no that may be missing. -/
def ofFlag? (b : Option Bool) : Data := (b.map Data.flag).getD .null

/-- A number that may be missing. -/
def ofInt? (n : Option Int) : Data := (n.map Data.int).getD .null

/-- The value under a key of a mapping; the last entry of the key counts. -/
def get? (key : String) : Data → Option Data
  | .mapping entries => (entries.reverse.find? (·.key == key)).map (·.value)
  | _ => none

/-- The value under a key of a mapping, null if there is none. -/
def get (key : String) (d : Data) : Data := (d.get? key).getD .null

/-- The text that a value is. -/
def text? : Data → Option String
  | .text s => some s
  | _ => none

/-- The number that a value is. -/
def int? : Data → Option Int
  | .int n => some n
  | _ => none

/-- Whether a value says yes: it is neither null, no, zero nor empty. -/
def truthy : Data → Bool
  | .null => false
  | .flag b => b
  | .int n => n != 0
  | .decimal s => s.toList.any fun c => c ≠ '0' && c ≠ '.' && c ≠ '-'
  | .text s => !s.isEmpty
  | .list items => !items.isEmpty
  | .mapping entries => !entries.isEmpty

mutual

/-- Whether two values are the same. -/
def sameAs : Data → Data → Bool
  | .null, .null => true
  | .flag a, .flag b => a == b
  | .flag a, .int n => n == (if a then 1 else 0)
  | .int n, .flag b => n == (if b then 1 else 0)
  | .int m, .int n => m == n
  | .decimal s, .decimal t => s == t
  | .text s, .text t => s == t
  | .list as, .list bs => sameList as bs
  | _, _ => false

/-- Whether two lists hold the same values. -/
def sameList : List Data → List Data → Bool
  | [], [] => true
  | a :: as, b :: bs => sameAs a b && sameList as bs
  | _, _ => false

end

end Data
end SymbolDocs
