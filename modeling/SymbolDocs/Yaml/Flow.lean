import SymbolDocs.Data.Shown
import SymbolDocs.Yaml.Scalar

/-!
# Lists and mappings in brackets

`readFlow` reads a list or mapping in brackets. Its tokens are taken one after the other, and the lists and mappings
that are still open are on a stack.
-/

namespace SymbolDocs.Yaml

open SymbolDocs.Json (Mark mark?)

/-! ## Tokens -/

/-- A token inside brackets. -/
inductive FlowToken where
  | mark (m : Mark)
  | scalar (d : Data)

/-- Reads a scalar inside brackets and says how many characters it has. -/
def scanScalar (cs : List Char) : Option (Data × Nat) :=
  match scanQuoted cs with
  | some (text, size) => some (.text text, size)
  | none =>
    if startsPlain true cs then
      let chars := plainChars true cs
      some (resolve (plainText chars), chars.length)
    else none

/-- The tokens of a text inside brackets. -/
def flowTokens (cs : List Char) : Option (List FlowToken) :=
  match cs with
  | [] => some []
  | c :: cs =>
    if isSpace c then flowTokens cs
    else if c = '#' then flowTokens (cs.drop (cs.takeWhile (· ≠ '\n')).length)
    else match mark? c with
      | some m => (flowTokens cs).map (.mark m :: ·)
      | none =>
        (scanScalar (c :: cs)).bind fun (d, size) => (flowTokens (cs.drop (size - 1))).map (.scalar d :: ·)
termination_by cs.length

/-! ## Reading -/

/-- What is known of the item that is being read. -/
inductive Slot where
  | empty
  | item (d : Data)
  | key (key : Data)
  | pair (key value : Data)

/-- An open list or mapping, with its complete items, the last one first, and the item that is being read. -/
inductive FlowFrame where
  | list (items : List Data) (slot : Slot)
  | mapping (entries : List DataEntry) (slot : Slot)

/-- An entry. Lists and mappings are no keys. -/
def entryOf? (key value : Data) : Option DataEntry :=
  match key with
  | .list _ | .mapping _ => none
  | key => some (.entry key.plain value)

/-- The entry that a slot holds; a key alone has the value null. -/
def Slot.entry? : Slot → Option DataEntry
  | .empty => none
  | .item k | .key k => entryOf? k .null
  | .pair k d => entryOf? k d

/-- The item of a list that a slot holds; an entry is a mapping of its own. -/
def Slot.item? : Slot → Option Data
  | .empty => none
  | .item d => some d
  | slot => slot.entry?.map fun e => .mapping [e]

/-- The slot with a value in it. -/
def Slot.put? (d : Data) : Slot → Option Slot
  | .empty => some (.item d)
  | .key k => some (.pair k d)
  | _ => none

/-- The slot behind a colon. -/
def Slot.colon? : Slot → Option Slot
  | .empty => some (.key .null)
  | .item d => some (.key d)
  | _ => none

namespace FlowFrame

/-- The frame with a change to the item that is being read. -/
def modify? (f : Slot → Option Slot) : FlowFrame → Option FlowFrame
  | .list items slot => (f slot).map (.list items)
  | .mapping entries slot => (f slot).map (.mapping entries)

/-- The frame behind a comma, which has to follow an item. -/
def comma? : FlowFrame → Option FlowFrame
  | .list items slot => slot.item?.map fun d => .list (d :: items) .empty
  | .mapping entries slot => slot.entry?.map fun e => .mapping (e :: entries) .empty

/-- The value of a frame that ends with the given mark. -/
def close? (m : Mark) : FlowFrame → Option Data
  | .list items .empty => if m = .closeList then some (.list items.reverse) else none
  | .list items slot => if m = .closeList then slot.item?.map fun d => .list (d :: items).reverse else none
  | .mapping entries .empty => if m = .closeMapping then some (.mapping entries.reverse) else none
  | .mapping entries slot =>
    if m = .closeMapping then slot.entry?.map fun e => .mapping (e :: entries).reverse else none

end FlowFrame

/-- How far the reading got. -/
inductive FlowProgress where
  | inside (frame : FlowFrame) (outer : List FlowFrame)
  | finished (d : Data)

namespace FlowProgress

/-- Puts a complete value into the innermost frame. -/
def put? (d : Data) : List FlowFrame → Option FlowProgress
  | [] => some (.finished d)
  | frame :: outer => (frame.modify? (·.put? d)).map (.inside · outer)

/-- Takes a token. -/
def step : FlowProgress → FlowToken → Option FlowProgress
  | .finished _, _ => none
  | .inside frame outer, .scalar d => put? d (frame :: outer)
  | .inside frame outer, .mark .openList => some (.inside (.list [] .empty) (frame :: outer))
  | .inside frame outer, .mark .openMapping => some (.inside (.mapping [] .empty) (frame :: outer))
  | .inside frame outer, .mark .colon => (frame.modify? Slot.colon?).map (.inside · outer)
  | .inside frame outer, .mark .comma => frame.comma?.map (.inside · outer)
  | .inside frame outer, .mark m => (frame.close? m).bind (put? · outer)

end FlowProgress

/-- Reads a list or mapping in brackets, behind which only a comment may stand. -/
def readFlow (cs : List Char) : Option Data := do
  let tokens ← flowTokens cs
  let first ← match tokens.head? with
    | some (.mark .openList) => some (FlowFrame.list [] .empty)
    | some (.mark .openMapping) => some (FlowFrame.mapping [] .empty)
    | _ => none
  match ← tokens.tail.foldlM FlowProgress.step (.inside first []) with
  | .finished d => some d
  | .inside .. => none

end SymbolDocs.Yaml
