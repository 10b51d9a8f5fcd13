import SymbolDocs.Scope.Basic

/-!
# The stack of open scopes

While a file is read, its open naming contexts form a stack. A module that a comment of its own declares is no stack
entry: it is the root of the file, and no scope exit closes it.
-/

namespace SymbolDocs

/-- The open contexts of a file, innermost first, and the module that the whole file belongs to. -/
structure ScopeStack where
  entries : List ScopeEntry := []
  root : Option ScopeEntry := none
  deriving DecidableEq, Repr

/-- Scope entries and exits that do not pair up. -/
inductive ScopeImbalance where
  /-- A scope is left while none is open. -/
  | nothingOpen
  /-- Scopes are still open at the end of the file. -/
  | leftOpen (count : Nat) (filename : Option String)
  deriving DecidableEq, Repr

/-- The wording of an imbalance. -/
def ScopeImbalance.message : ScopeImbalance → String
  | .nothingOpen => "Scope exit reported with no open scope"
  | .leftOpen count filename =>
    let place := match filename with
      | some name => if name.isEmpty then "" else " in " ++ name
      | none => ""
    toString count ++ " scope(s) left open at end of traversal" ++ place

namespace ScopeStack

/-- How many contexts are open. -/
def depth (stack : ScopeStack) : Nat := stack.entries.length

/-- Opens a context. -/
def push (stack : ScopeStack) (entry : ScopeEntry) : ScopeStack := { stack with entries := entry :: stack.entries }

/-- Closes the innermost context. -/
def pop (stack : ScopeStack) : Except ScopeImbalance (ScopeEntry × ScopeStack) :=
  match stack.entries with
  | [] => .error .nothingOpen
  | entry :: entries => .ok (entry, { stack with entries })

/-- Declares the module that the file belongs to. -/
def setRoot (stack : ScopeStack) (entry : ScopeEntry) : ScopeStack := { stack with root := some entry }

/-- The contexts from the innermost to the outermost, with the root of the file last. -/
def innermost (stack : ScopeStack) : List ScopeEntry := stack.entries ++ stack.root.toList

/-- The context that a new symbol appears in. -/
def current (stack : ScopeStack) : ScopeEntry := stack.innermost.headD { kind := .global }

/-- Closes the file, in which no context may be open any more. -/
def finish (stack : ScopeStack) (filename : Option String) : Except ScopeImbalance Unit :=
  if stack.depth = 0 then .ok () else .error (.leftOpen stack.depth filename)

theorem pop_push (stack : ScopeStack) (entry : ScopeEntry) : (stack.push entry).pop = .ok (entry, stack) := rfl

theorem depth_push (stack : ScopeStack) (entry : ScopeEntry) : (stack.push entry).depth = stack.depth + 1 := rfl

end ScopeStack
end SymbolDocs
