import SymbolDocs.Scope.Stack
import SymbolDocs.TypeExpr.Token

/-!
# Problems

What can be wrong with comments and their place in the code. Every problem has a code, a usual severity and a
message.
-/

namespace SymbolDocs

open SymbolDocs.Text

/-- How severe a problem is. -/
inductive Severity where
  | fatal | error | warning | info | debug
  deriving DecidableEq, Repr

namespace Severity

/-- All severities, the most severe one first. -/
def all : List Severity := [.fatal, .error, .warning, .info, .debug]

/-- The word for a severity. -/
def word : Severity → String
  | .fatal => "fatal"
  | .error => "error"
  | .warning => "warning"
  | .info => "info"
  | .debug => "debug"

/-- The severity that a word names. -/
def ofWord? (word : String) : Option Severity := all.find? (·.word == word)

end Severity

/-- Something that is wrong. -/
inductive Problem where
  /-- A tag that the dictionary does not know. -/
  | unknownTag (title : String)
  /-- A tag whose value does not have the form that its definition asks for. -/
  | tagValue (title detail : String) (construct : Option String)
  /-- A type that cannot be read. -/
  | typeExpression (expression detail : String) (position : Option Int)
  /-- A link to a symbol that is not documented. -/
  | danglingReference (relation source target : String)
  /-- A chain of owners that comes back to itself. -/
  | cyclicAncestry (longname repeated : String)
  /-- Scope entries and exits that do not pair up. -/
  | scopeImbalance (text : String)
  /-- A doclet that is built out of order. -/
  | lifecycle (text : String)
  | other (text : String)
  deriving DecidableEq, Repr

namespace Problem

/-- The code of a problem. -/
def code : Problem → String
  | .unknownTag .. => "unknown-tag"
  | .tagValue .. => "tag-value"
  | .typeExpression .. => "type-expression"
  | .danglingReference .. => "dangling-reference"
  | .cyclicAncestry .. => "cyclic-ancestry"
  | .scopeImbalance .. => "scope-imbalance"
  | .lifecycle .. => "lifecycle"
  | .other .. => "doclet-error"

/-- How severe a problem is unless it is reported otherwise. -/
def severity : Problem → Severity
  | .unknownTag .. => .error
  | .tagValue .. => .warning
  | .typeExpression .. => .warning
  | .danglingReference .. => .warning
  | .cyclicAncestry .. => .warning
  | .scopeImbalance .. => .fatal
  | .lifecycle .. => .fatal
  | .other .. => .error

/-- The wording of a problem. -/
def message : Problem → String
  | .unknownTag title => "The @" ++ title ++ " tag is not a known tag."
  | .tagValue title detail construct =>
    let place := match construct with
      | some name => if name.isEmpty then "" else " on " ++ name
      | none => ""
    "The @" ++ title ++ " tag" ++ place ++ " " ++ detail ++ "."
  | .typeExpression expression detail position =>
    let place := match position with
      | some offset => " at offset " ++ toString offset
      | none => ""
    "Unable to parse type expression " ++ quoted expression ++ place ++ ": " ++ detail
  | .danglingReference relation source target =>
    source ++ " " ++ relation ++ " " ++ target ++ ", which is not documented."
  | .cyclicAncestry longname repeated =>
    "The ancestry of " ++ longname ++ " loops back to " ++ repeated ++ "; the chain was truncated."
  | .scopeImbalance text => text
  | .lifecycle text => text
  | .other text => text

/-- The problem that an expression cannot be read as a type. -/
def ofTypeFault (expression : String) (fault : TypeExpr.Fault) : Problem :=
  .typeExpression expression fault.detail (some fault.pos)

/-- The problem that scope entries and exits do not pair up. -/
def ofImbalance (imbalance : ScopeImbalance) : Problem := .scopeImbalance imbalance.message

end Problem
end SymbolDocs
