import SymbolDocs.Scope.Basic
import SymbolDocs.Tag.Value

/-!
# Doclets

A doclet is the record of one documented symbol: its name and place, what its tags say about it, and its links to
other symbols. Besides the fields it keeps which of its names were given by explicit tags.
-/

namespace SymbolDocs

/-- How far the construction of a doclet has come. -/
inductive DocletState where
  | created | tagsApplied | nameResolved | crossReferenced | pruned | rendered
  deriving DecidableEq, Repr

namespace DocletState

/-- All states, in their order. -/
def all : List DocletState := [.created, .tagsApplied, .nameResolved, .crossReferenced, .pruned, .rendered]

/-- The word for a state. -/
def word : DocletState → String
  | .created => "created"
  | .tagsApplied => "tags_applied"
  | .nameResolved => "name_resolved"
  | .crossReferenced => "cross_referenced"
  | .pruned => "pruned"
  | .rendered => "rendered"

/-- The state that a word names. -/
def ofWord? (word : String) : Option DocletState := all.find? (·.word == word)

end DocletState

/-- Who may use a symbol. -/
inductive Access where
  | packageLevel | privateLevel | protectedLevel | publicLevel
  deriving DecidableEq, Repr

/-- All access levels. -/
def Access.all : List Access := [.packageLevel, .privateLevel, .protectedLevel, .publicLevel]

/-- The word for an access level. -/
def Access.word : Access → String
  | .packageLevel => "package"
  | .privateLevel => "private"
  | .protectedLevel => "protected"
  | .publicLevel => "public"

/-- A request to document a symbol a second time as a member of another one, or the result of the request. -/
structure Borrow where
  source : String
  target : Option String := none
  deriving DecidableEq, Repr

/-- The links that the tags of a doclet ask for. -/
structure Declared where
  augments : List String := []
  mixes : List String := []
  borrows : List Borrow := []
  deriving DecidableEq, Repr

/-- Whether the tags ask for no link. -/
def Declared.isEmpty (d : Declared) : Bool := d.augments.isEmpty && d.mixes.isEmpty && d.borrows.isEmpty

/-- Where a doclet comes from. -/
structure Origin where
  filename : Option String := none
  lineno : Option Int := none
  codeName : Option String := none
  codeType : Option String := none
  codeValue : Option String := none
  defaultExport : Bool := false
  deriving DecidableEq, Repr

/-- A yes or no, or the value of a tag. -/
inductive Datum where
  | flag (b : Bool)
  | value (v : TagValue)

/-- The record of one symbol. -/
structure Doclet where
  name : Option String := none
  longname : Option String := none
  kind : Option String := none
  scope : Option Scope := none
  memberof : Option String := none
  description : Option String := none
  summary : Option String := none
  classdesc : Option String := none
  /-- Tags without effect on any other field. -/
  tags : List Tag := []
  params : List TagValue := []
  properties : List TagValue := []
  returns : List TagValue := []
  yields : List TagValue := []
  exceptions : List TagValue := []
  type : Option TypeSpec := none
  access : Option String := none
  virtual : Option Bool := none
  readonly : Option Bool := none
  nullable : Option Bool := none
  undocumented : Bool := false
  ignore : Bool := false
  listens : List String := []
  listeners : List String := []
  fires : List String := []
  borrowed : List Borrow := []
  borrowedFrom : Option String := none
  mixes : List String := []
  augments : List String := []
  implements : List TagValue := []
  author : List TagValue := []
  see : List TagValue := []
  examples : List TagValue := []
  todo : List TagValue := []
  requires : List TagValue := []
  tutorials : List TagValue := []
  templates : List String := []
  since : Option String := none
  version : Option String := none
  deprecated : Option Datum := none
  aliasOf : Option String := none
  lends : Option String := none
  variation : Option String := none
  defaultValue : Option String := none
  isEnum : Bool := false
  override : Option Bool := none
  inheritdoc : Option String := none
  receiver : Option String := none
  license : Option String := none
  copyright : Option String := none
  async : Option Bool := none
  generator : Option Bool := none
  hideconstructor : Option Bool := none
  /-- A set of words. -/
  modifiers : List String := []
  origin : Origin := {}
  comment : String := ""
  declared : Declared := {}
  state : DocletState := .created
  /-- The name was set by a tag that names the symbol absolutely. -/
  explicitName : Bool := false
  /-- The name was given along with the kind. -/
  taggedName : Bool := false
  explicitMemberof : Bool := false
  explicitScope : Bool := false

/-- The name of a symbol without a name. -/
def nameless : String := "<anonymous>"

/-- What the longname of a module starts with. -/
def modulePrefix : String := "module:"

/-- A text that may be missing, where the empty text counts as missing. -/
def nonempty (s : Option String) : Option String := s.filter (!·.isEmpty)

namespace Doclet

/-- Sets the name as a tag that names the symbol absolutely does. -/
def withStatedName (d : Doclet) (name : String) : Doclet := { d with name := some name, explicitName := true }

/-- Sets the name as a tag that also states the kind does. -/
def tagName (d : Doclet) (name : String) : Doclet := { d with name := some name, taggedName := true }

/-- Sets the owner by a tag. -/
def withStatedOwner (d : Doclet) (owner : String) : Doclet :=
  { d with memberof := some owner, explicitMemberof := true }

/-- Sets the scope by a tag. -/
def withStatedScope (d : Doclet) (scope : Scope) : Doclet := { d with scope := some scope, explicitScope := true }

/-- Adds a tag that has no effect on any field. -/
def withTag (d : Doclet) (tag : Tag) : Doclet := { d with tags := d.tags ++ [tag] }

/-- What messages call the symbol. -/
def construct (d : Doclet) : Option String := (nonempty d.longname).or d.name

end Doclet
end SymbolDocs
