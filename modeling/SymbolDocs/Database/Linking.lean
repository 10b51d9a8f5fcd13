import SymbolDocs.Database.Ancestry

/-!
# Linking doclets

Once all doclets are there, `Linking.linkAll` links them: borrowed symbols are documented a second time, events
learn their listeners, and the names of mixins and of extended symbols become longnames. Each step looks for what it
would add before it adds it.
-/

namespace SymbolDocs

/-- A database with the reporter of the problems found in it. -/
structure Linking where
  database : Database
  reporter : Reporter

namespace Linking

/-- What messages and keys call a longname that may be missing. -/
def shown (longname : Option String) : String := longname.getD "None"

/-- Reports a link to a symbol that is not documented, once for each key. -/
def reportDangling (l : Linking) (d : Doclet) (key relation target : String) (severity : Option Severity) : Linking :=
  { l with
    reporter := l.reporter.reportOnce key (.danglingReference relation (d.longname.getD "") target) d.location
      severity }

/-- Changes the doclet at a position. -/
def modify (l : Linking) (position : Nat) (f : Doclet → Doclet) : Linking :=
  { l with database := l.database.modify position f }

/-! ## Borrowed symbols -/

/-- What the longname of a borrowed symbol keeps in front of its name: the kind, if it is there in the source. -/
def borrowLabel (source : Doclet) : String :=
  let label := NamePath.kindLabel source.kind
  if !label.isEmpty && Text.startsWith (NamePath.split (source.longname.getD "")).2.2 label then label else ""

/-- The doclet of a borrowed symbol. A target that starts with `this.` is an instance member. -/
def borrowedCopy (source borrower : Doclet) (target : String) : Doclet :=
  let (name, scope) := match Text.after? target "this." with
    | some name => (name, Scope.perInstance)
    | none => (target, Scope.static)
  { source with
    name := some name
    memberof := borrower.longname
    scope := some scope
    longname := some (NamePath.compose name borrower.longname (some scope) (borrowLabel source))
    borrowedFrom := source.longname
    declared := {}
    borrowed := []
    listeners := []
    state := .crossReferenced }

/-- The target of a request: the stated one, else the name of the source, else what the source is called. -/
def borrowTarget (source : Doclet) (request : Borrow) : String :=
  ((nonempty request.target).or (nonempty source.name)).getD request.source

/-- How a doclet records a request that was fulfilled. -/
def borrowRecord (source : Doclet) (request : Borrow) : Borrow :=
  { source := request.source, target := some (borrowTarget source request) }

/-- Fulfils one request of the doclet at a position. -/
def linkBorrow (position : Nat) (l : Linking) (request : Borrow) : Linking :=
  match l.database.doclets[position]? with
  | none => l
  | some borrower =>
    match l.database.get request.source with
    | [] => l.reportDangling borrower (shown borrower.longname ++ "->" ++ request.source) "borrows" request.source none
    | source :: _ =>
      let record := borrowRecord source request
      if borrower.borrowed.contains record then l
      else
        let copy := borrowedCopy source borrower (borrowTarget source request)
        let added : Linking := { l with database := l.database.add copy }
        added.modify position fun d => { d with borrowed := d.borrowed ++ [record] }

/-- Fulfils the requests of the doclet at a position. -/
def linkBorrows (l : Linking) (position : Nat) : Linking :=
  match l.database.doclets[position]? with
  | none => l
  | some d => d.declared.borrows.foldl (linkBorrow position) l

/-! ## Listeners -/

/-- Whether a doclet is an event with a longname. -/
def isEvent (longname : String) (d : Doclet) : Bool := d.longname = some longname && d.kind = some "event"

/-- The doclet with a listener, if it does not have it. -/
def addListener (listener : String) (d : Doclet) : Doclet :=
  if d.listeners.contains listener then d else { d with listeners := d.listeners ++ [listener] }

/-- Tells an event that a doclet listens to it. -/
def linkListener (listener : Doclet) (l : Linking) (event : String) : Linking :=
  if l.database.doclets.any (isEvent event) then
    match nonempty listener.longname with
    | some longname =>
      { l with
        database := l.database.mapDoclets fun d => if isEvent event d then addListener longname d else d }
    | none => l
  else
    l.reportDangling listener (shown listener.longname ++ "->" ++ event) "listens to" event (some .debug)

/-- Tells the events of the doclet at a position that it listens. -/
def linkListeners (l : Linking) (position : Nat) : Linking :=
  match l.database.doclets[position]? with
  | none => l
  | some d => d.listens.foldl (linkListener d) l

/-! ## Mixins and extended symbols -/

/-- The relations whose names are resolved. -/
inductive Relation where
  | mixes | augments
  deriving DecidableEq, Repr

/-- The word for a relation. -/
def Relation.word : Relation → String
  | .mixes => "mixes"
  | .augments => "augments"

/-- The names that the tags of a doclet state. -/
def Relation.declared (d : Doclet) : Relation → List String
  | .mixes => d.declared.mixes
  | .augments => d.declared.augments

/-- The doclet with a resolved longname, if it does not have it. -/
def Relation.add (longname : String) (d : Doclet) : Relation → Doclet
  | .mixes => if d.mixes.contains longname then d else { d with mixes := d.mixes ++ [longname] }
  | .augments => if d.augments.contains longname then d else { d with augments := d.augments ++ [longname] }

/-- The longname that a stated name means: itself or its normal form, whichever is documented. -/
def meaning? (db : Database) (name : String) : Option String :=
  if !(db.get name).isEmpty then some name
  else if !(db.get (NamePath.normalize name)).isEmpty then some (NamePath.normalize name)
  else none

/-- Resolves a name that the tags of the doclet at a position state. -/
def linkName (relation : Relation) (position : Nat) (l : Linking) (name : String) : Linking :=
  match l.database.doclets[position]? with
  | none => l
  | some d =>
    match meaning? l.database name with
    | some longname => l.modify position (relation.add longname)
    | none =>
      let key := shown d.longname ++ "-" ++ relation.word ++ "->" ++ name
      (l.reportDangling d key relation.word name (some .debug)).modify position (relation.add name)

/-- Resolves the names of one relation for the doclet at a position. -/
def linkRelation (relation : Relation) (l : Linking) (position : Nat) : Linking :=
  match l.database.doclets[position]? with
  | none => l
  | some d => (relation.declared d).foldl (linkName relation position) l

/-- Resolves the names of both relations for the doclet at a position. -/
def linkRelations (l : Linking) (position : Nat) : Linking :=
  linkRelation .augments (linkRelation .mixes l position) position

/-! ## All links -/

/-- The doclet in the state that follows linking. -/
def finishState (d : Doclet) : Doclet :=
  if d.state = .nameResolved then { d with state := .crossReferenced } else d

/-- The positions of the doclets. -/
def positions (l : Linking) : List Nat := List.range l.database.size

/-- Links all doclets. Borrowed symbols come first, so that their doclets listen like their sources. -/
def linkAll (l : Linking) : Linking :=
  let size := l.database.size
  let note := "Resolving cross references for " ++ toString size ++ " doclets"
  let l := { l with reporter := l.reporter.note .debug "xref" note }
  let l := l.positions.foldl linkBorrows l
  let l := l.positions.foldl linkListeners l
  let l := l.positions.foldl linkRelations l
  { l with database := l.database.mapDoclets finishState }

end Linking
end SymbolDocs
