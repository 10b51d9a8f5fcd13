import SymbolDocs.Proofs.Naming.StatedScopes

/-!
# Constructs that lose their owner

Inside open contexts of which one has an owner, a construct has an owner, a scope and a name below the owner, whatever
it is called in the code (`Naming.exists_codePlace?`). A name that is no path is put below the owner as it is. A name
that is a path is joined to the owner first, and the whole path is split again. The owner is lost there if the path is
`Undivided`: it ends in a separator, as with the prototype word, or an open quote or bracket of the owner hides every
separator. `Doclet.memberof_resolve_eq_none_iff` says that there is no other way out.
-/

namespace SymbolDocs

open SymbolDocs.Text SymbolDocs.NamePath SymbolDocs.Naming

/-! ## Undivided paths -/

namespace NamePath

variable {path : String}

/-- The text has no separator outside quotes and brackets, except at its start. -/
def Hidden (cs : List Char) : Prop :=
  ∀ before sep after, cs = before ++ sep :: after → before ≠ [] → (Nesting.read {} before).isTop →
    isSeparator sep = false

/-- The text ends in a separator outside quotes and brackets, and does not start with it. -/
def EndsSeparated (cs : List Char) : Prop :=
  ∃ before sep, cs = before ++ [sep] ∧ before ≠ [] ∧ (Nesting.read {} before).isTop ∧ isSeparator sep = true

/-- A path whose normal form has no name behind its last separator, or no separator at all. -/
def Undivided (path : String) : Prop :=
  Hidden (normalizeChars path.toList) ∨ EndsSeparated (normalizeChars path.toList)

/-- A text without a separator behind its first character is not cut. -/
theorem cut_eq_none_iff {cs : List Char} : cut cs = none ↔ Hidden cs := by
  cases cs with
  | nil =>
    refine iff_of_true rfl fun before sep after h => ?_
    cases before <;> cases h
  | cons c cs =>
    rw [cut, Option.map_eq_none_iff, lastCut_eq_none_iff]
    constructor
    · rintro h before sep after heq hne htop
      obtain ⟨b, before, rfl⟩ := List.exists_cons_of_ne_nil hne
      obtain ⟨rfl, rfl⟩ := List.cons.inj heq
      exact h before sep after rfl htop
    · rintro h before sep after rfl htop
      exact h (c :: before) sep after rfl (List.cons_ne_nil c before) htop

/-- Nothing stands behind the cut of a text just if it ends in a separator. -/
theorem cut_eq_nil_iff {cs : List Char} : (∃ before sep, cut cs = some (before, sep, [])) ↔ EndsSeparated cs := by
  constructor
  · rintro ⟨before, sep, h⟩
    obtain ⟨rfl, hne, htop, hsep, -⟩ := cut_eq_some_iff.1 h
    exact ⟨before, sep, rfl, hne, htop, hsep⟩
  · rintro ⟨before, sep, rfl, hne, htop, hsep⟩
    exact ⟨before, sep, cut_append hne htop hsep rfl⟩

/-- **A path is split into no owner just if it is undivided.** -/
theorem split_fst_eq_none_iff : (split path).1 = none ↔ Undivided path := by
  have hparts : (split path).1 = none ↔ (splitChars path.toList).memberof = none := Option.map_eq_none_iff
  rw [hparts, Undivided, ← cut_eq_none_iff, ← cut_eq_nil_iff]
  unfold splitChars
  dsimp only
  generalize cut (normalizeChars path.toList) = parts
  rcases parts with - | ⟨before, sep, after⟩
  · simp
  · cases after <;> simp

instance : Decidable (Undivided path) := decidable_of_iff _ split_fst_eq_none_iff

end NamePath

/-! ## Places in open contexts -/

/-- Where the open contexts put a construct: its owner, how it belongs to it, and its name below the owner. -/
structure CodePlace where
  owner : String
  scope : Scope
  name : String
  deriving DecidableEq, Repr

/-- The path that a place spells. -/
def CodePlace.path (place : CodePlace) : String := place.owner ++ separator (some place.scope) ++ place.name

namespace Naming

variable {stack : ScopeStack} {d : Doclet} {place : CodePlace} {owner name label : String} {scope : Scope}

/-- The place that the open contexts give a construct, if one of them has an owner. -/
def codePlace? (stack : ScopeStack) (d : Doclet) : Option CodePlace :=
  let code := codeName stack (givenName d)
  code.owner.map fun (owner, kind) =>
    { owner, scope := memberScope ((code.scope.or d.scope).getD kind), name := code.name }

theorem ownerEntry?_ne_none (h : ∃ entry ∈ stack.innermost, entry.namedOwner? ≠ none) : ownerEntry? stack ≠ none := by
  obtain ⟨entry, hmem, howner⟩ := h
  intro hnone
  have hentry := List.findSome?_eq_none_iff.1 hnone entry hmem
  exact howner (Option.map_eq_none_iff.1 hentry)

/-- If an open context has an owner, then a construct has a place, whatever it is called. -/
theorem exists_codePlace? (h : ∃ entry ∈ stack.innermost, entry.namedOwner? ≠ none) (d : Doclet) :
    ∃ place, codePlace? stack d = some place := by
  let code : CodeName := { name := givenName d, owner := ownerEntry? stack, scope := none }
  have hexport : (code.resolveExport (moduleOwner? stack)).owner ≠ none := by
    rcases code.resolveExport_cases (moduleOwner? stack) with he | ⟨head, -, rest, owner, -, -, he⟩
    · rw [he]
      exact ownerEntry?_ne_none h
    · rw [he]
      exact Option.some_ne_none _
  have howner : (codeName stack (givenName d)).owner ≠ none := by
    unfold codeName
    rcases (code.resolveExport (moduleOwner? stack)).resolveThis_cases with he | ⟨rest, ho, -, he⟩
    · rw [he]
      exact hexport
    · rw [he]
      exact ho
  obtain ⟨entry, hentry⟩ := Option.ne_none_iff_exists'.1 howner
  exact ⟨_, congrArg (Option.map _) hentry⟩

/-- A construct is placed below its owner in the open contexts. -/
theorem placeInScope_of_codePlace? (h : codePlace? stack d = some place) (label : String) :
    placeInScope stack d (givenName d) label = .below d place.owner place.scope place.name label := by
  obtain ⟨⟨owner, kind⟩, howner, rfl⟩ := Option.map_eq_some_iff.1 h
  unfold placeInScope
  dsimp only
  rw [resolve_eq_codeName]
  dsimp only
  rw [howner]

/-- A member has no owner only if it is named by a path that is split into none. -/
theorem memberof_below_eq_none_iff : (Placement.below d owner scope name label).memberof = none ↔
    isNested name = true ∧ Undivided (owner ++ separator (some scope) ++ name) := by
  unfold Placement.below
  split
  · next hn =>
    rw [← split_fst_eq_none_iff, Placement.ofPath, and_iff_right hn]
    rcases split_cases (owner ++ separator (some scope) ++ name) with hs | ⟨o, s, n, -, -, -, -, hs⟩ <;> rw [hs]
    · exact iff_of_true rfl rfl
    · simp [Placement.ofMember]
  · next hn => exact iff_of_false (Option.some_ne_none _) fun h => hn h.1

end Naming

namespace Doclet

variable {R : Type} {dict : Dictionary R} {stack : ScopeStack} {d : Doclet}

/-- **When a construct loses its owner.** If one of the open contexts has an owner, then a construct of which no tag
says where it belongs has a place below some owner. It keeps this owner if its name below it is no path, and otherwise
it has no owner just if the path of owner and name is undivided. -/
theorem memberof_resolve_eq_none_iff (hd : d.Untagged) (hk : isRootKind dict d.kind = false)
    (hx : d.origin.defaultExport = false) (ho : ∃ entry ∈ stack.innermost, entry.namedOwner? ≠ none) :
    ∃ d' place, d.resolve dict stack = .ok d' ∧ codePlace? stack d = some place ∧
      (d'.memberof = none ↔ isNested place.name = true ∧ Undivided place.path) ∧
      (isNested place.name = false → d'.memberof = some place.owner) := by
  obtain ⟨place, hplace⟩ := exists_codePlace? ho d
  have hresolve : d.resolve dict stack = .ok (d.place dict stack) := by rw [resolve, if_pos hd.awaitsName]
  have hmember : (d.place dict stack).memberof =
      (Placement.below d place.owner place.scope place.name (label dict d)).memberof := by
    rw [Doclet.place, hd.placement hk hx, placeInScope_of_codePlace? hplace]
  refine ⟨_, place, hresolve, hplace, ?_, fun hn => ?_⟩
  · rw [hmember]
    exact memberof_below_eq_none_iff
  · rw [hmember, Placement.below, hn]
    rfl

/-- A member that the code gives some name. -/
def codeMember (name : String) : Doclet := { kind := some "member", name := some name }

/-- A member is placed by the open contexts. -/
theorem codeMember_untagged (name : String) : (codeMember name).Untagged := ⟨rfl, rfl, rfl, rfl, rfl, rfl⟩

theorem isRootKind_codeMember (name : String) : isRootKind Grammar.jsdoc.dictionary (codeMember name).kind = false := by
  have hkind : isRootKind Grammar.jsdoc.dictionary (some "member") = false := by
    rw [Grammar.jsdoc_dictionary_eq]
    decide +kernel
  exact hkind

/-- An exported path inside nameless functions of a module keeps its owner. -/
theorem memberof_resolve_eq_none_iff_exported :
    let d := codeMember "exports.Foo.prototype.bar"
    d.Untagged ∧ isRootKind Grammar.jsdoc.dictionary d.kind = false ∧ d.origin.defaultExport = false ∧
      (∃ entry ∈ namelessInModule.innermost, entry.namedOwner? ≠ none) ∧
      codePlace? namelessInModule d = some ⟨"module:p", .static, "Foo.prototype.bar"⟩ ∧
      ∃ d', d.resolve Grammar.jsdoc.dictionary namelessInModule = .ok d' ∧ d'.memberof ≠ none := by
  intro d
  have hd : d.Untagged := codeMember_untagged _
  have hk : isRootKind Grammar.jsdoc.dictionary d.kind = false := isRootKind_codeMember _
  have ho : ∃ entry ∈ namelessInModule.innermost, entry.namedOwner? ≠ none := by decide
  have hplace : codePlace? namelessInModule d = some ⟨"module:p", .static, "Foo.prototype.bar"⟩ := by decide +kernel
  have hdivided : ¬ Undivided "module:p.Foo.prototype.bar" := by decide +kernel
  obtain ⟨d', place, hresolve, hsome, hiff, -⟩ := memberof_resolve_eq_none_iff hd hk rfl ho
  obtain rfl := Option.some.inj (hplace.symm.trans hsome)
  exact ⟨hd, hk, rfl, ho, hplace, d', hresolve, fun hnone => hdivided (hiff.1 hnone).2⟩

/-- The object that holds the instance members of a class escapes from the module, since its path ends in a separator.
Below an owner with an open quote every path escapes. -/
theorem resolve_escaping :
    let inFile : ScopeStack := { root := some ⟨.inner, some "module:p"⟩ }
    let inQuote : ScopeStack := { entries := [⟨.static, some "it's"⟩] }
    (codeMember "Foo.prototype").Untagged ∧ (codeMember "a.b").Untagged ∧
      isRootKind Grammar.jsdoc.dictionary (some "member") = false ∧
      (∃ entry ∈ inFile.innermost, entry.namedOwner? ≠ none) ∧
      (∃ entry ∈ inQuote.innermost, entry.namedOwner? ≠ none) ∧
      ((codeMember "Foo.prototype").resolve Grammar.jsdoc.dictionary inFile).map place? =
        .ok (some "module:p~Foo#", none, some .global, some "module:p~Foo#") ∧
      ((codeMember "a.b").resolve Grammar.jsdoc.dictionary inQuote).map place? =
        .ok (some "it's.a.b", none, some .global, some "it's.a.b") := by
  refine ⟨codeMember_untagged _, codeMember_untagged _, isRootKind_codeMember "a.b", by decide, by decide, ?_⟩
  rw [Grammar.jsdoc_dictionary_eq]
  decide +kernel

end Doclet
end SymbolDocs
