import SymbolDocs.Naming.Placement
import SymbolDocs.Proofs.Grammar.Lookup
import SymbolDocs.Proofs.NamePath.Splitting

/-!
# Three spellings of one member

A member can be named in three ways: by its own name inside the open context of its owner, by its whole path, and by
its own name with its owner stated beside it. `Doclet.resolve_spellings` says that all three give it the same name,
owner, scope and longname, although each goes through rules of its own (`placement_in_context`, `placement_of_path`
and `placement_in_owner`).
-/

namespace SymbolDocs

open SymbolDocs.Text SymbolDocs.NamePath SymbolDocs.Naming

/-! ## Members -/

/-- A name below an owner, such that their path can be taken apart again. -/
structure Member where
  owner : String
  scope : Scope
  name : String
  scope_separates : scope = .static ∨ scope = .perInstance ∨ scope = .inner
  owner_ne_empty : owner ≠ ""
  owner_oneLine : '\n' ∉ owner.toList
  owner_isTop : (Nesting.read {} owner.toList).isTop
  owner_last : ∀ c, owner.toList.getLast? = some c → isSeparator c = false
  owner_not_global : owner ∉ globalOwners
  name_ne_empty : name ≠ ""
  name_unseparated : Unseparated name.toList
  path_normal :
    NamePath.normalize (owner ++ separator (some scope) ++ name) = owner ++ separator (some scope) ++ name

namespace Member

/-- The path of the member. -/
def path (m : Member) : String := m.owner ++ separator (some m.scope) ++ m.name

/-- The open context that the member belongs to. -/
def entry (m : Member) : ScopeEntry := { kind := m.scope, owner := some m.owner }

/-- The owner as a tag states it: static members need no separator behind it. -/
def ownerText (m : Member) : String :=
  match m.scope with
  | .static => m.owner
  | _ => m.owner ++ separator (some m.scope)

variable (m : Member)

theorem owner_toList_ne_nil : m.owner.toList ≠ [] := by simpa using m.owner_ne_empty

/-- The member has one separator, which stands between its owner and its name. -/
theorem exists_separator :
    ∃ sep, isSeparator sep ∧ Scope.ofPunctuation? sep = some m.scope ∧ (separator (some m.scope)).toList = [sep] ∧
      m.path.toList = m.owner.toList ++ sep :: m.name.toList := by
  obtain ⟨sep, hsep, hp⟩ := exists_punctuation m.scope_separates
  have hs : (separator (some m.scope)).toList = [sep] := by
    rw [← hp]
    exact String.toList_ofList
  refine ⟨sep, Option.isSome_iff_exists.2 ⟨m.scope, hsep⟩, hsep, hs, ?_⟩
  rw [path, String.toList_append, String.toList_append, hs, List.append_assoc, List.singleton_append]

theorem normal_path : Normal m.path.toList := by
  have h := congrArg String.toList m.path_normal
  rw [NamePath.normalize, String.toList_ofList] at h
  exact h

/-- The name of the member is no path. -/
theorem isNested_name : isNested m.name = false := isNestedChars_of_unseparated m.name_unseparated

/-- The name of the member does not start with a text that ends in a separator outside quotes and brackets. -/
theorem after?_name {lead : String} {sep : Char} {before : List Char} (hl : lead.toList = before ++ [sep])
    (htop : (Nesting.read {} before).isTop) (hsep : isSeparator sep) : after? m.name lead = none := by
  have hp : ¬ startsWith m.name lead = true := by
    rw [startsWith_iff, hl]
    exact not_prefix_of_unseparated m.name_unseparated htop hsep
  rw [after?, if_neg hp]

/-- The path of the member is split into its owner, scope and name. -/
theorem split_path : split m.path = (some m.owner, some m.scope, m.name) :=
  split_eq_some_iff.2 ⟨m.scope_separates, m.path_normal, m.owner_ne_empty, m.name_ne_empty, m.owner_isTop,
    m.name_unseparated⟩

/-- The path of the member is nested. -/
theorem isNested_path : isNested m.path = true := by
  obtain ⟨sep, hsep, -, -, hp⟩ := m.exists_separator
  have hc := cut_append m.owner_toList_ne_nil m.owner_isTop hsep (unseparated_iff.1 m.name_unseparated)
  rw [isNested, isNestedChars, m.normal_path, hp, hc]
  rfl

/-! ## Its stated owner -/

/-- The prototype word is not at the end of the owner of a static member. -/
theorem not_prototypeWord_owner (h : m.scope = .static) : ¬ prototypeWord <:+ m.owner.toList := by
  have hn := m.normal_path
  rw [show m.path.toList = m.owner.toList ++ '.' :: m.name.toList by simp [path, h, separator, Scope.punctuation]] at hn
  exact not_prototypeWord_before_dot hn

/-- The stated owner says who the owner is, and, for other than static members, how the member belongs to it. -/
theorem splitOwnerChars_ownerText :
    Normal m.ownerText.toList ∧
      splitOwnerChars m.ownerText.toList = (m.owner.toList, if m.scope = .static then none else some m.scope) := by
  obtain ⟨sep, hsep, hscope, hs, hp⟩ := m.exists_separator
  have hn := m.normal_path
  rw [hp] at hn
  by_cases h : m.scope = .static
  · have ht : m.ownerText = m.owner := by rw [ownerText, h]
    have hw := m.not_prototypeWord_owner h
    rw [ht, if_pos h]
    exact ⟨normal_of_append hn m.owner_oneLine hw, splitOwnerChars_eq_self m.owner_oneLine hw m.owner_last⟩
  · have ht : m.ownerText.toList = m.owner.toList ++ [sep] := by
      have : m.ownerText = m.owner ++ separator (some m.scope) := by
        unfold ownerText
        split
        · next hstatic => exact absurd hstatic h
        · rfl
      rw [this, String.toList_append, hs]
    have hbreak : '\n' ∉ m.owner.toList ++ [sep] := by
      rw [List.mem_append, List.mem_singleton]
      rintro (hm | rfl)
      · exact m.owner_oneLine hm
      · cases hsep
    rw [List.append_cons] at hn
    rw [ht, if_neg h]
    refine ⟨normal_of_append hn hbreak (not_prototypeWord_suffix _ hsep), ?_⟩
    rw [splitOwnerChars_append m.owner_toList_ne_nil hsep, hscope]

theorem normalize_ownerText : normalize m.ownerText = m.ownerText := by
  rw [NamePath.normalize, show normalizeChars _ = _ from m.splitOwnerChars_ownerText.1, String.ofList_toList]

theorem splitOwner_ownerText :
    splitOwner m.ownerText = (m.owner, if m.scope = .static then none else some m.scope) := by
  rw [splitOwner, m.splitOwnerChars_ownerText.2]
  simp only [String.ofList_toList]

/-- The stated owner does not say that the symbol is global. -/
theorem ownerText_not_global : globalOwners.contains m.ownerText = false := by
  rw [List.contains_eq_mem, decide_eq_false_iff_not]
  intro hm
  have hs := m.splitOwnerChars_ownerText.2
  -- Without a separator at its end the text is the owner itself.
  have heq : m.ownerText = m.owner := by
    have : splitOwnerChars m.ownerText.toList = (m.ownerText.toList, none) := by
      rcases List.mem_cons.1 hm with h | h
      · rw [h]; decide
      · rw [List.mem_singleton.1 h]; decide
    rw [this] at hs
    exact String.toList_injective (Prod.mk.inj hs).1
  exact m.owner_not_global (heq ▸ hm)

/-- The name of the member has no owner in front. -/
theorem dropOwner_name : dropOwner m.owner m.name = m.name := by
  have hnone (sep : Char) (hsep : isSeparator sep) : after? m.name (m.owner ++ String.singleton sep) = none :=
    m.after?_name (by simp) m.owner_isTop hsep
  have hdot : after? m.name (m.owner ++ ".") = none := hnone '.' rfl
  have hhash : after? m.name (m.owner ++ "#") = none := hnone '#' rfl
  have htilde : after? m.name (m.owner ++ "~") = none := hnone '~' rfl
  simp [dropOwner, hdot, hhash, htilde]

end Member

/-! ## Doclets that nothing places -/

namespace Doclet

variable {R : Type} {dict : Dictionary R} {stack : ScopeStack} {d : Doclet}

/-- The doclet under a name that the code gives it. -/
def named (d : Doclet) (name : String) : Doclet := { d with name := some name }

/-- A doclet of which nothing says where it belongs: no tag, no scope in the code, and no export as a whole. -/
structure Unplaced (d : Doclet) : Prop where
  awaitsName : d.awaitsName = true
  not_explicitName : d.explicitName = false
  not_taggedName : d.taggedName = false
  not_explicitMemberof : d.explicitMemberof = false
  not_explicitScope : d.explicitScope = false
  no_scope : d.scope = none
  no_lends : nonempty d.lends = none
  not_defaultExport : d.origin.defaultExport = false

theorem Unplaced.named (hd : d.Unplaced) (name : String) : (d.named name).Unplaced :=
  ⟨hd.1, hd.2, hd.3, hd.4, hd.5, hd.6, hd.7, hd.8⟩

theorem Unplaced.statedScope (hd : d.Unplaced) : Placement.statedScope d = none := by
  simp [Placement.statedScope, hd.not_explicitScope]

/-- A doclet whose tags say nothing about where it belongs. -/
structure Untagged (d : Doclet) : Prop where
  awaitsName : d.awaitsName = true
  not_explicitName : d.explicitName = false
  not_taggedName : d.taggedName = false
  not_explicitMemberof : d.explicitMemberof = false
  not_explicitScope : d.explicitScope = false
  no_lends : nonempty d.lends = none

theorem Unplaced.untagged (hd : d.Unplaced) : d.Untagged :=
  ⟨hd.awaitsName, hd.not_explicitName, hd.not_taggedName, hd.not_explicitMemberof, hd.not_explicitScope, hd.no_lends⟩

/-- Without tags and if it is not exported as a whole, a doclet is placed by the open contexts. -/
theorem Untagged.placement (hd : d.Untagged) (hk : isRootKind dict d.kind = false)
    (hx : d.origin.defaultExport = false) :
    Naming.placement dict stack d = placeInScope stack d (givenName d) (label dict d) := by
  simp [Naming.placement, hk, hx, hd.not_explicitMemberof, hd.not_explicitName, hd.not_taggedName,
    hd.not_explicitScope, hd.no_lends]

/-- A doclet that nothing places is placed by the open contexts. -/
theorem Unplaced.placement (hd : d.Unplaced) (hk : isRootKind dict d.kind = false) :
    Naming.placement dict stack d = placeInScope stack d (givenName d) (label dict d) :=
  hd.untagged.placement hk hd.not_defaultExport

/-- A stated owner places a doclet that nothing else places. -/
theorem Unplaced.placement_withStatedOwner (hd : d.Unplaced) (hk : isRootKind dict d.kind = false) {owner : String}
    (ho : owner ≠ "") :
    Naming.placement dict stack (d.withStatedOwner owner) =
      placeInOwner (d.withStatedOwner owner) owner (givenName d) (label dict d) := by
  have hn : nonempty (d.withStatedOwner owner).memberof = some owner := by simp [withStatedOwner, nonempty, ho]
  have hx : (d.withStatedOwner owner).origin.defaultExport = false := hd.not_defaultExport
  have hk' : isRootKind dict (d.withStatedOwner owner).kind = false := hk
  have he : (d.withStatedOwner owner).explicitMemberof = true := rfl
  simp only [Naming.placement, hk', hx, he, if_true, hn, Bool.false_eq_true, if_false]
  rfl

theorem givenName_named {name : String} (h : name ≠ "") : givenName (d.named name) = name := by
  have hn : nonempty (d.named name).name = some name := by simp [named, nonempty, h]
  rw [givenName, hn, Option.getD_some]

/-- The name, owner, scope and longname of a doclet. -/
def place? (d : Doclet) : Option String × Option String × Option Scope × Option String :=
  (d.name, d.memberof, d.scope, d.longname)

/-- Resolving a doclet gives it its placement. -/
theorem map_resolve {p : Placement} (ha : d.awaitsName = true) (hp : Naming.placement dict stack d = p) :
    (d.resolve dict stack).map place? =
      .ok (some p.name, p.memberof, p.scope, some (addVariation p.longname d.variation)) := by
  rw [resolve, if_pos ha, ← hp]
  rfl

end Doclet

/-! ## Placing the member -/

namespace Member

variable {R : Type} {dict : Dictionary R} {d : Doclet} (m : Member)

theorem path_ne_empty : m.path ≠ "" := by
  intro h
  obtain ⟨sep, -, -, -, hp⟩ := m.exists_separator
  rw [h] at hp
  exact m.owner_toList_ne_nil (List.append_eq_nil_iff.1 hp.symm).1

theorem ownerText_ne_empty : m.ownerText ≠ "" := by
  intro h
  have := m.splitOwnerChars_ownerText.2
  rw [h] at this
  exact m.owner_toList_ne_nil (Prod.mk.inj this).1.symm

theorem memberScope_scope : memberScope m.scope = m.scope := by
  rcases m.scope_separates with h | h | h <;> rw [h] <;> rfl

/-- Inside the open context of its owner the member is placed by its name. -/
theorem placement_in_context (hd : d.Unplaced) (hk : isRootKind dict d.kind = false) (outer : ScopeStack) :
    Naming.placement dict (outer.push m.entry) (d.named m.name) =
      .ofMember (some m.owner) (some m.scope) m.name (label dict d) := by
  have howner : ownerEntry? (outer.push m.entry) = some (m.owner, m.scope) := by
    have : m.entry.namedOwner? = some m.owner := by simp [ScopeEntry.namedOwner?, entry, m.owner_ne_empty]
    unfold ownerEntry?
    simp only [ScopeStack.innermost, ScopeStack.push, List.cons_append, List.findSome?_cons, this]
    rfl
  have hexport : exportHeads.findSome? (after? m.name ·) = none := by
    have h1 : after? m.name "module.exports." = none :=
      m.after?_name (show _ = "module.exports".toList ++ ['.'] from rfl) rfl rfl
    have h2 : after? m.name "exports." = none := m.after?_name (show _ = "exports".toList ++ ['.'] from rfl) rfl rfl
    simp [exportHeads, h1, h2]
  have hthis : after? m.name "this." = none := m.after?_name (show _ = "this".toList ++ ['.'] from rfl) rfl rfl
  have hcode (scope : Option Scope) (moduleOwner : Option String) :
      (CodeName.resolveExport ⟨m.name, some (m.owner, m.scope), scope⟩ moduleOwner).resolveThis =
        ⟨m.name, some (m.owner, m.scope), scope⟩ := by
    cases moduleOwner <;> simp [CodeName.resolveExport, CodeName.resolveThis, hexport, hthis]
  have hscope : (d.named m.name).scope = none := hd.no_scope
  rw [(hd.named m.name).placement hk, Doclet.givenName_named m.name_ne_empty, placeInScope]
  simp only [howner, hcode, hscope, Option.getD_none, m.memberScope_scope, Placement.below, m.isNested_name]
  rfl

/-- Outside every context the member is placed by its path. -/
theorem placement_of_path (hd : d.Unplaced) (hk : isRootKind dict d.kind = false) :
    Naming.placement dict {} (d.named m.path) =
      .ofMember (some m.owner) (some m.scope) m.name (label dict d) := by
  have hcode (scope : Option Scope) :
      (CodeName.resolveExport ⟨m.path, none, scope⟩ none).resolveThis = ⟨m.path, none, scope⟩ := rfl
  rw [(hd.named m.path).placement hk, Doclet.givenName_named m.path_ne_empty, placeInScope]
  simp only [show ownerEntry? {} = none from rfl, show moduleOwner? {} = none from rfl, hcode, m.isNested_path,
    if_true, Placement.ofPath, m.split_path, (hd.named m.path).statedScope, Option.none_or]
  rfl

/-- Whatever contexts are open, the member is placed by its stated owner. -/
theorem placement_in_owner (hd : d.Unplaced) (hk : isRootKind dict d.kind = false) (stack : ScopeStack) :
    Naming.placement dict stack ((d.named m.name).withStatedOwner m.ownerText) =
      .ofMember (some m.owner) (some m.scope) m.name (label dict d) := by
  have hstated : Placement.statedScope ((d.named m.name).withStatedOwner m.ownerText) = none :=
    (hd.named m.name).statedScope
  have hscope : (if m.scope = .static then none else some m.scope : Option Scope).getD .static = m.scope := by
    split
    · next h => rw [h]; rfl
    · rfl
  rw [(hd.named m.name).placement_withStatedOwner hk m.ownerText_ne_empty, Doclet.givenName_named m.name_ne_empty,
    placeInOwner]
  simp only [m.ownerText_not_global, m.normalize_ownerText, m.splitOwner_ownerText, m.dropOwner_name, hstated,
    Option.none_or, hscope, Placement.below, m.isNested_name]
  rfl

end Member

namespace Doclet

/-- **A member gets the same name, owner, scope and longname from its name inside the open context of its owner, from
its path outside every context, and from its name with its owner stated.** -/
theorem resolve_spellings {R : Type} (dict : Dictionary R) (m : Member) {d : Doclet} (hd : d.Unplaced)
    (hk : isRootKind dict d.kind = false) (outer stack : ScopeStack) :
    let short := dropLabel m.name (label dict d)
    let longname := addVariation (compose short (some m.owner) (some m.scope) (label dict d)) d.variation
    let place := (some short, some m.owner, some m.scope, some longname)
    ((d.named m.name).resolve dict (outer.push m.entry)).map place? = .ok place ∧
      ((d.named m.path).resolve dict {}).map place? = .ok place ∧
      (((d.named m.name).withStatedOwner m.ownerText).resolve dict stack).map place? = .ok place := by
  have hcontext := map_resolve (d := d.named m.name) hd.awaitsName (m.placement_in_context hd hk outer)
  have hpath := map_resolve (d := d.named m.path) hd.awaitsName (m.placement_of_path hd hk)
  have howner := map_resolve (d := (d.named m.name).withStatedOwner m.ownerText) hd.awaitsName
    (m.placement_in_owner hd hk stack)
  exact ⟨hcontext, hpath, howner⟩

/-- The event `change` of the instances of `Foo`. -/
def fooChange : Member where
  owner := "Foo"
  scope := .perInstance
  name := "change"
  scope_separates := .inr (.inl rfl)
  owner_ne_empty := by decide
  owner_oneLine := by decide
  owner_isTop := by decide
  owner_last := by
    intro c hc
    obtain rfl : 'o' = c := Option.some.inj hc
    rfl
  owner_not_global := by decide
  name_ne_empty := by decide
  name_unseparated := by decide
  path_normal := by decide +kernel

theorem resolve_spellings_event :
    let dict := Grammar.jsdoc.dictionary
    let d : Doclet := { kind := some "event" }
    let place := (some "change", some "Foo", some Scope.perInstance, some "Foo#event:change")
    d.Unplaced ∧ isRootKind dict d.kind = false ∧
      ((d.named "change").resolve dict { entries := [⟨.perInstance, some "Foo"⟩] }).map place? = .ok place ∧
      ((d.named "Foo#change").resolve dict {}).map place? = .ok place ∧
      (((d.named "change").withStatedOwner "Foo#").resolve dict {}).map place? = .ok place := by
  have hd : ({ kind := some "event" } : Doclet).Unplaced := ⟨rfl, rfl, rfl, rfl, rfl, rfl, rfl, rfl⟩
  -- Events are no namespaces, but their longnames start with their kind.
  have hkind : Grammar.jsdoc.dictionary.opensNamespace (some "event") = false ∧
      Grammar.jsdoc.dictionary.marksLongname (some "event") = true := by
    rw [Grammar.jsdoc_dictionary_eq]
    decide +kernel
  have hk : isRootKind Grammar.jsdoc.dictionary (some "event") = false := by
    rw [isRootKind, hkind.1, Bool.false_and, Bool.or_false]
    decide
  have hlabel : label Grammar.jsdoc.dictionary { kind := some "event" } = "event:" := by
    rw [label, if_pos hkind.2]
    decide
  have h := resolve_spellings Grammar.jsdoc.dictionary fooChange hd hk {} {}
  rw [hlabel] at h
  exact ⟨hd, hk, h⟩

end Doclet
end SymbolDocs
