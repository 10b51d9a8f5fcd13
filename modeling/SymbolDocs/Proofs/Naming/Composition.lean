import SymbolDocs.Naming.Placement
import SymbolDocs.Proofs.Grammar.Lookup
import SymbolDocs.Proofs.NamePath.Splitting

/-!
# Longnames are composed of their parts

Whatever rule places a symbol, the placement is that of a name which fits together with its owner and scope
(`Placement.Fits`): an owner is not empty and has a separator behind it, and a symbol without owner has a name. The one
exception is a symbol that a module exports as a whole (`Naming.placement_cases`). So the longname of a resolved doclet
is the one that its name, owner and scope make, and it starts with the owner and the separator of the scope
(`Doclet.longname_of_resolve`).
-/

namespace SymbolDocs

open SymbolDocs.Text SymbolDocs.NamePath

/-! ## Parts of paths -/

namespace NamePath

variable {path owner name label : String}

theorem normalize_ne_empty (h : path ≠ "") : normalize path ≠ "" :=
  ofList_ne_empty (normalizeChars_ne_nil (by simpa using h))

/-- An owner keeps its name when the scope that it states is taken off, and that scope separates. -/
theorem splitOwnerChars_spec {cs : List Char} (h : cs ≠ []) :
    (splitOwnerChars cs).1 ≠ [] ∧ (splitOwnerChars cs).2 ≠ some .global := by
  unfold splitOwnerChars
  dsimp only
  split
  · next hw =>
    have hle := (List.isSuffixOf_iff_suffix.1 hw).length_le
    split
    · exact ⟨h, by simp⟩
    · next hl =>
      refine ⟨fun ht => ?_, by simp⟩
      have := congrArg List.length ht
      simp only [List.length_take, List.length_nil] at this
      omega
  · split
    · next c c' rest _ =>
      split
      · next scope hs =>
        refine ⟨by simp, ?_⟩
        rintro ⟨⟩
        unfold Scope.ofPunctuation? at hs
        split at hs <;> cases hs
      · exact ⟨h, by simp⟩
    · exact ⟨h, by simp⟩

theorem splitOwner_ne_empty (h : owner ≠ "") : (splitOwner owner).1 ≠ "" :=
  ofList_ne_empty (splitOwnerChars_spec (by simpa using h)).1

theorem splitOwner_ne_global (h : owner ≠ "") : (splitOwner owner).2 ≠ some .global :=
  (splitOwnerChars_spec (by simpa using h)).2

/-- A name with its label in front is not empty, even if the name is nothing but the label. -/
theorem addLabel_dropLabel_ne_empty (h : name ≠ "") : addLabel (dropLabel name label) label ≠ "" := by
  unfold addLabel
  by_cases hl : label = ""
  · subst hl
    have hn : dropLabel name "" = name := rfl
    rw [hn, if_pos (by simp [startsWith])]
    exact h
  · split
    · next hs =>
      intro he
      rw [he, startsWith_iff] at hs
      exact hl (String.toList_injective (List.prefix_nil.1 hs))
    · intro he
      exact hl (String.append_eq_empty_iff.1 he).1

end NamePath

/-! ## Placements by name and owner -/

namespace Placement

/-- A name that fits together with its owner and scope. -/
inductive Fits : Option String → Option Scope → String → Prop
  | outermost {scope : Option Scope} {name : String} (hn : name ≠ "") : Fits none scope name
  | member {owner : String} {scope : Scope} {name : String} (ho : owner ≠ "") (hs : scope ≠ .global) :
      Fits (some owner) (some scope) name

/-- A placement by a name, an owner and a scope that fit together. -/
def ByParts (label : String) (p : Placement) : Prop :=
  ∃ memberof scope name, Fits memberof scope name ∧ p = ofMember memberof scope name label

variable {d : Doclet} {owner name label path : String} {scope : Scope}

theorem byParts_outermost (scope : Option Scope) (label : String) (hn : name ≠ "") :
    (ofMember none scope name label).ByParts label :=
  ⟨_, _, _, .outermost hn, rfl⟩

theorem byParts_member (name label : String) (ho : owner ≠ "") (hs : scope ≠ .global) :
    (ofMember (some owner) (some scope) name label).ByParts label :=
  ⟨_, _, _, .member ho hs, rfl⟩

/-- The scope that tags set separates. -/
theorem statedScope_ne_global (d : Doclet) : statedScope d ≠ some .global := by
  unfold statedScope
  split
  · intro h
    simpa using (Option.filter_eq_some_iff.1 h).2
  · simp

theorem byParts_ofPath (d : Doclet) (label : String) (h : path ≠ "") : (ofPath d path label).ByParts label := by
  unfold ofPath
  rcases split_cases path with hs | ⟨owner, scope, name, ho, -, hscope, -, hs⟩
  · rw [hs]
    exact byParts_outermost _ label (normalize_ne_empty h)
  · rw [hs]
    dsimp only
    have hor : ∃ s, (statedScope d).or (some scope) = some s ∧ s ≠ .global := by
      cases hd : statedScope d with
      | none => exact ⟨scope, rfl, hscope⟩
      | some s => exact ⟨s, rfl, fun he => statedScope_ne_global d (he ▸ hd)⟩
    obtain ⟨s, he, hg⟩ := hor
    rw [he]
    exact byParts_member name label ho hg

theorem byParts_below (d : Doclet) (name label : String) (ho : owner ≠ "") (hs : scope ≠ .global) :
    (below d owner scope name label).ByParts label := by
  unfold below
  split
  · refine byParts_ofPath d label fun he => ?_
    rw [String.append_assoc] at he
    exact ho (String.append_eq_empty_iff.1 he).1
  · exact byParts_member name label ho hs

end Placement

/-! ## Longnames of placements -/

namespace Placement

variable {label owner : String} {p : Placement}

/-- A placement by parts has the longname of its parts. -/
theorem ByParts.longname_eq (h : p.ByParts label) : p.longname = compose p.name p.memberof p.scope label := by
  obtain ⟨memberof, scope, name, -, rfl⟩ := h
  rfl

/-- Below an owner the longname goes on with the separator of the scope. -/
theorem ByParts.owner_prefix (h : p.ByParts label) (hm : p.memberof = some owner) :
    ∃ scope sep, p.scope = some scope ∧ scope.punctuation = [sep] ∧ (sep = '.' ∨ sep = '#' ∨ sep = '~') ∧
      owner.toList ++ [sep] <+: p.longname.toList := by
  obtain ⟨memberof, scope, name, hfits, rfl⟩ := h
  cases hfits with
  | outermost => cases hm
  | @member owner' scope name ho hs =>
    cases hm
    have hlong : (ofMember (some owner) (some scope) name label).longname.toList =
        owner.toList ++ scope.punctuation ++ (addLabel (dropLabel name label) label).toList := by
      simp [ofMember, compose, ho, separator]
    have hsep : ∃ sep, scope.punctuation = [sep] ∧ (sep = '.' ∨ sep = '#' ∨ sep = '~') := by
      cases scope with
      | global => exact absurd rfl hs
      | static => exact ⟨'.', rfl, .inl rfl⟩
      | perInstance => exact ⟨'#', rfl, .inr (.inl rfl)⟩
      | inner => exact ⟨'~', rfl, .inr (.inr rfl)⟩
      | anonymous => exact ⟨'~', rfl, .inr (.inr rfl)⟩
    obtain ⟨sep, hp, hsep⟩ := hsep
    refine ⟨scope, sep, rfl, hp, hsep, ?_⟩
    rw [hlong, hp]
    exact List.prefix_append _ _

theorem ByParts.longname_ne_empty (h : p.ByParts label) : p.longname ≠ "" := by
  cases hm : p.memberof with
  | none =>
    obtain ⟨memberof, scope, name, hfits, rfl⟩ := h
    cases hfits with
    | outermost hn => exact addLabel_dropLabel_ne_empty hn
    | member => cases hm
  | some owner =>
    obtain ⟨scope, sep, -, -, -, hpre⟩ := h.owner_prefix hm
    intro he
    rw [he] at hpre
    simpa using List.prefix_nil.1 hpre

end Placement

/-! ## Rules -/

namespace Naming

open Placement

variable {R : Type} {dict : Dictionary R} {stack : ScopeStack} {name memberof owner : String}

theorem nonempty_eq_some_iff {s : Option String} {t : String} : nonempty s = some t ↔ s = some t ∧ t ≠ "" := by
  simp [nonempty, Option.filter_eq_some_iff]

theorem givenName_ne_empty (d : Doclet) : givenName d ≠ "" := by
  unfold givenName
  cases h : nonempty d.name with
  | none => decide
  | some name => exact (nonempty_eq_some_iff.1 h).2

theorem moduleOwner?_ne_empty (h : moduleOwner? stack = some owner) : owner ≠ "" := by
  obtain ⟨entry, -, he⟩ := List.exists_of_findSome?_eq_some h
  have hs := (Option.filter_eq_some_iff.1 he).2
  rintro rfl
  exact absurd hs (by decide)

theorem ownerEntry?_ne_empty {kind : Scope} (h : ownerEntry? stack = some (owner, kind)) : owner ≠ "" := by
  obtain ⟨entry, -, he⟩ := List.exists_of_findSome?_eq_some h
  obtain ⟨o, ho, heq⟩ := Option.map_eq_some_iff.1 he
  cases heq
  have := (Option.filter_eq_some_iff.1 ho).2
  simpa using this

theorem memberScope_ne_global (scope : Scope) : memberScope scope ≠ .global := by cases scope <;> decide

theorem byParts_placeInOwner (d : Doclet) (label : String) (hm : memberof ≠ "") (hn : name ≠ "") :
    (placeInOwner d memberof name label).ByParts label := by
  unfold placeInOwner
  split
  · exact byParts_outermost _ label hn
  · have ho := splitOwner_ne_empty (normalize_ne_empty hm)
    have hg := splitOwner_ne_global (normalize_ne_empty hm)
    dsimp only
    refine byParts_below d _ label ho fun he => ?_
    cases hd : statedScope d with
    | some s =>
      rw [hd] at he
      exact statedScope_ne_global d (by rw [hd]; exact congrArg some he)
    | none =>
      cases hs : (splitOwner (normalize memberof)).2 with
      | some s =>
        rw [hd, hs] at he
        exact hg (by rw [hs]; exact congrArg some he)
      | none =>
        rw [hd, hs] at he
        cases he

/-- A name in code keeps what is there before an owner is known, and its owner is not empty. -/
def CodeName.Sound (n : CodeName) : Prop :=
  (n.owner = none → n.name ≠ "") ∧ ∀ owner kind, n.owner = some (owner, kind) → owner ≠ ""

theorem CodeName.Sound.resolveExport {n : CodeName} (h : n.Sound) {moduleOwner : Option String}
    (hm : ∀ owner, moduleOwner = some owner → owner ≠ "") : (n.resolveExport moduleOwner).Sound := by
  unfold CodeName.resolveExport
  split
  · exact h
  · next owner =>
    split
    · refine ⟨fun hnone => absurd hnone (Option.some_ne_none _), ?_⟩
      rintro _ _ ⟨⟩
      exact hm _ rfl
    · exact h

theorem CodeName.Sound.resolveThis {n : CodeName} (h : n.Sound) : n.resolveThis.Sound := by
  unfold CodeName.resolveThis
  split
  · next hs _ =>
    refine ⟨fun hnone => ?_, h.2⟩
    rw [show n.owner = none from hnone] at hs
    cases hs
  · exact h

theorem byParts_placeInScope (stack : ScopeStack) (d : Doclet) (label : String) (hn : name ≠ "") :
    (placeInScope stack d name label).ByParts label := by
  have hstart : CodeName.Sound { name, owner := ownerEntry? stack, scope := d.scope } :=
    ⟨fun _ => hn, fun _ _ => ownerEntry?_ne_empty⟩
  have hexport : ∀ owner, moduleOwner? stack = some owner → owner ≠ "" := fun _ => moduleOwner?_ne_empty
  have hcode := (hstart.resolveExport hexport).resolveThis
  unfold placeInScope
  dsimp only
  generalize (CodeName.resolveExport _ _).resolveThis = code at hcode
  split
  · next hnone =>
    split
    · exact byParts_ofPath d label (hcode.1 hnone)
    · exact byParts_outermost _ label (hcode.1 hnone)
  · next owner kind hsome => exact byParts_below d _ label (hcode.2 _ _ hsome) (memberScope_ne_global _)

/-- The module that exports a doclet as a whole, and names it. -/
def exporter? (dict : Dictionary R) (stack : ScopeStack) (d : Doclet) : Option String :=
  if isRootKind dict d.kind then none else if d.origin.defaultExport then moduleOwner? stack else none

/-- **What a placement can be**: that of a module which exports the symbol as a whole, or one by parts. -/
theorem placement_cases (dict : Dictionary R) (stack : ScopeStack) (d : Doclet) :
    (∃ owner, exporter? dict stack d = some owner ∧ owner ≠ "" ∧
      placement dict stack d = { name := owner, memberof := none, scope := none, longname := owner }) ∨
    (exporter? dict stack d = none ∧ (placement dict stack d).ByParts (label dict d)) := by
  have hname := givenName_ne_empty d
  unfold exporter? placement
  dsimp only
  by_cases hk : isRootKind dict d.kind = true
  · rw [if_pos hk, if_pos hk]
    exact .inr ⟨rfl, byParts_outermost _ _ hname⟩
  rw [if_neg hk, if_neg hk]
  cases hexport : if d.origin.defaultExport then moduleOwner? stack else none with
  | some owner =>
    have howner : owner ≠ "" := by
      split at hexport
      · exact moduleOwner?_ne_empty hexport
      · cases hexport
    exact .inl ⟨owner, rfl, howner, rfl⟩
  | none =>
    refine .inr ⟨rfl, ?_⟩
    dsimp only
    cases hmemberof : if d.explicitMemberof then nonempty d.memberof else none with
    | some memberof =>
      have hm : memberof ≠ "" := by
        split at hmemberof
        · exact (nonempty_eq_some_iff.1 hmemberof).2
        · cases hmemberof
      exact byParts_placeInOwner d _ hm hname
    | none =>
      dsimp only
      by_cases hpath : (d.explicitName || (d.taggedName && isNested (givenName d))) = true
      · rw [if_pos hpath]
        exact byParts_ofPath d _ hname
      rw [if_neg hpath]
      cases hlends : if d.taggedName then none else nonempty d.lends with
      | some lends =>
        have hl : lends ≠ "" := by
          split at hlends
          · cases hlends
          · exact (nonempty_eq_some_iff.1 hlends).2
        exact byParts_ofPath d _ (splitOwner_ne_empty (normalize_ne_empty hl))
      | none =>
        dsimp only
        split
        · exact byParts_outermost _ _ hname
        · exact byParts_placeInScope stack d _ hname

/-- A variation is written behind the longname. -/
theorem prefix_addVariation (longname : String) (variation : Option String) :
    longname.toList <+: (addVariation longname variation).toList := by
  unfold addVariation
  split
  · rw [String.append_assoc, String.append_assoc, String.toList_append]
    exact List.prefix_append _ _
  · exact List.prefix_rfl

section Variations

variable {longname v : String} {variation : Option String}

theorem addVariation_none (h : nonempty variation = none) (longname : String) :
    addVariation longname variation = longname := by
  unfold addVariation
  rw [h]

theorem addVariation_some (h : nonempty variation = some v) (longname : String) :
    addVariation longname variation = longname ++ "(" ++ v ++ ")" := by
  unfold addVariation
  rw [h]

/-- Only without variation a longname is left as it is. -/
theorem addVariation_eq_self_iff : addVariation longname variation = longname ↔ nonempty variation = none := by
  cases h : nonempty variation with
  | none => exact iff_of_true (addVariation_none h longname) rfl
  | some v =>
    refine iff_of_false (fun heq => ?_) (Option.some_ne_none v)
    have hlength := congrArg String.length heq
    have hparenthesis : "(".length = 1 := rfl
    rw [addVariation_some h, String.length_append, String.length_append, String.length_append, hparenthesis] at hlength
    omega

end Variations

end Naming

/-! ## Resolved doclets -/

namespace Doclet

open Naming Placement

variable {R : Type} {dict : Dictionary R} {stack : ScopeStack} {d d' : Doclet}

theorem eq_place_of_resolve (h : d.resolve dict stack = .ok d') : d' = d.place dict stack := by
  unfold resolve at h
  split at h <;> cases h
  rfl

/-- The longname that the parts of a placed doclet make, if the placement has a name. -/
theorem derivedLongname_place {p : Placement} (hp : placement dict stack d = p) (hn : p.name ≠ "") :
    derivedLongname dict (d.place dict stack) =
      addVariation (compose p.name p.memberof p.scope (label dict d)) d.variation := by
  subst hp
  have hname : nonempty (d.place dict stack).name = some (placement dict stack d).name :=
    nonempty_eq_some_iff.2 ⟨rfl, hn⟩
  rw [derivedLongname, givenName, hname]
  rfl

/-- **The longname of a resolved doclet is composed of its parts**, unless its short name is empty or a module exports
the doclet as a whole and its kind is part of longnames. If it has an owner, then its longname starts with the owner
and the separator of its scope. -/
theorem longname_of_resolve (h : d.resolve dict stack = .ok d') :
    (d'.name ≠ some "" → ¬ ((exporter? dict stack d).isSome ∧ dict.marksLongname d.kind) →
      d'.longname = some (derivedLongname dict d')) ∧
    ∀ owner, d'.memberof = some owner → ∃ scope sep longname, d'.scope = some scope ∧ scope.punctuation = [sep] ∧
      (sep = '.' ∨ sep = '#' ∨ sep = '~') ∧ d'.longname = some longname ∧
      owner.toList ++ [sep] <+: longname.toList := by
  obtain rfl := eq_place_of_resolve h
  rcases placement_cases dict stack d with ⟨owner, hexport, ho, hp⟩ | ⟨-, hparts⟩
  · refine ⟨fun _ hnot => ?_, fun owner hm => ?_⟩
    · -- Without a label the name that the module gives is the whole longname.
      have hl : label dict d = "" := by
        rw [label, if_neg fun hmark => hnot ⟨by rw [hexport]; rfl, hmark⟩]
      have hc : compose owner none none "" = owner := by simp [compose, addLabel, startsWith]
      rw [derivedLongname_place hp ho, hl, hc, place, hp]
    · rw [place, hp] at hm
      cases hm
  · refine ⟨fun hn _ => ?_, fun owner hm => ?_⟩
    · rw [derivedLongname_place rfl fun he => hn (congrArg some he), ← hparts.longname_eq]
      rfl
    · obtain ⟨scope, sep, hscope, hpunct, hsep, hpre⟩ := hparts.owner_prefix hm
      exact ⟨scope, sep, _, hscope, hpunct, hsep, rfl, hpre.trans (prefix_addVariation _ _)⟩

/-- An event that a module exports, with a variation. -/
theorem longname_of_resolve_exported :
    let dict := Grammar.jsdoc.dictionary
    let stack : ScopeStack := { root := some { kind := .inner, owner := some "module:a" } }
    let d : Doclet := { name := some "exports.Foo.prototype.event:change", kind := some "event", variation := some "2" }
    let d' := d.place dict stack
    d.resolve dict stack = .ok d' ∧ d'.name = some "change" ∧
      ¬ ((exporter? dict stack d).isSome ∧ dict.marksLongname d.kind) ∧
      d'.memberof = some "module:a.Foo" ∧ d'.longname = some "module:a.Foo#event:change(2)" ∧
      d'.longname = some (derivedLongname dict d') ∧
      ∃ scope sep longname, d'.scope = some scope ∧ scope.punctuation = [sep] ∧ (sep = '.' ∨ sep = '#' ∨ sep = '~') ∧
        d'.longname = some longname ∧ "module:a.Foo".toList ++ [sep] <+: longname.toList := by
  intro dict stack d d'
  have hresolve : d.resolve dict stack = .ok d' := rfl
  have htables : dict = Grammar.jsdocTables (.all false) := Grammar.jsdoc_dictionary_eq _
  have hd' : d' = d.place (Grammar.jsdocTables (.all false)) stack := congrArg (d.place · stack) htables
  have hplace : d'.name = some "change" ∧ exporter? dict stack d = none ∧ d'.memberof = some "module:a.Foo" ∧
      d'.longname = some "module:a.Foo#event:change(2)" := by
    rw [hd', htables]
    decide +kernel
  obtain ⟨hname, hexport, howner, hlongname⟩ := hplace
  have hnot : ¬ ((exporter? dict stack d).isSome ∧ dict.marksLongname d.kind) := by
    rw [hexport]
    exact fun h => nomatch h.1
  have h := longname_of_resolve hresolve
  exact ⟨hresolve, hname, hnot, howner, hlongname, h.1 (by rw [hname]; decide) hnot, h.2 _ howner⟩

end Doclet
end SymbolDocs
