import SymbolDocs.Proofs.Naming.Composition
import SymbolDocs.Proofs.Naming.Spellings

/-!
# Labels in longnames and in references

A symbol whose kind is part of longnames gets its label twice: when the symbol is placed, its label is taken off the
last segment of its path and put there again, and a reference to the symbol gets the label from `addNamespace`. The
first brings a path of several segments to normal form, and the second every path without label. So the two agree
where the path is in normal form, or where just one of the two things is true: that it has several segments, and that
its last one has the label (`Doclet.Unplaced.longname_tagName_eq_iff`).
-/

namespace SymbolDocs

open SymbolDocs.Text SymbolDocs.NamePath SymbolDocs.Naming

namespace NamePath

/-! ## Labels -/

variable {label path name rest : String}

theorem exists_of_startsWith (h : startsWith name label = true) : ∃ rest, name = label ++ rest := by
  obtain ⟨rest, hr⟩ := (startsWith_iff name label).1 h
  exact ⟨String.ofList rest, String.toList_injective (by rw [String.toList_append, String.toList_ofList, hr])⟩

theorem startsWith_append (label rest : String) : startsWith (label ++ rest) label = true := by
  rw [startsWith_iff, String.toList_append]
  exact List.prefix_append _ _

theorem after?_append (lead rest : String) : after? (lead ++ rest) lead = some rest := by
  have hdrop : dropChars (lead ++ rest) lead.length = rest := by
    simp [dropChars, ← String.length_toList]
  rw [after?, if_pos (startsWith_append lead rest), hdrop]

theorem dropLabel_append (hl : label ≠ "") (rest : String) : dropLabel (label ++ rest) label = rest := by
  rw [dropLabel, if_neg (by simpa using hl), after?_append, Option.getD_some]

theorem dropLabel_of_not_startsWith (h : startsWith name label = false) : dropLabel name label = name := by
  unfold dropLabel after?
  simp [h]

theorem dropLabel_cases (name label : String) :
    dropLabel name label = name ∨ name = label ++ dropLabel name label := by
  by_cases hl : label = ""
  · subst hl
    exact .inl rfl
  · cases hs : startsWith name label with
    | true =>
      obtain ⟨rest, rfl⟩ := exists_of_startsWith hs
      exact .inr (by rw [dropLabel_append hl])
    | false => exact .inl (dropLabel_of_not_startsWith hs)

/-- A label ends in a colon. -/
theorem getLast?_kindLabel (kind : Option String) :
    (kindLabel kind).toList.getLast? = none ∨ (kindLabel kind).toList.getLast? = some ':' := by
  unfold kindLabel
  split
  · next k _ => exact .inr (by simp)
  · exact .inl rfl

/-- A name with at most one label in front. -/
def OnceLabelled (label name : String) : Prop := startsWith (dropLabel name label) label = false

instance : Decidable (OnceLabelled label name) := inferInstanceAs (Decidable (_ = _))

/-- A single label that is taken off is there again when it is added. -/
theorem OnceLabelled.addLabel_dropLabel (hl : label ≠ "") (h : OnceLabelled label name) :
    addLabel (dropLabel name label) label = addLabel name label := by
  unfold addLabel
  rw [if_neg (by simpa [OnceLabelled] using h)]
  cases hs : startsWith name label with
  | true =>
    obtain ⟨rest, rfl⟩ := exists_of_startsWith hs
    rw [dropLabel_append hl, if_pos rfl]
  | false => rw [dropLabel_of_not_startsWith hs, if_neg Bool.false_ne_true]

section Words

variable (hdot : '.' ∉ label.toList) (hhash : '#' ∉ label.toList)
include hdot hhash

theorem normalize_append (rest : String) : normalize (label ++ rest) = label ++ normalize rest := by
  unfold normalize
  rw [String.toList_append, normalizeChars_append hdot hhash, String.ofList_append, String.ofList_toList]

theorem startsWith_normalize (path : String) : startsWith (normalize path) label = startsWith path label := by
  rw [Bool.eq_iff_iff, startsWith_iff, startsWith_iff, normalize, String.toList_ofList]
  exact prefix_normalizeChars_iff hdot hhash

/-- Normal forms have as many labels in front as the paths do. -/
theorem onceLabelled_normalize_iff (hl : label ≠ "") (path : String) :
    OnceLabelled label (normalize path) ↔ OnceLabelled label path := by
  unfold OnceLabelled
  cases hs : startsWith path label with
  | true =>
    obtain ⟨rest, rfl⟩ := exists_of_startsWith hs
    rw [normalize_append hdot hhash, dropLabel_append hl, dropLabel_append hl, startsWith_normalize hdot hhash]
  | false =>
    have hn : startsWith (normalize path) label = false := by rw [startsWith_normalize hdot hhash, hs]
    rw [dropLabel_of_not_startsWith hs, dropLabel_of_not_startsWith hn, hs, hn]

end Words

/-! ## References -/

/-- The normal form of a path with a label in front of its last segment. -/
def labelled (path label : String) : String :=
  let (memberof, scope, name) := split path
  compose name memberof scope label

/-- A path that has the label has nothing but its normal form to get. -/
theorem labelled_of_startsWith (h : startsWith (split path).2.2 label = true) :
    labelled path label = normalize path := by
  unfold labelled
  rcases split_cases path with hs | ⟨owner, scope, name, ho, -, -, hpath, hs⟩
  · rw [hs] at h ⊢
    exact if_pos h
  · rw [hs] at h ⊢
    have hadd : addLabel name label = name := if_pos h
    dsimp only
    rw [compose_owner ho, hadd, hpath]

/-- What a reference makes of a path: one that has the label stays as it is written. -/
theorem addNamespace_eq (path word : String) :
    addNamespace path word =
      if startsWith (split path).2.2 (kindLabel (some word)) then path else labelled path (kindLabel (some word)) := by
  unfold addNamespace labelled
  generalize kindLabel (some word) = label
  rcases split_cases path with hs | ⟨owner, scope, name, ho, -, -, -, hs⟩
  · rw [hs]
    dsimp only
    split
    · rfl
    · next hn => exact (if_neg hn).symm
  · rw [hs]
    dsimp only
    split
    · rfl
    · next hn =>
      have hadd : addLabel name label = label ++ name := if_neg hn
      rw [compose_owner ho, hadd, String.append_assoc]

/-- A name that is no path of several segments has no parts. -/
theorem split_of_not_nested (h : isNested path = false) : split path = (none, none, normalize path) := by
  have hc : cut (normalizeChars path.toList) = none := by
    rwa [isNested, isNestedChars, Option.isSome_eq_false_iff, Option.isNone_iff_eq_none] at h
  unfold split splitChars
  dsimp only
  rw [hc]
  rfl

end NamePath

namespace Naming

theorem label_cases {R : Type} (dict : Dictionary R) (d : Doclet) :
    label dict d = "" ∨ label dict d = kindLabel d.kind := by
  unfold label
  split
  · exact .inr rfl
  · exact .inl rfl

end Naming

/-! ## Symbols that a tag names -/

namespace Placement

variable {d : Doclet} {path label : String}

/-- A path places a symbol under its normal form, with the label in front of the last segment. -/
theorem longname_ofPath (hd : statedScope d = none) (hl : label ≠ "") (ho : OnceLabelled label (split path).2.2) :
    (ofPath d path label).longname = labelled path label := by
  unfold ofPath labelled
  rcases split_cases path with hs | ⟨owner, scope, name, hne, -, -, -, hs⟩
  · rw [hs] at ho ⊢
    exact ho.addLabel_dropLabel hl
  · rw [hs] at ho ⊢
    dsimp only [ofMember]
    rw [hd, Option.none_or, compose_owner hne, compose_owner hne, ho.addLabel_dropLabel hl]

end Placement

namespace Doclet

variable {R : Type} {dict : Dictionary R} {d : Doclet} {path word : String}

/-- Outside every context the name that a tag gives places a doclet as a path if it has several segments, and
otherwise as it is. -/
theorem Unplaced.placement_tagName (hd : d.Unplaced) (hk : isRootKind dict d.kind = false) (hn : path ≠ "") :
    Naming.placement dict {} (d.tagName path) =
      if isNested path then .ofPath (d.tagName path) path (label dict d)
      else .ofMember none (some .global) path (label dict d) := by
  have hk : isRootKind dict (d.tagName path).kind = false := hk
  have hlabel : label dict (d.tagName path) = label dict d := rfl
  have hname : givenName (d.tagName path) = path := givenName_named (d := d) hn
  have hexport : (d.tagName path).origin.defaultExport = false := hd.not_defaultExport
  have hmemberof : (d.tagName path).explicitMemberof = false := hd.not_explicitMemberof
  have hexplicit : (d.tagName path).explicitName = false := hd.not_explicitName
  have htagged : (d.tagName path).taggedName = true := rfl
  have hscope : (d.tagName path).explicitScope = false := hd.not_explicitScope
  have hcode (scope : Option Scope) : (CodeName.resolveExport ⟨path, none, scope⟩ none).resolveThis =
      ⟨path, none, scope⟩ := rfl
  have howner : ownerEntry? {} = none := rfl
  have hmodule : moduleOwner? {} = none := rfl
  unfold Naming.placement
  simp only [hk, hlabel, hname, hexport, hmemberof, hexplicit, htagged, hscope, Bool.false_eq_true, if_false,
    Bool.false_or, Bool.true_and, Bool.false_and, if_true]
  split
  · rfl
  · next hnot => simp only [placeInScope, howner, hmodule, hcode, hscope, if_neg hnot, Bool.false_eq_true, if_false]

/-- **A symbol that a tag names is named as references to it are**, if its path is in normal form, or if either its
path has several segments or the last one has the label, but not both. -/
theorem Unplaced.longname_tagName_eq_iff (hd : d.Unplaced) (hk : isRootKind dict d.kind = false) (hn : path ≠ "")
    (hlabel : label dict d = kindLabel (some word)) (hl : kindLabel (some word) ≠ "")
    (hdot : '.' ∉ (kindLabel (some word)).toList) (hhash : '#' ∉ (kindLabel (some word)).toList)
    (ho : OnceLabelled (kindLabel (some word)) (split path).2.2) :
    (Naming.placement dict {} (d.tagName path)).longname = addNamespace path word ↔
      normalize path = path ∨ isNested path ≠ startsWith (split path).2.2 (kindLabel (some word)) := by
  rw [hd.placement_tagName hk hn, hlabel, addNamespace_eq]
  generalize kindLabel (some word) = label at *
  cases hnested : isNested path with
  | true =>
    have hstated : Placement.statedScope (d.tagName path) = none := by
      have : (d.tagName path).explicitScope = false := hd.not_explicitScope
      simp [Placement.statedScope, this]
    rw [if_pos rfl, Placement.longname_ofPath hstated hl ho]
    cases hs : startsWith (split path).2.2 label with
    | true =>
      rw [if_pos rfl, labelled_of_startsWith hs]
      simp
    | false => simp
  | false =>
    have hsplit := split_of_not_nested hnested
    rw [hsplit] at ho ⊢
    have ho : OnceLabelled label path := (onceLabelled_normalize_iff hdot hhash hl path).1 ho
    have hlong : (Placement.ofMember none (some .global) path label).longname = addLabel path label :=
      ho.addLabel_dropLabel hl
    have href : labelled path label = addLabel (normalize path) label := by
      rw [labelled, hsplit]
      rfl
    rw [if_neg Bool.false_ne_true, hlong, href, startsWith_normalize hdot hhash]
    unfold addLabel
    rw [startsWith_normalize hdot hhash]
    cases hs : startsWith path label with
    | true => simp
    | false => simp [eq_comm]

end Doclet
end SymbolDocs
