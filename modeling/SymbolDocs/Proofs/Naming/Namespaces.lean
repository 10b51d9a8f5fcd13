import SymbolDocs.Proofs.NamePath.Separators
import SymbolDocs.Proofs.Naming.References
import SymbolDocs.Text.Word

/-!
# Namespaces in front of the last segment

`addNamespace` puts a namespace word and a colon in front of the last segment of a path. The path it gives is split
again when it is used, and its normal form need not be the path: it is made from a normal form, which may be shortened
once more. But a word without separators, quotes and brackets is kept by the normal form and stays in the segment that
it was put in (`splitChars_labelled_member`, `splitChars_labelled_alone`). So the last segment has the label, and no
label is put there twice (`addNamespace_addNamespace`).
-/

namespace SymbolDocs.NamePath

open SymbolDocs.Text

variable {cs owner name word : List Char} {c sep : Char}

/-! ## Labels in segments -/

/-- The label of a namespace. -/
def namespaceLabel (word : List Char) : List Char := word ++ [':']

/-- Letters and numerals are neither separators nor quotes nor brackets. -/
theorem plainSegment_of_isWord (hne : cs ≠ []) (h : ∀ c ∈ cs, isWord c = true) : PlainSegment cs := by
  have hall : (['.', '#', '~'] ++ delimiters).all (isWord · = false) = true := by decide +kernel
  have hnot : ∀ c ∈ ['.', '#', '~'] ++ delimiters, isWord c = false := by
    simpa only [List.all_eq_true, decide_eq_true_eq] using hall
  refine ⟨hne, fun c hc => ⟨?_, fun hdelim => ?_⟩⟩
  · rw [Bool.eq_false_iff]
    intro hsep
    have hmem : c ∈ ['.', '#', '~'] := by simpa using isSeparator_iff.1 hsep
    exact Bool.noConfusion ((hnot c (List.mem_append_left _ hmem)).symm.trans (h c hc))
  · exact Bool.noConfusion ((hnot c (List.mem_append_right _ hdelim)).symm.trans (h c hc))

namespace PlainSegment

variable (h : PlainSegment word)
include h

theorem namespaceLabel : PlainSegment (namespaceLabel word) := by
  refine ⟨by simp [NamePath.namespaceLabel], fun c hc => ?_⟩
  rcases List.mem_append.1 hc with hc | hc
  · exact h.2 c hc
  · rw [List.mem_singleton.1 hc]
    decide

/-- A plain segment is kept by the normal form. -/
theorem normalizeChars_append (cs : List Char) : normalizeChars (word ++ cs) = word ++ normalizeChars cs :=
  NamePath.normalizeChars_append (fun hdot => Bool.noConfusion (h.isSeparator_eq hdot))
    (fun hhash => Bool.noConfusion (h.isSeparator_eq hhash)) cs

theorem read_append (cs : List Char) : Nesting.read {} (word ++ cs) = Nesting.read {} cs := by
  rw [Nesting.read_append, Nesting.Sound.start.read_eq_self fun c hc => (h.2 c hc).2]

/-- A plain segment in front of an unseparated name makes another one. -/
theorem unseparated_append (hu : Unseparated cs) : Unseparated (word ++ cs) := by
  intro before c after heq htop
  rcases List.append_eq_append_iff.1 heq with ⟨behind, rfl, hcs⟩ | ⟨behind, rfl, hcs⟩
  · exact hu behind c after hcs (by rwa [h.read_append] at htop)
  · cases behind with
    | nil => exact hu [] c after (by rw [List.nil_append]; exact hcs.symm) rfl
    | cons d behind =>
      obtain ⟨rfl, -⟩ := List.cons.inj hcs
      exact h.isSeparator_eq (by simp)

theorem head?_append (cs : List Char) : ∀ c ∈ (word ++ cs).head?, isSeparator c = false := by
  rw [List.head?_append_of_ne_nil _ h.1]
  exact fun c hc => h.isSeparator_eq (List.mem_of_mem_head? hc)

end PlainSegment

/-- A label does not go on with the rest of a prototype word: there is a colon in it, and no dot. -/
theorem afterPrototype?_label (hw : PlainSegment word) (sep : Char) (name : List Char) :
    afterPrototype? (sep :: (namespaceLabel word ++ name)) = none := by
  have hcolon : ':' ∉ prototypeWord ++ ['\n'] := by decide
  have hmem : ':' ∈ sep :: (namespaceLabel word ++ name) := by simp [namespaceLabel]
  rw [Option.eq_none_iff_forall_not_mem]
  intro rest hrest
  rcases afterPrototype?_eq_some_iff.1 hrest with heq | ⟨heq, -⟩ | ⟨heq, -⟩
  · have hp : prototypeWord = '.' :: "prototype".toList := rfl
    rw [namespaceLabel, List.append_assoc, hp, List.cons_append] at heq
    rcases List.append_eq_append_iff.1 (List.cons.inj heq).2 with ⟨mid, hfirst, hsecond⟩ | ⟨mid, hfirst, hsecond⟩
    · cases mid with
      | nil => cases hsecond
      | cons m mid =>
        obtain ⟨rfl, -⟩ := List.cons.inj hsecond
        exact hcolon (by rw [hp, hfirst]; simp)
    · cases mid with
      | nil => cases hsecond
      | cons m mid =>
        obtain ⟨rfl, -⟩ := List.cons.inj hsecond
        exact Bool.noConfusion (hw.isSeparator_eq (c := '.') (by rw [hfirst]; simp))
  · exact hcolon (List.mem_append_left _ (heq ▸ hmem))
  · exact hcolon (heq ▸ hmem)

/-! ## Splitting labelled paths -/

/-- **A label behind an owner stays in front of the last segment**, whatever the normal form makes of the owner. -/
theorem splitChars_labelled_member (hw : PlainSegment word) (hne : owner ≠ [])
    (hhead : ∀ c ∈ owner.head?, isSeparator c = false) (htop : (Nesting.read {} owner).isTop)
    (hsep : isSeparator sep = true) (hu : Unseparated name) :
    (splitChars (owner ++ sep :: (namespaceLabel word ++ name))).name = namespaceLabel word ++ normalizeChars name := by
  have hlabel := hw.namespaceLabel
  obtain ⟨owner', sep', hnormal, hne', htop', hsep'⟩ := exists_normalizeChars_concat hne hhead htop hsep
  have hdot : (namespaceLabel word ++ name).head? ≠ some '.' := fun hdot =>
    Bool.noConfusion (hlabel.head?_append name '.' hdot)
  have hpath : normalizeChars (owner ++ sep :: (namespaceLabel word ++ name)) =
      owner' ++ sep' :: (namespaceLabel word ++ normalizeChars name) := by
    rw [normalizeChars_append_behind hsep (afterPrototype?_label hw sep name) hdot, hnormal,
      hlabel.normalizeChars_append, List.append_assoc, List.singleton_append]
  have hafter : lastCut {} (namespaceLabel word ++ normalizeChars name) = none :=
    unseparated_iff.1 (hlabel.unseparated_append (unseparated_normalizeChars hu))
  have hcut := cut_append hne' htop' hsep' hafter
  obtain ⟨scope, hscope⟩ := Option.isSome_iff_exists.1 hsep'
  rw [splitChars_eq_some_iff.2 ⟨sep', hscope, List.append_ne_nil_of_left_ne_nil hlabel.1 _, hpath ▸ hcut⟩]

/-- A path that is not split, and does not start with a separator, has none outside quotes and brackets or ends in the
only ones. -/
theorem unsplit_cases (hhead : ∀ c ∈ cs.head?, isSeparator c = false)
    (hsplit : ∀ before sep after, cut cs = some (before, sep, after) → after = []) :
    Unseparated cs ∨ ∃ before sep, cs = before ++ [sep] ∧ before ≠ [] ∧ (Nesting.read {} before).isTop ∧
      isSeparator sep = true := by
  cases hcut : cut cs with
  | some parts =>
    obtain ⟨before, sep, after⟩ := parts
    obtain rfl := hsplit before sep after hcut
    obtain ⟨hpath, hne, htop, hsep, -⟩ := cut_eq_some_iff.1 hcut
    exact .inr ⟨before, sep, hpath, hne, htop, hsep⟩
  | none =>
    refine .inl (unseparated_iff.2 ?_)
    cases cs with
    | nil => rfl
    | cons c cs =>
      rw [cut, Option.map_eq_none_iff] at hcut
      rw [lastCut_cons_eq_none_iff]
      exact ⟨hcut, fun hand => Bool.noConfusion ((hhead c rfl).symm.trans hand.2)⟩

/-- **A label in front of a path that is not split does not make it split.** -/
theorem splitChars_labelled_alone (hw : PlainSegment word) (hhead : ∀ c ∈ cs.head?, isSeparator c = false)
    (hsplit : ∀ before sep after, cut cs = some (before, sep, after) → after = []) :
    (splitChars (namespaceLabel word ++ cs)).name = namespaceLabel word ++ normalizeChars cs := by
  have hlabel := hw.namespaceLabel
  have hunsplit : ∀ before sep after, cut (normalizeChars (namespaceLabel word ++ cs)) = some (before, sep, after) →
      after = [] := by
    intro before sep after hcut
    rcases unsplit_cases hhead hsplit with hu | ⟨owner, sep₁, rfl, hne, htop, hsep⟩
    · rw [cut_eq_none (unseparated_iff.1 (unseparated_normalizeChars (hlabel.unseparated_append hu)))] at hcut
      cases hcut
    · obtain ⟨owner', sep₂, hnormal, hne', htop', hsep'⟩ := exists_normalizeChars_concat
        (List.append_ne_nil_of_left_ne_nil hlabel.1 owner) (hlabel.head?_append owner)
        (by rwa [hlabel.read_append]) hsep
      rw [← List.append_assoc, hnormal, cut_append hne' htop' hsep' rfl] at hcut
      cases hcut
      rfl
  rw [← hlabel.normalizeChars_append]
  unfold splitChars
  dsimp only
  split
  · next before sep c after hcut => cases hunsplit _ _ _ hcut
  · rfl

/-! ## Adding a namespace -/

section Strings

variable {path ns : String}

theorem kindLabel_some (h : ns ≠ "") : kindLabel (some ns) = ns ++ ":" := by
  simp [kindLabel, Option.filter, h]

theorem toList_split_name (path : String) : (split path).2.2.toList = (splitChars path.toList).name :=
  String.toList_ofList

/-- **The last segment of what is given has the label.** -/
theorem startsWith_split_addNamespace (hpath : ∀ c ∈ path.toList.head?, isSeparator c = false)
    (hns : PlainSegment ns.toList) : startsWith (split (addNamespace path ns)).2.2 (ns ++ ":") = true := by
  have hne : ns ≠ "" := by
    rintro rfl
    exact hns.1 rfl
  have hlabel : (ns ++ ":").toList = namespaceLabel ns.toList := by rw [String.toList_append]; rfl
  have hhead := isSeparator_head?_normalizeChars hpath
  unfold addNamespace
  rw [kindLabel_some hne]
  rcases split_cases path with hs | ⟨owner, scope, name, -, -, -, -, hs⟩
  · rw [hs]
    dsimp only
    split
    · next hhas => rwa [hs]
    · rw [startsWith_iff, toList_split_name, hlabel, String.toList_append, hlabel, normalize, String.toList_ofList,
        splitChars_labelled_alone hns hhead]
      · exact List.prefix_append _ _
      · intro before sep after hcut
        cases after with
        | nil => rfl
        | cons c after =>
          rw [split, splitChars, hcut] at hs
          cases hs
  · obtain ⟨hscope, hnormal, howner, -, htop, hu⟩ := split_eq_some_iff.1 hs
    rw [hs]
    dsimp only
    split
    · next hhas => rwa [hs]
    · obtain ⟨sep, hsep, hp⟩ := exists_punctuation hscope
      have howner' : owner.toList ≠ [] := by simpa using howner
      have hownerHead : ∀ c ∈ owner.toList.head?, isSeparator c = false := by
        rw [← String.toList_ofList (l := normalizeChars path.toList), ← normalize, hnormal, String.append_assoc,
          String.toList_append, List.head?_append_of_ne_nil _ howner'] at hhead
        exact hhead
      have hresult : (owner ++ separator (some scope) ++ (ns ++ ":") ++ name).toList =
          owner.toList ++ sep :: (namespaceLabel ns.toList ++ name.toList) := by
        simp [separator, hp, namespaceLabel]
      rw [startsWith_iff, toList_split_name, hresult, hlabel,
        splitChars_labelled_member hns howner' hownerHead htop (Option.isSome_iff_exists.2 ⟨scope, hsep⟩) hu]
      exact List.prefix_append _ _

/-- **A namespace is never put in front of a segment twice.** The path has to start with a name: in front of a separator
the label becomes an owner. -/
theorem addNamespace_addNamespace (hpath : ∀ c ∈ path.toList.head?, isSeparator c = false) (hne : ns ≠ "")
    (hword : ∀ c ∈ ns.toList, isWord c = true) :
    addNamespace (addNamespace path ns) ns = addNamespace path ns ∧
      startsWith (split (addNamespace path ns)).2.2 (ns ++ ":") = true := by
  have hns : PlainSegment ns.toList := plainSegment_of_isWord (by simpa using hne) hword
  have hhas := startsWith_split_addNamespace hpath hns
  refine ⟨?_, hhas⟩
  rw [addNamespace_eq (addNamespace path ns), kindLabel_some hne, if_pos hhas]

example : addNamespace (addNamespace "#open" "event") "event" = "event:#event:open" := by decide +kernel

/-- A path whose normal form has a normal form of its own: the second time the dot behind `#` is dropped. -/
theorem addNamespace_addNamespace_quoted :
    let path := "chat.\"a.prototype.b\"#..open"
    (∀ c ∈ path.toList.head?, isSeparator c = false) ∧ "event" ≠ "" ∧ (∀ c ∈ "event".toList, isWord c = true) ∧
      addNamespace path "event" = "chat.\"a#b\"#.event:open" ∧
      addNamespace (addNamespace path "event") "event" = addNamespace path "event" ∧
      startsWith (split (addNamespace path "event")).2.2 ("event" ++ ":") = true := by
  intro path
  have hpath : ∀ c ∈ path.toList.head?, isSeparator c = false := by
    have hhead : path.toList.head? = some 'c' := by decide +kernel
    rw [hhead]
    rintro c ⟨⟩
    rfl
  have hall : "event".toList.all isWord = true := by decide +kernel
  have hword : ∀ c ∈ "event".toList, isWord c = true := List.all_eq_true.1 hall
  exact ⟨hpath, by decide, hword, by decide +kernel, addNamespace_addNamespace hpath (by decide) hword⟩

end Strings

end SymbolDocs.NamePath
