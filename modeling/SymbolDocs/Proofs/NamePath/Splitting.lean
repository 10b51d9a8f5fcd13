import Mathlib.Data.String.Basic
import SymbolDocs.Proofs.NamePath.Cutting

/-!
# Splitting and composing

A path is cut at its last separator outside quotes and brackets, but not at its first character (`cut_eq_some_iff`).
Normal forms bring out no separators, since what they replace neither opens nor closes a quote or a bracket
(`unseparated_normalizeChars`). So splitting and composing undo each other: the parts of a path make up its normal form
and the name among them is no path again (`compose_split`), and a name below an owner is split off again
(`split_compose`).
-/

namespace SymbolDocs.NamePath

open SymbolDocs.Text

variable {cs before after word : List Char} {n : Nesting} {c sep : Char}

/-! ## What neither opens nor closes -/

/-- The characters that open or close a quote or a bracket. -/
def delimiters : List Char := ['"', '\'', '(', '[', ')', ']']

/-- Only the two kinds of quotes are open. -/
def Nesting.Sound (n : Nesting) : Prop := ∀ q, n.quote = some q → q = '"' ∨ q = '\''

namespace Nesting.Sound

theorem start : Nesting.Sound {} := by
  intro q hq
  cases hq

protected theorem step (h : n.Sound) (c : Char) : (n.step c).Sound := by
  intro q hq
  unfold Nesting.step at hq
  split at hq
  · split at hq
    · cases hq
    · exact h q hq
  · next hnone =>
    split at hq
    · next hc =>
      cases hq
      simpa using hc
    · have hquote : n.quote = some q := by
        split at hq
        · exact hq
        · split at hq <;> exact hq
      rw [hnone] at hquote
      cases hquote

/-- A reader stays where it is at a character that delimits nothing. -/
theorem step_eq_self (h : n.Sound) (hc : c ∉ delimiters) : n.step c = n := by
  simp only [delimiters, List.mem_cons, List.not_mem_nil, or_false, not_or] at hc
  unfold Nesting.step
  split
  · next q hq =>
    have hne : c ≠ q := by
      rcases h q hq with rfl | rfl
      · exact hc.1
      · exact hc.2.1
    rw [if_neg hne]
  · simp [hc]

theorem read_eq_self (h : n.Sound) (hw : ∀ c ∈ word, c ∉ delimiters) : n.read word = n := by
  induction word with
  | nil => rfl
  | cons c word ih =>
    rw [List.forall_mem_cons] at hw
    have hread : n.read (c :: word) = (n.step c).read word := rfl
    rw [hread, h.step_eq_self hw.1, ih hw.2]

end Nesting.Sound

/-! ## Normal forms bring out no separators -/

theorem lastCut_cons_eq_none_iff :
    lastCut n (c :: cs) = none ↔ lastCut (n.step c) cs = none ∧ ¬ (n.isTop = true ∧ isSeparator c = true) := by
  rw [← Bool.and_eq_true]
  simp only [lastCut]
  cases lastCut (n.step c) cs <;> simp

theorem lastCut_read_eq_none (h : lastCut n (word ++ cs) = none) : lastCut (n.read word) cs = none := by
  induction word generalizing n with
  | nil => exact h
  | cons c word ih => exact ih (lastCut_cons_eq_none_iff.1 h).1

/-- The prototype word delimits nothing. -/
theorem prototypeWord_not_delimiters : ∀ c ∈ prototypeWord, c ∉ delimiters := by
  have hall : prototypeWord.all (· ∉ delimiters) = true := by decide
  simpa only [List.all_eq_true, decide_eq_true_eq] using hall

/-- The prototype word starts with a separator, so where nothing is cut it is inside a quote or a bracket, and so is the
`#` in its place. -/
theorem Nesting.Sound.lastCut_hashPrototype (hs : n.Sound) (h : lastCut n cs = none) :
    lastCut n (hashPrototype cs) = none := by
  fun_induction hashPrototype cs generalizing n with
  | case1 cs rest hafter _ ih =>
    have hword : n.read prototypeWord = n := hs.read_eq_self prototypeWord_not_delimiters
    have hstart {tail : List Char} (hcs : cs = prototypeWord ++ tail) : lastCut n tail = none ∧ ¬ n.isTop = true := by
      rw [hcs] at h
      have htail := lastCut_read_eq_none h
      rw [hword] at htail
      exact ⟨htail, fun htop => (lastCut_cons_eq_none_iff.1 h).2 ⟨htop, rfl⟩⟩
    obtain ⟨hrest, htop⟩ : lastCut n rest = none ∧ ¬ n.isTop = true := by
      rcases afterPrototype?_eq_some_iff.1 hafter with hcs | ⟨hcs, rfl⟩ | ⟨hcs, rfl⟩
      · obtain ⟨htail, htop⟩ := hstart hcs
        have hdot := (lastCut_cons_eq_none_iff.1 htail).1
        rw [hs.step_eq_self (by decide)] at hdot
        exact ⟨hdot, htop⟩
      · exact hstart (hcs.trans (List.append_nil _).symm)
      · exact hstart hcs
    rw [lastCut_cons_eq_none_iff, hs.step_eq_self (by decide)]
    exact ⟨ih hs hrest, fun hand => htop hand.1⟩
  | case2 => rfl
  | case3 c cs _ ih =>
    rw [lastCut_cons_eq_none_iff] at h ⊢
    exact ⟨ih (hs.step c) h.1, h.2⟩

theorem Nesting.Sound.lastCut_dropDotAfterHash (hs : n.Sound) (h : lastCut n cs = none) :
    lastCut n (dropDotAfterHash cs) = none := by
  fun_induction dropDotAfterHash cs generalizing n with
  | case1 cs ih =>
    have hhash : n.step '#' = n := hs.step_eq_self (by decide)
    have hdot : n.step '.' = n := hs.step_eq_self (by decide)
    rw [lastCut_cons_eq_none_iff, hhash, lastCut_cons_eq_none_iff, hdot] at h
    rw [lastCut_cons_eq_none_iff, hhash]
    exact ⟨ih hs h.1.1, h.2⟩
  | case2 c cs _ ih =>
    rw [lastCut_cons_eq_none_iff] at h ⊢
    exact ⟨ih (hs.step c) h.1, h.2⟩
  | case3 => rfl

/-- **The normal form of an unseparated text is unseparated.** -/
theorem unseparated_normalizeChars (h : Unseparated cs) : Unseparated (normalizeChars cs) := by
  rw [unseparated_iff] at h ⊢
  exact Nesting.Sound.start.lastCut_dropDotAfterHash (Nesting.Sound.start.lastCut_hashPrototype h)

/-- An unseparated name is not nested. -/
theorem isNestedChars_of_unseparated (h : Unseparated cs) : isNestedChars cs = false := by
  rw [isNestedChars, cut_eq_none (unseparated_iff.1 (unseparated_normalizeChars h))]
  rfl

/-! ## Parts of paths -/

theorem ofPunctuation?_eq_some_iff {scope : Scope} : Scope.ofPunctuation? sep = some scope ↔
    (scope = .static ∨ scope = .perInstance ∨ scope = .inner) ∧ scope.punctuation = [sep] := by
  constructor
  · intro h
    unfold Scope.ofPunctuation? at h
    split at h <;> cases h <;> decide
  · rintro ⟨rfl | rfl | rfl, hp⟩ <;> cases hp <;> rfl

/-- The three scopes that separate members from their owners have one separator each. -/
theorem exists_punctuation {scope : Scope} (h : scope = .static ∨ scope = .perInstance ∨ scope = .inner) :
    ∃ sep, Scope.ofPunctuation? sep = some scope ∧ scope.punctuation = [sep] := by
  have hp : ∃ sep, scope.punctuation = [sep] := by
    rcases h with rfl | rfl | rfl <;> exact ⟨_, rfl⟩
  obtain ⟨sep, hp⟩ := hp
  exact ⟨sep, ofPunctuation?_eq_some_iff.2 ⟨h, hp⟩, hp⟩

/-- A path has parts just if something stands behind its cut. -/
theorem splitChars_eq_some_iff {owner name : List Char} {scope : Scope} :
    splitChars cs = { memberof := some owner, scope := some scope, name } ↔
      ∃ sep, Scope.ofPunctuation? sep = some scope ∧ name ≠ [] ∧
        cut (normalizeChars cs) = some (owner, sep, name) := by
  unfold splitChars
  dsimp only
  split
  · next before sep c after hc =>
    simp only [Parts.mk.injEq, Option.some.injEq]
    constructor
    · rintro ⟨rfl, hscope, rfl⟩
      exact ⟨sep, hscope, List.cons_ne_nil _ _, hc⟩
    · rintro ⟨sep', hscope, -, hcut⟩
      rw [hc] at hcut
      cases hcut
      exact ⟨rfl, hscope, rfl⟩
  · next hno =>
    simp only [Parts.mk.injEq, reduceCtorEq, false_and, false_iff, not_exists]
    rintro sep ⟨-, hname, hcut⟩
    obtain ⟨c, after, rfl⟩ := List.exists_cons_of_ne_nil hname
    exact hno _ _ _ _ hcut

theorem splitChars_cases (cs : List Char) :
    splitChars cs = { memberof := none, scope := none, name := normalizeChars cs } ∨
      ∃ owner scope name, splitChars cs = { memberof := some owner, scope := some scope, name } := by
  unfold splitChars
  dsimp only
  split
  · next owner sep c name hc =>
    obtain ⟨-, -, -, hsep, -⟩ := cut_eq_some_iff.1 hc
    obtain ⟨scope, hscope⟩ := Option.isSome_iff_exists.1 hsep
    exact .inr ⟨owner, scope, c :: name, by rw [hscope]⟩
  · exact .inl rfl

section Strings

variable {path owner name : String} {scope : Scope}

theorem ofList_ne_empty {cs : List Char} (h : cs ≠ []) : String.ofList cs ≠ "" := by
  simpa using h

/-- **The parts of a path.** They are an owner and an unseparated name in its normal form, with the separator of a scope
between them that is outside quotes and brackets. -/
theorem split_eq_some_iff : split path = (some owner, some scope, name) ↔
    (scope = .static ∨ scope = .perInstance ∨ scope = .inner) ∧
      normalize path = owner ++ separator (some scope) ++ name ∧ owner ≠ "" ∧ name ≠ "" ∧
      (Nesting.read {} owner.toList).isTop ∧ Unseparated name.toList := by
  have hchars : split path = (some owner, some scope, name) ↔
      splitChars path.toList = { memberof := some owner.toList, scope := some scope, name := name.toList } := by
    unfold split
    generalize splitChars path.toList = parts
    obtain ⟨memberof, scope', name'⟩ := parts
    simp [String.ofList_eq]
  have hnormal (sep : Char) (hp : scope.punctuation = [sep]) :
      normalize path = owner ++ separator (some scope) ++ name ↔
        normalizeChars path.toList = owner.toList ++ sep :: name.toList := by
    rw [normalize, String.ofList_eq, String.toList_append, String.toList_append, separator, String.toList_ofList,
      Option.map_some, Option.getD_some, hp, List.append_assoc, List.singleton_append]
  rw [hchars, splitChars_eq_some_iff]
  constructor
  · rintro ⟨sep, hsep, hname, hcut⟩
    obtain ⟨hpath, howner, htop, -, hu⟩ := cut_eq_some_iff.1 hcut
    obtain ⟨hscope, hp⟩ := ofPunctuation?_eq_some_iff.1 hsep
    exact ⟨hscope, (hnormal sep hp).2 hpath, by simpa using howner, by simpa using hname, htop, unseparated_iff.2 hu⟩
  · rintro ⟨hscope, hpath, howner, hname, htop, hu⟩
    obtain ⟨sep, hsep, hp⟩ := exists_punctuation hscope
    have hcut := cut_eq_some_iff.2 ⟨(hnormal sep hp).1 hpath, by simpa using howner, htop,
      Option.isSome_iff_exists.2 ⟨scope, hsep⟩, unseparated_iff.1 hu⟩
    exact ⟨sep, hsep, by simpa using hname, hcut⟩

/-- A path without parts is a name as a whole. Otherwise its normal form is its owner, the separator of a scope and
its name. -/
theorem split_cases (path : String) :
    split path = (none, none, normalize path) ∨
      ∃ owner scope name, owner ≠ "" ∧ name ≠ "" ∧ scope ≠ Scope.global ∧
        normalize path = owner ++ separator (some scope) ++ name ∧ split path = (some owner, some scope, name) := by
  rcases splitChars_cases path.toList with h | ⟨owner, scope, name, h⟩
  · have hs : split path = (none, none, normalize path) := by
      rw [split, h]
      rfl
    exact .inl hs
  · have hs : split path = (some (String.ofList owner), some scope, String.ofList name) := by
      rw [split, h]
      rfl
    obtain ⟨hscope, hpath, howner, hname, -, -⟩ := split_eq_some_iff.1 hs
    have hglobal : scope ≠ .global := by
      rintro rfl
      simp at hscope
    exact .inr ⟨_, scope, _, howner, hname, hglobal, hpath, hs⟩

/-- A path that is cut but has no parts ends in the separator. -/
theorem exists_of_isNested (hs : split path = (none, none, normalize path)) (h : isNested path = true) :
    ∃ owner sep, isSeparator sep = true ∧ normalize path = owner ++ String.singleton sep := by
  obtain ⟨⟨before, sep, after⟩, hcut⟩ := Option.isSome_iff_exists.1 h
  obtain ⟨hpath, -, -, hsep, -⟩ := cut_eq_some_iff.1 hcut
  cases after with
  | nil =>
    refine ⟨String.ofList before, sep, hsep, ?_⟩
    rw [normalize, String.ofList_eq, hpath, String.toList_append, String.toList_ofList, String.toList_singleton]
  | cons c after =>
    obtain ⟨scope, hscope⟩ := Option.isSome_iff_exists.1 hsep
    have hparts := splitChars_eq_some_iff.2 ⟨sep, hscope, List.cons_ne_nil c after, hcut⟩
    rw [split, hparts] at hs
    cases hs

/-! ## Composing -/

theorem addLabel_empty (name : String) : addLabel name "" = name := if_pos (by simp [startsWith])

theorem compose_owner (ho : owner ≠ "") (name : String) (scope : Option Scope) (label : String) :
    compose name (some owner) scope label = owner ++ separator scope ++ addLabel name label :=
  if_neg (by simpa using ho)

/-- **Composing undoes splitting.** A path without parts is a name as a whole: it has no separator to be cut at, or it
ends in the last one. Otherwise its owner and its name make up its normal form again, and the name is no path. -/
theorem compose_split (path : String) :
    (split path = (none, none, normalize path) ∧
      (isNested path = true → ∃ owner sep, isSeparator sep = true ∧ normalize path = owner ++ String.singleton sep)) ∨
    ∃ owner scope name, split path = (some owner, some scope, name) ∧ owner ≠ "" ∧ name ≠ "" ∧
      (scope = .static ∨ scope = .perInstance ∨ scope = .inner) ∧
      compose name (some owner) (some scope) = normalize path ∧ isNested name = false := by
  rcases split_cases path with hs | ⟨owner, scope, name, -, -, -, -, hs⟩
  · exact .inl ⟨hs, exists_of_isNested hs⟩
  · obtain ⟨hscope, hpath, howner, hname, -, hu⟩ := split_eq_some_iff.1 hs
    refine .inr ⟨owner, scope, name, hs, howner, hname, hscope, ?_, isNestedChars_of_unseparated hu⟩
    rw [compose_owner howner, addLabel_empty, hpath]

/-- **Splitting undoes composing.** The longname of an unseparated name below an owner that ends outside quotes and
brackets is split into the two, if it is in normal form. -/
theorem split_compose (howner : owner ≠ "") (htop : (Nesting.read {} owner.toList).isTop) (hname : name ≠ "")
    (hu : Unseparated name.toList) (hscope : scope = .static ∨ scope = .perInstance ∨ scope = .inner)
    (hnormal : normalize (compose name (some owner) (some scope)) = compose name (some owner) (some scope)) :
    split (compose name (some owner) (some scope)) = (some owner, some scope, name) := by
  have hlongname : compose name (some owner) (some scope) = owner ++ separator (some scope) ++ name := by
    rw [compose_owner howner, addLabel_empty]
  rw [split_eq_some_iff]
  exact ⟨hscope, hnormal.trans hlongname, howner, hname, htop, hu⟩

/-- Separators in quotes and in brackets are passed over, also where the quotes and brackets are mixed. -/
theorem split_compose_quoted :
    let owner := "chat.\"#a'.b\"[x.(y~z)]"
    let name := "'it.\"(s'([#m].n)"
    (Nesting.read {} owner.toList).isTop ∧ Unseparated name.toList ∧
      normalize (compose name (some owner) (some .perInstance)) = compose name (some owner) (some .perInstance) ∧
      split (compose name (some owner) (some .perInstance)) = (some owner, some .perInstance, name) := by
  intro owner name
  have htop : (Nesting.read {} owner.toList).isTop := by decide
  have hu : Unseparated name.toList := by decide
  have hnormal : normalize (compose name (some owner) (some .perInstance)) =
      compose name (some owner) (some .perInstance) := by decide +kernel
  exact ⟨htop, hu, hnormal, split_compose (by decide) htop (by decide) hu (.inr (.inl rfl)) hnormal⟩

end Strings

end SymbolDocs.NamePath
