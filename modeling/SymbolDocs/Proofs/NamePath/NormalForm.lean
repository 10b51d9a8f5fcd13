import SymbolDocs.NamePath.Basic

/-!
# Name paths in normal form

`normalizeChars_eq_self_iff` says which paths are their own normal form: those in which nothing follows the prototype
word that would make it a separator, and in which no dot stands behind `#`. The beginning of such a path is in normal
form again, unless the prototype word ends there (`normal_of_append`). A beginning without dots and `#` is kept by the normal
form (`normalizeChars_append`).
-/

namespace SymbolDocs.NamePath

variable {cs rest tail : List Char}

/-! ## The prototype word -/

/-- The three ways in which a path goes on with the prototype word. -/
theorem afterPrototype?_eq_some_iff :
    afterPrototype? cs = some rest ↔ cs = prototypeWord ++ '.' :: rest ∨ (cs = prototypeWord ∧ rest = []) ∨
      (cs = prototypeWord ++ ['\n'] ∧ rest = ['\n']) := by
  constructor
  · intro h
    unfold afterPrototype? at h
    split at h
    · next hp =>
      obtain ⟨t, rfl⟩ := List.isPrefixOf_iff_prefix.1 hp
      rw [List.drop_left] at h
      split at h <;> cases h
      · exact .inl rfl
      · exact .inr (.inl ⟨List.append_nil _, rfl⟩)
      · exact .inr (.inr ⟨rfl, rfl⟩)
    · cases h
  · rintro (rfl | ⟨rfl, rfl⟩ | ⟨rfl, rfl⟩)
    · have hp : prototypeWord.isPrefixOf (prototypeWord ++ '.' :: rest) := by simp
      rw [afterPrototype?, if_pos hp, List.drop_left]
      rfl
    · rfl
    · rfl

/-- A replaced prototype word makes the path shorter by more than its separator. -/
theorem afterPrototype?_length_succ (h : afterPrototype? cs = some rest) : rest.length + 1 < cs.length := by
  have hw : prototypeWord.length = 10 := by decide
  rcases afterPrototype?_eq_some_iff.1 h with rfl | ⟨rfl, rfl⟩ | ⟨rfl, rfl⟩ <;> simp [hw]

/-- A path that goes on with the prototype word starts with a dot. -/
theorem afterPrototype?_cons {c : Char} (hdot : c ≠ '.') (cs : List Char) : afterPrototype? (c :: cs) = none := by
  have hw : prototypeWord = '.' :: "prototype".toList := rfl
  rw [Option.eq_none_iff_forall_not_mem]
  intro rest hr
  rcases afterPrototype?_eq_some_iff.1 hr with h | ⟨h, -⟩ | ⟨h, -⟩
  all_goals
    rw [hw] at h
    exact hdot (List.cons.inj h).1

/-- A prototype word that is replaced leaves `#`. -/
theorem hashPrototype_of_afterPrototype? (h : afterPrototype? cs = some rest) :
    hashPrototype cs = '#' :: hashPrototype rest := by
  rw [hashPrototype]
  split
  · next hsome =>
    rw [h] at hsome
    cases hsome
    rfl
  · next hnone =>
    rw [h] at hnone
    cases hnone

/-- A character at which no prototype word is replaced is kept. -/
theorem hashPrototype_cons {c : Char} (h : afterPrototype? (c :: cs) = none) :
    hashPrototype (c :: cs) = c :: hashPrototype cs := by
  rw [hashPrototype]
  split
  · next hsome =>
    rw [h] at hsome
    cases hsome
  · rfl

/-- Only a path without a prototype word to replace is left as it is. -/
theorem hashPrototype_eq_self_iff :
    hashPrototype cs = cs ↔ ∀ tail, tail <:+ cs → afterPrototype? tail = none := by
  fun_induction hashPrototype cs with
  | case1 cs rest h hl ih =>
    constructor
    · intro heq
      rw [← heq, afterPrototype?_cons (by decide)] at h
      cases h
    · intro hall
      rw [hall cs List.suffix_rfl] at h
      cases h
  | case2 h =>
    refine ⟨fun _ tail ht => ?_, fun _ => rfl⟩
    rw [List.suffix_nil.1 ht, h]
  | case3 c cs h ih =>
    rw [List.cons.injEq, ih]
    constructor
    · rintro ⟨-, hall⟩ tail ht
      rcases List.suffix_cons_iff.1 ht with rfl | ht
      · exact h
      · exact hall tail ht
    · exact fun hall => ⟨rfl, fun tail ht => hall tail (ht.trans (List.suffix_cons c cs))⟩

/-- A path in which a prototype word is replaced gets shorter. -/
theorem hashPrototype_length_lt (h : hashPrototype cs ≠ cs) : (hashPrototype cs).length < cs.length := by
  fun_induction hashPrototype cs with
  | case1 cs rest hs hl ih =>
    have := hashPrototype_length_le rest
    have := afterPrototype?_length_succ hs
    simp only [List.length_cons]
    omega
  | case2 => exact absurd rfl h
  | case3 c cs _ ih =>
    have := ih fun heq => h (by rw [heq])
    simpa using this

/-! ## Dots behind `#` -/

/-- Only a path without a dot behind `#` is left as it is. -/
theorem dropDotAfterHash_eq_self_iff : dropDotAfterHash cs = cs ↔ ¬ ['#', '.'] <:+: cs := by
  fun_induction dropDotAfterHash cs with
  | case1 cs ih =>
    constructor
    · intro heq
      have := dropDotAfterHash_length_le cs
      have := congrArg List.length (List.cons.inj heq).2
      simp only [List.length_cons] at this
      omega
    · exact fun hnot => absurd ⟨[], cs, rfl⟩ hnot
  | case2 c cs hne ih =>
    rw [List.cons.injEq, ih, List.infix_cons_iff]
    constructor
    · rintro ⟨-, hnot⟩ (⟨t, ht⟩ | hin)
      · cases ht
        exact hne t rfl rfl
      · exact hnot hin
    · exact fun hnot => ⟨rfl, fun hin => hnot (.inr hin)⟩
  | case3 => simp

/-! ## Normal paths -/

theorem normalizeChars_ne_nil (h : cs ≠ []) : normalizeChars cs ≠ [] := by
  have hp : hashPrototype cs ≠ [] := by
    unfold hashPrototype
    split
    · exact List.cons_ne_nil _ _
    · split
      · exact absurd rfl h
      · exact List.cons_ne_nil _ _
  unfold normalizeChars dropDotAfterHash
  split
  · exact List.cons_ne_nil _ _
  · exact List.cons_ne_nil _ _
  · next heq => exact absurd heq hp

/-- A path that is its own normal form. -/
def Normal (cs : List Char) : Prop := normalizeChars cs = cs

/-- **A path is in normal form just if no prototype word in it is to be replaced and no dot stands behind `#`.** -/
theorem normalizeChars_eq_self_iff :
    Normal cs ↔ (∀ tail, tail <:+ cs → afterPrototype? tail = none) ∧ ¬ ['#', '.'] <:+: cs := by
  rw [← hashPrototype_eq_self_iff, ← dropDotAfterHash_eq_self_iff]
  unfold Normal normalizeChars
  constructor
  · intro h
    have hp : hashPrototype cs = cs := by
      apply Classical.byContradiction
      intro hne
      have := hashPrototype_length_lt hne
      have := dropDotAfterHash_length_le (hashPrototype cs)
      rw [h] at this
      omega
    exact ⟨hp, by rwa [hp] at h⟩
  · rintro ⟨hp, hd⟩
    rw [hp, hd]

/-- The beginning of a normal path is normal, unless it ends in the prototype word or in a line break. -/
theorem normal_of_append {before after : List Char} (h : Normal (before ++ after)) (hn : '\n' ∉ before)
    (hw : ¬ prototypeWord <:+ before) : Normal before := by
  rw [normalizeChars_eq_self_iff] at h ⊢
  refine ⟨fun t ht => ?_, fun hin => h.2 (hin.trans (List.prefix_append before after).isInfix)⟩
  rw [Option.eq_none_iff_forall_not_mem]
  intro rest hr
  rcases afterPrototype?_eq_some_iff.1 hr with rfl | ⟨rfl, -⟩ | ⟨rfl, -⟩
  · -- The dot behind the word is there in the whole path as well.
    obtain ⟨b, rfl⟩ := ht
    have hs := h.1 (prototypeWord ++ '.' :: (rest ++ after)) ⟨b, by simp⟩
    rw [afterPrototype?_eq_some_iff.2 (.inl rfl)] at hs
    cases hs
  · exact hw ht
  · exact hn (ht.subset (by simp))

/-- Where a dot follows, a normal path does not have the prototype word. -/
theorem not_prototypeWord_before_dot {before after : List Char} (h : Normal (before ++ '.' :: after)) :
    ¬ prototypeWord <:+ before := by
  rintro ⟨b, rfl⟩
  have hs := (normalizeChars_eq_self_iff.1 h).1 (prototypeWord ++ '.' :: after) ⟨b, by simp⟩
  rw [afterPrototype?_eq_some_iff.2 (.inl rfl)] at hs
  cases hs

/-! ## Beginnings of paths -/

section Beginnings

variable {c c' : Char} {cs cs' xs ys word : List Char}

theorem head?_dropDotAfterHash (cs : List Char) : (dropDotAfterHash cs).head? = cs.head? := by
  fun_cases dropDotAfterHash cs <;> rfl

/-- The normal form of a path starts as the path does, or with the `#` of an instance member. -/
theorem eq_of_normalizeChars_cons (h : normalizeChars (c :: cs) = c' :: cs') (hc : c' ≠ '#') : c' = c := by
  have hhead : (hashPrototype (c :: cs)).head? = some c' := by
    rw [← head?_dropDotAfterHash, ← normalizeChars, h, List.head?_cons]
  unfold hashPrototype at hhead
  split at hhead
  · exact absurd (Option.some.inj hhead).symm hc
  · exact (Option.some.inj hhead).symm

/-- A text is kept by the normal form if nothing in it can be replaced, not even with what follows it. -/
theorem normalizeChars_append_of_kept (hword : ∀ tail, tail <:+ xs → tail ≠ [] → afterPrototype? (tail ++ ys) = none)
    (hdot : ¬ ['#', '.'] <:+: xs) (hlast : xs.getLast? ≠ some '#') :
    normalizeChars (xs ++ ys) = xs ++ normalizeChars ys := by
  induction xs with
  | nil => rfl
  | cons x xs ih =>
    have hnone : afterPrototype? (x :: (xs ++ ys)) = none := hword (x :: xs) List.suffix_rfl (List.cons_ne_nil x xs)
    have hlast' : xs.getLast? ≠ some '#' := by
      intro he
      cases xs with
      | nil => cases he
      | cons y xs => exact hlast (by rw [List.getLast?_cons_cons, he])
    have hrest : normalizeChars (xs ++ ys) = xs ++ normalizeChars ys :=
      ih (fun tail ht hne => hword tail (ht.trans (List.suffix_cons x xs)) hne)
        (fun hin => hdot (hin.trans (List.suffix_cons x xs).isInfix)) hlast'
    rw [List.cons_append, List.cons_append, ← hrest, normalizeChars, normalizeChars, hashPrototype_cons hnone,
      dropDotAfterHash.eq_def]
    split
    · next tail heq =>
      -- A dot behind `#` would be in the text itself, since `#` does not end it.
      obtain ⟨rfl, hsep⟩ := List.cons.inj heq
      cases xs with
      | nil => exact absurd rfl hlast
      | cons y xs =>
        have hy : y ≠ '.' := by
          rintro rfl
          exact hdot ⟨[], xs, rfl⟩
        have hnone' : afterPrototype? (y :: (xs ++ ys)) = none :=
          hword (y :: xs) (List.suffix_cons '#' (y :: xs)) (List.cons_ne_nil y xs)
        rw [List.cons_append, hashPrototype_cons hnone'] at hsep
        exact absurd (List.cons.inj hsep).1 hy
    · next heq =>
      cases heq
      rfl
    · next heq => cases heq

variable (hdot : '.' ∉ word) (hhash : '#' ∉ word)
include hdot hhash

/-- A word without dots and `#` is kept, and does not matter for what follows it. -/
theorem normalizeChars_append (cs : List Char) : normalizeChars (word ++ cs) = word ++ normalizeChars cs := by
  refine normalizeChars_append_of_kept (fun tail ht hne => ?_) (fun hin => hdot (hin.subset (by simp))) fun hlast =>
    hhash (List.mem_of_getLast? hlast)
  obtain ⟨c, tail, rfl⟩ := List.exists_cons_of_ne_nil hne
  have hc : c ≠ '.' := by
    rintro rfl
    exact hdot (ht.subset List.mem_cons_self)
  exact afterPrototype?_cons hc (tail ++ cs)

/-- A path starts with a word just if its normal form does. -/
theorem prefix_normalizeChars_iff : word <+: normalizeChars cs ↔ word <+: cs := by
  constructor
  · intro h
    induction word generalizing cs with
    | nil => exact List.nil_prefix
    | cons c word ih =>
      rw [List.mem_cons, not_or] at hdot hhash
      obtain ⟨rest, hrest⟩ := h
      cases cs with
      | nil =>
        have hnil : normalizeChars [] = [] := List.length_eq_zero_iff.1 (Nat.le_zero.1 (normalizeChars_length_le []))
        rw [hnil] at hrest
        cases hrest
      | cons c' cs =>
        obtain rfl := eq_of_normalizeChars_cons hrest.symm (Ne.symm hhash.1)
        have hcons : normalizeChars (c :: cs) = c :: normalizeChars cs :=
          normalizeChars_append (mt List.mem_singleton.1 hdot.1) (mt List.mem_singleton.1 hhash.1) cs
        rw [hcons] at hrest
        rw [List.prefix_cons_inj]
        exact ih hdot.2 hhash.2 ⟨rest, (List.cons.inj hrest).2⟩
  · rintro ⟨rest, rfl⟩
    rw [normalizeChars_append hdot hhash]
    exact List.prefix_append _ _

end Beginnings

end SymbolDocs.NamePath
