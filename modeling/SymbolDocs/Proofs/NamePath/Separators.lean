import SymbolDocs.Proofs.NamePath.PlainPaths

/-!
# Separators in normal forms

A normal form leaves a reader where the path itself does (`Nesting.Sound.read_normalizeChars`), and it ends in a
separator if the path does (`EndsInSeparator.normalizeChars`). So what stands in front of a separator is an owner in
the normal form as well (`exists_normalizeChars_concat`). Behind a separator the path is brought to normal form on its
own, unless it goes on there with a dot or with the rest of a prototype word (`normalizeChars_append_behind`).
-/

namespace SymbolDocs.NamePath

variable {cs xs ys before rest word : List Char} {n : Nesting} {c sep : Char}

/-! ## Reading normal forms -/

theorem Nesting.read_append (n : Nesting) (xs ys : List Char) : n.read (xs ++ ys) = (n.read xs).read ys :=
  List.foldl_append

namespace Nesting.Sound

protected theorem read (hs : n.Sound) (cs : List Char) : (n.read cs).Sound := by
  induction cs generalizing n with
  | nil => exact hs
  | cons c cs ih => exact ih (hs.step c)

/-- Neither the prototype word nor the `#` in its place opens or closes anything. -/
theorem read_hashPrototype (hs : n.Sound) : n.read (hashPrototype cs) = n.read cs := by
  fun_induction hashPrototype cs generalizing n with
  | case1 cs rest hafter _ ih =>
    have hword : n.read prototypeWord = n := hs.read_eq_self prototypeWord_not_delimiters
    have hdot : n.step '.' = n := hs.step_eq_self (by decide)
    have hhash : n.step '#' = n := hs.step_eq_self (by decide)
    have hrest : n.read cs = n.read rest := by
      rcases afterPrototype?_eq_some_iff.1 hafter with rfl | ⟨rfl, rfl⟩ | ⟨rfl, rfl⟩
      · rw [Nesting.read_append, hword]
        show (n.step '.').read rest = n.read rest
        rw [hdot]
      · exact hword
      · rw [Nesting.read_append, hword]
    show (n.step '#').read (hashPrototype rest) = n.read cs
    rw [hhash, ih hs, hrest]
  | case2 => rfl
  | case3 c cs _ ih => exact ih (hs.step c)

theorem read_dropDotAfterHash (hs : n.Sound) : n.read (dropDotAfterHash cs) = n.read cs := by
  fun_induction dropDotAfterHash cs generalizing n with
  | case1 cs ih =>
    have hhash : n.step '#' = n := hs.step_eq_self (by decide)
    have hdot : n.step '.' = n := hs.step_eq_self (by decide)
    show (n.step '#').read (dropDotAfterHash cs) = ((n.step '#').step '.').read cs
    rw [hhash, hdot, ih hs]
  | case2 c cs _ ih => exact ih (hs.step c)
  | case3 => rfl

/-- **A reader of the normal form ends where a reader of the path does.** -/
theorem read_normalizeChars (hs : n.Sound) : n.read (normalizeChars cs) = n.read cs := by
  rw [normalizeChars, hs.read_dropDotAfterHash, hs.read_hashPrototype]

end Nesting.Sound

/-! ## Separators at the end -/

/-- The last character is a separator. -/
def EndsInSeparator (cs : List Char) : Prop := ∃ before sep, isSeparator sep = true ∧ cs = before ++ [sep]

namespace EndsInSeparator

theorem append (h : EndsInSeparator ys) (xs : List Char) : EndsInSeparator (xs ++ ys) := by
  obtain ⟨before, sep, hsep, rfl⟩ := h
  exact ⟨xs ++ before, sep, hsep, (List.append_assoc _ _ _).symm⟩

theorem of_suffix (h : EndsInSeparator cs) (hs : ys <:+ cs) (hne : ys ≠ []) : EndsInSeparator ys := by
  obtain ⟨before, sep, hsep, rfl⟩ := h
  obtain ⟨xs, hxs⟩ := hs
  rcases List.eq_nil_or_concat ys with rfl | ⟨ys, last, rfl⟩
  · exact absurd rfl hne
  · rw [List.concat_eq_append, ← List.append_assoc] at hxs
    obtain ⟨-, hlast⟩ := List.append_inj' hxs rfl
    exact ⟨ys, last, by rwa [List.cons.inj hlast |>.1], List.concat_eq_append⟩

/-- A replaced prototype word at the end leaves `#` there. -/
theorem hashPrototype (h : EndsInSeparator cs) : EndsInSeparator (hashPrototype cs) := by
  fun_induction NamePath.hashPrototype cs with
  | case1 cs rest hafter _ ih =>
    rcases eq_or_ne rest [] with rfl | hne
    · exact ⟨[], '#', rfl, by rw [hashPrototype_eq_nil_iff.2 rfl, List.nil_append]⟩
    · have hsuffix : rest <:+ cs := by
        rcases afterPrototype?_eq_some_iff.1 hafter with rfl | ⟨-, rfl⟩ | ⟨rfl, rfl⟩
        · exact (List.suffix_cons '.' rest).trans (List.suffix_append prototypeWord _)
        · exact absurd rfl hne
        · exact List.suffix_append _ _
      exact (ih (h.of_suffix hsuffix hne)).append ['#']
  | case2 => exact h
  | case3 c cs _ ih =>
    rcases eq_or_ne cs [] with rfl | hne
    · rwa [hashPrototype_eq_nil_iff.2 rfl]
    · exact (ih (h.of_suffix (List.suffix_cons c cs) hne)).append [c]

theorem dropDotAfterHash (h : EndsInSeparator cs) : EndsInSeparator (dropDotAfterHash cs) := by
  fun_induction NamePath.dropDotAfterHash cs with
  | case1 cs ih =>
    rcases eq_or_ne cs [] with rfl | hne
    · exact ⟨[], '#', rfl, rfl⟩
    · have hsuffix : cs <:+ '#' :: '.' :: cs := (List.suffix_cons '.' cs).trans (List.suffix_cons '#' _)
      exact (ih (h.of_suffix hsuffix hne)).append ['#']
  | case2 c cs _ ih =>
    rcases eq_or_ne cs [] with rfl | hne
    · exact h
    · exact (ih (h.of_suffix (List.suffix_cons c cs) hne)).append [c]
  | case3 => exact h

/-- **The normal form of a text that ends in a separator ends in one.** -/
theorem normalizeChars (h : EndsInSeparator cs) : EndsInSeparator (normalizeChars cs) :=
  h.hashPrototype.dropDotAfterHash

end EndsInSeparator

/-- A path that starts with a name has a normal form that does. -/
theorem isSeparator_head?_normalizeChars (h : ∀ c ∈ cs.head?, isSeparator c = false) :
    ∀ c ∈ (normalizeChars cs).head?, isSeparator c = false := by
  rw [normalizeChars, head?_dropDotAfterHash]
  exact isSeparator_head?_hashPrototype h

/-- What stands in front of a separator at the end is an owner in the normal form as well. -/
theorem exists_normalizeChars_concat (hne : before ≠ []) (hhead : ∀ c ∈ before.head?, isSeparator c = false)
    (htop : (Nesting.read {} before).isTop) (hsep : isSeparator sep = true) :
    ∃ owner sep', normalizeChars (before ++ [sep]) = owner ++ [sep'] ∧ owner ≠ [] ∧
      (Nesting.read {} owner).isTop ∧ isSeparator sep' = true := by
  obtain ⟨owner, sep', hsep', heq⟩ := EndsInSeparator.normalizeChars ⟨before, sep, hsep, rfl⟩
  refine ⟨owner, sep', heq, ?_, ?_, hsep'⟩
  · rintro rfl
    -- The only character of the normal form would be its first one.
    have hfirst : ∀ c ∈ (before ++ [sep]).head?, isSeparator c = false := by
      rwa [List.head?_append_of_ne_nil _ hne]
    have hnot := isSeparator_head?_normalizeChars hfirst sep' (by rw [heq]; rfl)
    exact Bool.noConfusion (hnot.symm.trans hsep')
  · have hread : Nesting.read {} (owner ++ [sep']) = Nesting.read {} (before ++ [sep]) := by
      rw [← heq, Nesting.Sound.start.read_normalizeChars]
    rw [Nesting.read_append, Nesting.read_append, eq_of_isTop htop] at hread
    have hdelim : sep' ∉ delimiters := by
      rcases isSeparator_iff.1 hsep' with rfl | rfl | rfl <;> decide
    have hstep : Nesting.read {} [sep] = {} := step_separator hsep
    have hstep' : (Nesting.read {} owner).read [sep'] = Nesting.read {} owner :=
      (Nesting.Sound.start.read owner).step_eq_self hdelim
    rw [hstep, hstep'] at hread
    rw [hread]
    rfl

/-! ## Behind a separator -/

theorem dropDotAfterHash_append (h : ys.head? ≠ some '.') (xs : List Char) :
    dropDotAfterHash (xs ++ ys) = dropDotAfterHash xs ++ dropDotAfterHash ys := by
  fun_induction dropDotAfterHash xs with
  | case1 xs ih => rw [List.cons_append, List.cons_append, dropDotAfterHash, ih, List.cons_append]
  | case2 x xs hnot ih =>
    rw [List.cons_append, dropDotAfterHash, ih, List.cons_append]
    rintro tail rfl htail
    cases xs with
    | nil =>
      rw [List.nil_append] at htail
      exact h (by rw [htail]; rfl)
    | cons x' xs => exact hnot xs rfl (by rw [(List.cons.inj htail).1])
  | case3 => rfl

/-- A prototype word with a dot behind it is replaced. -/
theorem hashPrototype_dotted (behind : List Char) :
    hashPrototype (prototypeWord ++ '.' :: behind) = '#' :: hashPrototype behind :=
  hashPrototype_of_afterPrototype? (afterPrototype?_eq_some_iff.2 (.inl rfl))

/-- What is replaced in front of a separator does not depend on what is behind it. -/
theorem afterPrototype?_separator_ne_none_iff (hne : xs ≠ []) (hsep : isSeparator sep = true) :
    afterPrototype? (xs ++ sep :: rest) ≠ none ↔
      (xs = prototypeWord ∧ sep = '.') ∨ ∃ more, xs = prototypeWord ++ '.' :: more := by
  refine ⟨afterPrototype?_append_separator hne hsep, ?_⟩
  rintro (⟨rfl, rfl⟩ | ⟨more, rfl⟩)
  · rw [afterPrototype?_eq_some_iff.2 (.inl rfl)]
    exact Option.some_ne_none _
  · rw [List.append_assoc, List.cons_append, afterPrototype?_eq_some_iff.2 (.inl rfl)]
    exact Option.some_ne_none _

theorem hashPrototype_append_behind (hsep : isSeparator sep = true) (hrest : afterPrototype? (sep :: rest) = none)
    (xs : List Char) : hashPrototype (xs ++ sep :: rest) = hashPrototype (xs ++ [sep]) ++ hashPrototype rest := by
  match xs with
  | [] =>
    have hend : afterPrototype? [sep] = none := by
      rcases isSeparator_iff.1 hsep with rfl | rfl | rfl <;> rfl
    rw [List.nil_append, List.nil_append, hashPrototype_cons hrest, hashPrototype_cons hend]
    rw [hashPrototype_eq_nil_iff.2 rfl]
    rfl
  | x :: xs =>
    by_cases hcase : (x :: xs = prototypeWord ∧ sep = '.') ∨ ∃ more, x :: xs = prototypeWord ++ '.' :: more
    · rcases hcase with ⟨hword, rfl⟩ | ⟨more, hword⟩
      · rw [hword, hashPrototype_dotted, hashPrototype_dotted, hashPrototype_eq_nil_iff.2 rfl]
        rfl
      · have hlen : xs.length + 1 = prototypeWord.length + (more.length + 1) := by
          rw [← List.length_cons (a := x), hword, List.length_append, List.length_cons]
        rw [hword, List.append_assoc, List.append_assoc, List.cons_append, List.cons_append, hashPrototype_dotted,
          hashPrototype_dotted, hashPrototype_append_behind hsep hrest more, List.cons_append]
    · have hnone (behind : List Char) : afterPrototype? (x :: (xs ++ sep :: behind)) = none := by
        by_contra hsome
        exact hcase ((afterPrototype?_separator_ne_none_iff (List.cons_ne_nil x xs) hsep).1 hsome)
      rw [List.cons_append, List.cons_append, hashPrototype_cons (hnone rest), hashPrototype_cons (hnone []),
        hashPrototype_append_behind hsep hrest xs, List.cons_append]
termination_by xs.length
decreasing_by all_goals (simp only [List.length_cons]; omega)

/-- **Behind a separator a path is brought to normal form on its own**, unless a dot follows or the rest of a prototype
word that is replaced. -/
theorem normalizeChars_append_behind (hsep : isSeparator sep = true) (hrest : afterPrototype? (sep :: rest) = none)
    (hdot : rest.head? ≠ some '.') (xs : List Char) :
    normalizeChars (xs ++ sep :: rest) = normalizeChars (xs ++ [sep]) ++ normalizeChars rest := by
  have hhead : (hashPrototype rest).head? ≠ some '.' := by
    intro hhash
    rcases head?_hashPrototype hhash with h | h <;> exact hdot h
  rw [normalizeChars, hashPrototype_append_behind hsep hrest, dropDotAfterHash_append hhead, normalizeChars,
    normalizeChars]

end SymbolDocs.NamePath
