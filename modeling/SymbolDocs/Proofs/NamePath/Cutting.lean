import SymbolDocs.Proofs.NamePath.NormalForm

/-!
# Cutting name paths

A text without a separator outside quotes and brackets is `Unseparated`. `lastCut_eq_none_iff` says that these are the
texts without a cut, and `lastCut_eq_some_iff` that a text is cut at the last such separator. So a path is cut at the
last one behind its first character (`cut_eq_some_iff`), and an unseparated name is not cut.
-/

namespace SymbolDocs.NamePath

variable {cs before after : List Char} {n : Nesting} {sep : Char}

/-! ## Reading -/

theorem eq_of_isTop (h : n.isTop) : n = {} := by
  obtain ⟨quote, depth⟩ := n
  simpa [Nesting.isTop] using h

/-- Which characters are separators. -/
theorem isSeparator_iff : isSeparator sep ↔ sep = '.' ∨ sep = '#' ∨ sep = '~' := by
  constructor
  · intro h
    unfold isSeparator Scope.ofPunctuation? at h
    split at h
    · exact .inl rfl
    · exact .inr (.inl rfl)
    · exact .inr (.inr rfl)
    · cases h
  · rintro (rfl | rfl | rfl) <;> rfl

/-- A separator neither opens nor closes anything. -/
theorem step_separator (h : isSeparator sep) : Nesting.step {} sep = {} := by
  rcases isSeparator_iff.1 h with rfl | rfl | rfl <;> rfl

/-! ## The last cut -/

/-- A text has no cut just if none of its separators is outside quotes and brackets. -/
theorem lastCut_eq_none_iff :
    lastCut n cs = none ↔
      ∀ before c after, cs = before ++ c :: after → (n.read before).isTop → isSeparator c = false := by
  induction cs generalizing n with
  | nil => simp [lastCut]
  | cons c cs ih =>
    constructor
    · intro h before c' after heq htop
      simp only [lastCut] at h
      split at h
      · cases h
      · next hc =>
        cases before with
        | nil =>
          cases heq
          split at h
          · cases h
          · next hs => simpa [show n.isTop from htop] using hs
        | cons b before =>
          cases heq
          exact ih.1 hc before c' after rfl htop
    · intro h
      have hc : lastCut (n.step c) cs = none := ih.2 fun before c' after heq htop =>
        h (c :: before) c' after (by rw [heq, List.cons_append]) htop
      have hs : ¬ (n.isTop && isSeparator c) = true := by
        rw [Bool.and_eq_true]
        rintro ⟨htop, hsep⟩
        exact Bool.noConfusion (hsep.symm.trans (h [] c cs rfl htop))
      simp only [lastCut, hc, if_neg hs]

/-- A text is cut at a separator outside quotes and brackets behind which there is no other one. -/
theorem lastCut_append (htop : (n.read before).isTop) (hsep : isSeparator sep)
    (hafter : lastCut {} after = none) : lastCut n (before ++ sep :: after) = some (before, sep, after) := by
  induction before generalizing n with
  | nil =>
    obtain rfl := eq_of_isTop htop
    simp [lastCut, step_separator hsep, hafter, hsep, Nesting.isTop]
  | cons b before ih => simp [lastCut, ih htop]

/-- The cut of a path behind its first character. -/
theorem cut_append (hne : before ≠ []) (htop : (Nesting.read {} before).isTop) (hsep : isSeparator sep)
    (hafter : lastCut {} after = none) : cut (before ++ sep :: after) = some (before, sep, after) := by
  cases before with
  | nil => exact absurd rfl hne
  | cons b before =>
    have : lastCut (Nesting.step {} b) (before ++ sep :: after) = some (before, sep, after) :=
      lastCut_append htop hsep hafter
    simp [cut, this]

theorem cut_eq_none (h : lastCut {} cs = none) : cut cs = none := by
  cases cs with
  | nil => rfl
  | cons c cs =>
    simp only [lastCut] at h
    split at h
    · cases h
    · next hc => simp [cut, hc]

/-- A text is cut only at such a separator. -/
theorem lastCut_eq_some_iff : lastCut n cs = some (before, sep, after) ↔
    cs = before ++ sep :: after ∧ (n.read before).isTop ∧ isSeparator sep ∧ lastCut {} after = none := by
  constructor
  · intro h
    refine ⟨(append_of_lastCut h).symm, ?_⟩
    induction cs generalizing n before with
    | nil => cases h
    | cons c cs ih =>
      simp only [lastCut] at h
      split at h
      · next hc =>
        cases h
        obtain ⟨htop, hrest⟩ := ih hc
        exact ⟨htop, hrest⟩
      · next hc =>
        split at h
        · next hs =>
          cases h
          obtain ⟨htop, hsep⟩ := Bool.and_eq_true_iff.1 hs
          rw [eq_of_isTop htop, step_separator hsep] at hc
          exact ⟨htop, hsep, hc⟩
        · cases h
  · rintro ⟨rfl, htop, hsep, hafter⟩
    exact lastCut_append htop hsep hafter

/-- A path is cut at its last separator outside quotes and brackets behind its first character. -/
theorem cut_eq_some_iff : cut cs = some (before, sep, after) ↔
    cs = before ++ sep :: after ∧ before ≠ [] ∧ (Nesting.read {} before).isTop ∧ isSeparator sep ∧
      lastCut {} after = none := by
  constructor
  · intro h
    cases cs with
    | nil => cases h
    | cons c cs =>
      obtain ⟨⟨b, s, a⟩, hc, he⟩ := Option.map_eq_some_iff.1 h
      cases he
      obtain ⟨rfl, htop, hsep, hafter⟩ := lastCut_eq_some_iff.1 hc
      exact ⟨rfl, List.cons_ne_nil _ _, htop, hsep, hafter⟩
  · rintro ⟨rfl, hne, htop, hsep, hafter⟩
    exact cut_append hne htop hsep hafter

/-! ## Unseparated names -/

/-- A text without a separator outside quotes and brackets, not even at its start. -/
def Unseparated (cs : List Char) : Prop :=
  ∀ before c after, cs = before ++ c :: after → (Nesting.read {} before).isTop → isSeparator c = false

theorem unseparated_iff : Unseparated cs ↔ lastCut {} cs = none := lastCut_eq_none_iff.symm

instance : Decidable (Unseparated cs) := decidable_of_iff _ unseparated_iff.symm

/-- A beginning that ends outside quotes and brackets and a separator do not start an unseparated text. -/
theorem not_prefix_of_unseparated (h : Unseparated cs) (htop : (Nesting.read {} before).isTop)
    (hsep : isSeparator sep) : ¬ before ++ [sep] <+: cs := by
  rintro ⟨after, rfl⟩
  have := h before sep after (by simp) htop
  rw [hsep] at this
  cases this

/-! ## Owners with a separator behind them -/

/-- The prototype word does not end in a separator. -/
theorem not_prototypeWord_suffix (before : List Char) (hsep : isSeparator sep) :
    ¬ prototypeWord <:+ before ++ [sep] := by
  rintro ⟨b, hb⟩
  have hl := congrArg List.getLast? hb
  rw [List.getLast?_concat, List.getLast?_append, show prototypeWord.getLast? = some 'e' from rfl] at hl
  rcases isSeparator_iff.1 hsep with rfl | rfl | rfl <;> cases hl

theorem dropFinalBreak_eq_self (h : cs.getLast? ≠ some '\n') : dropFinalBreak cs = cs := by
  unfold dropFinalBreak
  split
  · next rest hr =>
    rw [List.getLast?_eq_head?_reverse, hr] at h
    exact absurd rfl h
  · rfl

/-- The separator behind an owner says how its members belong to it. -/
theorem splitOwnerChars_append (hne : before ≠ []) (hsep : isSeparator sep) :
    splitOwnerChars (before ++ [sep]) = (before, Scope.ofPunctuation? sep) := by
  have hb : (before ++ [sep]).getLast? ≠ some '\n' := by
    rw [List.getLast?_concat]
    rcases isSeparator_iff.1 hsep with rfl | rfl | rfl <;> decide
  have hw : ¬ prototypeWord.isSuffixOf (before ++ [sep]) = true := by
    rw [List.isSuffixOf_iff_suffix]
    exact not_prototypeWord_suffix before hsep
  obtain ⟨c, rest, hr⟩ := List.exists_cons_of_ne_nil (List.reverse_ne_nil_iff.2 hne)
  obtain ⟨scope, hs⟩ := Option.isSome_iff_exists.1 hsep
  unfold splitOwnerChars
  dsimp only
  rw [dropFinalBreak_eq_self hb, if_neg hw, List.reverse_concat, hr]
  simp only [hs, ← hr, List.reverse_reverse]

/-- An owner without a line break, a separator or the prototype word at its end is left as it is. -/
theorem splitOwnerChars_eq_self (hn : '\n' ∉ cs) (hw : ¬ prototypeWord <:+ cs)
    (hlast : ∀ c, cs.getLast? = some c → isSeparator c = false) : splitOwnerChars cs = (cs, none) := by
  have hw' : ¬ prototypeWord.isSuffixOf cs = true := by rwa [List.isSuffixOf_iff_suffix]
  unfold splitOwnerChars
  dsimp only
  rw [dropFinalBreak_eq_self fun h => hn (List.mem_of_getLast? h), if_neg hw']
  split
  · next c c' rest hr =>
    have hs := hlast c (by rw [List.getLast?_eq_head?_reverse, hr, List.head?_cons])
    have hnone : Scope.ofPunctuation? c = none := by simpa [isSeparator] using hs
    rw [hnone]
  · rfl

end SymbolDocs.NamePath
