/-!
# Properly nested brackets

The brackets of one kind are properly nested in a text if no beginning of the text closes more than it opens, and the
whole text closes as many as it opens (`Nested`). Texts with this property can be put behind one another and between
brackets, and only the brackets matter (`nested_filter_iff`).
-/

namespace SymbolDocs.Text

/-- The brackets of a kind are properly nested. -/
structure Nested (opener closer : Char) (cs : List Char) : Prop where
  covered : ∀ before, before <+: cs → before.count closer ≤ before.count opener
  closed : cs.count closer = cs.count opener

variable {opener closer : Char} {cs ds : List Char}

theorem nested_nil : Nested opener closer [] := by
  refine ⟨fun before hb => ?_, rfl⟩
  rw [List.prefix_nil.1 hb]
  exact Nat.le_refl _

/-- A text without brackets of the kind. -/
theorem nested_of_not_mem (ho : opener ∉ cs) (hc : closer ∉ cs) : Nested opener closer cs := by
  refine ⟨fun before hb => ?_, ?_⟩
  · rw [List.count_eq_zero.2 fun h => hc (hb.subset h)]
    exact Nat.zero_le _
  · rw [List.count_eq_zero.2 hc, List.count_eq_zero.2 ho]

theorem Nested.append (h : Nested opener closer cs) (h' : Nested opener closer ds) :
    Nested opener closer (cs ++ ds) := by
  refine ⟨fun before hb => ?_, ?_⟩
  · rcases List.prefix_or_prefix_of_prefix hb (List.prefix_append cs ds) with hcs | ⟨mid, rfl⟩
    · exact h.covered before hcs
    · have hmid := h'.covered mid ((List.prefix_append_right_inj cs).1 hb)
      rw [List.count_append, List.count_append, h.closed]
      omega
  · rw [List.count_append, List.count_append, h.closed, h'.closed]

/-- Brackets around nested brackets. -/
theorem Nested.enclose (hne : opener ≠ closer) (h : Nested opener closer cs) :
    Nested opener closer (opener :: cs ++ [closer]) := by
  have hwhole : (opener :: cs ++ [closer]).count closer = (opener :: cs ++ [closer]).count opener := by
    simp [hne, hne.symm, h.closed]
  refine ⟨fun before hb => ?_, hwhole⟩
  rcases List.prefix_concat_iff.1 hb with rfl | hb
  · exact Nat.le_of_eq hwhole
  · rcases List.prefix_cons_iff.1 hb with rfl | ⟨mid, rfl, hmid⟩
    · exact Nat.le_refl _
    · rw [List.count_cons_of_ne hne, List.count_cons_self]
      exact Nat.le_succ_of_le (h.covered mid hmid)

/-- Only the brackets matter. -/
theorem nested_filter_iff {p : Char → Bool} (ho : p opener = true) (hc : p closer = true) :
    Nested opener closer (cs.filter p) ↔ Nested opener closer cs := by
  constructor
  · intro h
    refine ⟨fun before hb => ?_, ?_⟩
    · have := h.covered _ (hb.filter p)
      rwa [List.count_filter hc, List.count_filter ho] at this
    · have := h.closed
      rwa [List.count_filter hc, List.count_filter ho] at this
  · intro h
    refine ⟨fun before hb => ?_, ?_⟩
    · obtain ⟨whole, hw, rfl⟩ := List.prefix_filter_iff.1 hb
      rw [List.count_filter hc, List.count_filter ho]
      exact h.covered whole hw
    · rw [List.count_filter hc, List.count_filter ho]
      exact h.closed

/-! ## Behind open brackets -/

/-- Behind `depth` open brackets of a kind, a text closes all of them and those that it opens itself. -/
structure Unwinds (opener closer : Char) (depth : Nat) (cs : List Char) : Prop where
  covered : ∀ before, before <+: cs → before.count closer ≤ depth + before.count opener
  closed : cs.count closer = depth + cs.count opener

variable {c : Char} {depth : Nat}

theorem unwinds_zero_iff : Unwinds opener closer 0 cs ↔ Nested opener closer cs := by
  constructor
  · rintro ⟨hcovered, hclosed⟩
    exact ⟨by simpa using hcovered, by simpa using hclosed⟩
  · rintro ⟨hcovered, hclosed⟩
    exact ⟨by simpa using hcovered, by simpa using hclosed⟩

theorem unwinds_nil_iff : Unwinds opener closer depth [] ↔ depth = 0 := by
  constructor
  · intro h
    simpa using h.closed.symm
  · rintro rfl
    exact unwinds_zero_iff.2 nested_nil

theorem forall_prefix_cons {P : List Char → Prop} :
    (∀ before, before <+: c :: cs → P before) ↔ P [] ∧ ∀ before, before <+: cs → P (c :: before) := by
  constructor
  · exact fun h => ⟨h [] List.nil_prefix, fun before hb => h _ (List.cons_prefix_cons.2 ⟨rfl, hb⟩)⟩
  · rintro ⟨hnil, hcons⟩ before hb
    rcases List.prefix_cons_iff.1 hb with rfl | ⟨rest, rfl, hrest⟩
    · exact hnil
    · exact hcons rest hrest

/-- The first character of a text, where it leaves as many brackets to close as are open behind it. -/
theorem unwinds_cons_iff {depth' k : Nat} (h : ∀ ds : List Char, (c :: ds).count closer = ds.count closer + k ∧
    depth + (c :: ds).count opener = depth' + ds.count opener + k) :
    Unwinds opener closer depth (c :: cs) ↔ Unwinds opener closer depth' cs := by
  constructor
  · rintro ⟨hcovered, hclosed⟩
    refine ⟨fun before hb => ?_, ?_⟩
    · have := (forall_prefix_cons.1 hcovered).2 before hb
      rw [(h before).1, (h before).2] at this
      omega
    · rw [(h cs).1, (h cs).2] at hclosed
      omega
  · rintro ⟨hcovered, hclosed⟩
    refine ⟨forall_prefix_cons.2 ⟨Nat.zero_le _, fun before hb => ?_⟩, ?_⟩
    · rw [(h before).1, (h before).2]
      exact Nat.add_le_add_right (hcovered before hb) k
    · rw [(h cs).1, (h cs).2, hclosed]

theorem unwinds_opener_iff (hne : opener ≠ closer) :
    Unwinds opener closer depth (opener :: cs) ↔ Unwinds opener closer (depth + 1) cs :=
  unwinds_cons_iff (k := 0) fun ds => ⟨List.count_cons_of_ne hne, by rw [List.count_cons_self]; omega⟩

theorem unwinds_closer_iff (hne : opener ≠ closer) :
    Unwinds opener closer (depth + 1) (closer :: cs) ↔ Unwinds opener closer depth cs :=
  unwinds_cons_iff (k := 1) fun ds => ⟨List.count_cons_self, by rw [List.count_cons_of_ne hne.symm]; omega⟩

theorem unwinds_other_iff (ho : c ≠ opener) (hc : c ≠ closer) :
    Unwinds opener closer depth (c :: cs) ↔ Unwinds opener closer depth cs :=
  unwinds_cons_iff (k := 0) fun ds => ⟨List.count_cons_of_ne hc, by rw [List.count_cons_of_ne ho]; omega⟩

theorem not_unwinds_zero_closer (hne : opener ≠ closer) : ¬ Unwinds opener closer 0 (closer :: cs) := by
  intro h
  have := h.covered [closer] (List.cons_prefix_cons.2 ⟨rfl, List.nil_prefix⟩)
  simp [hne.symm] at this

end SymbolDocs.Text
