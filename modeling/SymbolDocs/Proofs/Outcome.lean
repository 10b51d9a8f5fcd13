/-!
# Outcomes of computations that may fail

When a chain of computations succeeds, and what it gives then.
-/

namespace SymbolDocs

variable {ε α β : Type}

theorem bind_eq_ok {x : Except ε α} {f : α → Except ε β} {b : β} :
    x >>= f = .ok b ↔ ∃ a, x = .ok a ∧ f a = .ok b := by
  cases x <;> simp [bind, Except.bind]

theorem map_eq_ok {x : Except ε α} {f : α → β} {b : β} : x.map f = .ok b ↔ ∃ a, x = .ok a ∧ f a = b := by
  cases x <;> simp [Except.map]

theorem map_eq_error {x : Except ε α} {f : α → β} {e : ε} : x.map f = .error e ↔ x = .error e := by
  cases x <;> simp [Except.map]

theorem isOk_map (f : α → β) (x : Except ε α) : (x.map f).isOk = x.isOk := by cases x <;> rfl

/-- Every value of a list of computations that succeed is the value of one of them. -/
theorem mem_of_mapM_eq_ok {f : α → Except ε β} {xs : List α} {ys : List β} (h : xs.mapM f = .ok ys) {y : β}
    (hy : y ∈ ys) : ∃ x ∈ xs, f x = .ok y := by
  induction xs generalizing ys with
  | nil =>
    cases h
    cases hy
  | cons x xs ih =>
    rw [List.mapM_cons] at h
    obtain ⟨z, hz, h⟩ := bind_eq_ok.1 h
    obtain ⟨zs, hzs, h⟩ := bind_eq_ok.1 h
    cases h
    rcases List.mem_cons.1 hy with rfl | hy
    · exact ⟨x, List.mem_cons_self, hz⟩
    · obtain ⟨x', hx', hf⟩ := ih hzs hy
      exact ⟨x', List.mem_cons_of_mem x hx', hf⟩

/-- What the step of each item keeps is kept by all steps together, if none of them fails. -/
theorem foldlM_keeps_of_mem {p : β → Prop} {f : β → α → Except ε β} {xs : List α}
    (hf : ∀ a ∈ xs, ∀ b b', p b → f b a = .ok b' → p b') {b b' : β} (hb : p b) (h : xs.foldlM f b = .ok b') :
    p b' := by
  induction xs generalizing b with
  | nil =>
    cases h
    exact hb
  | cons x xs ih =>
    obtain ⟨hx, hxs⟩ := List.forall_mem_cons.1 hf
    rw [List.foldlM_cons] at h
    obtain ⟨mid, hmid, h⟩ := bind_eq_ok.1 h
    exact ih hxs (hx b mid hb hmid) h

/-- What every step keeps is kept by all steps together, if none of them fails. -/
theorem foldlM_keeps {p : β → Prop} {f : β → α → Except ε β} (hf : ∀ b a b', p b → f b a = .ok b' → p b') {b b' : β}
    {xs : List α} (hb : p b) (h : xs.foldlM f b = .ok b') : p b' :=
  foldlM_keeps_of_mem (fun a _ b b' hb hstep => hf b a b' hb hstep) hb h

end SymbolDocs
