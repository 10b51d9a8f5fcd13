import Mathlib.Data.List.TakeWhile
import SymbolDocs.Text.Blank

/-!
# Taking characters off the ends of a text

Characters of a class go from the ends of a text (`dropEndWhile_append`, `stripWhile_cons`), and a text that has none of
them there is left as it is (`stripWhile_eq_self`). Nothing is left of a text exactly if all its characters are of the
class (`stripWhile_eq_nil_iff`).
-/

namespace SymbolDocs.Text

variable {p : Char → Bool} {c : Char} {cs ds : List Char}

/-- Characters of the class go from the end of a text. -/
theorem dropEndWhile_append (h : ∀ d ∈ ds, p d = true) (cs : List Char) :
    dropEndWhile p (cs ++ ds) = dropEndWhile p cs := by
  have hds : ∀ d ∈ ds.reverse, p d = true := fun d hd => h d (List.mem_reverse.1 hd)
  rw [dropEndWhile, List.reverse_append, List.dropWhile_append_of_pos hds, dropEndWhile]

/-- A text that ends with no character of the class keeps its end. -/
theorem dropEndWhile_eq_self (h : ∀ d ∈ cs.getLast?, p d = false) : dropEndWhile p cs = cs := by
  rcases List.eq_nil_or_concat cs with rfl | ⟨ds, d, rfl⟩
  · rfl
  · have hd : p d = false := h d (by simp)
    rw [dropEndWhile, List.concat_eq_append, List.reverse_append, List.reverse_singleton, List.singleton_append,
      List.dropWhile_cons_of_neg (by simp [hd]), List.reverse_cons, List.reverse_reverse]

theorem stripWhile_cons (h : p c = true) (cs : List Char) : stripWhile p (c :: cs) = stripWhile p cs := by
  rw [stripWhile, List.dropWhile_cons_of_pos h, stripWhile]

theorem stripWhile_eq_self (hhead : ∀ d ∈ cs.head?, p d = false) (hlast : ∀ d ∈ cs.getLast?, p d = false) :
    stripWhile p cs = cs := by
  have hdrop : cs.dropWhile p = cs := by
    cases cs with
    | nil => rfl
    | cons d cs => rw [List.dropWhile_cons_of_neg (by simp [hhead d rfl])]
  rw [stripWhile, hdrop, dropEndWhile_eq_self hlast]

theorem dropEndWhile_prefix (cs : List Char) : dropEndWhile p cs <+: cs := by
  rw [dropEndWhile, ← List.reverse_suffix, List.reverse_reverse]
  exact List.dropWhile_suffix p

theorem head_dropWhile (cs : List Char) : ∀ c ∈ (cs.dropWhile p).head?, p c = false := by
  intro c hc
  have h := List.head?_dropWhile_not p cs
  rw [Option.mem_def.1 hc] at h
  simpa using h

theorem head_trimLeft (cs : List Char) : ∀ c ∈ (trimLeft cs).head?, isBlank c = false := head_dropWhile cs

theorem head_trim (cs : List Char) : ∀ c ∈ (trim cs).head?, isBlank c = false := by
  intro c hc
  obtain ⟨ds, hds⟩ : trim cs <+: trimLeft cs := dropEndWhile_prefix _
  refine head_trimLeft cs c ?_
  rw [← hds, List.head?_append, Option.mem_def.1 hc]
  rfl

theorem stripWhile_dropWhile (cs : List Char) : stripWhile p (cs.dropWhile p) = stripWhile p cs := by
  induction cs with
  | nil => rfl
  | cons c cs ih =>
    cases hc : p c with
    | true => rw [List.dropWhile_cons_of_pos hc, stripWhile_cons hc, ih]
    | false => rw [List.dropWhile_cons_of_neg (by simp [hc])]

theorem dropEndWhile_eq_nil_iff : dropEndWhile p cs = [] ↔ ∀ d ∈ cs, p d = true := by
  rw [dropEndWhile, List.reverse_eq_nil_iff, List.dropWhile_eq_nil_iff]
  simp

theorem stripWhile_eq_nil_iff : stripWhile p cs = [] ↔ ∀ d ∈ cs, p d = true := by
  rw [stripWhile, dropEndWhile_eq_nil_iff]
  constructor
  · intro h d hd
    rw [← List.takeWhile_append_dropWhile (p := p) (l := cs), List.mem_append] at hd
    rcases hd with hd | hd
    · exact List.all_eq_true.1 List.all_takeWhile d hd
    · exact h d hd
  · exact fun h d hd => h d ((List.dropWhile_suffix p).subset hd)

/-- What is taken off the end does not come off a second time. -/
theorem dropEndWhile_dropEndWhile (cs : List Char) : dropEndWhile p (dropEndWhile p cs) = dropEndWhile p cs := by
  refine dropEndWhile_eq_self fun d hd => ?_
  rw [dropEndWhile, List.getLast?_reverse] at hd
  have := List.head?_dropWhile_not p cs.reverse
  rw [hd] at this
  simpa using this

/-- What stands before a character that is not of the class stays. -/
theorem dropEndWhile_append_cons (h : p c = false) (cs ds : List Char) :
    dropEndWhile p (cs ++ c :: ds) = cs ++ c :: dropEndWhile p ds := by
  rw [dropEndWhile, List.reverse_append, List.reverse_cons, List.append_assoc, List.dropWhile_append]
  split
  · next hnil =>
    have hds : dropEndWhile p ds = [] := by rw [dropEndWhile, List.isEmpty_iff.1 hnil, List.reverse_nil]
    rw [hds, List.singleton_append, List.dropWhile_cons_of_neg (by simp [h]), List.reverse_cons, List.reverse_reverse]
  · simp [dropEndWhile]

theorem dropWhile_dropEndWhile (cs : List Char) :
    (dropEndWhile p cs).dropWhile p = dropEndWhile p (cs.dropWhile p) := by
  cases hcs : cs.dropWhile p with
  | nil =>
    have hall := List.dropWhile_eq_nil_iff.1 hcs
    rw [dropEndWhile_eq_nil_iff.2 hall, List.dropWhile_nil]
    rfl
  | cons c ds =>
    have hc : p c = false := by
      have := List.head?_dropWhile_not p cs
      rw [hcs] at this
      exact this
    have hfront : ∀ d ∈ cs.takeWhile p, p d = true := fun d hd => List.all_eq_true.1 List.all_takeWhile d hd
    have hback : dropEndWhile p (c :: ds) = c :: dropEndWhile p ds := dropEndWhile_append_cons hc [] ds
    rw [← List.takeWhile_append_dropWhile (p := p) (l := cs), hcs, dropEndWhile_append_cons hc, hback,
      List.dropWhile_append_of_pos hfront, List.dropWhile_cons_of_neg (by simp [hc])]

/-- What goes from the end first does not matter. -/
theorem stripWhile_dropEndWhile (cs : List Char) : stripWhile p (dropEndWhile p cs) = stripWhile p cs := by
  rw [stripWhile, dropWhile_dropEndWhile, dropEndWhile_dropEndWhile, stripWhile]

end SymbolDocs.Text
