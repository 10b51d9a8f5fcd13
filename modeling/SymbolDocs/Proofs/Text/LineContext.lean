import Mathlib.Data.List.DropRight
import SymbolDocs.Proofs.Comment.Layout

/-!
# The line at a place of a text

A place of a text is on a line: in front of it are the lines that have ended (`EndsLine`) and the beginning of its own
line (`lastLine`), behind it the rest of this line and further lines. Cutting the text into lines keeps these parts
(`splitLines_append_of_endsLine`, `exists_splitLines_append`), whatever stands at the place itself, and joining the
lines puts the parts together again (`joinNewline_append_cons`).
-/

namespace SymbolDocs.Text

variable {p : Char → Bool} {c : Char} {cs ds l x y s : List Char} {ls ms : List (List Char)}

/-- The part of a text behind its last line break. -/
def lastLine (cs : List Char) : List Char := cs.rtakeWhile (!isLineBreak ·)

/-- A text behind which a line starts: it is empty or ends with a line break. -/
def EndsLine (cs : List Char) : Prop := ∀ c ∈ cs.getLast?, isLineBreak c = true

theorem EndsLine.append (hx : EndsLine x) (hy : EndsLine y) : EndsLine (x ++ y) := by
  intro c hc
  rw [List.getLast?_append, Option.mem_def, Option.or_eq_some_iff] at hc
  rcases hc with hc | ⟨-, hc⟩
  · exact hy c hc
  · exact hx c hc

theorem EndsLine.suffix (hx : EndsLine x) (h : y <:+ x) : EndsLine y := by
  intro c hc
  obtain ⟨ds, rfl⟩ := h
  exact hx c (by rw [List.getLast?_append, Option.mem_def.1 hc]; rfl)

theorem endsLine_flatMap (ls : List (List Char)) : EndsLine (ls.flatMap (· ++ ['\n'])) := by
  rcases List.eq_nil_or_concat ls with rfl | ⟨ms, l, rfl⟩
  · exact nofun
  · intro c hc
    obtain rfl : '\n' = c := by simpa [List.getLast?_append] using hc
    rfl

/-- A text is what ends with its last line break, and its last line. -/
theorem exists_lastLine (cs : List Char) :
    ∃ x, cs = x ++ lastLine cs ∧ EndsLine x ∧ ∀ c ∈ lastLine cs, isLineBreak c = false := by
  refine ⟨cs.rdropWhile (!isLineBreak ·), ?_, fun c hc => ?_, fun c hc => ?_⟩
  · rw [lastLine, List.rdropWhile, List.rtakeWhile, ← List.reverse_append, List.takeWhile_append_dropWhile,
      List.reverse_reverse]
  · rw [List.rdropWhile, List.getLast?_reverse] at hc
    have := List.head?_dropWhile_not (!isLineBreak ·) cs.reverse
    rw [Option.mem_def.1 hc] at this
    simpa using this
  · rw [lastLine, List.rtakeWhile, List.mem_reverse] at hc
    simpa using List.all_eq_true.1 List.all_takeWhile c hc

theorem lastLine_append (hx : EndsLine x) (hl : ∀ c ∈ l, isLineBreak c = false) : lastLine (x ++ l) = l := by
  have hnil : x.reverse.takeWhile (!isLineBreak ·) = [] := by
    rcases List.eq_nil_or_concat x with rfl | ⟨ds, d, rfl⟩
    · rfl
    · have hd : isLineBreak d = true := hx d (by simp)
      simp [hd]
  rw [lastLine, List.rtakeWhile, List.reverse_append, List.takeWhile_append_of_pos (by simpa using hl), hnil,
    List.append_nil, List.reverse_reverse]

theorem splitLines_ne_nil (hne : cs ≠ []) : splitLines cs ≠ [] := by
  intro hnil
  cases cs with
  | nil => exact hne rfl
  | cons c cs =>
    rw [splitLines.eq_def] at hnil
    split at hnil
    · next h => cases h
    · cases hnil
    · split at hnil
      · cases hnil
      · split at hnil <;> cases hnil

/-- Lines that have ended are not touched by what follows. -/
theorem splitLines_append_of_endsLine (hx : EndsLine x) (hcs : cs.head? ≠ some '\n') :
    splitLines (x ++ cs) = splitLines x ++ splitLines cs := by
  fun_induction splitLines x with
  | case1 => rfl
  | case2 x ih => exact congrArg ([] :: ·) (ih (hx.suffix ⟨['\r', '\n'], rfl⟩))
  | case3 c x hpair hc ih =>
    have hcut : splitLines (c :: (x ++ cs)) = [] :: splitLines (x ++ cs) := by
      rw [splitLines]
      · exact if_pos hc
      · rintro ds rfl hds
        cases x with
        | nil => exact hcs (by rw [← List.nil_append cs, hds]; rfl)
        | cons d x =>
          obtain ⟨rfl, -⟩ := List.cons.inj hds
          exact hpair x rfl rfl
    rw [List.cons_append, hcut, ih (hx.suffix ⟨[c], rfl⟩), List.cons_append]
  | case4 c x hpair hc hnil ih =>
    cases x with
    | nil => exact absurd (hx c rfl) hc
    | cons d x => exact absurd hnil (splitLines_ne_nil (List.cons_ne_nil d x))
  | case5 c x hpair hc l ls hcons ih =>
    cases x with
    | nil => exact absurd (hx c rfl) hc
    | cons d x =>
      rw [hcons] at ih
      rw [List.cons_append, splitLines_cons (by simpa using hc), ih (hx.suffix ⟨[c], rfl⟩)]
      rfl

/-- Characters that end no line stay with the first line of what follows. -/
theorem splitLines_append_line (hl : ∀ c ∈ l, isLineBreak c = false) (hne : cs ≠ []) :
    splitLines (l ++ cs) = (splitLines cs).modifyHead (l ++ ·) := by
  induction l with
  | nil => exact (congrFun List.modifyHead_id (splitLines cs)).symm
  | cons c l ih =>
    obtain ⟨hc, hl⟩ := List.forall_mem_cons.1 hl
    rw [List.cons_append, splitLines_cons hc, ih hl]
    cases hcs : splitLines cs with
    | nil => exact absurd hcs (splitLines_ne_nil hne)
    | cons m ms => rfl

theorem head_splitLines_prefix (h : splitLines cs = l :: ls) : l <+: cs := by
  fun_induction splitLines cs generalizing l ls with
  | case1 => cases h
  | case2 cs ih =>
    cases h
    exact List.nil_prefix
  | case3 c cs _ hc ih =>
    cases h
    exact List.nil_prefix
  | case4 c cs _ hc hnil ih =>
    cases h
    exact List.cons_prefix_cons.2 ⟨rfl, List.nil_prefix⟩
  | case5 c cs _ hc m ms hcons ih =>
    cases h
    exact List.cons_prefix_cons.2 ⟨rfl, ih hcons⟩

theorem head_cutAt_prefix (h : cutAt p cs = l :: ls) : l <+: cs := by
  induction cs generalizing l ls with
  | nil =>
    cases h
    exact List.nil_prefix
  | cons c cs ih =>
    rw [cutAt] at h
    split at h
    · cases h
      exact List.nil_prefix
    · cases hcs : cutAt p cs with
      | nil => exact absurd hcs (cutAt_ne_nil p cs)
      | cons m ms =>
        rw [hcs] at h
        cases h
        exact List.cons_prefix_cons.2 ⟨rfl, ih hcs⟩

/-- The lines behind a place do not depend on what stands there. -/
theorem exists_splitLines_append (y : List Char) : ∃ r ls, r <+: y ∧
    ∀ s, s ≠ [] → (∀ c ∈ s, isLineBreak c = false) → splitLines (s ++ y) = (s ++ r) :: ls := by
  cases hy : splitLines y with
  | nil =>
    have hnil : y = [] := by
      by_contra hne
      exact splitLines_ne_nil hne hy
    subst hnil
    exact ⟨[], [], List.nil_prefix, fun s hne hs => by rw [List.append_nil, splitLines_eq_singleton hne hs]⟩
  | cons r ls =>
    have hne : y ≠ [] := by
      rintro rfl
      cases hy
    exact ⟨r, ls, head_splitLines_prefix hy, fun s _ hs => by rw [splitLines_append_line hs hne, hy]; rfl⟩

/-- The lines joined around one of them. -/
theorem joinNewline_append_cons (ls : List (List Char)) (l : List Char) (ms : List (List Char)) :
    joinNewline (ls ++ l :: ms) = ls.flatMap (· ++ ['\n']) ++ (l ++ ms.flatMap ('\n' :: ·)) := by
  induction ls with
  | nil => rw [List.nil_append, joinNewline_cons, List.flatMap_nil, List.nil_append]
  | cons k ls ih =>
    obtain ⟨m, ns, hms⟩ := List.exists_cons_of_ne_nil (show ls ++ l :: ms ≠ [] by simp)
    rw [List.cons_append, hms, joinNewline, ← hms, ih, List.flatMap_cons]
    simp

theorem splitLines_flatMap (h : ∀ l ∈ ls, ∀ c ∈ l, isLineBreak c = false) :
    splitLines (ls.flatMap (· ++ ['\n'])) = ls := by
  induction ls with
  | nil => rfl
  | cons l ls ih =>
    obtain ⟨hl, hls⟩ := List.forall_mem_cons.1 h
    rw [List.flatMap_cons, List.append_assoc, List.singleton_append, splitLines_append hl, ih hls]

/-- Pieces that have ended are not touched by what follows. -/
theorem cutAt_append_of_eq (h : cutAt p cs = ls ++ [l]) (ds : List Char) :
    cutAt p (cs ++ ds) = ls ++ (cutAt p ds).modifyHead (l ++ ·) := by
  induction cs generalizing ls l with
  | nil =>
    obtain ⟨rfl, rfl⟩ : ls = [] ∧ l = [] := by
      cases ls with
      | nil => exact ⟨rfl, by simpa [cutAt] using h.symm⟩
      | cons m ls => simp [cutAt] at h
    exact (congrFun List.modifyHead_id (cutAt p ds)).symm
  | cons c cs ih =>
    rw [cutAt] at h
    rw [List.cons_append, cutAt]
    split
    · next hc =>
      rw [if_pos hc] at h
      cases ls with
      | nil =>
        obtain ⟨-, hnil⟩ := List.cons.inj h
        exact absurd hnil (cutAt_ne_nil p cs)
      | cons m ls =>
        obtain ⟨rfl, hcs⟩ := List.cons.inj h
        rw [ih hcs, List.cons_append]
    · next hc =>
      rw [if_neg hc] at h
      cases hcs : cutAt p cs with
      | nil => exact absurd hcs (cutAt_ne_nil p cs)
      | cons m ms =>
        rw [hcs] at h
        cases ls with
        | nil =>
          obtain ⟨rfl, rfl⟩ := List.cons.inj h
          rw [ih (show cutAt p cs = [] ++ [m] from hcs), List.nil_append, List.nil_append]
          cases hds : cutAt p ds with
          | nil => exact absurd hds (cutAt_ne_nil p ds)
          | cons n ns => rfl
        | cons k ls =>
          obtain ⟨rfl, rfl⟩ := List.cons.inj h
          rw [ih (show cutAt p cs = m :: ls ++ [l] from hcs)]
          rfl

end SymbolDocs.Text
