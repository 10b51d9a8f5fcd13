import SymbolDocs.Proofs.Comment.Lines
import SymbolDocs.Run.Plugin

/-!
# Template tags in comments

A text with template tags is made of plain pieces with tags between them. The plugin for templates removes, on each
line, all that stands between the first mark that opens a tag and the last one that closes a tag. So the pieces in front
of the tags and behind them are kept, and so are pieces with a line break in them, but a piece between two tags of one
line goes with the tags (`withoutTags_interleave`). The comment that is left is made of all its plain pieces just if no
such piece is there, empty ones aside (`fireAll_railsTemplate`).
-/

namespace SymbolDocs

open SymbolDocs.Text

/-! ## Texts with template tags -/

namespace Template

/-- The mark that opens a template tag. -/
def openMark : List Char := ['<', '%']

/-- The mark that closes a template tag. -/
def closeMark : List Char := ['%', '>']

/-- A text without marks of template tags. -/
def Unmarked (cs : List Char) : Prop := ¬ openMark <:+: cs ∧ ¬ closeMark <:+: cs

instance (cs : List Char) : Decidable (Unmarked cs) := inferInstanceAs (Decidable (_ ∧ _))

/-- A template tag on one line, and the plain piece of the text behind it. -/
structure Tagged where
  inside : List Char
  piece : List Char
  inLine : '\n' ∉ inside
  unmarked : Unmarked piece

/-- The text of a plain piece and of tagged ones. -/
def interleave (first : List Char) (rest : List Tagged) : List Char :=
  first ++ rest.flatMap fun t => openMark ++ t.inside ++ closeMark ++ t.piece

/-- What is kept of the pieces behind tags: between two tags only a piece with a line break. -/
def keptPieces : List Tagged → List Char
  | [] => []
  | [t] => t.piece
  | t :: t' :: rest => (if '\n' ∈ t.piece then t.piece else []) ++ keptPieces (t' :: rest)

/-- The text without template tags. -/
def withoutTags (cs : List Char) : List Char := joinNewline ((splitNewline cs).map stripTemplateLine)

variable {cs xs ys l first inside piece : List Char} {t t' : Tagged} {rest : List Tagged}

theorem Unmarked.of_append (h : Unmarked (xs ++ ys)) : Unmarked xs ∧ Unmarked ys :=
  ⟨⟨fun hin => h.1 (hin.trans (List.prefix_append xs ys).isInfix),
    fun hin => h.2 (hin.trans (List.prefix_append xs ys).isInfix)⟩,
   ⟨fun hin => h.1 (hin.trans (List.suffix_append xs ys).isInfix),
    fun hin => h.2 (hin.trans (List.suffix_append xs ys).isInfix)⟩⟩

theorem Unmarked.of_cons {c : Char} (h : Unmarked (c :: cs)) : Unmarked cs := by
  have h' : Unmarked ([c] ++ cs) := h
  exact h'.of_append.2

/-! ## One line -/

theorem afterLastClose_eq_none (h : ¬ closeMark <:+: cs) : afterLastClose cs = none := by
  induction cs with
  | nil => rfl
  | cons c cs ih =>
    rw [List.infix_cons_iff, not_or] at h
    have hc : ¬ ['%', '>'].isPrefixOf (c :: cs) = true := by
      rw [List.isPrefixOf_iff_prefix]
      exact h.1
    simp only [afterLastClose, ih h.2, if_neg hc]

/-- The last mark that closes a tag is the one behind which there is none. -/
theorem afterLastClose_append (h : ¬ closeMark <:+: cs) (inside : List Char) :
    afterLastClose (inside ++ (closeMark ++ cs)) = some cs := by
  induction inside with
  | nil =>
    have hnot : ¬ ['%', '>'].isPrefixOf ('>' :: cs) = true := by simp
    simp only [List.nil_append, closeMark, List.cons_append, afterLastClose, afterLastClose_eq_none h, if_neg hnot]
    rfl
  | cons c inside ih => simp only [List.cons_append, afterLastClose, ih]

/-- Text in front of the first mark that opens a tag is kept. -/
theorem stripTemplateLine_append (h : ¬ openMark <:+: xs) (ys : List Char) :
    stripTemplateLine (xs ++ (openMark ++ ys)) = xs ++ stripTemplateLine (openMark ++ ys) := by
  induction xs with
  | nil => rfl
  | cons x xs ih =>
    rw [List.infix_cons_iff, not_or] at h
    rw [List.cons_append, stripTemplateLine, ih h.2, List.cons_append]
    -- The mark does not start in front: its second character would have to stand there, too.
    rintro tail rfl htail
    cases xs with
    | nil => cases htail
    | cons x' xs =>
      obtain ⟨rfl, -⟩ := List.cons.inj htail
      exact h.1 ⟨xs, rfl⟩

theorem stripTemplateLine_unmarked (h : Unmarked cs) : stripTemplateLine cs = cs := by
  obtain ⟨h, -⟩ := h
  induction cs with
  | nil => rfl
  | cons c cs ih =>
    rw [List.infix_cons_iff, not_or] at h
    rw [stripTemplateLine, ih h.2]
    rintro tail rfl rfl
    exact h.1 ⟨tail, rfl⟩

/-- **On one line all goes from the first mark that opens a tag to the last one that closes a tag.** -/
theorem stripTemplateLine_tag (hf : Unmarked first) (hp : Unmarked piece) (inside : List Char) :
    stripTemplateLine (first ++ (openMark ++ (inside ++ (closeMark ++ piece)))) = first ++ piece := by
  rw [stripTemplateLine_append hf.1]
  simp only [openMark, List.cons_append, List.nil_append, stripTemplateLine, afterLastClose_append hp.2]

/-! ## Lines -/

theorem splitNewline_append (hl : '\n' ∉ l) (cs : List Char) :
    splitNewline (l ++ cs) = (splitNewline cs).modifyHead (l ++ ·) :=
  cutAt_append (fun c hc => decide_eq_false (by rintro rfl; exact hl hc)) cs

theorem withoutTags_line (hl : '\n' ∉ l) : withoutTags l = stripTemplateLine l := by
  have hlines : splitNewline l = [l] := by
    have h := splitNewline_append hl []
    have hnil : splitNewline [] = [[]] := rfl
    rwa [List.append_nil, hnil, List.modifyHead_cons, List.append_nil] at h
  rw [withoutTags, hlines]
  rfl

/-- The first line of a text is read on its own. -/
theorem withoutTags_break (hl : '\n' ∉ l) (cs : List Char) :
    withoutTags (l ++ '\n' :: cs) = stripTemplateLine l ++ '\n' :: withoutTags cs := by
  have hlines : splitNewline (l ++ '\n' :: cs) = l :: splitNewline cs := by
    have hbreak : splitNewline ('\n' :: cs) = [] :: splitNewline cs := rfl
    rw [splitNewline_append hl, hbreak, List.modifyHead_cons, List.append_nil]
  obtain ⟨m, ms, hms⟩ := List.exists_cons_of_ne_nil (cutAt_ne_nil (· = '\n') cs)
  rw [withoutTags, hlines, withoutTags, splitNewline, hms]
  rfl

theorem interleave_cons (first : List Char) (t : Tagged) (rest : List Tagged) :
    interleave first (t :: rest) = first ++ (openMark ++ (t.inside ++ (closeMark ++ interleave t.piece rest))) := by
  simp [interleave]

theorem interleave_append (l first : List Char) (rest : List Tagged) :
    interleave (l ++ '\n' :: first) rest = l ++ '\n' :: interleave first rest := by
  simp [interleave]

theorem keptPieces_of_break (h : '\n' ∈ t.piece) (rest : List Tagged) :
    keptPieces (t :: rest) = t.piece ++ keptPieces rest := by
  cases rest with
  | nil => exact (List.append_nil _).symm
  | cons t' rest => rw [keptPieces, if_pos h]

/-- Two tags of one line, and the piece between them, as one tag. -/
def Tagged.join (t t' : Tagged) (h : '\n' ∉ t.piece) : Tagged where
  inside := t.inside ++ (closeMark ++ (t.piece ++ (openMark ++ t'.inside)))
  piece := t'.piece
  inLine := by
    have hmarks : '\n' ∉ closeMark ∧ '\n' ∉ openMark := by decide
    simp [t.inLine, t'.inLine, h, hmarks]
  unmarked := t'.unmarked

theorem interleave_join (h : '\n' ∉ t.piece) (first : List Char) :
    interleave first (t :: t' :: rest) = interleave first (t.join t' h :: rest) := by
  simp [interleave, Tagged.join]

theorem keptPieces_join (h : '\n' ∉ t.piece) : keptPieces (t :: t' :: rest) = keptPieces (t.join t' h :: rest) := by
  rw [keptPieces, if_neg h, List.nil_append]
  cases rest <;> rfl

/-- **What is left of a text with template tags.** -/
theorem withoutTags_interleave {first : List Char} (hfirst : Unmarked first) (rest : List Tagged) :
    withoutTags (interleave first rest) = first ++ keptPieces rest := by
  by_cases hbreak : '\n' ∈ first
  · obtain ⟨l, first', rfl, hl⟩ := List.eq_append_cons_of_mem hbreak
    obtain ⟨hline, hfirst'⟩ := hfirst.of_append
    rw [interleave_append, withoutTags_break hl, stripTemplateLine_unmarked hline,
      withoutTags_interleave hfirst'.of_cons rest, List.append_assoc, List.cons_append]
  · match rest with
    | [] =>
      rw [interleave, List.flatMap_nil, List.append_nil, withoutTags_line hbreak, stripTemplateLine_unmarked hfirst,
        keptPieces, List.append_nil]
    | t :: rest =>
      have hinside := t.inLine
      have hpiece := t.unmarked
      have hmarks : '\n' ∉ closeMark ∧ '\n' ∉ openMark := by decide
      by_cases hb : '\n' ∈ t.piece
      · -- The line of the tag ends in the piece behind it, and the rest of the piece starts the text that is left.
        rw [interleave_cons, keptPieces_of_break hb]
        obtain ⟨l, piece', hcut, hl⟩ := List.eq_append_cons_of_mem hb
        rw [hcut] at hpiece ⊢
        obtain ⟨hline, hpiece'⟩ := hpiece.of_append
        have htext : first ++ (openMark ++ (t.inside ++ (closeMark ++ interleave (l ++ '\n' :: piece') rest))) =
            first ++ (openMark ++ (t.inside ++ (closeMark ++ l))) ++ '\n' :: interleave piece' rest := by
          simp [interleave]
        have hnot : '\n' ∉ first ++ (openMark ++ (t.inside ++ (closeMark ++ l))) := by
          simp [hbreak, hinside, hl, hmarks]
        rw [htext, withoutTags_break hnot, stripTemplateLine_tag hfirst hline,
          withoutTags_interleave hpiece'.of_cons rest]
        simp
      · match rest with
        | [] =>
          have hnot : '\n' ∉ first ++ (openMark ++ (t.inside ++ (closeMark ++ t.piece))) := by
            simp [hbreak, hinside, hb, hmarks]
          have htext : interleave first [t] = first ++ (openMark ++ (t.inside ++ (closeMark ++ t.piece))) := by
            simp [interleave]
          rw [htext, withoutTags_line hnot, stripTemplateLine_tag hfirst hpiece, keptPieces]
        | t' :: rest =>
          rw [interleave_join hb, keptPieces_join hb]
          exact withoutTags_interleave hfirst (t.join t' hb :: rest)
termination_by (rest.length, first.length)

/-! ## Lost pieces -/

theorem length_keptPieces_le (rest : List Tagged) : (keptPieces rest).length ≤ (rest.flatMap (·.piece)).length := by
  fun_induction keptPieces rest with
  | case1 => exact Nat.le_refl _
  | case2 t => simp
  | case3 t t' rest ih =>
    rw [List.flatMap_cons, List.length_append, List.length_append]
    split
    · omega
    · simp only [List.length_nil]
      omega

/-- No piece is lost just if each piece between two tags is empty or has a line break. -/
theorem keptPieces_eq_iff (rest : List Tagged) :
    keptPieces rest = rest.flatMap (·.piece) ↔ ∀ t ∈ rest.dropLast, t.piece = [] ∨ '\n' ∈ t.piece := by
  fun_induction keptPieces rest with
  | case1 => simp
  | case2 t => simp
  | case3 t t' rest ih =>
    rw [List.flatMap_cons, List.dropLast_cons_cons, List.forall_mem_cons, ← ih]
    split
    · next hb =>
      rw [List.append_cancel_left_eq]
      exact ⟨fun h => ⟨.inr hb, h⟩, fun h => h.2⟩
    · next hb =>
      rw [List.nil_append]
      constructor
      · intro h
        have hle := length_keptPieces_le (t' :: rest)
        have hlen := congrArg List.length h
        rw [List.length_append] at hlen
        have hnil : t.piece = [] := List.eq_nil_of_length_eq_zero (by omega)
        exact ⟨.inl hnil, by rw [h, hnil, List.nil_append]⟩
      · rintro ⟨hnil | hin, h⟩
        · rw [hnil, List.nil_append, h]
        · exact absurd hin hb

end Template

/-! ## The plugin -/

section Plugin

open Template

variable {first : List Char} {filename : String}

theorem withoutTemplates_ofList (cs : List Char) :
    withoutTemplates (String.ofList cs) = String.ofList (withoutTags cs) := by
  rw [withoutTemplates, String.toList_ofList, withoutTags]

/-- **What the plugin for templates makes of a comment in a template.** All plain pieces are kept, in their order, just
if each piece between two tags is empty or has a line break. -/
theorem fireAll_railsTemplate {run : Run} {e : SourceEvent} (hfile : run.filename = some filename)
    (hend : endsWith filename ".erb" = true) (hfirst : Unmarked first) (rest : List Tagged)
    (hcomment : e.comment = some (String.ofList (interleave first rest))) :
    Callback.fireAll railsTemplate.callbacks .commentFound run (.event e) =
        .ok (run, .event { e with comment := some (String.ofList (first ++ keptPieces rest)) }) ∧
      (first ++ keptPieces rest = first ++ rest.flatMap (·.piece) ↔
        ∀ t ∈ rest.dropLast, t.piece = [] ∨ '\n' ∈ t.piece) := by
  refine ⟨?_, by rw [List.append_cancel_left_eq, keptPieces_eq_iff]⟩
  have hstrip : stripTemplateComment run.filename e.comment = some (String.ofList (first ++ keptPieces rest)) := by
    have htemplate : isTemplateFile run.filename = true := by rw [hfile, isTemplateFile]; exact hend
    rw [stripTemplateComment, if_pos htemplate, hcomment, Option.map_some, withoutTemplates_ofList,
      withoutTags_interleave hfirst]
  rw [← hstrip]
  rfl

/-- A comment with two tags on its first line and nothing between them, and a third one on the next line. -/
def guardedComment : List Tagged :=
  [⟨" if x ".toList, [], by decide +kernel, by decide +kernel⟩,
    ⟨" y ".toList, " b\n * c ".toList, by decide +kernel, by decide +kernel⟩,
    ⟨" end ".toList, " */".toList, by decide +kernel, by decide +kernel⟩]

theorem fireAll_railsTemplate_guarded :
    let run : Run := { dict := {}, outer := {}, reporter := {}, filename := some "view.html.erb" }
    let first := "/** a ".toList
    let e : SourceEvent := { comment := some (String.ofList (interleave first guardedComment)) }
    e.comment = some "/** a <% if x %><% y %> b\n * c <% end %> */" ∧ Unmarked first ∧
      Callback.fireAll railsTemplate.callbacks .commentFound run (.event e) =
        .ok (run, .event { e with comment := some "/** a  b\n * c  */" }) := by
  intro run first e
  have hfirst : Unmarked first := by decide +kernel
  have hfile : run.filename = some "view.html.erb" := rfl
  have hcomment : e.comment = some (String.ofList (interleave first guardedComment)) := rfl
  have hboth := fireAll_railsTemplate hfile (by decide +kernel) hfirst guardedComment hcomment
  have hkept : first ++ keptPieces guardedComment = "/** a  b\n * c  */".toList := by decide +kernel
  rw [hkept, String.ofList_toList] at hboth
  exact ⟨by decide +kernel, hfirst, hboth.1⟩

/-- **A piece between two tags of one line is lost.** -/
theorem lost_piece_between_tags :
    let rest : List Tagged := [⟨" x ".toList, " b ".toList, by decide +kernel, by decide +kernel⟩,
      ⟨" y ".toList, " c".toList, by decide +kernel, by decide +kernel⟩]
    Unmarked "a ".toList ∧ (∀ t ∈ rest, Unmarked t.inside) ∧
      String.ofList (interleave "a ".toList rest) = "a <% x %> b <% y %> c" ∧
      String.ofList ("a ".toList ++ rest.flatMap (·.piece)) = "a  b  c" ∧
      stripTemplateComment (some "view.html.erb") (some "a <% x %> b <% y %> c") = some "a  c" := by
  decide +kernel

end Plugin
end SymbolDocs
