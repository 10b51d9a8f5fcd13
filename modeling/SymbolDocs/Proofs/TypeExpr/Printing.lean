import Mathlib.Data.List.Forall2
import SymbolDocs.Proofs.Text.Trimming
import SymbolDocs.Proofs.TypeExpr.Readable

/-!
# The lexemes of a printed type

`lexemes t` are the lexemes that the canonical text of a type is meant to have. `spells_render` says that the text of a
readable type is cut into exactly these, whatever stands around it in a larger type, and `trim_render` that it has no
blanks at its ends.
-/

namespace SymbolDocs.TypeExpr

open SymbolDocs.Text

/-! ## Ends without blanks -/

/-- The text starts and ends with characters other than blanks. -/
def Solid (cs : List Char) : Prop :=
  (∃ c ∈ cs.head?, isBlank c = false) ∧ ∃ c ∈ cs.getLast?, isBlank c = false

variable {t : TypeExpr} {quote : Char} {taken cs ds text rest ahead : List Char} {pos : Nat} {l : Lexeme}

theorem Solid.append (hc : Solid cs) (hd : Solid ds) (mid : List Char) : Solid (cs ++ mid ++ ds) := by
  obtain ⟨⟨c, hc, hcb⟩, -⟩ := hc
  obtain ⟨-, d, hd, hdb⟩ := hd
  refine ⟨⟨c, ?_, hcb⟩, d, ?_, hdb⟩
  · simp [Option.mem_def.1 hc]
  · simp [Option.mem_def.1 hd]

theorem solid_singleton {c : Char} (hb : isBlank c = false) : Solid [c] :=
  ⟨⟨c, rfl, hb⟩, c, rfl, hb⟩

/-- A text without any blanks. -/
theorem solid_of_forall (hne : cs ≠ []) (h : ∀ c ∈ cs, isBlank c = false) : Solid cs :=
  ⟨⟨cs.head hne, List.head?_eq_some_head hne, h _ (List.head_mem hne)⟩,
    cs.getLast hne, List.getLast?_eq_some_getLast hne, h _ (List.getLast_mem hne)⟩

theorem trim_of_solid (h : Solid cs) : trim cs = cs := by
  obtain ⟨⟨c, hc, hcb⟩, d, hd, hdb⟩ := h
  refine stripWhile_eq_self (fun c' hc' => ?_) (fun d' hd' => ?_)
  · rwa [Option.mem_unique hc' hc]
  · rwa [Option.mem_unique hd' hd]

theorem getLast_scanQuoted (h : scanQuoted quote cs = some (text, rest)) : text.getLast? = some quote := by
  fun_induction scanQuoted quote cs generalizing text rest with
  | case1 => cases h
  | case2 => cases h
  | case3 c cs ih =>
    obtain ⟨p, hp, he⟩ := Option.map_eq_some_iff.1 h
    cases he
    simp [List.getLast?_cons, ih hp]
  | case4 => cases h; rfl
  | case5 c cs _ _ _ ih =>
    obtain ⟨p, hp, he⟩ := Option.map_eq_some_iff.1 h
    cases he
    simp [List.getLast?_cons, ih hp]

theorem isBlank_of_isQuote {c : Char} (h : isQuote c = true) : isBlank c = false := by
  rcases isQuote_iff.1 h with rfl | rfl <;> decide

/-- A character that a name takes is not blank. -/
theorem isBlank_of_taken {c : Char} (h : isNameChar c = true ∨ isPathMark c = true ∨ c = ':') : isBlank c = false := by
  rcases h with h | h | rfl
  · simp only [isNameChar, Bool.or_eq_true, decide_eq_true_eq] at h
    rcases h with ((h | h) | rfl) | rfl
    · exact isBlank_of_isNameStart h
    · exact isBlank_of_isDigit (isDigit_of_isDecimal (isDecimal_of_ascii h))
    · decide
    · decide
  · simp only [isPathMark, Bool.or_eq_true, decide_eq_true_eq] at h
    rcases h with (rfl | rfl) | rfl <;> decide
  · decide

/-- A name ends with a character that it took, not with a blank. -/
theorem getLast_scanPath (h : scanPath taken cs = .ok (text, rest)) (hb : ∃ c ∈ taken.head?, isBlank c = false) :
    ∃ c ∈ text.getLast?, isBlank c = false := by
  fun_induction scanPath taken cs with
  | case1 taken =>
    cases h
    rwa [List.getLast?_reverse]
  | case2 taken c cs hc ih =>
    refine ih h ⟨c, rfl, isBlank_of_taken ?_⟩
    simp only [Bool.or_eq_true, Bool.and_eq_true] at hc
    exact hc.imp_right fun h => .inl h.1
  | case3 taken c cs _ hc ih =>
    refine ih h ⟨c, rfl, isBlank_of_taken ?_⟩
    simp only [Bool.and_eq_true, decide_eq_true_eq] at hc
    exact .inr (.inr hc.1.1)
  | case4 => cases h
  | case5 taken c cs _ _ hq text' rest' hquoted _ ih =>
    refine ih h ⟨c, ?_, isBlank_of_isQuote (Bool.and_eq_true_iff.1 hq).1⟩
    simp [getLast_scanQuoted hquoted]
  | case6 =>
    cases h
    rwa [List.getLast?_reverse]

theorem getLast_scanDigits (h : scanDigits cs = some (text, rest)) : ∃ c ∈ text.getLast?, isBlank c = false := by
  unfold scanDigits at h
  split at h
  · cases h
  · next hne =>
    cases h
    have hlast := List.getLast?_eq_some_getLast hne
    refine ⟨_, hlast, ?_⟩
    have hmem := List.getLast_mem hne
    have := List.all_eq_true.1 List.all_takeWhile _ hmem
    exact isBlank_of_isDigit (isDigit_of_isDecimal this)

theorem getLast_scanNumber (h : scanNumber cs = some (text, rest)) : ∃ c ∈ text.getLast?, isBlank c = false := by
  have unsigned {cs text rest : List Char} (h : scanUnsigned cs = some (text, rest)) :
      ∃ c ∈ text.getLast?, isBlank c = false := by
    unfold scanUnsigned at h
    split at h
    · cases h
    · next hw =>
      split at h
      · next hf =>
        cases h
        obtain ⟨c, hc, hb⟩ := getLast_scanDigits hf
        exact ⟨c, by simp [List.getLast?_cons, Option.mem_def.1 hc], hb⟩
      · cases h
        exact getLast_scanDigits hw
    · next hw =>
      cases h
      exact getLast_scanDigits hw
  unfold scanNumber at h
  split at h
  · obtain ⟨p, hp, he⟩ := Option.map_eq_some_iff.1 h
    cases he
    obtain ⟨c, hc, hb⟩ := unsigned hp
    exact ⟨c, by simp [List.getLast?_cons, Option.mem_def.1 hc], hb⟩
  · exact unsigned h

/-- A stable lexeme has no blanks at its ends. -/
theorem Lexeme.Stable.solid (h : l.Stable) : Solid l.chars := by
  obtain ⟨c, cs, hcs, hb, hread⟩ := h
  refine ⟨⟨c, by simp [hcs], hb⟩, ?_⟩
  have hl := hread 0 [] rfl
  unfold scanLexeme at hl
  split at hl
  · split at hl
    · next hpath =>
      cases hl
      simpa [Lexeme.chars] using getLast_scanPath hpath ⟨c, rfl, hb⟩
    · cases hl
  · split at hl
    · next hquote =>
      split at hl
      · next hq =>
        cases hl
        refine ⟨c, ?_, isBlank_of_isQuote hquote⟩
        simp [Lexeme.chars, List.getLast?_cons, getLast_scanQuoted hq]
      · cases hl
    · split at hl
      · next hn =>
        cases hl
        simpa [Lexeme.chars] using getLast_scanNumber hn
      · split at hl
        · next m _ hm =>
          cases hl
          cases m <;> exact ⟨_, rfl, by decide⟩
        · cases hl

/-! ## Lexemes of a type -/

/-- The lexeme that the text of a name, a literal or a key is. -/
def Lexeme.ofText (text : String) : Lexeme :=
  match text.toList with
  | c :: _ => if isNameStart c then .name text else if isQuote c then .quoted text else .number text
  | [] => .number text

/-- The mark of nullability in front of a type. -/
def nullableLexemes : Option Bool → List Lexeme
  | some true => [.mark .question]
  | some false => [.mark .bang]
  | none => []

/-- The marks that stand in front of a modified type. -/
def leadingLexemes (nullable : Option Bool) (repeatable : Bool) : List Lexeme :=
  (if repeatable then [.mark .ellipsis] else []) ++ nullableLexemes nullable

/-- The mark that stands behind an optional type. -/
def trailingLexemes (optional : Bool) : List Lexeme := if optional then [.mark .equals] else []

mutual

/-- The lexemes of the canonical text of a type. -/
def lexemes : TypeExpr → List Lexeme
  | .name path => [.name path]
  | .all => [.mark .star]
  | .unknown => [.mark .question]
  | .null => [.name "null"]
  | .undefined => [.name "undefined"]
  | .literal text => [.ofText text]
  | .union elements => .mark .openParen :: separate [.mark .bar] (lexemesAll elements) ++ [.mark .closeParen]
  | .application base args =>
    lexemes base ++ .mark .dotLess :: separate [.mark .comma] (lexemesAll args) ++ [.mark .greater]
  | .function params returns this new =>
    let parts := lexemesLabelled [.name "this", .mark .colon] this ++
      lexemesLabelled [.name "new", .mark .colon] new ++ lexemesAll params
    [.name "function", .mark .openParen] ++ separate [.mark .comma] parts ++
      .mark .closeParen :: (lexemesLabelled [.mark .colon] returns).flatten
  | .record fields => .mark .openBrace :: separate [.mark .comma] (lexemesFields fields) ++ [.mark .closeBrace]
  | .modified inner optional nullable repeatable =>
    leadingLexemes nullable repeatable ++ lexemes inner ++ trailingLexemes optional

/-- The lexemes of several types. -/
def lexemesAll : List TypeExpr → List (List Lexeme)
  | [] => []
  | t :: ts => lexemes t :: lexemesAll ts

/-- The lexemes of a type that may be absent, after a label. -/
def lexemesLabelled (label : List Lexeme) : Option TypeExpr → List (List Lexeme)
  | none => []
  | some t => [label ++ lexemes t]

/-- The lexemes of a record field. -/
def lexemesField : TypeField → List Lexeme
  | .bare key => [.ofText key]
  | .typed key value => .ofText key :: .mark .colon :: lexemes value

/-- The lexemes of several record fields. -/
def lexemesFields : List TypeField → List (List Lexeme)
  | [] => []
  | f :: fs => lexemesField f :: lexemesFields fs

end

theorem lexemesAll_eq_map (ts : List TypeExpr) : lexemesAll ts = ts.map lexemes := by
  induction ts with
  | nil => rfl
  | cons t ts ih => rw [lexemesAll, ih, List.map_cons]

theorem lexemesFields_eq_map (fs : List TypeField) : lexemesFields fs = fs.map lexemesField := by
  induction fs with
  | nil => rfl
  | cons f fs ih => rw [lexemesFields, ih, List.map_cons]

/-! ## Printed texts are cut into their lexemes -/

/-- The text is cut into the lexemes, whatever a printed type goes on with. -/
def Spells (cs : List Char) (ls : List Lexeme) : Prop :=
  ∀ ahead, stops ahead = true → Lexes (cs ++ ahead) ls ahead

/-- The text is cut into the lexemes, whatever follows. -/
def SpellsAnywhere (cs : List Char) (ls : List Lexeme) : Prop :=
  ∀ ahead, Lexes (cs ++ ahead) ls ahead

variable {cs' : List Char} {ls ls' : List Lexeme}

theorem SpellsAnywhere.spells (h : SpellsAnywhere cs ls) : Spells cs ls :=
  fun ahead _ => h ahead

theorem SpellsAnywhere.append (h : SpellsAnywhere cs ls) (h' : SpellsAnywhere cs' ls') :
    SpellsAnywhere (cs ++ cs') (ls ++ ls') := by
  intro ahead
  rw [List.append_assoc]
  exact (h (cs' ++ ahead)).append (h' ahead)

theorem SpellsAnywhere.append_spells (h : SpellsAnywhere cs ls) (h' : Spells cs' ls') :
    Spells (cs ++ cs') (ls ++ ls') := by
  intro ahead hs
  rw [List.append_assoc]
  exact (h (cs' ++ ahead)).append (h' ahead hs)

/-- A text whose lexemes end where `cs'` starts. -/
theorem Spells.append (h : Spells cs ls) (hs : ∀ ahead, stops (cs' ++ ahead) = true)
    (h' : SpellsAnywhere cs' ls') : SpellsAnywhere (cs ++ cs') (ls ++ ls') := by
  intro ahead
  rw [List.append_assoc]
  exact (h (cs' ++ ahead) (hs ahead)).append (h' ahead)

theorem spells_mark (m : Mark) : SpellsAnywhere m.chars [.mark m] :=
  fun _ => lexes_mark m

theorem Lexeme.Stable.spells (h : l.Stable) : Spells l.chars [l] :=
  fun _ hs => h.lexes hs

theorem spells_word (word : String) (hcs : word.toList = cs) (h : isWord word = true) : Spells cs [.name word] :=
  hcs ▸ (stable_word h).spells

theorem spells_nil : SpellsAnywhere [] [] :=
  fun _ => .done

theorem spells_separate {sep : List Char} {sepLexemes : List Lexeme} {parts : List (List Char)}
    {lss : List (List Lexeme)} (hs : ∀ ahead, stops (sep ++ ahead) = true) (hsep : SpellsAnywhere sep sepLexemes)
    (hparts : List.Forall₂ Spells parts lss) : Spells (separate sep parts) (separate sepLexemes lss) := by
  induction hparts with
  | nil => exact spells_nil.spells
  | @cons part ls parts lss hpart hrest ih =>
    cases hrest with
    | nil => exact hpart
    | cons => exact (hpart.append hs hsep).append_spells ih

/-- A word before a colon is a name of its own, unless it is the word of a namespace. -/
theorem spells_label (word : String) (hcs : word.toList = cs) (h : isWord word = true)
    (hw : namespaceWords.contains (lastSegment cs.reverse) = false) :
    SpellsAnywhere (cs ++ [':']) [.name word, .mark .colon] := by
  obtain ⟨c, cs, rfl, hc, hchars⟩ := isWord_iff.1 h
  rw [String.toList_ofList] at hcs
  subst hcs
  rw [List.reverse_cons] at hw
  intro ahead
  have hpath : scanPath [c] (cs ++ ':' :: ahead) = .ok (c :: cs, ':' :: ahead) := by
    rw [scanPath_word hchars, scanPath_stop (by rfl) (by rw [hw, Bool.and_false, Bool.false_and]) (by rfl)]
    simp
  rw [List.cons_append, List.cons_append, List.append_assoc]
  refine .lexeme (isBlank_of_isNameStart hc) (fun pos => ?_) (lexes_mark .colon)
  rw [scanLexeme, if_pos hc]
  simp only [List.singleton_append, hpath]
  rfl

/-- The text of a stable lexeme tells which kind of lexeme it is. -/
theorem Lexeme.ofText_eq {text : String} (hkey : keyText l = some text) (h : l.Stable) : Lexeme.ofText text = l := by
  obtain ⟨c, cs, hcs, -, hread⟩ := h
  have htext : text.toList = c :: cs := by
    rw [← hcs]
    cases l <;> cases hkey <;> rfl
  have hl := hread 0 [] rfl
  rw [ofText, htext]
  dsimp only
  unfold scanLexeme at hl
  split at hl
  · next hstart =>
    rw [if_pos hstart]
    split at hl
    · cases hl
      cases hkey
      rfl
    · cases hl
  · next hstart =>
    rw [if_neg hstart]
    split at hl
    · next hquote =>
      rw [if_pos hquote]
      split at hl
      · cases hl
        cases hkey
        rfl
      · cases hl
    · next hquote =>
      rw [if_neg hquote]
      split at hl
      · cases hl
        cases hkey
        rfl
      · split at hl
        · cases hl
          cases hkey
        · cases hl

theorem forall₂_labelled {label : List Char} {labelLexemes : List Lexeme} {o : Option TypeExpr}
    (hlabel : SpellsAnywhere label labelLexemes) (h : ∀ t ∈ o, Spells t.render t.lexemes) :
    List.Forall₂ Spells (renderLabelled label o) (lexemesLabelled labelLexemes o) := by
  cases o with
  | none => exact .nil
  | some t => exact .cons (hlabel.append_spells (h t rfl)) .nil

theorem forall₂_all {es : List TypeExpr} (h : ∀ e ∈ es, Spells e.render e.lexemes) :
    List.Forall₂ Spells (renderAll es) (lexemesAll es) := by
  rw [renderAll_eq_map, lexemesAll_eq_map, List.forall₂_map_left_iff, List.forall₂_map_right_iff, List.forall₂_same]
  exact h

theorem spells_comma : SpellsAnywhere [',', ' '] [.mark .comma] :=
  fun ahead => (spells_mark .comma (' ' :: ahead)).append (.blank (by decide) .done)

theorem spells_value : SpellsAnywhere [':', ' '] [.mark .colon] :=
  fun ahead => (spells_mark .colon (' ' :: ahead)).append (.blank (by decide) .done)

theorem spells_field {f : TypeField} (hkey : ∃ l, keyText l = some f.key ∧ l.Stable)
    (h : ∀ key t, f = .typed key t → Spells t.render t.lexemes) : Spells (renderField f) (lexemesField f) := by
  obtain ⟨l, hl, hs⟩ := hkey
  have hspells : Spells f.key.toList [.ofText f.key] := by
    rw [Lexeme.ofText_eq hl hs]
    have : f.key.toList = l.chars := by cases l <;> cases hl <;> rfl
    rw [this]
    exact hs.spells
  cases f with
  | bare key => exact hspells
  | typed key t =>
    have hall := (hspells.append (fun _ => rfl) spells_value).append_spells (h key t rfl)
    simpa [renderField, lexemesField, TypeField.key] using hall

theorem spells_leading (nullable : Option Bool) (repeatable : Bool) :
    SpellsAnywhere (leadingMarks nullable repeatable) (leadingLexemes nullable repeatable) := by
  refine SpellsAnywhere.append ?_ ?_
  · cases repeatable
    · exact spells_nil
    · exact spells_mark .ellipsis
  · rcases nullable with _ | _ | _
    · exact spells_nil
    · exact spells_mark .bang
    · exact spells_mark .question

/-- **A printed type is cut into its lexemes.** -/
theorem spells_render (h : t.Everywhere Readable) : Spells t.render t.lexemes := by
  induction t using induct with
  | name path => exact h.self.2.2.spells
  | all => exact (spells_mark .star).spells
  | unknown => exact (spells_mark .question).spells
  | null => exact spells_word _ (by decide) (by decide)
  | undefined => exact spells_word _ (by decide) (by decide)
  | literal text =>
    rcases h.self with hs | hs
    · rw [lexemes, Lexeme.ofText_eq rfl hs]
      exact hs.spells
    · rw [lexemes, Lexeme.ofText_eq rfl hs]
      exact hs.spells
  | union es ih =>
    have hes := (everywhere_union.1 h).2
    have helements := spells_separate (fun _ => rfl) (spells_mark .bar) (forall₂_all fun e he => ih e he (hes e he))
    exact ((spells_mark .openParen).append_spells helements).append (fun _ => rfl) (spells_mark .closeParen) |>.spells
  | application base args ihb ih =>
    obtain ⟨-, hbase, hargs⟩ := everywhere_application.1 h
    have hsep := spells_separate (fun _ => rfl) spells_comma (forall₂_all fun e he => ih e he (hargs e he))
    have hopen := (ihb hbase).append (fun _ => rfl) (spells_mark .dotLess)
    have hall := ((hopen.append_spells hsep).append (fun _ => rfl) (spells_mark .greater)).spells
    simpa [render, lexemes, Mark.chars] using hall
  | function params returns this new ihp ihr iht ihn =>
    obtain ⟨-, hparams, hreturns, hthis, hnew⟩ := everywhere_function.1 h
    have hthis' := forall₂_labelled (spells_label "this" rfl (by decide) (by decide))
      fun t ht => iht t ht (hthis t ht)
    have hnew' := forall₂_labelled (spells_label "new" rfl (by decide) (by decide))
      fun t ht => ihn t ht (hnew t ht)
    have hparts := List.rel_append (List.rel_append hthis' hnew') (forall₂_all fun e he => ihp e he (hparams e he))
    have hopen := (spells_word "function" rfl (by decide)).append (fun _ => rfl) (spells_mark .openParen)
    have hhead := (hopen.append_spells (spells_separate (fun _ => rfl) spells_comma hparts)).append (fun _ => rfl)
      (spells_mark .closeParen)
    cases returns with
    | none => simpa [render, lexemes, renderLabelled, lexemesLabelled, Mark.chars] using hhead.spells
    | some result =>
      have hall := (hhead.append spells_value).append_spells (ihr result rfl (hreturns result rfl))
      simpa [render, lexemes, renderLabelled, lexemesLabelled, Mark.chars] using hall
  | record fs ih =>
    obtain ⟨hkeys, hvalues⟩ := everywhere_record.1 h
    have hfields : List.Forall₂ Spells (renderFields fs) (lexemesFields fs) := by
      rw [renderFields_eq_map, lexemesFields_eq_map, List.forall₂_map_left_iff, List.forall₂_map_right_iff,
        List.forall₂_same]
      intro f hf
      exact spells_field (hkeys f hf) fun key t he => ih key t (he ▸ hf) (hvalues key t (he ▸ hf))
    have hsep := spells_separate (fun _ => rfl) spells_comma hfields
    exact ((spells_mark .openBrace).append_spells hsep).append (fun _ => rfl) (spells_mark .closeBrace) |>.spells
  | modified inner optional nullable repeatable ih =>
    have hinner := (spells_leading nullable repeatable).append_spells (ih (everywhere_modified.1 h).2)
    cases optional with
    | false => simpa [render, lexemes, trailingLexemes] using hinner
    | true => exact (hinner.append (fun _ => rfl) (spells_mark .equals)).spells

/-! ## Printed texts are not trimmed -/

theorem solid_leadingMarks (nullable : Option Bool) (repeatable : Bool) :
    leadingMarks nullable repeatable = [] ∨ Solid (leadingMarks nullable repeatable) := by
  rcases nullable with _ | _ | _ <;> cases repeatable
  · exact .inl rfl
  all_goals exact .inr ⟨⟨_, rfl, by decide⟩, _, rfl, by decide⟩

theorem solid_render (h : t.Everywhere Readable) : Solid t.render := by
  induction t using induct with
  | name path => exact h.self.2.2.solid
  | all | unknown => exact solid_singleton (by decide)
  | null | undefined => exact ⟨⟨_, rfl, by decide⟩, _, rfl, by decide⟩
  | literal text => exact h.self.elim (·.solid) (·.solid)
  | union es => exact (solid_singleton (by decide)).append (solid_singleton (by decide)) _
  | application base args ihb =>
    have := (ihb (everywhere_application.1 h).2.1).append (solid_singleton (c := '>') (by decide))
    simpa [render] using this ('.' :: '<' :: separate [',', ' '] (renderAll args))
  | function params returns this new _ ihr =>
    cases returns with
    | none =>
      refine ⟨⟨'f', rfl, by decide⟩, ')', ?_, by decide⟩
      simp [render, renderLabelled, List.getLast?_cons]
    | some result =>
      obtain ⟨-, c, hc, hb⟩ := ihr result rfl ((everywhere_function.1 h).2.2.1 result rfl)
      refine ⟨⟨'f', rfl, by decide⟩, c, ?_, hb⟩
      simp [render, renderLabelled, List.getLast?_cons, Option.mem_def.1 hc]
  | record fs => exact (solid_singleton (by decide)).append (solid_singleton (by decide)) _
  | modified inner optional nullable repeatable ih =>
    have hinner := ih (everywhere_modified.1 h).2
    have hmarked : Solid (leadingMarks nullable repeatable ++ render inner) := by
      rcases solid_leadingMarks nullable repeatable with he | hs
      · rwa [he]
      · simpa using hs.append hinner []
    cases optional with
    | false => simpa [render] using hmarked
    | true => simpa [render] using hmarked.append (solid_singleton (c := '=') (by decide)) []

theorem trim_render (h : t.Everywhere Readable) : trim t.render = t.render :=
  trim_of_solid (solid_render h)

end SymbolDocs.TypeExpr
