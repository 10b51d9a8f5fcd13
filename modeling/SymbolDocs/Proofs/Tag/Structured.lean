import SymbolDocs.Proofs.Tag.Enclosed
import SymbolDocs.Proofs.TypeExpr.Braces
import SymbolDocs.Proofs.TypeExpr.Printing
import SymbolDocs.Tag.Reading

/-!
# Structured values mean what they spell

A `Spelling` has the parts of a structured value as they are written: a type annotation in braces, a name that may
stand in square brackets with a default, and a description behind a hyphen. `readStructured_text` says that its text is
read back as these parts, whichever of them are missing. Both kinds of brackets are read up to the closing one because
what stands between them is properly nested: the braces because the annotation is a type (`scanBraces_append`), the
square brackets because the default is asked to be (`Default.enclosable`).
-/

namespace SymbolDocs.Tag

open SymbolDocs.Text

/-! ## The parts of a value -/

/-- A type annotation: a text that states a type and has no brace in its quoted parts. -/
structure Annotation where
  text : String
  spec : TypeSpec
  parses : TypeSpec.parse text = .ok spec
  braceless : TypeExpr.BracelessQuotes text.toList

/-- Quotes, brackets and the equals sign. -/
def nameBreaks : List Char := ['"', '\'', '=', '(', ')', '[', ']', '\x7b', '\x7d']

/-- A name in one word, without quotes, brackets and equals signs. -/
structure PlainName where
  text : String
  ne_empty : text ≠ ""
  plain : ∀ c ∈ text.toList, isBlank c = false ∧ c ∉ nameBreaks

/-- A text without blanks at its ends. -/
structure Trimmed where
  text : String
  ne_empty : text ≠ ""
  trimmed : strip text = text

/-- A default value, without quotes and with properly nested square brackets. -/
structure Default extends Trimmed where
  unquoted : ∀ c ∈ text.toList, isQuote c = false
  nested : Nested '[' ']' text.toList

/-- A name as it is written, with or without square brackets. -/
inductive NamePart where
  | plain (name : PlainName)
  | bracketed (name : PlainName) (default : Option Default)

/-- A structured value as it is written. -/
structure Spelling where
  type : Option Annotation
  name : NamePart
  description : Option Trimmed

namespace NamePart

/-- The text of a name. -/
def text : NamePart → String
  | .plain name => name.text
  | .bracketed name none => "[" ++ name.text ++ "]"
  | .bracketed name (some default) => "[" ++ name.text ++ "=" ++ default.text ++ "]"

/-- The name itself. -/
def name : NamePart → PlainName
  | .plain name => name
  | .bracketed name _ => name

/-- The default, if there is one. -/
def default? : NamePart → Option Default
  | .plain _ => none
  | .bracketed _ default => default

/-- Whether the name stands in square brackets. -/
def isBracketed : NamePart → Bool
  | .plain _ => false
  | .bracketed _ _ => true

end NamePart

namespace Spelling

/-- The text of the type annotation. -/
def typeText (s : Spelling) : String :=
  match s.type with
  | some annotation => "\x7b" ++ annotation.text ++ "\x7d "
  | none => ""

/-- The text of the description. -/
def descriptionText (s : Spelling) : String :=
  match s.description with
  | some description => " - " ++ description.text
  | none => ""

/-- The text of a value. -/
def text (s : Spelling) : String := s.typeText ++ s.name.text ++ s.descriptionText

/-- The value that is spelled. -/
def value (s : Spelling) : NamedValue where
  type := s.type.map (·.spec)
  name := some s.name.name.text
  description := s.description.map (·.text)
  optional := if s.name.isBracketed then some true else s.type.bind (·.spec.optional)
  defaultValue := s.name.default?.map (·.text)
  repeatable := s.type.bind (·.spec.repeatable)
  nullable := s.type.bind (·.spec.nullable)

end Spelling

/-! ## Words -/

section Words

variable {c : Char} {cs rest : List Char}

/-- Blanks are neither quotes nor brackets. -/
theorem outside_of_isBlank (h : isBlank c = true) : isQuote c = false ∧ closerOf? c = none ∧ isCloser c = false := by
  have hne (b : Char) (hb : isBlank b = false) : c ≠ b := by
    rintro rfl
    rw [hb] at h
    cases h
  simp [isQuote, closerOf?, isCloser, hne '"' rfl, hne '\'' rfl, hne '(' rfl, hne ')' rfl, hne '[' rfl, hne ']' rfl,
    hne '\x7b' rfl, hne '\x7d' rfl]

theorem outside_of_not_mem_nameBreaks (h : c ∉ nameBreaks) :
    isQuote c = false ∧ closerOf? c = none ∧ isCloser c = false := by
  simp only [nameBreaks, List.mem_cons, List.not_mem_nil, or_false, not_or] at h
  simp [isQuote, closerOf?, isCloser, h]

/-- What may follow a word: nothing, or a blank. -/
def EndsWord (rest : List Char) : Prop := ∀ c ∈ rest.head?, isBlank c = true

/-- A word without quotes and brackets is read up to the blank behind it. -/
theorem scanWord_append (h : ∀ c ∈ cs, isBlank c = false ∧ c ∉ nameBreaks) (hrest : EndsWord rest) :
    scanWord (cs ++ rest) = .ok (cs, rest) := by
  unfold scanWord
  induction cs with
  | nil =>
    cases rest with
    | nil => simp [scanOutside]
    | cons b rest =>
      have hb := hrest b rfl
      obtain ⟨hq, ho, hc⟩ := outside_of_isBlank hb
      simp [scanOutside, hq, ho, hc, hb]
  | cons c cs ih =>
    obtain ⟨⟨hb, hc⟩, hcs⟩ := List.forall_mem_cons.1 h
    obtain ⟨hq, ho, hc⟩ := outside_of_not_mem_nameBreaks hc
    simp [scanOutside, hq, ho, hc, hb, ih hcs, Except.map, consFst]

end Words

/-! ## Reading the parts -/

open TypeExpr (Solid solid_of_forall solid_singleton trim_of_solid)

/-- A text that trimming leaves as it is has no blanks at its ends. -/
theorem solid_of_trim {cs : List Char} (hne : cs ≠ []) (h : trim cs = cs) : Solid cs := by
  have hfirst {ds : List Char} (hd : ds.dropWhile isBlank = ds) (hds : ds ≠ []) :
      ∃ c ∈ ds.head?, isBlank c = false := by
    obtain ⟨c, rest, rfl⟩ := List.exists_cons_of_ne_nil hds
    have := List.head?_dropWhile_not isBlank (c :: rest)
    rw [hd] at this
    exact ⟨c, rfl, this⟩
  have hleft : cs.dropWhile isBlank = cs := by
    refine (List.dropWhile_suffix _).eq_of_length_le ?_
    have hlen : (trim cs).length ≤ (cs.dropWhile isBlank).length := by
      rw [trim_eq, trimRight, dropEndWhile, List.length_reverse]
      exact Nat.le_trans (List.dropWhile_suffix _).length_le (Nat.le_of_eq List.length_reverse)
    rwa [h] at hlen
  have hright : cs.reverse.dropWhile isBlank = cs.reverse := by
    rw [trim_eq, trimLeft, hleft, trimRight, dropEndWhile] at h
    exact List.reverse_eq_iff.1 h
  refine ⟨hfirst hleft hne, ?_⟩
  rw [List.getLast?_eq_head?_reverse]
  exact hfirst hright (by simpa using hne)

theorem trim_cons_blank {c : Char} (hb : isBlank c = true) (cs : List Char) : trim (c :: cs) = trim cs :=
  stripWhile_cons hb cs

theorem PlainName.toList_ne_nil (n : PlainName) : n.text.toList ≠ [] := by simpa using n.ne_empty

theorem PlainName.solid (n : PlainName) : Solid n.text.toList :=
  solid_of_forall n.toList_ne_nil fun c hc => (n.plain c hc).1

theorem Trimmed.trim_toList (t : Trimmed) : trim t.text.toList = t.text.toList := by
  have := congrArg String.toList t.trimmed
  rwa [strip, String.toList_ofList] at this

theorem Trimmed.solid (t : Trimmed) : Solid t.text.toList := solid_of_trim (by simpa using t.ne_empty) t.trim_toList

theorem PlainName.not_mem (n : PlainName) {b : Char} (hb : b ∈ nameBreaks) : b ∉ n.text.toList :=
  fun hc => (n.plain b hc).2 hb

theorem PlainName.ne_equals (n : PlainName) : ∀ c ∈ n.text.toList, decide (c ≠ '=') = true := by
  intro c hc
  rw [decide_eq_true_iff]
  rintro rfl
  exact n.not_mem (by decide) hc

/-- A name alone between square brackets. -/
theorem nameInBrackets_name (v : NamedValue) (n : PlainName) :
    nameInBrackets v n.text.toList = { v with name := some n.text, optional := some true } := by
  have htake : (n.text.toList ++ []).takeWhile (· ≠ '=') = n.text.toList ++ [] :=
    List.takeWhile_append_of_pos n.ne_equals
  have hdrop : (n.text.toList ++ []).dropWhile (· ≠ '=') = [] := List.dropWhile_append_of_pos n.ne_equals
  rw [List.append_nil] at htake hdrop
  unfold nameInBrackets
  dsimp only
  rw [htake, hdrop, trim_of_solid n.solid, String.ofList_toList]

/-- A name and whatever stands behind an equals sign between square brackets. -/
theorem nameInBrackets_equals (v : NamedValue) (n : PlainName) (cs : List Char) :
    nameInBrackets v (n.text.toList ++ '=' :: cs) =
      { v with name := some n.text, optional := some true, defaultValue := some (String.ofList (trim cs)) } := by
  have htake : (n.text.toList ++ '=' :: cs).takeWhile (· ≠ '=') = n.text.toList := by
    rw [List.takeWhile_append_of_pos n.ne_equals, List.takeWhile_cons_of_neg (by decide), List.append_nil]
  have hdrop : (n.text.toList ++ '=' :: cs).dropWhile (· ≠ '=') = '=' :: cs := by
    rw [List.dropWhile_append_of_pos n.ne_equals, List.dropWhile_cons_of_neg (by decide)]
  unfold nameInBrackets
  dsimp only
  rw [htake, hdrop, trim_of_solid n.solid, String.ofList_toList]

/-- Nothing in a name matters for square brackets. -/
theorem PlainName.neutral (n : PlainName) : ∀ c ∈ n.text.toList, Neutral '[' ']' c := by
  intro c hc
  have hne {b : Char} (hb : b ∈ nameBreaks) : c ≠ b := by
    rintro rfl
    exact n.not_mem hb hc
  exact ⟨(outside_of_not_mem_nameBreaks (n.plain c hc).2).1, hne (by decide), hne (by decide)⟩

/-- A name can stand alone between square brackets. -/
theorem PlainName.enclosable (n : PlainName) : Enclosable '[' ']' true n.text.toList := by
  have h : Enclosable '[' ']' true (n.text.toList ++ []) := (enclosable_append_iff n.neutral).2 enclosable_nil
  rwa [List.append_nil] at h

/-- The name and the equals sign do not matter for whether square brackets can enclose a text. -/
theorem PlainName.enclosable_equals_iff (n : PlainName) {cs : List Char} :
    Enclosable '[' ']' true (n.text.toList ++ '=' :: cs) ↔ Enclosable '[' ']' true cs := by
  have hequals : ∀ c ∈ ['='], Neutral '[' ']' c := List.forall_mem_singleton.2 ⟨rfl, by decide, by decide⟩
  rw [enclosable_append_iff n.neutral, ← List.singleton_append, enclosable_append_iff hequals]

/-- Properly nested square brackets without quotes can stand between others. -/
theorem Default.enclosable (d : Default) : Enclosable '[' ']' true d.text.toList :=
  (enclosable_iff_of_unquoted (by simpa using d.unquoted)).2 d.nested

/-- The name part is read as it was written. -/
theorem readName_append (p : NamePart) (v : NamedValue) {rest : List Char} (hrest : EndsWord rest) :
    readName v (p.text.toList ++ rest) =
      .ok ({ v with
        name := some p.name.text
        optional := if p.isBracketed then some true else v.optional
        defaultValue := (p.default?.map (·.text)).or v.defaultValue }, trim rest) := by
  cases p with
  | plain n =>
    have hscan := scanWord_append n.plain hrest
    rw [NamePart.text]
    unfold readName
    split
    · next heq => exact absurd (List.append_eq_nil_iff.1 heq).1 n.toList_ne_nil
    · next tail heq =>
      obtain ⟨c, cs, hcs⟩ := List.exists_cons_of_ne_nil n.toList_ne_nil
      rw [hcs, List.cons_append, List.cons.injEq] at heq
      have hmem : '[' ∈ n.text.toList := by
        rw [hcs, ← heq.1]
        exact List.mem_cons_self
      exact absurd hmem (n.not_mem (by decide))
    · rw [hscan]
      dsimp only
      rw [String.ofList_toList]
      rfl
  | bracketed n default =>
    cases default with
    | none =>
      have htext : (NamePart.bracketed n none).text.toList ++ rest = '[' :: (n.text.toList ++ ']' :: rest) := by
        simp [NamePart.text]
      rw [htext, readName, scanBrackets_eq_ok_iff.2 ⟨rfl, n.enclosable⟩]
      dsimp only
      rw [nameInBrackets_name]
      rfl
    | some d =>
      have htext : (NamePart.bracketed n (some d)).text.toList ++ rest =
          '[' :: ((n.text.toList ++ '=' :: d.text.toList) ++ ']' :: rest) := by
        simp [NamePart.text]
      rw [htext, readName, scanBrackets_eq_ok_iff.2 ⟨rfl, n.enclosable_equals_iff.2 d.enclosable⟩]
      dsimp only
      rw [nameInBrackets_equals, d.toTrimmed.trim_toList, String.ofList_toList]
      rfl

theorem trim_dropHyphen {cs : List Char} (h : EndsWord cs) : trim (dropHyphen ('-' :: cs)) = trim cs := by
  cases cs with
  | nil => rfl
  | cons c cs =>
    rw [dropHyphen, if_pos (h c rfl), trim_cons_blank (h c rfl)]
    exact stripWhile_dropWhile cs

/-- What stands behind a hyphen is read as the description, without the blanks around it. -/
theorem describe_hyphen {v : NamedValue} (hv : v.description = none) (description : String) :
    describe v (trim (" - " ++ description).toList) =
      { v with description := nonempty (some (strip description)) } := by
  have htrim : trim (" - " ++ description).toList = '-' :: trimRight (' ' :: description.toList) := by
    rw [String.toList_append]
    exact dropEndWhile_append_cons (by decide) [] (' ' :: description.toList)
  have hends : EndsWord (trimRight (' ' :: description.toList)) := by
    intro c hc
    obtain ⟨rest, hrest⟩ := List.head?_eq_some_iff.1 hc
    have hprefix := dropEndWhile_prefix (p := isBlank) (' ' :: description.toList)
    rw [← trimRight, hrest] at hprefix
    rw [(List.cons_prefix_cons.1 hprefix).1]
    decide
  have hdrop : trim (dropHyphen ('-' :: trimRight (' ' :: description.toList))) = trim description.toList := by
    rw [trim_dropHyphen hends]
    exact (stripWhile_dropEndWhile _).trans (stripWhile_cons (by decide) _)
  unfold describe
  rw [htrim, hdrop, strip]
  cases trim description.toList with
  | nil =>
    have hnone : nonempty (some (String.ofList [])) = none := by decide
    rw [hnone, ← hv]
  | cons c cs =>
    have hsome : nonempty (some (String.ofList (c :: cs))) = some (String.ofList (c :: cs)) := by simp [nonempty]
    rw [hsome]

namespace Spelling

variable (s : Spelling)

theorem endsWord_descriptionText : EndsWord s.descriptionText.toList := by
  unfold descriptionText
  split
  · intro c hc
    simp at hc
    subst hc
    rfl
  · exact nofun

/-- The description is read as it was written. -/
theorem describe_descriptionText {v : NamedValue} (hv : v.description = none) :
    describe v (trim s.descriptionText.toList) = { v with description := s.description.map (·.text) } := by
  unfold descriptionText
  cases s.description with
  | none =>
    rw [Option.map_none, ← hv]
    rfl
  | some d =>
    have hd : nonempty (some d.text) = some d.text := by simp [nonempty, d.ne_empty]
    rw [describe_hyphen hv, d.trimmed, hd, Option.map_some]

/-- A name part and a description behind it have no blanks at their ends. -/
theorem solid_rest : Solid (s.name.text.toList ++ s.descriptionText.toList) := by
  have hname : Solid s.name.text.toList := by
    cases s.name with
    | plain n => exact n.solid
    | bracketed n default =>
      have henclosed (cs : List Char) : Solid ('[' :: cs ++ [']']) :=
        (solid_singleton (by decide)).append (solid_singleton (by decide)) cs
      cases default with
      | none => simpa [NamePart.text] using henclosed n.text.toList
      | some d => simpa [NamePart.text] using henclosed (n.text.toList ++ '=' :: d.text.toList)
  unfold descriptionText
  cases s.description with
  | none => simpa using hname
  | some d => simpa using hname.append d.solid [' ', '-', ' ']

theorem name_ne_nil : s.name.text.toList ≠ [] := by
  cases s.name with
  | plain n => exact n.toList_ne_nil
  | bracketed n default => cases default <;> simp [NamePart.text]

/-- A name part does not start like a type annotation. -/
theorem head?_name : s.name.text.toList.head? ≠ some '\x7b' := by
  cases s.name with
  | plain n => exact fun hc => n.not_mem (by decide) (List.mem_of_mem_head? hc)
  | bracketed n default => cases default <;> simp [NamePart.text]

/-- Name and description are read as they were written. -/
theorem readNamed_rest {v : NamedValue} (hd : v.description = none) (hv : v.defaultValue = none) :
    readNamed true v (s.name.text.toList ++ s.descriptionText.toList) =
      .ok { v with
        name := some s.name.name.text
        description := s.description.map (·.text)
        optional := if s.name.isBracketed then some true else v.optional
        defaultValue := s.name.default?.map (·.text) } := by
  have hdescribe (v : NamedValue) (hd : v.description = none) := s.describe_descriptionText hd
  rw [readNamed, if_pos rfl, readName_append s.name v s.endsWord_descriptionText, Except.map]
  dsimp only
  rw [hdescribe, hv, Option.or_none]
  exact hd

/-- **The text of a structured value is read back as the parts that it spells, and nothing is reported.** -/
theorem readStructured_text : readStructured true s.text = (none, .ok s.value) := by
  have hrest := s.solid_rest
  have htext : s.text.toList = s.typeText.toList ++ (s.name.text.toList ++ s.descriptionText.toList) := by
    simp [text]
  cases htype : s.type with
  | none =>
    have htrim : trim s.text.toList = s.name.text.toList ++ s.descriptionText.toList := by
      rw [htext, typeText, htype]
      exact trim_of_solid hrest
    unfold readStructured
    rw [htrim]
    split
    · next cs heq =>
      have hhead := congrArg List.head? heq
      rw [List.head?_append_of_ne_nil _ s.name_ne_nil] at hhead
      exact absurd hhead s.head?_name
    · rw [s.readNamed_rest rfl rfl]
      simp [value, htype]
  | some a =>
    have hnested : Nested '\x7b' '\x7d' a.text.toList := by
      obtain ⟨t, ht, -⟩ := map_eq_ok.1 a.parses
      exact TypeExpr.nested_of_parse ht a.braceless
    have htrim : trim s.text.toList =
        '\x7b' :: (a.text.toList ++ '\x7d' :: ' ' :: (s.name.text.toList ++ s.descriptionText.toList)) := by
      have hsolid := (solid_singleton (c := '\x7b') (by decide)).append hrest (a.text.toList ++ ['\x7d', ' '])
      rw [htext, typeText, htype]
      simpa using trim_of_solid hsolid
    have htype' : readType (String.ofList a.text.toList) = (none, a.spec) := by
      rw [String.ofList_toList, readType, a.parses]
    unfold readStructured
    rw [htrim]
    split
    · next cs heq =>
      cases heq
      rw [scanBraces_append hnested]
      dsimp only
      rw [htype', trim_cons_blank (by decide), trim_of_solid hrest, s.readNamed_rest rfl rfl]
      simp [value, htype, ofType]
    · next hne => exact absurd rfl (hne _)

/-- A parameter with a record type, a default and a description. -/
def options : Spelling where
  type := some {
    text := "\x7b\"a-b\": number\x7d"
    spec := .ofType "\x7b\"a-b\": number\x7d" (.record [.typed "\"a-b\"" (.name "number")])
    parses := by with_unfolding_all rfl
    braceless := by
      have hall : (TypeExpr.quotedParts "\x7b\"a-b\": number\x7d".toList).all (·.all (!TypeExpr.isBrace ·)) = true := by
        decide +kernel
      exact fun part hp c hc => by simpa using List.all_eq_true.1 (List.all_eq_true.1 hall part hp) c hc }
  name := .bracketed {
      text := "opts"
      ne_empty := by decide
      plain := by simp [show "opts".toList = ['o', 'p', 't', 's'] from rfl, isBlank, nameBreaks] }
    (some {
      text := "[1, [2]]"
      ne_empty := by decide
      trimmed := by decide
      unquoted := by simp [show "[1, [2]]".toList = ['[', '1', ',', ' ', '[', '2', ']', ']'] from rfl, isQuote]
      nested := by
        have htwo : Nested '[' ']' ['2'] := nested_of_not_mem (by decide) (by decide)
        have hone : Nested '[' ']' ['1', ',', ' '] := nested_of_not_mem (by decide) (by decide)
        exact (hone.append (htwo.enclose (by decide))).enclose (by decide) })
  description := some { text := "the options", ne_empty := by decide, trimmed := by decide }

theorem readStructured_text_options :
    readStructured true "\x7b\x7b\"a-b\": number\x7d\x7d [opts=[1, [2]]] - the options" =
      (none, .ok {
        type := some (.ofType "\x7b\"a-b\": number\x7d" (.record [.typed "\"a-b\"" (.name "number")]))
        name := some "opts"
        description := some "the options"
        optional := some true
        defaultValue := some "[1, [2]]" }) :=
  readStructured_text options

end Spelling

end SymbolDocs.Tag
