import SymbolDocs.Grammar.Dictionary
import SymbolDocs.Proofs.Comment.Layout
import SymbolDocs.Proofs.Grammar.Lookup
import SymbolDocs.Proofs.Source.Building

/-!
# Comments of delimiters alone

A block comment may consist of its delimiters, of further asterisks and of blanks. The opening delimiter is taken off
first, with all asterisks behind it. As soon as there is a blank, it stops there, and the closing delimiter takes the
rest. Without a blank all asterisks belong to the opening delimiter, those of the closing delimiter too: its slash is
left over and is read as text.

`body_emptyBlock` says which of the two it is. `build_emptyBlock` follows the comment through the reading of its tags
to the doclet, which is undocumented in the first case and has the description "/" in the second one.
-/

namespace SymbolDocs

open SymbolDocs.Text

namespace Comment

/-- Some asterisks. -/
def asterisks (n : Nat) : List Char := List.replicate n '*'

/-- A block comment with nothing but blanks between its delimiters, to which any number of asterisks is added. -/
def emptyBlock (front back : Nat) (blank : String) : String :=
  "/**" ++ String.ofList (asterisks front) ++ blank ++ String.ofList (asterisks back) ++ "*/"

variable {front back : Nat} {blank : String} {cs : List Char}

/-! ## The body -/

theorem toList_emptyBlock : (emptyBlock front back blank).toList =
    '/' :: '*' :: '*' :: (asterisks front ++ (blank.toList ++ (asterisks back ++ ['*', '/']))) := by
  simp [emptyBlock]

theorem eq_asterisk (n : Nat) : ∀ c ∈ asterisks n, decide (c = '*') = true :=
  fun _ hc => decide_eq_true (List.eq_of_mem_replicate hc)

/-- The opening delimiter takes all asterisks that follow it. -/
theorem dropOpening_asterisks (n : Nat) (cs : List Char) :
    dropOpening ('/' :: '*' :: '*' :: (asterisks n ++ cs)) = cs.dropWhile (· = '*') := by
  rw [dropOpening, List.dropWhile_append_of_pos (eq_asterisk n)]

/-- The closing delimiter takes all asterisks and blanks in front of it. -/
theorem dropClosing_asterisks (n : Nat) (hcs : ∀ c ∈ cs, isBlank c = true) :
    dropClosing (cs ++ (asterisks n ++ ['*', '/'])) = [] := by
  have hlast : ∀ c ∈ cs.getLast?, decide (c = '*') = false := by
    intro c hc
    refine decide_eq_false ?_
    rintro rfl
    cases hcs '*' (List.mem_of_getLast? hc)
  rw [← List.append_assoc, dropClosing_append, dropEndWhile_append (eq_asterisk n), dropEndWhile_eq_self hlast,
    trimRight, dropEndWhile_eq_nil_iff.2 hcs]

theorem trim_emptyBlock : trim (emptyBlock front back blank).toList = (emptyBlock front back blank).toList := by
  rw [toList_emptyBlock]
  refine stripWhile_eq_self (fun c hc => ?_) fun c hc => ?_
  · cases hc
    rfl
  · obtain rfl : '/' = c := by simpa [List.getLast?_cons] using hc
    rfl

theorem body_emptyBlock_of_blank (hb : allBlank blank = true) (hne : blank ≠ "") :
    body (emptyBlock front back blank) = "" := by
  have hblank : ∀ c ∈ blank.toList, isBlank c = true := List.all_eq_true.1 hb
  obtain ⟨c, cs, hcs⟩ := List.exists_cons_of_ne_nil fun he => hne (String.toList_eq_nil_iff.1 he)
  have hopening : dropOpening (emptyBlock front back blank).toList =
      blank.toList ++ (asterisks back ++ ['*', '/']) := by
    have hc : decide (c = '*') = false := by
      refine decide_eq_false ?_
      rintro rfl
      cases hblank '*' (hcs ▸ List.mem_cons_self)
    rw [toList_emptyBlock, dropOpening_asterisks, hcs, List.cons_append, List.dropWhile_cons_of_neg (by simp [hc])]
  rw [toList_emptyBlock] at hopening
  rw [body, trim_emptyBlock, toList_emptyBlock, bodyOfTrimmed, hopening, dropClosing_asterisks back hblank]
  rfl

/-- Without blanks the opening delimiter takes the asterisks of the closing one, of which the slash is left. -/
theorem body_emptyBlock_empty : body (emptyBlock front back "") = "/" := by
  have hopening :
      dropOpening ('/' :: '*' :: '*' :: (asterisks front ++ ([] ++ (asterisks back ++ ['*', '/'])))) = ['/'] := by
    rw [dropOpening_asterisks, List.nil_append, List.dropWhile_append_of_pos (eq_asterisk back)]
    rfl
  rw [body, trim_emptyBlock, toList_emptyBlock, bodyOfTrimmed, String.toList_empty, hopening]
  decide

/-- **Delimiters without anything between them have no body** exactly if there is a blank between them. -/
theorem body_emptyBlock (hb : allBlank blank = true) :
    body (emptyBlock front back blank) = if blank = "" then "/" else "" := by
  split
  · next he => rw [he, body_emptyBlock_empty]
  · next hne => exact body_emptyBlock_of_blank hb hne

/-- The tag that the text "/" makes. -/
def slashTag : RawTag := { title := "description", text := "/", implicit := true }

theorem rawTags_emptyBlock (hb : allBlank blank = true) :
    rawTags (body (emptyBlock front back blank)) = if blank = "" then [slashTag] else [] := by
  rw [body_emptyBlock hb]
  split
  · decide
  · rfl

theorem allBlank_emptyBlock : allBlank (emptyBlock front back blank) = false := by
  rw [allBlank, toList_emptyBlock]
  rfl

end Comment

/-! ## Reading and applying -/

open Comment

variable {front back : Nat} {blank : String} {dict : Dictionary} {location : Location}

/-- In the dictionary a description is plain text, and its tag does nothing else than to set it. -/
structure Dictionary.PlainDescription (dict : Dictionary) (d : Definition) : Prop where
  definition : Tag.definitionOf? dict slashTag = some d
  shape : d.shape = .text
  permitted : d.mustNotHaveValue = false
  effects : d.effects = [.store (.text .description) none]
  title : d.name ≠ "lends"

namespace Tag

theorem readComment_emptyBlock (hb : allBlank blank = true) (hne : blank ≠ "") (front back : Nat) (dict : Dictionary)
    (location : Location) : readComment dict location (emptyBlock front back blank) = ([], []) := by
  rw [readComment, rawTags_emptyBlock hb, if_neg hne]
  rfl

theorem readRawTag_slash {d : Definition} (h : dict.PlainDescription d) (location : Location) :
    readRawTag dict location slashTag =
      ([], some { title := d.name, text := "/", originalTitle := some "description", value := some (.text "/") }) := by
  have htrim : trimFor d "/" = ['/'] := by
    unfold trimFor
    split <;> decide
  have hstrip : strip "/" = "/" := by decide
  have hvalue : readValue d "/" = (none, .ok (some (.text "/"))) := by
    rw [readValue, htrim]
    dsimp only
    rw [h.permitted, readShape, h.shape]
    rfl
  rw [readRawTag, h.definition]
  dsimp only
  rw [readKnown, slashTag, hvalue, hstrip]
  rfl

theorem readComment_slash {d : Definition} (h : dict.PlainDescription d) (front back : Nat) (location : Location) :
    readComment dict location (emptyBlock front back "") =
      ([], [{ title := d.name, text := "/", originalTitle := some "description", value := some (.text "/") }]) := by
  rw [readComment, rawTags_emptyBlock rfl, if_pos rfl, List.map_singleton, readRawTag_slash h]
  rfl

theorem applyAll_slash {d : Definition} (h : dict.PlainDescription d) (location : Location) (doclet : Doclet) :
    applyAll dict location
        [{ title := d.name, text := "/", originalTitle := some "description", value := some (.text "/") }] doclet =
      ([], .ok { doclet with description := some "/" }) := by
  rw [applyAll, effectsOf_of_definitionOf? h.definition rfl rfl, h.effects]
  rfl

end Tag

/-! ## Building -/

namespace Doclet

/-- What only the code says about a doclet does not concern its description. -/
theorem description_complete (d : Doclet) (tags : List Tag) (context : SourceContext) :
    (d.complete tags context).description = d.description ∧
      (d.complete tags context).undocumented = (d.undocumented || tags.all (·.title = "lends")) := by
  unfold complete takeParams nameModule
  split
  · split <;> split <;> exact ⟨rfl, rfl⟩
  · split <;> exact ⟨rfl, rfl⟩

end Doclet

variable {context : SourceContext}

/-- A comment that is applied without diagnostics. -/
theorem build_of_applied {comment : String} {tags : List Tag} {d : Doclet} (stack : ScopeStack) (event : ScopeEvent)
    (hb : allBlank comment = false)
    (hread : Tag.readComment dict context.location comment = ([], tags))
    (happly : Tag.applyAll dict context.location tags (Doclet.ofContext (some comment) context) = ([], .ok d)) :
    ∃ d', build dict stack (some comment) context event = ([], .ok (d', stack.afterDoclet dict d' event)) ∧
      d'.description = d.description ∧ d'.undocumented = (d.undocumented || tags.all (·.title = "lends")) := by
  have hcomment : (Doclet.ofContext (some comment) context).comment = comment := rfl
  refine ⟨(d.complete tags context).place dict stack, ?_, d.description_complete tags context⟩
  unfold build
  dsimp only
  rw [hcomment, hb, if_neg Bool.false_ne_true, applyComment, hread]
  dsimp only
  rw [happly]
  exact congrArg (Prod.mk []) (settle_complete dict stack event d tags context)

/-- **A block comment of delimiters alone documents nothing** exactly if there is a blank between them. Then it has no
body and no tags, and its doclet is undocumented and has no description. Without a blank the slash of the closing
delimiter is its body, and in a dictionary in which descriptions are plain text this is the description of a documented
symbol. -/
theorem build_emptyBlock (hb : allBlank blank = true) (front back : Nat) (dict : Dictionary) (stack : ScopeStack)
    (context : SourceContext) (event : ScopeEvent) :
    let comment := emptyBlock front back blank
    body comment = (if blank = "" then "/" else "") ∧
      rawTags (body comment) = (if blank = "" then [slashTag] else []) ∧
      (blank ≠ "" → ∃ d, build dict stack (some comment) context event =
          ([], .ok (d, stack.afterDoclet dict d event)) ∧ d.undocumented = true ∧ d.description = none) ∧
      (blank = "" → ∀ definition, dict.PlainDescription definition → ∃ d,
          build dict stack (some comment) context event = ([], .ok (d, stack.afterDoclet dict d event)) ∧
          d.undocumented = false ∧ d.description = some "/") := by
  intro comment
  refine ⟨body_emptyBlock hb, rawTags_emptyBlock hb, fun hne => ?_, ?_⟩
  · obtain ⟨d, hbuild, hdescription, hundocumented⟩ := build_of_applied stack event allBlank_emptyBlock
      (Tag.readComment_emptyBlock hb hne front back dict context.location) rfl
    exact ⟨d, hbuild, hundocumented, hdescription⟩
  · rintro rfl definition h
    obtain ⟨d, hbuild, hdescription, hundocumented⟩ := build_of_applied stack event allBlank_emptyBlock
      (Tag.readComment_slash h front back context.location) (Tag.applyAll_slash h context.location _)
    refine ⟨d, hbuild, ?_, hdescription⟩
    rw [hundocumented]
    simp [h.title, Doclet.ofContext]

/-- A row of asterisks, a blank line and another row. -/
theorem build_emptyBlock_banner :
    let dict := Grammar.jsdoc.dictionary
    let context : SourceContext := { name := some "f", codeType := some "FunctionDeclaration" }
    let comment := emptyBlock 3 4 "\n \n"
    comment = "/*****\n \n*****/" ∧ allBlank "\n \n" = true ∧ body comment = "" ∧ rawTags (body comment) = [] ∧
      ∃ d stack, build dict {} (some comment) context .none = ([], .ok (d, stack)) ∧ d.undocumented = true ∧
        d.description = none := by
  intro dict context comment
  have hb : allBlank "\n \n" = true := by decide
  have hne : "\n \n" ≠ "" := by decide
  obtain ⟨hbody, htags, hblank, -⟩ := build_emptyBlock hb 3 4 dict {} context .none
  rw [if_neg hne] at hbody htags
  obtain ⟨d, hbuild⟩ := hblank hne
  exact ⟨by decide, hb, hbody, htags, d, _, hbuild⟩

/-- In the grammar "jsdoc" descriptions are plain text. -/
theorem plainDescription_jsdoc (allowUnknown : AllowUnknown) :
    ∃ d, (Grammar.jsdoc.dictionary allowUnknown).PlainDescription d := by
  have hmem : ({ name := "description", effects := Grammar.store .description, synonyms := ["desc"] } : Definition) ∈
      Grammar.jsdocTags := by
    simp [Grammar.jsdocTags]
  have hl := Grammar.lookup_jsdoc (List.mem_append_right _ hmem) allowUnknown
  exact ⟨_, by rw [Tag.definitionOf?, slashTag, hl, Option.some_or], rfl, rfl, rfl, by decide⟩

/-- The smallest block comment documents a function with the description "/". -/
theorem build_slash :
    let dict := Grammar.jsdoc.dictionary
    let context : SourceContext := { name := some "f", codeType := some "FunctionDeclaration" }
    emptyBlock 0 0 "" = "/***/" ∧ body "/***/" = "/" ∧ rawTags (body "/***/") ≠ [] ∧
      ∃ d stack, build dict {} (some "/***/") context .none = ([], .ok (d, stack)) ∧ d.undocumented = false ∧
        d.description = some "/" := by
  intro dict context
  have hcomment : emptyBlock 0 0 "" = "/***/" := by decide
  obtain ⟨definition, h⟩ := plainDescription_jsdoc (.all false)
  obtain ⟨d, hbuild, hdescription, hundocumented⟩ := build_of_applied {} .none allBlank_emptyBlock
    (Tag.readComment_slash h 0 0 context.location) (Tag.applyAll_slash h context.location _)
  rw [← hcomment]
  refine ⟨rfl, body_emptyBlock_empty, ?_, d, _, hbuild, ?_, hdescription⟩
  · rw [rawTags_emptyBlock rfl]
    simp
  · rw [hundocumented]
    simp [h.title, Doclet.ofContext]

end SymbolDocs
