import SymbolDocs.Proofs.Grammar.Lookup
import SymbolDocs.Proofs.Tag.Feasible
import SymbolDocs.Proofs.Tag.Structured

/-!
# A bad tag costs only itself

Each raw tag of a comment is read on its own. Either it becomes a tag, or it is dropped and exactly one diagnostic
says so (`Outcome.Settles`). A type that cannot be read makes a diagnostic of another code, and whether a tag is
dropped does not depend on the type in its text (`isSome_readRawTag_of_sameButType`). `readComment_settles` puts this
together for a comment.
-/

namespace SymbolDocs

open SymbolDocs.Text

/-- Whether a diagnostic says that a tag was dropped. -/
def Diagnostic.dropsTag (x : Diagnostic) : Bool := x.code = "unknown-tag" || x.code = "tag-value"

namespace Tag

variable {R : Type} {dict : Dictionary R} {location : Location} {raw raw' : RawTag} {d : Definition R}

/-! ## Outcomes -/

/-- Diagnostics that a type cannot be read. -/
def TypeFaults (found : List Diagnostic) : Prop := ∀ x ∈ found, x.code = "type-expression"

/-- What a raw tag may come to: a tag that keeps the title, or a diagnostic that it was dropped. -/
inductive Outcome.Settles (raw : RawTag) : Outcome → Prop
  | kept {found : List Diagnostic} {tag : Tag} (hf : TypeFaults found) (ht : tag.originalTitle = some raw.title) :
      Settles raw (found, some tag)
  | dropped {found : List Diagnostic} {x : Diagnostic} (hf : TypeFaults found) (hx : x.dropsTag = true) :
      Settles raw (found ++ [x], none)

theorem TypeFaults.countP_dropsTag {found : List Diagnostic} (h : TypeFaults found) :
    found.countP (·.dropsTag) = 0 := by
  rw [List.countP_eq_zero]
  intro x hx
  rw [Diagnostic.dropsTag, h x hx]
  decide

/-- A raw tag counts once, as a tag or as a diagnostic that it was dropped. -/
theorem Outcome.Settles.count {outcome : Outcome} (h : outcome.Settles raw) :
    outcome.2.toList.length + outcome.1.countP (·.dropsTag) = 1 := by
  cases h with
  | kept hf ht => rw [hf.countP_dropsTag]; rfl
  | dropped hf hx => simp [hf.countP_dropsTag, hx]

theorem Outcome.Settles.exists_of_typeFaults {outcome : Outcome} (h : outcome.Settles raw)
    (hf : TypeFaults outcome.1) : ∃ tag, outcome.2 = some tag := by
  cases h with
  | kept _ ht => exact ⟨_, rfl⟩
  | @dropped found x _ hx =>
    have hcode : x.code = "type-expression" := hf x (List.mem_append_right _ (List.mem_singleton_self x))
    rw [Diagnostic.dropsTag, hcode] at hx
    exact absurd hx (by decide)

theorem typeFaults_readValue (d : Definition R) (text : String) (location : Location) :
    TypeFaults ((readValue d text).1.map fun p => Diagnostic.ofProblem p location).toList := by
  intro x hx
  obtain ⟨problem, hp, rfl⟩ := Option.map_eq_some_iff.1 (Option.mem_toList.1 hx)
  obtain ⟨expression, fault, rfl⟩ := isTypeFault_readValue hp
  rfl

/-- Every raw tag settles, whatever its text and its definition are. -/
theorem settles_readRawTag (dict : Dictionary R) (location : Location) (raw : RawTag) :
    (readRawTag dict location raw).Settles raw := by
  unfold readRawTag
  split
  · next d _ =>
    have hfound := typeFaults_readValue d raw.text location
    unfold readKnown
    dsimp only
    split
    · exact .kept hfound rfl
    · exact .dropped hfound rfl
  · unfold readUnknown
    split
    · exact .kept (List.forall_mem_nil _) rfl
    · exact .dropped (List.forall_mem_nil _) rfl

/-! ## Types do not matter -/

/-- Two texts that start with a type in braces, and differ in that type alone. -/
def Retyped (cs cs' : List Char) : Prop :=
  ∃ e e' rest, Nested '\x7b' '\x7d' e ∧ Nested '\x7b' '\x7d' e' ∧
    cs = '\x7b' :: (e ++ '\x7d' :: rest) ∧ cs' = '\x7b' :: (e' ++ '\x7d' :: rest)

/-- Trimming ends before a closing brace. -/
theorem trim_braces (e rest : List Char) :
    trim ('\x7b' :: (e ++ '\x7d' :: rest)) = '\x7b' :: (e ++ '\x7d' :: trimRight rest) := by
  have hleft : trimLeft ('\x7b' :: (e ++ '\x7d' :: rest)) = ('\x7b' :: e ++ ['\x7d']) ++ rest := by
    rw [trimLeft, List.dropWhile_cons_of_neg (by decide)]
    simp
  have hright : trimRight (('\x7b' :: e ++ ['\x7d']) ++ rest) = ('\x7b' :: e ++ ['\x7d']) ++ trimRight rest := by
    have hstop : (('\x7b' :: e ++ ['\x7d']).reverse).dropWhile isBlank = ('\x7b' :: e ++ ['\x7d']).reverse := by
      rw [List.reverse_append, List.reverse_singleton, List.singleton_append,
        List.dropWhile_cons_of_neg (by decide)]
    rw [trimRight, dropEndWhile, List.reverse_append, List.dropWhile_append, hstop]
    split
    · next hnil => rw [trimRight, dropEndWhile, List.isEmpty_iff.1 hnil]; simp
    · rw [trimRight, dropEndWhile, List.reverse_append, List.reverse_reverse]
  rw [trim_eq, hleft, hright]
  simp

/-- Whether a name can be read does not depend on the value that it joins. -/
theorem isOk_readName (v v' : NamedValue) (cs : List Char) : (readName v cs).isOk = (readName v' cs).isOk := by
  unfold readName
  split
  · rfl
  · split <;> rfl
  · split <;> rfl

theorem isOk_readNamed (named : Bool) (v v' : NamedValue) (cs : List Char) :
    (readNamed named v cs).isOk = (readNamed named v' cs).isOk := by
  cases named with
  | false => rfl
  | true =>
    rw [readNamed, readNamed, if_pos rfl, if_pos rfl, isOk_map, isOk_map]
    exact isOk_readName v v' cs

/-- The verdict on a structured value with a type is that on what stands behind the type. -/
theorem isOk_readStructured (named : Bool) {e : List Char} (he : Nested '\x7b' '\x7d' e) (rest : List Char) :
    (readStructured named (String.ofList ('\x7b' :: (e ++ '\x7d' :: rest)))).2.isOk =
      (readNamed named {} (trim (trimRight rest))).isOk := by
  unfold readStructured
  rw [String.toList_ofList, trim_braces]
  split
  · next cs heq =>
    cases heq
    rw [scanBraces_append he]
    exact isOk_readNamed _ _ _ _
  · next hne => exact absurd rfl (hne _)

theorem isOk_readTypeValue {e : List Char} (he : Nested '\x7b' '\x7d' e) (rest : List Char) :
    (readTypeValue ('\x7b' :: (e ++ '\x7d' :: rest))).2.isOk = true := by
  unfold readTypeValue
  split
  · next inner heq =>
    cases heq
    rw [scanBraces_append he]
    rfl
  · rfl

theorem isOk_readNamePath {e : List Char} (he : Nested '\x7b' '\x7d' e) (rest : List Char) :
    (readNamePath (String.ofList ('\x7b' :: (e ++ '\x7d' :: rest)))).isOk = true := by
  unfold readNamePath
  rw [String.toList_ofList, trim_braces]
  split
  · rfl
  · next cs heq =>
    cases heq
    rw [scanBraces_append he]
    rfl
  · next hne => exact absurd rfl (hne _)

theorem isOk_readShape_of_retyped {cs cs' : List Char} (h : Retyped cs cs') :
    (readShape d cs).2.isOk = (readShape d cs').2.isOk := by
  obtain ⟨e, e', rest, he, he', rfl, rfl⟩ := h
  unfold readShape
  cases d.shape with
  | none => rfl
  | text => rfl
  | typeExpression =>
    dsimp only
    rw [isOk_map, isOk_map, isOk_readTypeValue he, isOk_readTypeValue he']
  | namePath =>
    dsimp only
    rw [isOk_map, isOk_map, isOk_readNamePath he, isOk_readNamePath he']
  | structured =>
    dsimp only
    rw [isOk_map, isOk_map, isOk_readStructured _ he, isOk_readStructured _ he']

/-- Whether a text is a value does not depend on the type that it starts with. -/
theorem isOk_readValue_of_retyped {text text' : String} (h : Retyped (trimFor d text) (trimFor d text')) :
    (readValue d text).2.isOk = (readValue d text').2.isOk := by
  have hshape := isOk_readShape_of_retyped (d := d) h
  obtain ⟨e, e', rest, -, -, hcs, hcs'⟩ := h
  unfold readValue
  rw [hcs, hcs'] at hshape ⊢
  dsimp only
  split
  · rfl
  · exact hshape

/-- Two raw tags with the same title that differ in the type alone. -/
structure SameButType (d : Definition R) (raw raw' : RawTag) : Prop where
  title : raw.title = raw'.title
  implicit : raw.implicit = raw'.implicit
  text : Retyped (trimFor d raw.text) (trimFor d raw'.text)

theorem isSome_readKnown (d : Definition R) (location : Location) (raw : RawTag) :
    (readKnown d location raw).2.isSome = (readValue d raw.text).2.isOk := by
  unfold readKnown
  dsimp only
  split
  · next value hv => rw [hv]; rfl
  · next fault hv => rw [hv]; rfl

/-- Of two raw tags that differ in the type alone, both become tags or both are dropped. -/
theorem isSome_readRawTag_of_sameButType (hd : definitionOf? dict raw = some d) (h : SameButType d raw raw') :
    (readRawTag dict location raw).2.isSome = (readRawTag dict location raw').2.isSome := by
  have hd' : definitionOf? dict raw' = some d := by rw [← hd, definitionOf?, definitionOf?, h.title, h.implicit]
  unfold readRawTag
  rw [hd, hd']
  dsimp only
  rw [isSome_readKnown, isSome_readKnown]
  exact isOk_readValue_of_retyped h.text

/-! ## Comments -/

/-- If all raw tags settle, each of them counts once. -/
theorem length_add_countP_of_settles {outcome : RawTag → Outcome} (h : ∀ raw, (outcome raw).Settles raw)
    (raws : List RawTag) :
    (raws.filterMap fun raw => (outcome raw).2).length +
      (raws.flatMap fun raw => (outcome raw).1).countP (·.dropsTag) = raws.length := by
  induction raws with
  | nil => rfl
  | cons raw raws ih =>
    have hraw := (h raw).count
    rw [List.flatMap_cons, List.countP_append, List.filterMap_cons, List.length_cons]
    cases htag : (outcome raw).2 with
    | none =>
      rw [htag] at hraw
      dsimp only [Option.toList_none, List.length_nil] at hraw ⊢
      omega
    | some tag =>
      rw [htag] at hraw
      dsimp only [Option.toList_some, List.length_cons, List.length_nil] at hraw ⊢
      omega

/-- **A bad tag costs only itself.** The raw tags of a comment are read one by one, and the diagnostics and tags stand
in their order. Each raw tag comes to one tag or to one diagnostic that it was dropped, so that tags and such
diagnostics together are as many as the raw tags. A raw tag of which only types are reported is kept, and the type in
its text has no part in whether it is. -/
theorem readComment_settles (dict : Dictionary R) (location : Location) (comment : String) :
    let raws := Comment.rawTags (Comment.body comment)
    let outcome := readRawTag dict location
    let result := readComment dict location comment
    result.1 = raws.flatMap (fun raw => (outcome raw).1) ∧
    result.2 = raws.filterMap (fun raw => (outcome raw).2) ∧
    (∀ raw, (outcome raw).Settles raw) ∧
    result.2.length + result.1.countP (·.dropsTag) = raws.length ∧
    (∀ raw, TypeFaults (outcome raw).1 → ∃ tag, (outcome raw).2 = some tag) ∧
    ∀ d raw raw', definitionOf? dict raw = some d → SameButType d raw raw' →
      (outcome raw).2.isSome = (outcome raw').2.isSome := by
  intro raws outcome result
  have hfound : result.1 = raws.flatMap fun raw => (outcome raw).1 := by
    simp only [result, readComment, List.flatMap_map, raws, outcome]
  have htags : result.2 = raws.filterMap fun raw => (outcome raw).2 := by
    simp only [result, readComment, List.filterMap_map, raws, outcome, Function.comp_def]
  have hsettles : ∀ raw, (outcome raw).Settles raw := settles_readRawTag dict location
  refine ⟨hfound, htags, hsettles, ?_, fun raw hf => (hsettles raw).exists_of_typeFaults hf,
    fun d raw raw' hd h => isSome_readRawTag_of_sameButType hd h⟩
  rw [hfound, htags]
  exact length_add_countP_of_settles hsettles raws

/-- The definition of a parameter. -/
def parameter : Definition := { name := "param", shape := .structured, named := true, mustHaveValue := true }

/-- A dictionary with parameters only. -/
def parameters : Dictionary := ({} : Dictionary).defineAll [parameter]

/-- A malformed type leaves the first parameter, and the second one is dropped with a malformed and with a good type. -/
theorem readComment_settles_parameters :
    let kept : RawTag := { title := "param", text := "\x7b?!\x7d x" }
    let dropped : RawTag := { title := "param", text := "\x7b?!\x7d [y" }
    let typed : RawTag := { title := "param", text := "\x7bnumber\x7d [y" }
    (TypeFaults (readRawTag parameters {} kept).1 ∧ ∃ tag, (readRawTag parameters {} kept).2 = some tag) ∧
      (definitionOf? parameters dropped = some parameter ∧ SameButType parameter dropped typed ∧
        (readRawTag parameters {} dropped).2.isSome = (readRawTag parameters {} typed).2.isSome) := by
  intro kept dropped typed
  obtain ⟨-, -, -, -, hkept, hsame⟩ := readComment_settles parameters {} "@param \x7b?!\x7d x\n@param \x7b?!\x7d [y"
  have hfaults : TypeFaults (readRawTag parameters {} kept).1 := by
    unfold TypeFaults
    decide +kernel
  have hdefinition : definitionOf? parameters dropped = some parameter := by
    have hlookup : parameters.lookup dropped.title = some parameter :=
      Dictionary.lookup_defineAll_of_mem (by simp) (List.mem_singleton_self parameter)
    rw [definitionOf?, hlookup, Option.some_or]
  have htypes : SameButType parameter dropped typed :=
    ⟨rfl, rfl, "?!".toList, "number".toList, " [y".toList, nested_of_not_mem (by decide) (by decide),
      nested_of_not_mem (by decide) (by decide), by decide +kernel, by decide +kernel⟩
  exact ⟨⟨hfaults, hkept kept hfaults⟩, hdefinition, htypes, hsame parameter dropped typed hdefinition htypes⟩

end Tag
end SymbolDocs
