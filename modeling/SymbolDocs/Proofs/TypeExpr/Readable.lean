import SymbolDocs.Proofs.TypeExpr.Derivation
import SymbolDocs.Proofs.TypeExpr.Scanning

/-!
# Types that a text states

Not every type has a text that states it: `Readable` says what the names, literals and keys of one are like that was
read, and `Derives.readable` that this holds of every type inside a type that was read. The types inside a type are
its `parts`; `induct` is the induction over them.
-/

namespace SymbolDocs.TypeExpr

/-! ## The types inside a type -/

mutual

/-- The type and all types inside it. -/
def parts : TypeExpr → List TypeExpr
  | .union elements => .union elements :: partsAll elements
  | .application base args => .application base args :: (parts base ++ partsAll args)
  | .function params returns this new =>
    .function params returns this new ::
      (partsAll params ++ partsOption returns ++ partsOption this ++ partsOption new)
  | .record fields => .record fields :: partsFields fields
  | .modified inner optional nullable repeatable => .modified inner optional nullable repeatable :: parts inner
  | t => [t]

/-- All types inside several types. -/
def partsAll : List TypeExpr → List TypeExpr
  | [] => []
  | t :: ts => parts t ++ partsAll ts

/-- All types inside a type that may be absent. -/
def partsOption : Option TypeExpr → List TypeExpr
  | none => []
  | some t => parts t

/-- All types inside the fields of a record. -/
def partsFields : List TypeField → List TypeExpr
  | [] => []
  | .bare _ :: fs => partsFields fs
  | .typed _ t :: fs => parts t ++ partsFields fs

end

/-- The property holds of the type and of every type inside it. -/
def Everywhere (P : TypeExpr → Prop) (t : TypeExpr) : Prop := ∀ s ∈ t.parts, P s

variable {P : TypeExpr → Prop} {t : TypeExpr}

theorem forall_partsAll {es : List TypeExpr} : (∀ s ∈ partsAll es, P s) ↔ ∀ e ∈ es, e.Everywhere P := by
  induction es with
  | nil => simp [partsAll]
  | cons e es ih => simp [partsAll, or_imp, forall_and, ih, Everywhere]

theorem forall_partsOption {o : Option TypeExpr} : (∀ s ∈ partsOption o, P s) ↔ ∀ t ∈ o, t.Everywhere P := by
  cases o <;> simp [partsOption, Everywhere]

theorem forall_partsFields {fs : List TypeField} :
    (∀ s ∈ partsFields fs, P s) ↔ ∀ key t, .typed key t ∈ fs → t.Everywhere P := by
  induction fs with
  | nil => simp [partsFields]
  | cons f fs ih =>
    cases f with
    | bare key => simp [partsFields, ih]
    | typed key t => simp [partsFields, or_imp, forall_and, ih, Everywhere]

theorem everywhere_union {es : List TypeExpr} :
    (union es).Everywhere P ↔ P (.union es) ∧ ∀ e ∈ es, e.Everywhere P := by
  rw [Everywhere, parts, List.forall_mem_cons, forall_partsAll]

theorem everywhere_application {base : TypeExpr} {args : List TypeExpr} : (application base args).Everywhere P ↔
    P (.application base args) ∧ base.Everywhere P ∧ ∀ e ∈ args, e.Everywhere P := by
  rw [Everywhere, parts, List.forall_mem_cons, List.forall_mem_append, forall_partsAll, Everywhere]

theorem everywhere_function {params : List TypeExpr} {returns this new : Option TypeExpr} :
    (function params returns this new).Everywhere P ↔ P (.function params returns this new) ∧
      (∀ e ∈ params, e.Everywhere P) ∧ (∀ t ∈ returns, t.Everywhere P) ∧ (∀ t ∈ this, t.Everywhere P) ∧
      ∀ t ∈ new, t.Everywhere P := by
  rw [Everywhere, parts, List.forall_mem_cons, List.forall_mem_append, List.forall_mem_append, List.forall_mem_append,
    forall_partsAll, forall_partsOption, forall_partsOption, forall_partsOption, and_assoc, and_assoc]

theorem everywhere_record {fs : List TypeField} : (record fs).Everywhere P ↔
    P (.record fs) ∧ ∀ key t, .typed key t ∈ fs → t.Everywhere P := by
  rw [Everywhere, parts, List.forall_mem_cons, forall_partsFields]

theorem everywhere_modified {optional repeatable : Bool} {nullable : Option Bool} :
    (modified t optional nullable repeatable).Everywhere P ↔
      P (.modified t optional nullable repeatable) ∧ t.Everywhere P := by
  rw [Everywhere, parts, List.forall_mem_cons, Everywhere]

theorem everywhere_of_parts (h : t.parts = [t]) (ht : P t) : t.Everywhere P := by
  rw [Everywhere, h]
  exact List.forall_mem_singleton.2 ht

theorem Everywhere.self (h : t.Everywhere P) : P t := by
  have hmem : t ∈ t.parts := by cases t <;> simp [parts]
  exact h t hmem

/-- Induction over the types inside a type. -/
theorem induct {motive : TypeExpr → Prop} (name : ∀ path, motive (.name path)) (all : motive .all)
    (unknown : motive .unknown) (null : motive .null) (undefined : motive .undefined)
    (literal : ∀ text, motive (.literal text)) (union : ∀ es, (∀ e ∈ es, motive e) → motive (.union es))
    (application : ∀ base args, motive base → (∀ e ∈ args, motive e) → motive (.application base args))
    (function : ∀ params returns this new, (∀ e ∈ params, motive e) → (∀ t ∈ returns, motive t) →
      (∀ t ∈ this, motive t) → (∀ t ∈ new, motive t) → motive (.function params returns this new))
    (record : ∀ fs, (∀ key t, .typed key t ∈ fs → motive t) → motive (.record fs))
    (modified : ∀ inner optional nullable repeatable, motive inner →
      motive (.modified inner optional nullable repeatable)) (t : TypeExpr) : motive t := by
  generalize hn : sizeOf t = n
  induction n using Nat.strongRecOn generalizing t with
  | ind n ih =>
    have ih' (s : TypeExpr) (hs : sizeOf s < sizeOf t) : motive s := ih (sizeOf s) (hn ▸ hs) s rfl
    clear ih hn
    have list {es : List TypeExpr} (hes : sizeOf es < sizeOf t) : ∀ e ∈ es, motive e :=
      fun e he => ih' e (Nat.lt_trans (List.sizeOf_lt_of_mem he) hes)
    have option {o : Option TypeExpr} (ho : sizeOf o < sizeOf t) : ∀ e ∈ o, motive e := by
      rintro e rfl
      exact ih' e (by simp at ho; omega)
    cases t with
    | name path => exact name path
    | all => exact all
    | unknown => exact unknown
    | null => exact null
    | undefined => exact undefined
    | literal text => exact literal text
    | union es => exact union es (list (by simp))
    | application base args =>
      have hsize := TypeExpr.application.sizeOf_spec base args
      exact application base args (ih' base (by omega)) (list (by omega))
    | function params returns this new =>
      have hsize := TypeExpr.function.sizeOf_spec params returns this new
      exact function params returns this new (list (by omega)) (option (by omega)) (option (by omega))
        (option (by omega))
    | record fs =>
      refine record fs fun key s hs => ih' s ?_
      have := List.sizeOf_lt_of_mem hs
      simp at this ⊢
      omega
    | modified inner optional nullable repeatable =>
      exact modified inner optional nullable repeatable (ih' inner (by simp; omega))

/-! ## Types that a text states -/

/-- What a type that was read from a text is like, apart from the types inside it: its names, literals and keys are
stable lexemes, and nothing is left empty that the syntax fills. -/
def Readable : TypeExpr → Prop
  | .name path => path ≠ "null" ∧ path ≠ "undefined" ∧ (Lexeme.name path).Stable
  | .literal text => (Lexeme.quoted text).Stable ∨ (Lexeme.number text).Stable
  | .union elements => 2 ≤ elements.length
  | .application base args => (∃ path, base = .name path) ∧ args ≠ []
  | .record fields => ∀ f ∈ fields, ∃ l, keyText l = some f.key ∧ l.Stable
  | .modified _ optional nullable repeatable => repeatable = true ∨ optional = true ∨ nullable.isSome = true
  | _ => True

/-- The type of a parameter. -/
def Param.type : Param → TypeExpr
  | .positional t => t
  | .this t => t
  | .new t => t

/-- What the parts of a phrase that was read from a text are like. -/
def Phrase.Readable : Phrase → Prop
  | .union t | .modified t | .arrayed t | .primary t => t.Everywhere TypeExpr.Readable
  | .alternatives es => ∀ e ∈ es, e.Everywhere TypeExpr.Readable
  | .args base t => (∃ path, base = .name path) → base.Everywhere TypeExpr.Readable → t.Everywhere TypeExpr.Readable
  | .argList es => es ≠ [] ∧ ∀ e ∈ es, e.Everywhere TypeExpr.Readable
  | .returns t => ∀ s ∈ t, s.Everywhere TypeExpr.Readable
  | .param x => x.type.Everywhere TypeExpr.Readable
  | .params xs => ∀ x ∈ xs, x.type.Everywhere TypeExpr.Readable
  | .field f => (record [f]).Everywhere TypeExpr.Readable
  | .fields fs => (record fs).Everywhere TypeExpr.Readable

variable {ts rest : List Token}

/-- A phrase that may be empty starts with no number. -/
theorem Derives.numberAhead_eq_false {ph : Phrase} (d : Derives ts ph rest) (h : numberAhead rest = false) :
    match ph with
    | .alternatives _ | .args .. | .returns _ => numberAhead ts = false
    | _ => True := by
  cases d <;> first | exact h | trivial

theorem everywhere_ofAlternatives {es : List TypeExpr} (ht : t.Everywhere Readable)
    (hes : ∀ e ∈ es, e.Everywhere Readable) : (ofAlternatives t es).Everywhere Readable := by
  cases es with
  | nil => exact ht
  | cons e es => exact everywhere_union.2 ⟨by simp [Readable], List.forall_mem_cons.2 ⟨ht, hes⟩⟩

theorem readable_arrayOf (ht : t.Everywhere Readable) : (arrayOf t).Everywhere Readable := by
  have hname : (name "Array").Readable :=
    ⟨by decide, by decide, stable_word (by decide)⟩
  exact everywhere_application.2
    ⟨⟨⟨_, rfl⟩, List.cons_ne_nil _ _⟩, everywhere_of_parts rfl hname, List.forall_mem_singleton.2 ht⟩

theorem readable_readArrays (ht : t.Everywhere Readable) : (readArrays t ts).1.Everywhere Readable := by
  fun_induction readArrays t ts with
  | case1 t _ _ rest array tail hle he ih =>
    rw [he] at ih
    exact ih (readable_arrayOf ht)
  | case2 => exact ht

theorem numberAhead_of_readArrays (h : numberAhead (readArrays t ts).2.1 = false) : numberAhead ts = false := by
  unfold readArrays at h
  split at h
  · rfl
  · exact h

theorem readable_modify {optional repeatable : Bool} {nullable : Option Bool} (ht : t.Everywhere Readable) :
    (t.modify optional nullable repeatable).Everywhere Readable := by
  unfold modify
  split
  · next hmarks => exact everywhere_modified.2 ⟨by simpa [Readable, or_assoc] using hmarks, ht⟩
  · exact ht

theorem readable_modifyBy {repeatable : Bool} {nullable : Option Bool} (ht : t.Everywhere Readable) :
    (modifyBy t nullable repeatable ts).1.Everywhere Readable :=
  readable_modify ht

theorem numberAhead_of_readSuffixes {optional : Bool} {nullable : Option Bool}
    (h : numberAhead (readSuffixes t optional nullable ts).2.1 = false) : numberAhead ts = false := by
  unfold readSuffixes at h
  split at h
  · rfl
  · rfl
  · rfl
  · exact h

theorem readable_ofParams {xs : List Param} {result : Option TypeExpr}
    (hxs : ∀ x ∈ xs, x.type.Everywhere Readable) (hr : ∀ t ∈ result, t.Everywhere Readable) :
    (ofParams xs result).Everywhere Readable := by
  refine everywhere_function.2 ⟨trivial, ?_, hr, ?_, ?_⟩
  · intro e he
    obtain ⟨x, hx, hxe⟩ := List.mem_filterMap.1 he
    cases x with
    | positional t =>
      cases hxe
      exact hxs _ hx
    | this t => cases hxe
    | new t => cases hxe
  · intro e he
    obtain ⟨x, hx, hxe⟩ := List.exists_of_findSome?_eq_some he
    cases x with
    | this t =>
      cases hxe
      exact hxs _ (List.mem_reverse.1 hx)
    | positional t => cases hxe
    | new t => cases hxe
  · intro e he
    obtain ⟨x, hx, hxe⟩ := List.exists_of_findSome?_eq_some he
    cases x with
    | new t =>
      cases hxe
      exact hxs _ (List.mem_reverse.1 hx)
    | positional t => cases hxe
    | this t => cases hxe

theorem readable_field {f : TypeField} {key : String} {l : Lexeme} (hf : f.key = key) (hkey : keyText l = some key)
    (hs : l.Stable) (ht : ∀ key t, f = .typed key t → t.Everywhere Readable) : (record [f]).Everywhere Readable := by
  refine everywhere_record.2 ⟨?_, fun key t hm => ht key t (List.mem_singleton.1 hm).symm⟩
  intro g hg
  rw [List.mem_singleton.1 hg, hf]
  exact ⟨l, hkey, hs⟩

theorem readable_fields {f : TypeField} {fs : List TypeField} (hf : (record [f]).Everywhere Readable)
    (hfs : (record fs).Everywhere Readable) : (record (f :: fs)).Everywhere Readable := by
  rw [everywhere_record] at hf hfs ⊢
  refine ⟨List.forall_mem_cons.2 ⟨hf.1 f (List.mem_singleton_self f), hfs.1⟩, fun key t hm => ?_⟩
  rcases List.mem_cons.1 hm with he | hm
  · exact hf.2 key t (he ▸ List.mem_singleton_self f)
  · exact hfs.2 key t hm

/-- **What a legible text states is readable**, as long as no number follows it. -/
theorem Derives.readable {ph : Phrase} (d : Derives ts ph rest) (hl : Legible ts) (h : numberAhead rest = false) :
    ph.Readable := by
  induction d with
  | union d₁ d₂ ih₁ ih₂ =>
    exact everywhere_ofAlternatives (ih₁ hl (d₂.numberAhead_eq_false h)) (ih₂ (hl.of_suffix d₁.suffix) h)
  | alternative d₁ d₂ ih₁ ih₂ =>
    exact List.forall_mem_cons.2 ⟨ih₁ hl.2 (d₂.numberAhead_eq_false h), ih₂ (hl.2.of_suffix d₁.suffix) h⟩
  | noAlternative => exact List.forall_mem_nil _
  | repeatable _ _ ih =>
    exact readable_modifyBy (ih (hl.2.of_suffix suffix_readNullable) (numberAhead_of_readSuffixes h))
  | repeatableAny => exact readable_modifyBy (everywhere_of_parts rfl trivial)
  | single _ _ ih =>
    exact readable_modifyBy (ih (hl.of_suffix suffix_readNullable) (numberAhead_of_readSuffixes h))
  | arrayed _ ih => exact readable_readArrays (ih hl (numberAhead_of_readArrays h))
  | all | unknown | null | undefined => exact everywhere_of_parts rfl trivial
  | emptyRecord => exact everywhere_of_parts rfl (List.forall_mem_nil _)
  | group _ ih => exact ih hl.2 rfl
  | record _ _ ih => exact ih hl.2 rfl
  | quoted => exact everywhere_of_parts rfl (.inl (hl.1 h))
  | number => exact everywhere_of_parts rfl (.inr (hl.1 h))
  | emptyFunction _ ih => exact readable_ofParams (List.forall_mem_nil _) (ih hl.2.2.2 h)
  | function _ d₁ _ ih₁ ih₂ =>
    exact readable_ofParams (ih₁ hl.2.2 rfl) (ih₂ (hl.2.2.of_suffix d₁.suffix).2 h)
  | name hnull hun _ d ih =>
    have hs := hl.1 (d.numberAhead_eq_false h)
    exact ih hl.2 h ⟨_, rfl⟩ (everywhere_of_parts rfl ⟨hnull, hun, hs⟩)
  | dotArgs _ ih | lessArgs _ ih =>
    intro hname hbase
    obtain ⟨hne, hargs⟩ := ih hl.2 rfl
    exact everywhere_application.2 ⟨⟨hname, hne⟩, hbase, hargs⟩
  | noArgs => exact fun _ hbase => hbase
  | lastArg _ _ ih => exact ⟨List.cons_ne_nil _ _, List.forall_mem_singleton.2 (ih hl h)⟩
  | moreArgs d _ ih₁ ih₂ =>
    have ⟨_, hothers⟩ := ih₂ (hl.of_suffix d.suffix).2 h
    exact ⟨List.cons_ne_nil _ _, List.forall_mem_cons.2 ⟨ih₁ hl rfl, hothers⟩⟩
  | returns _ ih =>
    rintro _ ⟨⟩
    exact ih hl.2 h
  | noReturns => exact fun _ h => nomatch h
  | this _ ih => exact ih hl.2.2 h
  | new _ ih => exact ih hl.2.2 h
  | positional _ _ ih => exact ih hl h
  | lastParam _ _ ih => exact List.forall_mem_singleton.2 (ih hl h)
  | moreParams d _ ih₁ ih₂ => exact List.forall_mem_cons.2 ⟨ih₁ hl rfl, ih₂ (hl.of_suffix d.suffix).2 h⟩
  | typedField hkey _ ih => exact readable_field rfl hkey (hl.1 rfl) (by rintro _ _ ⟨⟩; exact ih hl.2.2 h)
  | bareField hkey _ => exact readable_field rfl hkey (hl.1 h) (by rintro _ _ ⟨⟩)
  | lastField _ _ ih => exact ih hl h
  | moreFields d _ ih₁ ih₂ => exact readable_fields (ih₁ hl rfl) (ih₂ (hl.of_suffix d.suffix).2 h)

end SymbolDocs.TypeExpr
