import SymbolDocs.Proofs.Grammar.Assembly
import SymbolDocs.Proofs.Grammar.Synonyms

/-!
# The questions to a dictionary

A dictionary answers from two tables, and its questions read them in different ways. In a dictionary that was made by
defining, copying and merging, each definition stands under the key of its own name (`Dictionary.Keyed`), and each
synonym stands for a definition that declares it (`Dictionary.Follows`). So the answers agree (`queries_agree`): what a
title finds has this title, every title has a name, and a kind is among the listed ones just if its definition says so.
-/

namespace SymbolDocs

open SymbolDocs.Text

namespace Dictionary

variable {R : Type} {dict : Dictionary R} {ds : List (Definition R)} {d : Definition R} {title kind : String}

/-! ## Titles -/

/-- Two titles that are the same up to the case of their first letters. -/
inductive Alike : String → String → Prop
  | same (title : String) : Alike title title
  | cased {t u : String} {c c' : Char} {cs cs' : List Char} (ht : t.toList = c :: cs) (hu : u.toList = c' :: cs')
      (h : lowerChar c ++ cs = lowerChar c' ++ cs') : Alike t u

theorem lowerChar_ne_nil (c : Char) : lowerChar c ≠ [] := by
  unfold lowerChar
  split
  · exact List.cons_ne_nil _ _
  · split <;> exact List.cons_ne_nil _ _

/-- A capital sigma on its own is no final one. -/
theorem toList_lower_singleton (c : Char) : (lower (String.singleton c)).toList = lowerChar c := by
  by_cases hc : c = 'Σ'
  · subst hc
    decide +kernel
  · simp [lower, lowerFrom, hc]

theorem toList_key {c : Char} {cs : List Char} (h : title.toList = c :: cs) :
    (key title).toList = lowerChar c ++ cs := by
  simp [key, h, toList_lower_singleton]

theorem key_empty : key "" = "" := rfl

/-- Titles have one key just if they are alike. -/
theorem key_eq_key_iff {t u : String} : key t = key u ↔ Alike t u := by
  constructor
  · intro h
    have hlist := congrArg String.toList h
    cases ht : t.toList with
    | nil =>
      obtain rfl := String.toList_eq_nil_iff.1 ht
      cases hu : u.toList with
      | nil =>
        obtain rfl := String.toList_eq_nil_iff.1 hu
        exact .same ""
      | cons c' cs' =>
        rw [key_empty, toList_key hu] at hlist
        exact absurd (List.append_eq_nil_iff.1 hlist.symm).1 (lowerChar_ne_nil c')
    | cons c cs =>
      rw [toList_key ht] at hlist
      cases hu : u.toList with
      | nil =>
        obtain rfl := String.toList_eq_nil_iff.1 hu
        rw [key_empty] at hlist
        exact absurd (List.append_eq_nil_iff.1 hlist).1 (lowerChar_ne_nil c)
      | cons c' cs' =>
        rw [toList_key hu] at hlist
        exact .cased ht hu hlist
  · intro h
    cases h with
    | same => rfl
    | cased ht hu h => exact String.toList_injective (by rw [toList_key ht, toList_key hu, h])

instance (t u : String) : Decidable (Alike t u) := decidable_of_iff _ key_eq_key_iff

/-! ## Keys -/

section Put

variable {α : Type} {entries : List (String × α)}

theorem map_fst_put (k : String) (v : α) (entries : List (String × α)) :
    (put k v entries).map Prod.fst =
      if k ∈ entries.map Prod.fst then entries.map Prod.fst else entries.map Prod.fst ++ [k] := by
  induction entries with
  | nil => simp [put]
  | cons entry rest ih =>
    obtain ⟨l, w⟩ := entry
    by_cases hl : l = k
    · simp [put, hl]
    · have hk : k ≠ l := Ne.symm hl
      by_cases hm : k ∈ rest.map Prod.fst
      · simp only [put, if_neg hl, List.map_cons, ih, if_pos hm, if_pos (List.mem_cons_of_mem l hm)]
      · have hnot : k ∉ l :: rest.map Prod.fst := by simp [hk, hm]
        simp only [put, if_neg hl, List.map_cons, ih, if_neg hm, if_neg hnot, List.cons_append]

/-- A put value leaves distinct keys distinct. -/
theorem nodup_put (h : (entries.map Prod.fst).Nodup) (k : String) (v : α) :
    ((put k v entries).map Prod.fst).Nodup := by
  rw [map_fst_put]
  split
  · exact h
  · next hk =>
    rw [List.nodup_append]
    refine ⟨h, by simp, fun l hl k' hk' heq => hk ?_⟩
    rwa [← List.mem_singleton.1 hk', ← heq]

/-- With distinct keys every entry is found. -/
theorem lookup_of_mem_of_nodup {k : String} {v : α} (h : (entries.map Prod.fst).Nodup) (hm : (k, v) ∈ entries) :
    entries.lookup k = some v := by
  obtain ⟨before, after, rfl⟩ := List.append_of_mem hm
  rw [List.map_append, List.map_cons, List.nodup_append] at h
  obtain ⟨-, -, hdistinct⟩ := h
  refine List.lookup_eq_some_iff.2 ⟨before, after, rfl, fun entry he => ?_⟩
  have hne : k ≠ entry.1 := Ne.symm (hdistinct _ (List.mem_map_of_mem he) _ List.mem_cons_self)
  simpa using hne

end Put

/-- Each definition stands under the key of its name, and no key stands for two of them. -/
structure Keyed (dict : Dictionary R) : Prop where
  own : ∀ entry ∈ dict.definitions, entry.1 = key entry.2.name
  distinct : (dict.definitions.map Prod.fst).Nodup

theorem keyed_empty (name : String) (allowUnknown : AllowUnknown) : Keyed ({ name, allowUnknown } : Dictionary R) :=
  ⟨by simp, List.nodup_nil⟩

theorem Keyed.define (h : dict.Keyed) (d : Definition R) : (dict.define d).Keyed where
  own entry he := by
    rcases mem_of_mem_put he with rfl | he
    · rfl
    · exact h.own entry he
  distinct := nodup_put h.distinct _ _

theorem Keyed.defineAll (h : dict.Keyed) (more : List (Definition R)) : (dict.defineAll more).Keyed :=
  List.foldlRecOn more Dictionary.define h fun _ hacc d _ => hacc.define d

theorem Keyed.rename (h : dict.Keyed) (name : Option String) : (dict.rename name).Keyed := ⟨h.own, h.distinct⟩

theorem Keyed.merge (h : dict.Keyed) (others : List (Dictionary R)) : (dict.merge others).Keyed :=
  List.foldlRecOn others _ (h.rename _) fun _ hacc other _ => hacc.defineAll other.toList

/-- Definitions stand under their own keys, however the dictionary was made. -/
theorem Made.keyed (h : Made ds dict) : dict.Keyed := by
  induction h with
  | empty name allowUnknown => exact keyed_empty name allowUnknown
  | define _ d ih => exact ih.define d
  | copy _ name ih => exact ih.rename name
  | merge _ others ih => exact ih.merge others

theorem Made.defineAll (h : Made ds dict) (more : List (Definition R)) : Made (ds ++ more) (dict.defineAll more) := by
  induction more generalizing ds dict with
  | nil => rwa [List.append_nil]
  | cons d more ih =>
    rw [List.append_cons]
    exact ih (h.define d)

/-- Every definition of the dictionary is found under the key of its name. -/
theorem Keyed.lookup_key (h : dict.Keyed) (hd : d ∈ dict.toList) :
    dict.definitions.lookup (key d.name) = some d := by
  obtain ⟨entry, he, rfl⟩ := List.mem_map.1 hd
  rw [← h.own entry he]
  exact lookup_of_mem_of_nodup h.distinct he

/-- Every definition of the dictionary is found by its name. -/
theorem Keyed.lookup_name (h : dict.Keyed) (hd : d ∈ dict.toList) : dict.lookup d.name = some d := by
  rw [lookup, h.lookup_key hd]

theorem mem_toList_of_lookup (h : dict.lookup title = some d) : d ∈ dict.toList := by
  obtain ⟨k, hk⟩ := mem_of_lookup h
  exact List.mem_map.2 ⟨(k, d), hk, rfl⟩

/-! ## Names of titles -/

/-- A title that finds a definition has the name of the definition. -/
theorem canonical_of_lookup (h : dict.lookup title = some d) : dict.canonical title = .ok d.name := by
  unfold lookup at h
  split at h
  · next hd =>
    cases h
    rw [canonical, hd]
  · next hnone =>
    obtain ⟨target, htarget, hd⟩ := Option.bind_eq_some_iff.1 h
    simp only [canonical, hnone, htarget, hd]

/-- A title that finds nothing is in neither table, since no synonym stands for a missing definition. -/
theorem Follows.canonical_of_lookup_eq_none (h : Follows ds dict) (hl : dict.lookup title = none) :
    dict.canonical title = .ok title := by
  unfold lookup at hl
  split at hl
  · cases hl
  · next hnone =>
    cases hs : dict.synonyms.lookup (key title) with
    | none => simp only [canonical, hnone, hs]
    | some target =>
      obtain ⟨d, hd, -⟩ := h.declared title target hs
      rw [hs, Option.bind_some, h.definitions, hd] at hl
      cases hl

theorem normalise_of_canonical {name : String} (h : dict.canonical title = .ok name) : dict.normalise title = name := by
  rw [normalise, h]

/-- Every title has a name. -/
theorem Follows.canonical_eq (h : Follows ds dict) (title : String) :
    dict.canonical title = .ok (((dict.lookup title).map (·.name)).getD title) := by
  cases hl : dict.lookup title with
  | some d => exact canonical_of_lookup hl
  | none => exact h.canonical_of_lookup_eq_none hl

/-! ## Kinds -/

/-- The definition of a kind has a property just if the name of the kind is that of a definition with the property. -/
theorem Made.kindDefinition_iff (h : Made ds dict) (hk : kind ≠ "") (p : Definition R → Bool) :
    ((dict.kindDefinition (some kind)).map p).getD false = true ↔
      dict.normalise kind ∈ sortTexts ((dict.toList.filter p).map (·.name)) := by
  have hdefinition : dict.kindDefinition (some kind) = dict.lookup kind := by simp [kindDefinition, Option.filter, hk]
  have hmem (name : String) : name ∈ sortTexts ((dict.toList.filter p).map (·.name)) ↔
      ∃ d ∈ dict.toList, p d = true ∧ d.name = name := by
    rw [(sortTexts_perm _).mem_iff]
    simp [and_assoc]
  rw [hdefinition, hmem, normalise_of_canonical (h.follows.canonical_eq kind)]
  cases hl : dict.lookup kind with
  | some d =>
    have hd := mem_toList_of_lookup hl
    constructor
    · intro hp
      exact ⟨d, hd, hp, rfl⟩
    · rintro ⟨d', hd', hp, hname⟩
      -- Two definitions with one name stand under one key.
      have heq : d' = d := by
        apply Option.some.inj
        rw [← h.keyed.lookup_key hd', ← h.keyed.lookup_key hd]
        exact congrArg (fun name => dict.definitions.lookup (key name)) hname
      exact heq ▸ hp
  | none =>
    constructor
    · intro hp
      cases hp
    · rintro ⟨d, hd, -, hname⟩
      have hfound : dict.lookup kind = some d := (congrArg dict.lookup hname).symm.trans (h.keyed.lookup_name hd)
      rw [hl] at hfound
      cases hfound

/-- **The answers of a dictionary agree.** In a dictionary made by defining, copying and merging, a title finds only
definitions that have it for a title; its name is that of the definition it finds, or the title itself, and there always
is one; and a kind opens a namespace, or marks longnames, just if its name is in the list of these kinds. -/
theorem queries_agree (h : Made ds dict) (title : String) (hk : kind ≠ "") :
    (∀ d, dict.lookup title = some d → ∃ t ∈ d.titles, Alike t title) ∧
    (dict.canonical title = .ok (dict.normalise title) ∧
      dict.normalise title = ((dict.lookup title).map (·.name)).getD title) ∧
    (dict.opensNamespace (some kind) = true ↔ dict.normalise kind ∈ dict.namespaceKinds) ∧
    (dict.marksLongname (some kind) = true ↔ dict.normalise kind ∈ dict.prefixedKinds) := by
  have hname := h.follows.canonical_eq title
  have hnormalise := normalise_of_canonical hname
  refine ⟨fun d hd => ?_, ⟨?_, hnormalise⟩, ?_, ?_⟩
  · obtain ⟨-, t, ht, hkey⟩ := h.follows.mem_and_titles hd
    exact ⟨t, ht, key_eq_key_iff.1 hkey⟩
  · rw [hname, hnormalise]
  · exact h.kindDefinition_iff hk (·.isNamespace)
  · exact h.kindDefinition_iff hk (·.prefixesLongname)

end Dictionary

namespace Grammar

/-- The tags of a grammar are the history of its dictionary. -/
theorem made_dictionary (g : Grammar) (allowUnknown : AllowUnknown) :
    Dictionary.Made (sharedTags ++ g.definitions) (g.dictionary allowUnknown) :=
  (Dictionary.Made.empty g.name allowUnknown).defineAll _

end Grammar

namespace Dictionary

/-- A constructor opens a namespace, and is listed by the name of the definition that it is a synonym of. -/
theorem queries_agree_constructor :
    Made (Grammar.sharedTags ++ Grammar.jsdoc.definitions) (Grammar.jsdoc.dictionary (.all false)) ∧ "constructor" ≠ "" ∧
      (Grammar.jsdoc.dictionary (.all false)).canonical "Constructor" = .ok "class" ∧
      (Grammar.jsdoc.dictionary (.all false)).normalise "constructor" ∈
        (Grammar.jsdoc.dictionary (.all false)).namespaceKinds := by
  have hmade := Grammar.made_dictionary .jsdoc (.all false)
  have hopens : (Grammar.jsdoc.dictionary (.all false)).opensNamespace (some "constructor") = true := by
    rw [Grammar.jsdoc_dictionary_eq]
    decide +kernel
  have hname : (Grammar.jsdoc.dictionary (.all false)).normalise "Constructor" = "class" := by
    rw [Grammar.jsdoc_dictionary_eq]
    decide +kernel
  obtain ⟨-, ⟨hcanonical, -⟩, hnamespace, -⟩ :=
    queries_agree hmade "Constructor" (show "constructor" ≠ "" by decide)
  exact ⟨hmade, by decide, hname ▸ hcanonical, hnamespace.1 hopens⟩

end Dictionary
end SymbolDocs
