import SymbolDocs.Grammar.Dictionary

/-!
# Finding definitions

A dictionary finds a definition by its name, unless a later definition has the same title up to the case of the first
letter. In the grammar "jsdoc" no two titles are alike in this sense, so its dictionary finds each of its definitions
(`Grammar.lookup_jsdoc`).

Definitions whose titles are all new go to the ends of the two tables of a dictionary (`Dictionary.defineAll_of_nodup`).
So the tables of the grammar "jsdoc" list its tags as they are written (`Grammar.jsdoc_dictionary_eq`), and looking up
titles in them takes no further look at the way in which they were filled.
-/

namespace SymbolDocs

namespace Dictionary

variable {R : Type} {dict : Dictionary R} {d : Definition R} {ds : List (Definition R)} {k : String}

theorem lookup_put {α : Type} (k k' : String) (v : α) (entries : List (String × α)) :
    (put k v entries).lookup k' = if k' = k then some v else entries.lookup k' := by
  induction entries with
  | nil => by_cases hk : k' = k <;> simp [put, List.lookup_cons, hk, beq_false_of_ne]
  | cons entry rest ih =>
    obtain ⟨l, w⟩ := entry
    unfold put
    by_cases hl : l = k
    · subst hl
      by_cases hk : k' = l <;> simp [List.lookup_cons, hk, beq_false_of_ne]
    · by_cases hk : k' = l
      · subst hk
        simp [hl]
      · simp [List.lookup_cons, hl, beq_false_of_ne hk, ih]

theorem lookup_define (dict : Dictionary R) (d : Definition R) (k : String) :
    (dict.define d).definitions.lookup k = if k = key d.name then some d else dict.definitions.lookup k :=
  lookup_put _ _ _ _

/-- Definitions with other keys do not matter for a key. -/
theorem lookup_defineAll_of_not_mem (h : k ∉ ds.map (key ·.name)) :
    (dict.defineAll ds).definitions.lookup k = dict.definitions.lookup k := by
  induction ds generalizing dict with
  | nil => rfl
  | cons d ds ih =>
    rw [List.map_cons, List.mem_cons, not_or] at h
    rw [defineAll, List.foldl_cons, ← defineAll, ih h.2, lookup_define, if_neg h.1]

/-- Definitions whose keys are distinct are all found. -/
theorem lookup_defineAll_of_mem (hk : (ds.map (key ·.name)).Nodup) (hd : d ∈ ds) :
    (dict.defineAll ds).lookup d.name = some d := by
  have hfound : (dict.defineAll ds).definitions.lookup (key d.name) = some d := by
    induction ds generalizing dict with
    | nil => cases hd
    | cons first ds ih =>
      rw [List.map_cons, List.nodup_cons] at hk
      rw [defineAll, List.foldl_cons, ← defineAll]
      rcases List.mem_cons.1 hd with rfl | hd
      · rw [lookup_defineAll_of_not_mem hk.1, lookup_define, if_pos rfl]
      · exact ih hk.2 hd
  rw [lookup, hfound]

/-! ## Filling the tables -/

/-- A new key goes to the end. -/
theorem put_of_not_mem {α : Type} {entries : List (String × α)} (h : k ∉ entries.map Prod.fst) (v : α) :
    put k v entries = entries ++ [(k, v)] := by
  induction entries with
  | nil => rfl
  | cons first rest ih =>
    rw [List.map_cons, List.mem_cons, not_or] at h
    rw [put, if_neg fun he => h.1 he.symm, ih h.2]
    rfl

theorem foldl_put_of_nodup {α : Type} {keys : List String} {entries : List (String × α)}
    (h : (entries.map Prod.fst ++ keys).Nodup) (v : α) :
    keys.foldl (fun table k => put k v table) entries = entries ++ keys.map (·, v) := by
  induction keys generalizing entries with
  | nil => rw [List.map_nil, List.append_nil, List.foldl_nil]
  | cons k keys ih =>
    have hk : k ∉ entries.map Prod.fst := fun hm => (List.nodup_append.1 h).2.2 k hm k List.mem_cons_self rfl
    have hkeys : ((entries ++ [(k, v)]).map Prod.fst ++ keys).Nodup := by simpa using h
    rw [List.foldl_cons, put_of_not_mem hk, ih hkeys, List.append_assoc]
    rfl

theorem define_of_not_mem (hn : key d.name ∉ dict.definitions.map Prod.fst)
    (hs : (dict.synonyms.map Prod.fst ++ d.synonyms.map key).Nodup) :
    dict.define d = { dict with
      definitions := dict.definitions ++ [(key d.name, d)]
      synonyms := dict.synonyms ++ (d.synonyms.map key).map (·, key d.name) } := by
  have hlookup : dict.definitions.lookup (key d.name) = none := by
    refine List.lookup_eq_none_iff.2 fun entry he => bne_iff_ne.2 fun heq => hn ?_
    rw [heq]
    exact List.mem_map_of_mem he
  rw [define]
  dsimp only
  rw [hlookup, put_of_not_mem hn]
  dsimp only
  rw [List.filter_eq_self.2, foldl_put_of_nodup hs]
  -- No definition is replaced, so no synonym goes.
  exact fun _ _ => rfl

/-- **Definitions whose titles are new and distinct go to the ends of the tables.** -/
theorem defineAll_of_nodup (hn : (dict.definitions.map Prod.fst ++ ds.map (key ·.name)).Nodup)
    (hs : (dict.synonyms.map Prod.fst ++ ds.flatMap (·.synonyms.map key)).Nodup) :
    dict.defineAll ds = { dict with
      definitions := dict.definitions ++ ds.map fun d => (key d.name, d)
      synonyms := dict.synonyms ++ ds.flatMap fun d => (d.synonyms.map key).map (·, key d.name) } := by
  induction ds generalizing dict with
  | nil => simp [defineAll]
  | cons d ds ih =>
    rw [List.map_cons] at hn
    rw [List.flatMap_cons, ← List.append_assoc] at hs
    have hnew : key d.name ∉ dict.definitions.map Prod.fst := fun hm =>
      (List.nodup_append.1 hn).2.2 _ hm _ List.mem_cons_self rfl
    have hfirst := define_of_not_mem hnew (List.nodup_append.1 hs).1
    rw [defineAll, List.foldl_cons, ← defineAll, hfirst, ih]
    · simp
    · simpa using hn
    · simpa [Function.comp_def] using hs

/-- The tables of a dictionary that is filled from the start list the definitions in order. -/
theorem defineAll_empty (name : String) (allowUnknown : AllowUnknown) (hn : (ds.map (key ·.name)).Nodup)
    (hs : (ds.flatMap (·.synonyms.map key)).Nodup) :
    ({ name, allowUnknown } : Dictionary R).defineAll ds = {
      name, allowUnknown
      definitions := ds.map fun d => (key d.name, d)
      synonyms := ds.flatMap fun d => (d.synonyms.map key).map (·, key d.name) } :=
  defineAll_of_nodup hn hs

end Dictionary

namespace Grammar

/-- The titles of the grammar "jsdoc" are distinct. -/
theorem jsdoc_keys_nodup : ((sharedTags ++ jsdocTags).map (Dictionary.key ·.name)).Nodup := by decide +kernel

/-- **The dictionary of the grammar "jsdoc" finds each of its definitions.** -/
theorem lookup_jsdoc {d : Definition} (hd : d ∈ sharedTags ++ jsdocTags) (allowUnknown : AllowUnknown) :
    (Grammar.jsdoc.dictionary allowUnknown).lookup d.name = some d :=
  Dictionary.lookup_defineAll_of_mem jsdoc_keys_nodup hd

/-- The tags of the grammar "jsdoc" in two tables, as they are written. -/
def jsdocTables (allowUnknown : AllowUnknown) : Dictionary where
  name := "jsdoc"
  allowUnknown := allowUnknown
  definitions := (sharedTags ++ jsdocTags).map fun d => (d.name, d)
  synonyms := (sharedTags ++ jsdocTags).flatMap fun d => d.synonyms.map (·, d.name)

/-- The titles of the grammar "jsdoc" are written with small first letters, and no two of its synonyms are the same. -/
theorem jsdoc_titles : (∀ d ∈ sharedTags ++ jsdocTags, Dictionary.key d.name = d.name ∧
      d.synonyms.map Dictionary.key = d.synonyms) ∧
    ((sharedTags ++ jsdocTags).flatMap (·.synonyms.map Dictionary.key)).Nodup := by
  decide +kernel

/-- **The dictionary of the grammar "jsdoc" lists its tags as they are written.** -/
theorem jsdoc_dictionary_eq (allowUnknown : AllowUnknown) :
    Grammar.jsdoc.dictionary allowUnknown = jsdocTables allowUnknown := by
  obtain ⟨hkeys, hsynonyms⟩ := jsdoc_titles
  have hdefinitions : ((sharedTags ++ jsdocTags).map fun d => (Dictionary.key d.name, d)) =
      (sharedTags ++ jsdocTags).map fun d => (d.name, d) :=
    List.map_congr_left fun d hd => by rw [(hkeys d hd).1]
  have htable : ((sharedTags ++ jsdocTags).map fun d =>
        (d.synonyms.map Dictionary.key).map (·, Dictionary.key d.name)) =
      (sharedTags ++ jsdocTags).map fun d => d.synonyms.map (·, d.name) :=
    List.map_congr_left fun d hd => by rw [(hkeys d hd).1, (hkeys d hd).2]
  have hfilled : Grammar.jsdoc.dictionary allowUnknown = {
      name := "jsdoc", allowUnknown
      definitions := (sharedTags ++ jsdocTags).map fun d => (Dictionary.key d.name, d)
      synonyms := (sharedTags ++ jsdocTags).flatMap fun d =>
        (d.synonyms.map Dictionary.key).map (·, Dictionary.key d.name) } :=
    Dictionary.defineAll_empty "jsdoc" allowUnknown jsdoc_keys_nodup hsynonyms
  rw [hfilled, jsdocTables, hdefinitions, List.flatMap_def, htable, List.flatMap_def]

end Grammar
end SymbolDocs
