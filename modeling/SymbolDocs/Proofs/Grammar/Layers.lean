import Mathlib.Data.List.Induction
import SymbolDocs.Proofs.Grammar.Queries

/-!
# Layers of dictionaries

A dictionary is layered over another one by defining its definitions again, one after the other. Then its names win over
the names below, but its synonyms need not win: a name below comes first, and a definition that follows in the replay
may take the synonym over or withdraw it (`Definition.Disturbs`). `lookup_merge_iff` says when a title finds in the two
layers what it finds in the upper one.
-/

namespace SymbolDocs

/-- Defining `e` over the dictionary takes the synonym over, or withdraws it with the definition that `e` replaces. -/
def Definition.Disturbs {R : Type} (e : Definition R) (dict : Dictionary R) (title : String) : Prop :=
  e.HasSynonym title ∨
    ∃ previous, dict.definitions.lookup (Dictionary.key e.name) = some previous ∧ previous.HasSynonym title

namespace Dictionary

variable {R : Type} {a b dict : Dictionary R} {as bs ds : List (Definition R)} {d e : Definition R} {title k : String}

/-! ## Keys of definitions -/

theorem Keyed.nodup_keys (h : dict.Keyed) : (dict.toList.map (key ·.name)).Nodup := by
  have hkeys : dict.toList.map (key ·.name) = dict.definitions.map Prod.fst := by
    rw [toList, List.map_map]
    exact List.map_congr_left fun entry he => (h.own entry he).symm
  rw [hkeys]
  exact h.distinct

theorem Keyed.eq_key_of_lookup (h : dict.Keyed) (hk : dict.definitions.lookup k = some d) : k = key d.name := by
  obtain ⟨before, after, heq, -⟩ := List.lookup_eq_some_iff.1 hk
  exact h.own (k, d) (by rw [heq]; simp)

/-- A key without definition is the key of no name. -/
theorem Keyed.lookup_eq_none_iff (h : dict.Keyed) :
    dict.definitions.lookup (key title) = none ↔ ∀ e ∈ dict.toList, ¬ Alike e.name title := by
  constructor
  · intro hnone e he halike
    have hfound := h.lookup_key he
    rw [key_eq_key_iff.2 halike, hnone] at hfound
    cases hfound
  · intro hall
    cases hfound : dict.definitions.lookup (key title) with
    | none => rfl
    | some e =>
      have hlookup : dict.lookup title = some e := by rw [lookup, hfound]
      exact absurd (key_eq_key_iff.1 (h.eq_key_of_lookup hfound).symm) (hall e (mem_toList_of_lookup hlookup))

/-- What a title finds depends on its key alone. -/
theorem lookup_congr {t u : String} (h : key t = key u) (dict : Dictionary R) : dict.lookup t = dict.lookup u := by
  rw [lookup, h, ← lookup]

/-! ## Replayed synonyms -/

/-- A definition that does not disturb a synonym leaves it as it is. -/
theorem lookup_synonyms_of_not_disturbs (h : ¬ e.Disturbs dict title) :
    (dict.define e).synonyms.lookup (key title) = dict.synonyms.lookup (key title) := by
  have hothers (previous : Definition R) (hp : dict.definitions.lookup (key e.name) = some previous) :
      ¬ previous.HasSynonym title := fun hhas => h (.inr ⟨previous, hp, hhas⟩)
  exact lookup_synonyms_of_others (fun hhas => h (.inl hhas)) hothers

/-- A definition that disturbs a synonym makes it stand for itself or for nothing. -/
theorem lookup_synonyms_of_disturbs (h : e.Disturbs dict title) (hk : k ≠ key e.name) :
    (dict.define e).synonyms.lookup (key title) ≠ some k := by
  intro hs
  by_cases he : e.HasSynonym title
  · rw [lookup_synonyms_of_hasSynonym dict he] at hs
    exact hk (Option.some.inj hs).symm
  · obtain ⟨previous, hp, hhas⟩ := h.resolve_left he
    rw [lookup_synonyms_of_replaced he hp hhas] at hs
    cases hs

/-- A definition disturbs what it would disturb without earlier definitions, if those have other keys. -/
theorem disturbs_defineAll_iff (dict : Dictionary R) (title : String) (he : key e.name ∉ ds.map (key ·.name)) :
    e.Disturbs (dict.defineAll ds) title ↔ e.Disturbs dict title := by
  rw [Definition.Disturbs, Definition.Disturbs, lookup_defineAll_of_not_mem he]

theorem defineAll_concat (dict : Dictionary R) (ds : List (Definition R)) (e : Definition R) :
    dict.defineAll (ds ++ [e]) = (dict.defineAll ds).define e := by simp [defineAll]

/-- A synonym still stands for its definition after a replay just if none of the definitions behind disturbs it. -/
theorem lookup_synonyms_defineAll_iff {before after : List (Definition R)}
    (hkeys : ((before ++ d :: after).map (key ·.name)).Nodup) (hd : d.HasSynonym title) :
    (dict.defineAll (before ++ d :: after)).synonyms.lookup (key title) = some (key d.name) ↔
      ∀ e ∈ after, ¬ e.Disturbs dict title := by
  induction after using List.reverseRecOn with
  | nil =>
    rw [defineAll_concat, lookup_synonyms_of_hasSynonym _ hd]
    exact iff_of_true rfl (List.forall_mem_nil _)
  | append_singleton after e ih =>
    rw [← List.cons_append, ← List.append_assoc] at hkeys ⊢
    rw [List.map_append, List.nodup_append] at hkeys
    obtain ⟨hbefore, -, hdistinct⟩ := hkeys
    have hnew (l : String) (hl : l ∈ (before ++ d :: after).map (key ·.name)) : l ≠ key e.name :=
      hdistinct l hl _ (by simp)
    have hsame := disturbs_defineAll_iff dict title fun hm => hnew _ hm rfl
    rw [defineAll_concat, List.forall_mem_append, List.forall_mem_singleton, ← ih hbefore, ← hsame]
    by_cases he : e.Disturbs (dict.defineAll (before ++ d :: after)) title
    · have hmoved := lookup_synonyms_of_disturbs he (hnew (key d.name) (List.mem_map_of_mem (by simp)))
      exact iff_of_false hmoved fun h => h.2 he
    · rw [lookup_synonyms_of_not_disturbs he]
      exact (and_iff_left he).symm

/-! ## Layers -/

/-- What a title finds by name in the upper layer it finds in both. -/
theorem Keyed.lookup_defineAll_of_alike (hb : b.Keyed) (hd : d ∈ b.toList) (h : Alike d.name title) :
    (a.defineAll b.toList).lookup title = some d := by
  rw [← lookup_congr (key_eq_key_iff.2 h)]
  exact lookup_defineAll_of_mem hb.nodup_keys hd

/-- What a title finds by synonym in the upper layer, it finds in both just if no name is below and the synonym still
stands for it. -/
theorem Keyed.lookup_defineAll_of_not_alike (ha : a.Keyed) (hb : b.Keyed) (hd : d ∈ b.toList)
    (hnames : ∀ e ∈ b.toList, ¬ Alike e.name title) :
    (a.defineAll b.toList).lookup title = some d ↔
      (∀ e ∈ a.toList, ¬ Alike e.name title) ∧
        (a.defineAll b.toList).synonyms.lookup (key title) = some (key d.name) := by
  have hboth := ha.defineAll b.toList
  have hupper : key title ∉ b.toList.map (key ·.name) := by
    intro hm
    obtain ⟨e, he, hk⟩ := List.mem_map.1 hm
    exact hnames e he (key_eq_key_iff.1 hk)
  have hbelow : (a.defineAll b.toList).definitions.lookup (key title) = a.definitions.lookup (key title) :=
    lookup_defineAll_of_not_mem hupper
  have hfound : (a.defineAll b.toList).definitions.lookup (key d.name) = some d :=
    hboth.lookup_key (mem_toList_of_lookup (lookup_defineAll_of_mem hb.nodup_keys hd))
  rw [← ha.lookup_eq_none_iff, lookup, hbelow]
  cases hname : a.definitions.lookup (key title) with
  | some e =>
    -- The name below finds another definition, since `d` has another name.
    have hne : e ≠ d := by
      rintro rfl
      exact hnames e hd (key_eq_key_iff.1 (ha.eq_key_of_lookup hname).symm)
    simp [hne]
  | none =>
    rw [eq_self_iff_true, true_and]
    constructor
    · intro h
      obtain ⟨k, hk, hkd⟩ := Option.bind_eq_some_iff.1 h
      rw [hk, hboth.eq_key_of_lookup hkd]
    · intro h
      rw [h]
      exact hfound

/-- What a title finds otherwise than by name declares it as a synonym, and no name is like it. -/
theorem Made.synonym_of_lookup (h : Made ds dict) (hd : dict.lookup title = some d) (hname : ¬ Alike d.name title) :
    d.HasSynonym title ∧ ∀ e ∈ dict.toList, ¬ Alike e.name title := by
  rw [← h.keyed.lookup_eq_none_iff]
  unfold lookup at hd
  split at hd
  · next hfound =>
    cases hd
    exact absurd (key_eq_key_iff.1 (h.keyed.eq_key_of_lookup hfound).symm) hname
  · next hnone =>
    obtain ⟨k, hk, hkd⟩ := Option.bind_eq_some_iff.1 hd
    obtain ⟨e, he, hhas⟩ := h.follows.declared title k hk
    rw [h.follows.definitions, he] at hkd
    cases hkd
    exact ⟨hhas, hnone⟩

/-- **When the upper layer decides.** Let a title find a definition in a dictionary that is layered over another one. It
finds the same definition in the two layers if and only if it is the name of the definition, or no definition below has
it for its name and none of the definitions behind disturbs the synonym when they are defined over the lower layer. -/
theorem lookup_merge_iff (ha : Made as a) (hb : Made bs b) (hd : b.lookup title = some d) :
    (a.merge [b]).lookup title = some d ↔
      Alike d.name title ∨
        (∀ e ∈ a.toList, ¬ Alike e.name title) ∧
          ∃ before after, b.toList = before ++ d :: after ∧ ∀ e ∈ after, ¬ e.Disturbs a title := by
  obtain ⟨name, hmerge⟩ : ∃ name, a.merge [b] = (a.rename name).defineAll b.toList := ⟨_, rfl⟩
  have hmem := mem_toList_of_lookup hd
  rw [hmerge]
  by_cases hname : Alike d.name title
  · exact iff_of_true (hb.keyed.lookup_defineAll_of_alike hmem hname) (.inl hname)
  · obtain ⟨hhas, hnames⟩ := hb.synonym_of_lookup hd hname
    have hsynonym {before after : List (Definition R)} (hlist : b.toList = before ++ d :: after) :
        ((a.rename name).defineAll b.toList).synonyms.lookup (key title) = some (key d.name) ↔
          ∀ e ∈ after, ¬ e.Disturbs a title := by
      have hkeys := hb.keyed.nodup_keys
      rw [hlist] at hkeys ⊢
      exact lookup_synonyms_defineAll_iff hkeys hhas
    rw [(ha.keyed.rename name).lookup_defineAll_of_not_alike hb.keyed hmem hnames, or_iff_right hname]
    refine and_congr_right fun _ => ⟨fun h => ?_, ?_⟩
    · obtain ⟨before, after, hlist⟩ := List.append_of_mem hmem
      exact ⟨before, after, hlist, (hsynonym hlist).1 h⟩
    · rintro ⟨before, after, hlist, h⟩
      exact (hsynonym hlist).2 h

/-- A dictionary in which the synonym is declared last. -/
def lastYields : Dictionary := (({} : Dictionary).define plainReturns).define yields

/-- The upper layer withdraws the synonym of the lower one before it declares its own. -/
theorem lookup_merge_yields :
    Made [returns] (({} : Dictionary).define returns) ∧ Made [plainReturns, yields] lastYields ∧
      lastYields.lookup "gives" = some yields ∧
      ((({} : Dictionary).define returns).merge [lastYields]).lookup "gives" = some yields := by
  have hlower : Made [returns] (({} : Dictionary).define returns) := (Made.empty _ _).define _
  have hupper : Made [plainReturns, yields] lastYields := ((Made.empty _ _).define _).define _
  have hfound : lastYields.lookup "gives" = some yields := rfl
  have hnames : ∀ e ∈ (({} : Dictionary).define returns).toList, ¬ Alike e.name "gives" := by decide +kernel
  refine ⟨hlower, hupper, hfound, (lookup_merge_iff hlower hupper hfound).2 (.inr ⟨hnames, ?_⟩)⟩
  exact ⟨[plainReturns], [], rfl, List.forall_mem_nil _⟩

/-- If it withdraws it afterwards, the title finds nothing. -/
example :
    ((({} : Dictionary).define returns).merge [(({} : Dictionary).define yields).define plainReturns]).lookup "gives" =
      none := rfl

/-- **A later dictionary does not decide about all its titles.** The grammar "jsdoc" has the overview of a file as a
synonym, and the grammar "closure" as a name. -/
theorem lookup_merge_fileoverview :
    Made (Grammar.sharedTags ++ Grammar.closure.definitions) (Grammar.closure.dictionary (.all false)) ∧
      Made (Grammar.sharedTags ++ Grammar.jsdoc.definitions) (Grammar.jsdoc.dictionary (.all false)) ∧
      ∃ d, (Grammar.jsdoc.dictionary (.all false)).lookup "fileoverview" = some d ∧
        ((Grammar.closure.dictionary (.all false)).merge [Grammar.jsdoc.dictionary (.all false)]).lookup
          "fileoverview" ≠ some d := by
  have habove : ((Grammar.jsdoc.dictionary (.all false)).lookup "fileoverview").map (·.name) = some "file" := by
    rw [Grammar.jsdoc_dictionary_eq]
    decide +kernel
  have hboth : (((Grammar.closure.dictionary (.all false)).merge [Grammar.jsdoc.dictionary (.all false)]).lookup
      "fileoverview").map (·.name) = some "fileoverview" := by
    rw [Grammar.jsdoc_dictionary_eq]
    decide +kernel
  refine ⟨Grammar.made_dictionary .closure _, Grammar.made_dictionary .jsdoc _, ?_⟩
  obtain ⟨d, hd, hname⟩ := Option.map_eq_some_iff.1 habove
  refine ⟨d, hd, ?_⟩
  intro heq
  rw [heq, Option.map_some, hname] at hboth
  exact absurd hboth (by decide)

end Dictionary
end SymbolDocs
