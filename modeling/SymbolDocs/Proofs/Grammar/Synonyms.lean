import SymbolDocs.Proofs.Grammar.Lookup

/-!
# When a synonym is lost

The synonyms of all definitions share one table. A definition that takes the place of an earlier one withdraws the
earlier one's synonyms, also those that another definition has declared since. So a synonym of a definition that is
still in use may find nothing. `lookup_synonym` says of a dictionary with a known history (`Dictionary.Made`) when this
is so, and that a synonym never finds a definition with other titles.
-/

namespace SymbolDocs

/-- Whether a title is a synonym of the definition, up to the case of the first letter. -/
def Definition.HasSynonym {R : Type} (d : Definition R) (title : String) : Prop :=
  ∃ s ∈ d.synonyms, Dictionary.key s = Dictionary.key title

namespace Dictionary

variable {R : Type} {dict : Dictionary R} {ds : List (Definition R)} {d : Definition R} {title : String}

/-! ## Histories -/

/-- The definitions that went into a dictionary, one after the other, if it was made from the empty dictionary by
defining, copying and merging. -/
inductive Made : List (Definition R) → Dictionary R → Prop
  | empty (name : String) (allowUnknown : AllowUnknown) : Made [] { name, allowUnknown }
  | define {ds : List (Definition R)} {dict : Dictionary R} (h : Made ds dict) (d : Definition R) :
      Made (ds ++ [d]) (dict.define d)
  | copy {ds : List (Definition R)} {dict : Dictionary R} (h : Made ds dict) (name : Option String) :
      Made ds (dict.rename name)
  | merge {ds : List (Definition R)} {dict : Dictionary R} (h : Made ds dict) (others : List (Dictionary R)) :
      Made (ds ++ others.flatMap (·.toList)) (dict.merge others)

/-- The last definition of a history with a key. -/
def latest (ds : List (Definition R)) (k : String) : Option (Definition R) := ds.reverse.find? (key ·.name = k)

/-- A definition that has the synonym was replaced by one that has not, and none that came later has it. -/
def Withdrawn (ds : List (Definition R)) (title : String) : Prop :=
  ∃ before d after previous, ds = before ++ d :: after ∧ latest before (key d.name) = some previous ∧
    previous.HasSynonym title ∧ ¬ d.HasSynonym title ∧ ∀ e ∈ after, ¬ e.HasSynonym title

theorem latest_concat (ds : List (Definition R)) (d : Definition R) (k : String) :
    latest (ds ++ [d]) k = if k = key d.name then some d else latest ds k := by
  unfold latest
  rw [List.reverse_append, List.reverse_singleton, List.singleton_append, List.find?_cons]
  by_cases hk : k = key d.name
  · simp [hk]
  · simp [hk, Ne.symm hk]

theorem latest_eq_none {k : String} : latest ds k = none ↔ ∀ d ∈ ds, key d.name ≠ k := by
  simp [latest]

theorem mem_of_latest {k : String} (h : latest ds k = some d) : d ∈ ds ∧ key d.name = k := by
  unfold latest at h
  exact ⟨List.mem_reverse.1 (List.mem_of_find?_eq_some h), by simpa using List.find?_some h⟩

/-- A synonym is withdrawn by the last definition, or it was before and the last definition does not have it. -/
theorem withdrawn_concat : Withdrawn (ds ++ [d]) title ↔
    ¬ d.HasSynonym title ∧
      (Withdrawn ds title ∨ ∃ previous, latest ds (key d.name) = some previous ∧ previous.HasSynonym title) := by
  constructor
  · -- The definition that withdraws the synonym is the last one, or it is in the history before.
    rintro ⟨before, d', after, previous, heq, hprevious, hhas, hnot, hafter⟩
    rcases List.eq_nil_or_concat after with rfl | ⟨after, last, rfl⟩
    · obtain ⟨rfl, hd⟩ := List.append_inj' heq rfl
      obtain rfl := List.singleton_inj.1 hd
      exact ⟨hnot, .inr ⟨previous, hprevious, hhas⟩⟩
    · rw [List.concat_eq_append, ← List.cons_append, ← List.append_assoc] at heq
      obtain ⟨rfl, hd⟩ := List.append_inj' heq rfl
      obtain rfl := List.singleton_inj.1 hd
      rw [List.concat_eq_append, List.forall_mem_append, List.forall_mem_singleton] at hafter
      exact ⟨hafter.2, .inl ⟨before, d', after, previous, rfl, hprevious, hhas, hnot, hafter.1⟩⟩
  · rintro ⟨hnot, ⟨before, d', after, previous, rfl, hprevious, hhas, hnot', hafter⟩ | ⟨previous, hprevious, hhas⟩⟩
    · refine ⟨before, d', after ++ [d], previous, by simp, hprevious, hhas, hnot', ?_⟩
      exact List.forall_mem_append.2 ⟨hafter, List.forall_mem_singleton.2 hnot⟩
    · exact ⟨ds, d, [], previous, rfl, hprevious, hhas, hnot, List.forall_mem_nil _⟩

/-! ## The table of synonyms -/

theorem lookup_foldl_put {α : Type} (keys : List String) (v : α) (table : List (String × α)) (k : String) :
    (keys.foldl (fun table s => put s v table) table).lookup k = if k ∈ keys then some v else table.lookup k := by
  induction keys generalizing table with
  | nil => rfl
  | cons s keys ih =>
    rw [List.foldl_cons, ih, lookup_put]
    by_cases hk : k ∈ keys <;> by_cases hs : k = s <;> simp [hk, hs]

theorem lookup_filter_key {α : Type} (stale : List String) (table : List (String × α)) (k : String) :
    (table.filter fun (s, _) => !stale.contains s).lookup k = if k ∈ stale then none else table.lookup k := by
  induction table with
  | nil => simp
  | cons entry table ih =>
    obtain ⟨s, v⟩ := entry
    by_cases hs : s ∈ stale
    · rw [List.filter_cons_of_neg (by simpa using hs), ih]
      by_cases hk : k ∈ stale
      · rw [if_pos hk, if_pos hk]
      · have hne : (k == s) = false := beq_false_of_ne fun he => hk (he ▸ hs)
        rw [if_neg hk, if_neg hk, List.lookup_cons, hne]
    · rw [List.filter_cons_of_pos (by simpa using hs), List.lookup_cons, List.lookup_cons, ih]
      by_cases hk : k = s
      · subst hk
        simp [hs]
      · rw [beq_false_of_ne hk]

theorem mem_map_key_synonyms : key title ∈ d.synonyms.map key ↔ d.HasSynonym title := List.mem_map

/-- A definition declares its synonyms. -/
theorem lookup_synonyms_of_hasSynonym (dict : Dictionary R) (h : d.HasSynonym title) :
    (dict.define d).synonyms.lookup (key title) = some (key d.name) := by
  unfold define
  dsimp only
  rw [lookup_foldl_put, if_pos (mem_map_key_synonyms.2 h)]

/-- A definition withdraws the synonyms of the definition that it replaces. -/
theorem lookup_synonyms_of_replaced {previous : Definition R} (hd : ¬ d.HasSynonym title)
    (hp : dict.definitions.lookup (key d.name) = some previous) (h : previous.HasSynonym title) :
    (dict.define d).synonyms.lookup (key title) = none := by
  unfold define
  dsimp only
  rw [lookup_foldl_put, if_neg (mt mem_map_key_synonyms.1 hd), lookup_filter_key, hp,
    if_pos (mem_map_key_synonyms.2 h)]

/-- A definition leaves all other synonyms as they are. -/
theorem lookup_synonyms_of_others (hd : ¬ d.HasSynonym title)
    (h : ∀ previous, dict.definitions.lookup (key d.name) = some previous → ¬ previous.HasSynonym title) :
    (dict.define d).synonyms.lookup (key title) = dict.synonyms.lookup (key title) := by
  unfold define
  dsimp only
  rw [lookup_foldl_put, if_neg (mt mem_map_key_synonyms.1 hd), lookup_filter_key, if_neg]
  cases hp : dict.definitions.lookup (key d.name) with
  | none => exact List.not_mem_nil
  | some previous => exact mt mem_map_key_synonyms.1 (h previous hp)

/-! ## Tables and histories -/

/-- What the tables of a dictionary are, given its history. -/
structure Follows (ds : List (Definition R)) (dict : Dictionary R) : Prop where
  definitions : ∀ k, dict.definitions.lookup k = latest ds k
  /-- A synonym is that of a definition in use. -/
  declared : ∀ title k, dict.synonyms.lookup (key title) = some k → ∃ d, latest ds k = some d ∧ d.HasSynonym title
  missing : ∀ title, dict.synonyms.lookup (key title) = none ↔
    (∀ d ∈ ds, ¬ d.HasSynonym title) ∨ Withdrawn ds title

theorem follows_empty (name : String) (allowUnknown : AllowUnknown) :
    Follows [] ({ name, allowUnknown } : Dictionary R) where
  definitions _ := rfl
  declared _ _ h := by cases h
  missing _ := ⟨fun _ => .inl (List.forall_mem_nil _), fun _ => rfl⟩

/-- A definition is added to the history and to the tables alike. -/
theorem Follows.define (h : Follows ds dict) (d : Definition R) : Follows (ds ++ [d]) (dict.define d) where
  definitions k := by rw [lookup_define, latest_concat, h.definitions]
  declared title k hk := by
    by_cases hd : d.HasSynonym title
    · rw [lookup_synonyms_of_hasSynonym dict hd] at hk
      cases hk
      exact ⟨d, by rw [latest_concat, if_pos rfl], hd⟩
    · by_cases hp : ∃ previous, dict.definitions.lookup (key d.name) = some previous ∧ previous.HasSynonym title
      · obtain ⟨previous, hp, hhas⟩ := hp
        rw [lookup_synonyms_of_replaced hd hp hhas] at hk
        cases hk
      · have hothers (previous : Definition R) (he : dict.definitions.lookup (key d.name) = some previous)
            (hhas : previous.HasSynonym title) : False := hp ⟨previous, he, hhas⟩
        rw [lookup_synonyms_of_others hd hothers] at hk
        obtain ⟨d', hd', hhas⟩ := h.declared title k hk
        have hne : k ≠ key d.name := by
          rintro rfl
          exact hothers d' ((h.definitions _).trans hd') hhas
        exact ⟨d', by rw [latest_concat, if_neg hne, hd'], hhas⟩
  missing title := by
    rw [List.forall_mem_append, List.forall_mem_singleton, withdrawn_concat]
    by_cases hd : d.HasSynonym title
    · simp [lookup_synonyms_of_hasSynonym dict hd, hd]
    · by_cases hp : ∃ previous, latest ds (key d.name) = some previous ∧ previous.HasSynonym title
      · obtain ⟨previous, hp', hhas⟩ := hp
        rw [lookup_synonyms_of_replaced hd ((h.definitions _).trans hp') hhas]
        exact iff_of_true rfl (.inr ⟨hd, .inr ⟨previous, hp', hhas⟩⟩)
      · have hothers (previous : Definition R) (he : dict.definitions.lookup (key d.name) = some previous)
            (hhas : previous.HasSynonym title) : False := hp ⟨previous, (h.definitions _).symm.trans he, hhas⟩
        rw [lookup_synonyms_of_others hd hothers, h.missing]
        simp [hd, hp]

theorem Follows.defineAll (h : Follows ds dict) (more : List (Definition R)) :
    Follows (ds ++ more) (dict.defineAll more) := by
  induction more generalizing ds dict with
  | nil => rwa [List.append_nil]
  | cons d more ih =>
    rw [List.append_cons]
    exact ih (h.define d)

theorem Follows.rename (h : Follows ds dict) (name : Option String) : Follows ds (dict.rename name) :=
  ⟨h.definitions, h.declared, h.missing⟩

theorem Follows.merge (h : Follows ds dict) (others : List (Dictionary R)) :
    Follows (ds ++ others.flatMap (·.toList)) (dict.merge others) := by
  have hall (acc : Dictionary R) (ds : List (Definition R)) (h : Follows ds acc) :
      Follows (ds ++ others.flatMap (·.toList)) (others.foldl (fun acc other => acc.defineAll other.toList) acc) := by
    induction others generalizing acc ds with
    | nil => rwa [List.flatMap_nil, List.append_nil]
    | cons other others ih =>
      rw [List.flatMap_cons, ← List.append_assoc]
      exact ih _ _ (h.defineAll other.toList)
  exact hall _ ds (h.rename _)

/-- The tables of a dictionary are those of its history, however it was made. -/
theorem Made.follows (h : Made ds dict) : Follows ds dict := by
  induction h with
  | empty name allowUnknown => exact follows_empty name allowUnknown
  | define _ d ih => exact ih.define d
  | copy _ name ih => exact ih.rename name
  | merge _ others ih => exact ih.merge others

/-! ## Finding a synonym -/

theorem exists_mem_titles_of_hasSynonym (h : d.HasSynonym title) : ∃ t ∈ d.titles, key t = key title := by
  obtain ⟨s, hs, hk⟩ := h
  refine ⟨s, List.mem_cons_of_mem _ ?_, hk⟩
  exact (Text.sortTexts_perm _).mem_iff.2 (List.mem_eraseDups.2 hs)

/-- What a dictionary finds for a title is one of its definitions, and has this title. -/
theorem Follows.mem_and_titles (h : Follows ds dict) (hd : dict.lookup title = some d) :
    d ∈ ds ∧ ∃ t ∈ d.titles, key t = key title := by
  unfold lookup at hd
  split at hd
  · next d' hd' =>
    cases hd
    rw [h.definitions] at hd'
    obtain ⟨hmem, hkey⟩ := mem_of_latest hd'
    exact ⟨hmem, d.name, List.mem_cons_self, hkey⟩
  · obtain ⟨k, hk, hkd⟩ := Option.bind_eq_some_iff.1 hd
    obtain ⟨d', hd', hhas⟩ := h.declared title k hk
    rw [h.definitions, hd'] at hkd
    cases hkd
    exact ⟨(mem_of_latest hd').1, exists_mem_titles_of_hasSynonym hhas⟩

/-- A title finds nothing if it names no definition, and either is no synonym or was withdrawn as one. -/
theorem Follows.lookup_eq_none_iff (h : Follows ds dict) (title : String) : dict.lookup title = none ↔
    (∀ e ∈ ds, key e.name ≠ key title) ∧ ((∀ e ∈ ds, ¬ e.HasSynonym title) ∨ Withdrawn ds title) := by
  rw [← latest_eq_none, ← h.missing, ← h.definitions]
  unfold lookup
  cases hname : dict.definitions.lookup (key title) with
  | some d => simp
  | none =>
    cases hk : dict.synonyms.lookup (key title) with
    | none => simp
    | some k =>
      obtain ⟨d, hd, -⟩ := h.declared title k hk
      simp [h.definitions, hd]

/-- **When a synonym is lost.** In a dictionary made by defining, copying and merging, a synonym of a definition in use
never finds a definition with other titles. It finds nothing if and only if no definition has it for its name and it was
withdrawn with an earlier definition that had it too. -/
theorem lookup_synonym (h : Made ds dict) (hd : dict.lookup d.name = some d) {s : String} (hs : s ∈ d.synonyms) :
    (∀ e, dict.lookup s = some e → ∃ t ∈ e.titles, key t = key s) ∧
    (dict.lookup s = none ↔ (∀ e ∈ ds, key e.name ≠ key s) ∧ Withdrawn ds s) := by
  have hf := h.follows
  refine ⟨fun e he => (hf.mem_and_titles he).2, ?_⟩
  have hdeclared : ¬ ∀ e ∈ ds, ¬ e.HasSynonym s := fun hnone => hnone d (hf.mem_and_titles hd).1 ⟨s, hs, rfl⟩
  rw [hf.lookup_eq_none_iff, or_iff_right hdeclared]

/-! ## A lost synonym -/

/-- A definition with a synonym. -/
def returns : Definition := { name := "returns", synonyms := ["gives"] }

/-- Another definition with the same synonym. -/
def yields : Definition := { name := "yields", synonyms := ["gives"] }

/-- A definition in place of the first one, without the synonym. -/
def plainReturns : Definition := { name := "returns" }

/-- The dictionary with these definitions, one after the other. -/
def lossy : Dictionary := ((({} : Dictionary).define returns).define yields).define plainReturns

theorem made_lossy : Made [returns, yields, plainReturns] lossy := (((Made.empty _ _).define _).define _).define _

theorem lookup_yields : lossy.lookup yields.name = some yields := by
  have hfound : lossy.definitions.lookup (key yields.name) = some yields := by
    rw [lossy, lookup_define, if_neg (by decide +kernel), lookup_define, if_pos rfl]
  rw [lookup, hfound]

theorem withdrawn_gives : Withdrawn [returns, yields, plainReturns] "gives" := by
  have hlatest : latest [returns, yields] (key plainReturns.name) = some returns := by
    have hne : key plainReturns.name ≠ key yields.name := by decide +kernel
    rw [show [returns, yields] = [returns] ++ [yields] from rfl, latest_concat, if_neg hne]
    exact (latest_concat [] returns _).trans (if_pos rfl)
  have hplain : ¬ plainReturns.HasSynonym "gives" := by
    rintro ⟨s, hs, -⟩
    cases hs
  exact ⟨[returns, yields], plainReturns, [], returns, rfl, hlatest, ⟨"gives", List.mem_singleton_self _, rfl⟩, hplain,
    List.forall_mem_nil _⟩

/-- The shared synonym is withdrawn with the first definition, and the second one can no longer be found by it. -/
theorem lookup_synonym_lossy :
    lossy.lookup yields.name = some yields ∧ "gives" ∈ yields.synonyms ∧
      (∀ e ∈ [returns, yields, plainReturns], key e.name ≠ key "gives") ∧
      Withdrawn [returns, yields, plainReturns] "gives" ∧ lossy.lookup "gives" = none := by
  have hmem : "gives" ∈ yields.synonyms := List.mem_singleton_self "gives"
  have hnames : ∀ e ∈ [returns, yields, plainReturns], key e.name ≠ key "gives" := by decide +kernel
  exact ⟨lookup_yields, hmem, hnames, withdrawn_gives,
    (lookup_synonym made_lossy lookup_yields hmem).2.2 ⟨hnames, withdrawn_gives⟩⟩

/-- **A synonym of a definition in use may find nothing.** -/
theorem lookup_gives_eq_none :
    Made [returns, yields, plainReturns] lossy ∧ lossy.lookup yields.name = some yields ∧ "gives" ∈ yields.synonyms ∧
      ¬ ∃ e, lossy.lookup "gives" = some e ∧ ∃ t ∈ e.titles, key t = key "gives" := by
  refine ⟨made_lossy, lookup_yields, List.mem_singleton_self _, ?_⟩
  rintro ⟨e, he, -⟩
  have hnone : lossy.lookup "gives" = none := Option.isNone_iff_eq_none.1 (by decide +kernel)
  rw [hnone] at he
  cases he

end Dictionary
end SymbolDocs
