import SymbolDocs.Grammar.Dictionary
import SymbolDocs.Proofs.Outcome

/-!
# Putting dictionaries together

Defining tags and merging dictionaries brings in no definition that was not given. So what holds of every tag of the
built-in grammars holds of every definition of a dictionary that `Grammar.buildAll` gives (`Grammar.buildAll_all`).
-/

namespace SymbolDocs

namespace Dictionary

variable {R : Type} {dict : Dictionary R} {P : Definition R → Prop} {d : Definition R}

/-- All definitions of a dictionary have a property. -/
def All (P : Definition R → Prop) (dict : Dictionary R) : Prop := ∀ entry ∈ dict.definitions, P entry.2

theorem mem_of_mem_put {α : Type} {k : String} {v : α} {entry : String × α} {entries : List (String × α)}
    (h : entry ∈ put k v entries) : entry = (k, v) ∨ entry ∈ entries := by
  induction entries with
  | nil => exact .inl (List.mem_singleton.1 h)
  | cons first rest ih =>
    unfold put at h
    split at h
    · rcases List.mem_cons.1 h with he | he
      · exact .inl he
      · exact .inr (List.mem_cons_of_mem first he)
    · rcases List.mem_cons.1 h with rfl | he
      · exact .inr List.mem_cons_self
      · rcases ih he with he | he
        · exact .inl he
        · exact .inr (List.mem_cons_of_mem first he)

theorem all_empty (name : String) (allowUnknown : AllowUnknown) : All P { name, allowUnknown } := by
  intro entry he
  cases he

theorem All.define (h : dict.All P) (hd : P d) : (dict.define d).All P := by
  intro entry he
  rcases mem_of_mem_put he with rfl | he
  · exact hd
  · exact h entry he

theorem All.defineAll {ds : List (Definition R)} (h : dict.All P) (hd : ∀ d ∈ ds, P d) : (dict.defineAll ds).All P :=
  List.foldlRecOn ds Dictionary.define h fun _ hacc d hm => hacc.define (hd d hm)

/-- Dictionaries are merged by defining the tags of all. -/
theorem All.merge {others : List (Dictionary R)} (h : dict.All P) (ho : ∀ other ∈ others, other.All P) :
    (dict.merge others).All P := by
  have hrename : (dict.rename (some ("+".intercalate (dict.name :: others.map (·.name))))).All P := h
  refine List.foldlRecOn others _ hrename fun acc hacc other hm => hacc.defineAll fun d hd => ?_
  obtain ⟨entry, he, rfl⟩ := List.mem_map.1 hd
  exact ho other hm entry he

/-- The definition of a title is one of the definitions. -/
theorem mem_of_lookup {title : String} (h : dict.lookup title = some d) : ∃ k, (k, d) ∈ dict.definitions := by
  have hmem {k : String} (hk : dict.definitions.lookup k = some d) : ∃ k, (k, d) ∈ dict.definitions := by
    obtain ⟨l₁, l₂, heq, -⟩ := List.lookup_eq_some_iff.1 hk
    exact ⟨k, by rw [heq]; simp⟩
  unfold Dictionary.lookup at h
  split at h
  · next hk => exact hmem (hk.trans h)
  · obtain ⟨k, -, hk⟩ := Option.bind_eq_some_iff.1 h
    exact hmem hk

theorem All.of_lookup (h : dict.All P) {title : String} (hl : dict.lookup title = some d) : P d := by
  obtain ⟨k, hk⟩ := mem_of_lookup hl
  exact h (k, d) hk

end Dictionary

namespace Grammar

variable {P : Definition → Prop}

theorem dictionary_all {g : Grammar} (h : ∀ d ∈ sharedTags ++ g.definitions, P d) (allowUnknown : AllowUnknown) :
    (g.dictionary allowUnknown).All P :=
  (Dictionary.all_empty g.name allowUnknown).defineAll h

/-- **What all tags of the grammars have in common is true of every dictionary of built-in grammars.** -/
theorem buildAll_all (h : ∀ g : Grammar, ∀ d ∈ sharedTags ++ g.definitions, P d) {names : List String}
    {allowUnknown : AllowUnknown} {dict : Dictionary} (hb : buildAll names allowUnknown = .ok dict) : dict.All P := by
  obtain ⟨dicts, hd, hb⟩ := bind_eq_ok.1 hb
  have hall : ∀ other ∈ dicts, other.All P := by
    intro other ho
    obtain ⟨name, -, hother⟩ := mem_of_mapM_eq_ok hd ho
    unfold build at hother
    split at hother
    · next g hg =>
      cases hother
      exact dictionary_all (h g) allowUnknown
    · cases hother
  split at hb
  · cases hb
  · cases hb
    exact hall _ List.mem_cons_self
  · cases hb
    rw [List.forall_mem_cons] at hall
    exact hall.1.merge hall.2

end Grammar
end SymbolDocs
