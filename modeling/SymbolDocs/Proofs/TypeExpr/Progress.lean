import SymbolDocs.Proofs.TypeExpr.Derivation
import SymbolDocs.Proofs.TypeExpr.Visits

/-!
# Progress of reading

Reading a type ends, and it stays inside its text. The functions with notes read as those without do, whatever they
give, and fail only at tokens of the text (`tracks_union` and the lemmas beside it). Their notes say that the tokens
ahead only become fewer: an iteration of a loop takes a token at least, and so does a function until it is entered again
below itself (`Note.Advances`). What makes this so is an order of the functions: one that is entered with the tokens of
another one, which waits for it, is below it (`Inside`).
-/

namespace SymbolDocs.TypeExpr

open SymbolDocs.Text

variable {α β : Type} {stop : Nat} {all ts rest : List Token} {stack : List Visit} {t : TypeExpr}

/-! ## Places in the text -/

section Offsets

variable {cs taken : List Char} {c : Char} {pos offset : Nat} {fault : Fault}

theorem scanPath_fault (h : scanPath taken cs = .error offset) : offset < taken.length + cs.length := by
  fun_induction scanPath taken cs with
  | case1 => cases h
  | case2 taken c cs _ ih | case3 taken c cs _ _ ih =>
    have := ih h
    simp only [List.length_cons] at this ⊢
    omega
  | case4 taken c cs =>
    cases h
    simp
  | case5 taken c cs _ _ _ text rest hq _ ih =>
    have hlen := congrArg List.length (scanQuoted_append hq)
    have := ih h
    simp only [List.length_append, List.length_reverse, List.length_cons] at this hlen ⊢
    omega
  | case6 => cases h

theorem scanLexeme_fault (h : scanLexeme pos c cs = .error fault) : fault.pos < pos + (cs.length + 1) := by
  unfold scanLexeme at h
  split at h
  · split at h
    · cases h
    · next offset hpath =>
      cases h
      have := scanPath_fault hpath
      simp only [Fault.pos, List.length_singleton] at this ⊢
      omega
  · split at h
    · split at h
      · cases h
      · cases h
        simp [Fault.pos]
    · split at h
      · cases h
      · split at h
        · cases h
        · cases h
          simp [Fault.pos]

/-- A text that is not cut into tokens has its fault inside. -/
theorem tokensFrom_fault (h : tokensFrom pos cs = .error fault) : fault.pos < pos + cs.length := by
  fun_induction tokensFrom pos cs with
  | case1 => cases h
  | case2 pos c cs _ ih =>
    have := ih h
    rw [List.length_cons]
    omega
  | case3 pos c cs _ fault' hlex =>
    cases h
    exact scanLexeme_fault hlex
  | case4 pos c cs _ lexeme rest hlex hle ih =>
    cases hrest : tokensFrom (pos + (cs.length + 1 - rest.length)) rest with
    | ok ts =>
      rw [hrest] at h
      cases h
    | error fault' =>
      rw [hrest] at h
      cases h
      have := ih hrest
      rw [List.length_cons]
      omega

/-- Every token starts inside the text. -/
theorem pos_of_tokensFrom (h : tokensFrom pos cs = .ok ts) : ∀ token ∈ ts, token.pos < pos + cs.length := by
  fun_induction tokensFrom pos cs generalizing ts with
  | case1 =>
    cases h
    exact List.forall_mem_nil _
  | case2 pos c cs _ ih =>
    intro token htoken
    have := ih h token htoken
    rw [List.length_cons]
    omega
  | case3 => cases h
  | case4 pos c cs _ lexeme rest hlex hle ih =>
    cases hrest : tokensFrom (pos + (cs.length + 1 - rest.length)) rest with
    | error fault' =>
      rw [hrest] at h
      cases h
    | ok ts' =>
      rw [hrest] at h
      cases h
      rw [List.length_cons, List.forall_mem_cons]
      refine ⟨by dsimp only; omega, fun token htoken => ?_⟩
      have := ih hrest token htoken
      omega

end Offsets

/-! ## What notes say -/

/-- The order of the functions: those that a function enters with its own tokens have a lower rank. -/
def Level.rank : Level → Nat
  | .union => 5
  | .modified => 4
  | .arrayed => 3
  | .primary => 2
  | .function | .record => 1

theorem Level.rank_pos (level : Level) : 0 < level.rank := by cases level <;> decide

/-- Visits of which each waits for the one in front of it. All of them have an end of the tokens ahead, and a function
that waits for itself has more tokens. -/
structure Stacked (all : List Token) (stack : List Visit) : Prop where
  suffix : ∀ v ∈ stack, v.ahead <:+ all
  fewer : stack.Pairwise fun inner outer =>
    inner.ahead <:+ outer.ahead ∧ (inner.level = outer.level → inner.ahead.length < outer.ahead.length)

/-- Reading goes on among the tokens `all`: it comes to an end of them, and takes at least one token in an iteration of
a loop and before a function is entered again below itself. -/
def Note.Advances (all : List Token) : Note → Prop
  | .entered stack => Stacked all stack
  | .repeated _ before after => before <:+ all ∧ after <:+ before ∧ after.length < before.length

/-- Where functions of at most this rank may be entered: whatever waits has more tokens or a higher rank. -/
structure Inside (all : List Token) (rank : Nat) (stack : List Visit) (ts : List Token) : Prop where
  stacked : Stacked all stack
  suffix : ts <:+ all
  below : ∀ v ∈ stack, ts <:+ v.ahead ∧ (ts.length < v.ahead.length ∨ rank < v.level.rank)

namespace Inside

theorem start (all : List Token) (rank : Nat) : Inside all rank [] all where
  stacked := ⟨List.forall_mem_nil _, .nil⟩
  suffix := List.suffix_rfl
  below := List.forall_mem_nil _

variable {rank rank' : Nat} {level : Level}

/-- A function of that rank is entered. -/
theorem enter (h : Inside all level.rank stack ts) : Stacked all (⟨level, ts⟩ :: stack) where
  suffix := List.forall_mem_cons.2 ⟨h.suffix, h.stacked.suffix⟩
  fewer := by
    refine List.pairwise_cons.2 ⟨fun v hv => ?_, h.stacked.fewer⟩
    obtain ⟨hsuffix, hlt | hrank⟩ := h.below v hv
    · exact ⟨hsuffix, fun _ => hlt⟩
    · refine ⟨hsuffix, fun hlevel => ?_⟩
      rw [← show level = v.level from hlevel] at hrank
      exact absurd hrank (Nat.lt_irrefl _)

/-- A function that was entered may enter those below it with its own tokens. -/
theorem push (h : Inside all level.rank stack ts) (hr : rank < level.rank) :
    Inside all rank (⟨level, ts⟩ :: stack) ts where
  stacked := h.enter
  suffix := h.suffix
  below := by
    refine List.forall_mem_cons.2 ⟨⟨List.suffix_rfl, .inr hr⟩, fun v hv => ?_⟩
    obtain ⟨hsuffix, hlt | hrank⟩ := h.below v hv
    · exact ⟨hsuffix, .inl hlt⟩
    · exact ⟨hsuffix, .inr (Nat.lt_trans hr hrank)⟩

theorem mono (h : Inside all rank stack ts) (hr : rank' ≤ rank) : Inside all rank' stack ts :=
  { h with below := fun v hv => (h.below v hv).imp_right (·.imp_right (Nat.lt_of_le_of_lt hr)) }

/-- Where the tokens have become fewer every function may be entered. -/
theorem advance (h : Inside all rank stack ts) (hs : rest <:+ ts) (hlt : rest.length < ts.length) :
    Inside all rank' stack rest where
  stacked := h.stacked
  suffix := hs.trans h.suffix
  below v hv :=
    have hsuffix := (h.below v hv).1
    ⟨hs.trans hsuffix, .inl (Nat.lt_of_lt_of_le hlt hsuffix.length_le)⟩

theorem behind {token : Token} (h : Inside all rank stack (token :: ts)) (hs : rest <:+ ts) :
    Inside all rank' stack rest :=
  h.advance (hs.trans (List.suffix_cons token ts)) (Nat.lt_succ_of_le hs.length_le)

theorem suffix_behind {token : Token} (h : Inside all rank stack (token :: ts)) (hs : rest <:+ ts) : rest <:+ all :=
  (hs.trans (List.suffix_cons token ts)).trans h.suffix

/-- Behind the first one of its tokens a function that was entered may enter every function. -/
theorem within {token : Token} (h : Inside all level.rank stack (token :: ts)) (hs : rest <:+ ts) :
    Inside all rank' (⟨level, token :: ts⟩ :: stack) rest :=
  (h.push level.rank_pos).behind hs

/-- What may be entered with some tokens may be entered with an end of them. -/
theorem suffix_trans (h : Inside all rank stack ts) (hs : rest <:+ ts) : Inside all rank stack rest where
  stacked := h.stacked
  suffix := hs.trans h.suffix
  below v hv := by
    obtain ⟨hsuffix, hlt | hrank⟩ := h.below v hv
    · exact ⟨hs.trans hsuffix, .inl (Nat.lt_of_le_of_lt hs.length_le hlt)⟩
    · exact ⟨hs.trans hsuffix, .inr hrank⟩

end Inside

/-! ## Reading with notes -/

/-- A reading function with notes agrees with the one without: it gives the same, its notes advance, and it fails only
at tokens that are there. -/
structure Tracks (stop : Nat) (all : List Token) (x : Traced α) (y : Except Fault α) : Prop where
  outcome : x.outcome = y
  notes : ∀ n ∈ x.notes, n.Advances all
  fault : ∀ f, y = .error f → ∃ expectation ts, ts <:+ all ∧ f = unmet stop expectation ts

namespace Tracks

theorem ok (a : α) : Tracks stop all (pure a) (.ok a) where
  outcome := rfl
  notes := List.forall_mem_nil _
  fault f hf := by cases hf

theorem unmet (expectation : Expectation) (hs : ts <:+ all) :
    Tracks (α := α) stop all (.lift (.error (unmet stop expectation ts)))
      (.error (TypeExpr.unmet stop expectation ts)) where
  outcome := rfl
  notes := List.forall_mem_nil _
  fault f hf := by
    cases hf
    exact ⟨expectation, ts, hs, rfl⟩

theorem expectMark (m : Mark) (hs : ts <:+ all) :
    Tracks stop all (.lift (expectMark stop m ts)) (TypeExpr.expectMark stop m ts) where
  outcome := rfl
  notes := List.forall_mem_nil _
  fault f hf := by
    unfold TypeExpr.expectMark at hf
    split at hf
    · split at hf
      · cases hf
      · cases hf
        exact ⟨_, _, hs, rfl⟩
    · cases hf
      exact ⟨_, _, hs, rfl⟩

variable {x : Traced α} {y : Except Fault α} {f : α → Traced β} {g : α → Except Fault β}

theorem bind (hx : Tracks stop all x y) (hf : ∀ a, y = .ok a → Tracks stop all (f a) (g a)) :
    Tracks stop all (x >>= f) (y >>= g) := by
  obtain ⟨notes, outcome⟩ := x
  obtain rfl : outcome = y := hx.outcome
  cases outcome with
  | error fault =>
    refine ⟨rfl, hx.notes, fun f hf => hx.fault f ?_⟩
    cases hf
    rfl
  | ok a =>
    have ha := hf a rfl
    refine ⟨ha.outcome, fun n hn => ?_, ha.fault⟩
    rcases List.mem_append.1 hn with hn | hn
    · exact hx.notes n hn
    · exact ha.notes n hn

/-- A step that always gives something is one without notes, too. -/
theorem bind_ok {a : α} {y : Except Fault β} (hx : Tracks stop all x (.ok a)) (hf : Tracks stop all (f a) y) :
    Tracks stop all (x >>= f) y :=
  hx.bind (g := fun _ => y) fun a' ha' => by
    cases ha'
    exact hf

theorem note {n : Note} {x : Unit → Traced α} (hn : n.Advances all) (hx : Tracks stop all (x ()) y) :
    Tracks stop all (.note n >>= x) y where
  outcome := hx.outcome
  notes n' hn' := by
    rcases List.mem_cons.1 hn' with rfl | hn'
    · exact hn
    · exact hx.notes n' hn'
  fault := hx.fault

end Tracks

/-! ## Loops without further functions -/

theorem tracks_suffixes (h : ts <:+ all) (optional : Bool) (nullable : Option Bool) :
    Tracks stop all (trackSuffixes t optional nullable ts) (.ok (readSuffixes t optional nullable ts)) := by
  fun_induction trackSuffixes t optional nullable ts with
  | case1 optional nullable pos rest ih =>
    have hs := List.suffix_cons (⟨.mark .equals, pos⟩ : Token) rest
    rw [readSuffixes]
    refine .note ⟨h, hs, Nat.lt_succ_self _⟩ ?_
    exact (ih (hs.trans h)).bind_ok (.ok _)
  | case2 optional nullable pos rest hif ih =>
    have hs := List.suffix_cons (⟨.mark .question, pos⟩ : Token) rest
    rw [readSuffixes, if_pos hif]
    refine .note ⟨h, hs, Nat.lt_succ_self _⟩ ?_
    exact (ih (hs.trans h)).bind_ok (.ok _)
  | case3 optional nullable pos rest hif =>
    rw [readSuffixes, if_neg hif]
    exact .ok _
  | case4 optional nullable pos rest hif ih =>
    have hs := List.suffix_cons (⟨.mark .bang, pos⟩ : Token) rest
    rw [readSuffixes, if_pos hif]
    refine .note ⟨h, hs, Nat.lt_succ_self _⟩ ?_
    exact (ih (hs.trans h)).bind_ok (.ok _)
  | case5 optional nullable pos rest hif =>
    rw [readSuffixes, if_neg hif]
    exact .ok _
  | case6 optional nullable ts hequals hquestion hbang =>
    rw [readSuffixes]
    · exact .ok _
    all_goals assumption

theorem tracks_modifyBy (h : ts <:+ all) (nullable : Option Bool) (repeatable : Bool) :
    Tracks stop all (trackModifyBy t nullable repeatable ts) (.ok (modifyBy t nullable repeatable ts)) :=
  (tracks_suffixes h false nullable).bind_ok (.ok _)

theorem tracks_arrays (h : ts <:+ all) : Tracks stop all (trackArrays t ts) (.ok (readArrays t ts)) := by
  fun_induction trackArrays t ts with
  | case1 t pos pos' rest ih =>
    have hs : rest <:+ ⟨.mark .openBracket, pos⟩ :: ⟨.mark .closeBracket, pos'⟩ :: rest :=
      (List.suffix_cons _ rest).trans (List.suffix_cons _ _)
    have hlt : rest.length < rest.length + 1 + 1 := by omega
    rw [readArrays]
    refine .note ⟨h, hs, hlt⟩ ?_
    exact (ih (hs.trans h)).bind_ok (.ok _)
  | case2 t ts hne =>
    rw [readArrays]
    · exact .ok _
    · assumption

/-! ## Functions that call one another -/

/-- What a reading function leaves is an end of what it was given. -/
theorem suffix_of_reads (ph : Phrase) (h : ph.Reads stop ts rest) : rest <:+ ts := (derives_of_reads h).suffix

/-- Parts between commas: it is enough that the first part is read as without notes, and those behind its comma. -/
theorem tracks_list {level : Level} {part : Traced (α × ShorterTail ts)} {part' : Except Fault (α × ShorterTail ts)}
    {more : (rest : List Token) → Traced (List α × ShorterTail rest)}
    {more' : (rest : List Token) → Except Fault (List α × ShorterTail rest)} (hts : ts <:+ all)
    (hsuffix : ∀ a rest h, part' = .ok (a, ⟨rest, h⟩) → rest <:+ ts) (hpart : Tracks stop all part part')
    (hmore : ∀ rest, rest <:+ ts → rest.length < ts.length → Tracks stop all (more rest) (more' rest)) :
    Tracks stop all
      (do
        let (a, ⟨rest, h⟩) ← part
        Traced.note (.repeated level ts rest)
        match rest, h with
        | ⟨.mark .comma, _⟩ :: rest, h => do
          have : rest.length < ts.length := Nat.lt_of_succ_lt h
          let (others, ⟨rest', h'⟩) ← more rest
          pure (a :: others, ⟨rest', Nat.lt_trans h' this⟩)
        | rest, h => pure ([a], ⟨rest, h⟩) : Traced (List α × ShorterTail ts))
      (do
        let (a, ⟨rest, h⟩) ← part'
        match rest, h with
        | ⟨.mark .comma, _⟩ :: rest, h => do
          have : rest.length < ts.length := Nat.lt_of_succ_lt h
          let (others, ⟨rest', h'⟩) ← more' rest
          pure (a :: others, ⟨rest', Nat.lt_trans h' this⟩)
        | rest, h => pure ([a], ⟨rest, h⟩) : Except Fault (List α × ShorterTail ts)) := by
  refine hpart.bind ?_
  rintro ⟨a, rest, hlt⟩ ha
  have hs : rest <:+ ts := hsuffix a rest hlt ha
  refine .note ⟨hts, hs, hlt⟩ ?_
  dsimp only
  split
  · next pos rest hlt =>
    refine (hmore rest ((List.suffix_cons _ _).trans hs) (Nat.lt_of_succ_lt hlt)).bind ?_
    rintro ⟨others, rest', hlt'⟩ -
    exact .ok _
  · exact .ok _

-- Each function is entered inside what its caller leaves it: below the caller with the same tokens, or anywhere with
-- fewer. The recursion of these lemmas is that of the functions, and so is its measure.
mutual

theorem tracks_union {stack : List Visit} {ts : List Token} (h : Inside all Level.union.rank stack ts) :
    Tracks stop all (trackUnion stack stop ts) (readUnion stop ts) := by
  rw [trackUnion, readUnion]
  refine .note h.enter ?_
  have hin : Inside all Level.modified.rank (⟨.union, ts⟩ :: stack) ts := h.push (by decide)
  refine (tracks_modified hin).bind ?_
  rintro ⟨first, rest, hlt⟩ hfirst
  have hs : rest <:+ ts := suffix_of_reads (.modified first) ⟨hlt, hfirst⟩
  refine (tracks_alternatives (hin.advance hs hlt)).bind ?_
  rintro ⟨others, rest', hle⟩ -
  exact .ok _
termination_by 6 * ts.length + 4

theorem tracks_alternatives {stack : List Visit} {ts : List Token} (h : Inside all Level.union.rank stack ts) :
    Tracks stop all (trackAlternatives stack stop ts) (readAlternatives stop ts) := by
  unfold trackAlternatives
  split
  · next pos ts =>
    rw [readAlternatives]
    refine (tracks_modified (h.behind List.suffix_rfl)).bind ?_
    rintro ⟨t, rest, hlt⟩ ht
    have hs : rest <:+ ts := suffix_of_reads (.modified t) ⟨hlt, ht⟩
    have hs' : rest <:+ ⟨.mark .bar, pos⟩ :: ts := hs.trans (List.suffix_cons _ _)
    refine .note ⟨h.suffix, hs', Nat.lt_succ_of_lt hlt⟩ ?_
    refine (tracks_alternatives (h.behind hs)).bind ?_
    rintro ⟨others, rest', hle⟩ -
    exact .ok _
  · next hne =>
    rw [readAlternatives]
    · exact .ok _
    · assumption
termination_by 6 * ts.length
decreasing_by all_goals (subst_vars; simp only [List.length_cons] at *; omega)

theorem tracks_modified {stack : List Visit} {ts : List Token} (h : Inside all Level.modified.rank stack ts) :
    Tracks stop all (trackModified stack stop ts) (readModified stop ts) := by
  unfold trackModified
  refine .note h.enter ?_
  split
  · next pos ts =>
    rw [readModified]
    dsimp only
    have hnull : (readNullable ts).2.1 <:+ ts := suffix_readNullable
    have hle := hnull.length_le
    split
    · refine (tracks_arrayed (h.within hnull)).bind ?_
      rintro ⟨t, rest, hlt⟩ ht
      have hs : rest <:+ (readNullable ts).2.1 := suffix_of_reads (.arrayed t) ⟨hlt, ht⟩
      exact (tracks_modifyBy (h.suffix_behind (hs.trans hnull)) _ true).bind_ok (.ok _)
    · exact (tracks_modifyBy (h.suffix_behind hnull) _ true).bind_ok (.ok _)
  · next hne =>
    rw [readModified]
    · dsimp only
      have hnull : (readNullable ts).2.1 <:+ ts := suffix_readNullable
      have hle := hnull.length_le
      have hin : Inside all Level.arrayed.rank (⟨.modified, ts⟩ :: stack) ts := h.push (by decide)
      refine (tracks_arrayed (hin.suffix_trans hnull)).bind ?_
      rintro ⟨t, rest, hlt⟩ ht
      have hs : rest <:+ (readNullable ts).2.1 := suffix_of_reads (.arrayed t) ⟨hlt, ht⟩
      exact (tracks_modifyBy ((hs.trans hnull).trans h.suffix) _ false).bind_ok (.ok _)
    · assumption
termination_by 6 * ts.length + 3
decreasing_by all_goals (subst_vars; simp only [List.length_cons] at *; omega)

theorem tracks_arrayed {stack : List Visit} {ts : List Token} (h : Inside all Level.arrayed.rank stack ts) :
    Tracks stop all (trackArrayed stack stop ts) (readPostfix stop ts) := by
  rw [trackArrayed, readPostfix]
  refine .note h.enter ?_
  have hin : Inside all Level.primary.rank (⟨.arrayed, ts⟩ :: stack) ts := h.push (by decide)
  refine (tracks_primary hin).bind ?_
  rintro ⟨t, rest, hlt⟩ ht
  have hs : rest <:+ ts := suffix_of_reads (.primary t) ⟨hlt, ht⟩
  exact (tracks_arrays (hs.trans h.suffix)).bind_ok (.ok _)
termination_by 6 * ts.length + 2

theorem tracks_function {pos : Nat} {stack : List Visit} {ts : List Token}
    (h : Inside all Level.primary.rank stack (⟨.name "function", pos⟩ :: ts)) :
    Tracks stop all (trackPrimary stack stop (⟨.name "function", pos⟩ :: ts))
      (readPrimary stop (⟨.name "function", pos⟩ :: ts)) := by
  have hin : Inside all Level.function.rank (⟨.primary, ⟨.name "function", pos⟩ :: ts⟩ :: stack)
      (⟨.name "function", pos⟩ :: ts) := h.push (by decide)
  unfold trackPrimary
  refine .note h.enter ?_
  dsimp only
  rw [if_pos rfl]
  split
  · next p₁ p₂ ts =>
    rw [readPrimary, if_pos rfl]
    refine .note hin.enter ?_
    refine (tracks_returns (hin.within ((List.suffix_cons _ _).trans (List.suffix_cons _ _)))).bind ?_
    rintro ⟨result, rest, hle⟩ -
    exact .ok _
  · next p₁ ts hne =>
    rw [readPrimary, if_pos rfl]
    · refine .note hin.enter ?_
      refine (tracks_params (hin.within (List.suffix_cons _ _))).bind ?_
      rintro ⟨params, rest, hlt⟩ hparams
      have hs : rest <:+ ts := suffix_of_reads (.params params) ⟨hlt, hparams⟩
      have hs' : rest <:+ ⟨.mark .openParen, p₁⟩ :: ts := hs.trans (List.suffix_cons _ _)
      refine (Tracks.expectMark .closeParen (h.suffix_behind hs')).bind ?_
      rintro ⟨rest', hlt'⟩ hmark
      obtain ⟨q, rfl⟩ := expectMark_eq_ok hmark
      refine (tracks_returns (hin.within ((List.suffix_cons _ _).trans hs'))).bind ?_
      rintro ⟨result, rest'', hle⟩ -
      exact .ok _
    · assumption
  · next hne₁ hne₂ =>
    rw [readPrimary, if_pos rfl]
    · refine (tracks_args (h.within List.suffix_rfl)).bind ?_
      rintro ⟨t, rest, hle⟩ -
      exact .ok _
    all_goals assumption
termination_by 6 * (ts.length + 1)
decreasing_by all_goals (subst_vars; simp only [List.length_cons] at *; omega)

theorem tracks_primary {stack : List Visit} {ts : List Token} (h : Inside all Level.primary.rank stack ts) :
    Tracks stop all (trackPrimary stack stop ts) (readPrimary stop ts) := by
  by_cases hfun : ∃ pos rest, ts = ⟨.name "function", pos⟩ :: rest
  · obtain ⟨pos, rest, rfl⟩ := hfun
    exact tracks_function h
  unfold trackPrimary
  refine .note h.enter ?_
  split
  · rw [readPrimary]
    exact .ok _
  · rw [readPrimary]
    exact .ok _
  · next pos ts =>
    rw [readPrimary]
    refine (tracks_union (h.within List.suffix_rfl)).bind ?_
    rintro ⟨t, rest, hlt⟩ ht
    have hs : rest <:+ ts := suffix_of_reads (.union t) ⟨hlt, ht⟩
    refine (Tracks.expectMark .closeParen (h.suffix_behind hs)).bind ?_
    rintro ⟨rest', hlt'⟩ -
    exact .ok _
  · next p q ts =>
    have hin : Inside all Level.record.rank _ _ := h.push (by decide)
    rw [readPrimary]
    exact .note hin.enter (.ok _)
  · next pos ts hne =>
    have hin : Inside all Level.record.rank _ _ := h.push (by decide)
    rw [readPrimary]
    · refine .note hin.enter ?_
      refine (tracks_fields (hin.within List.suffix_rfl)).bind ?_
      rintro ⟨fields, rest, hlt⟩ hfields
      have hs : rest <:+ ts := suffix_of_reads (.fields fields) ⟨hlt, hfields⟩
      refine (Tracks.expectMark .closeBrace (h.suffix_behind hs)).bind ?_
      rintro ⟨rest', hlt'⟩ -
      exact .ok _
    · assumption
  · rw [readPrimary]
    exact .ok _
  · rw [readPrimary]
    exact .ok _
  · next path pos ts =>
    have hpath : path ≠ "function" := fun he => hfun ⟨pos, ts, by rw [he]⟩
    unfold readPrimary
    dsimp only
    rw [if_neg hpath, if_neg hpath]
    split
    · exact .ok _
    · split
      · exact .ok _
      · refine (tracks_args (h.within List.suffix_rfl)).bind ?_
        rintro ⟨t, rest, hle⟩ -
        exact .ok _
  · rw [readPrimary]
    · exact .unmet .type h.suffix
    all_goals assumption
termination_by 6 * ts.length + 1
decreasing_by all_goals (subst_vars; simp only [List.length_cons] at *; omega)

theorem tracks_args {base : TypeExpr} {stack : List Visit} {ts : List Token}
    (h : Inside all Level.union.rank stack ts) :
    Tracks stop all (trackArgs stack stop base ts) (readArgs stop base ts) := by
  unfold trackArgs
  split
  · next pos ts =>
    rw [readArgs]
    refine (tracks_argList (h.behind List.suffix_rfl)).bind ?_
    rintro ⟨args, rest, hlt⟩ hargs
    have hs : rest <:+ ts := suffix_of_reads (.argList args) ⟨hlt, hargs⟩
    refine (Tracks.expectMark .greater (h.suffix_behind hs)).bind ?_
    rintro ⟨rest', hlt'⟩ -
    exact .ok _
  · next pos ts =>
    rw [readArgs]
    refine (tracks_argList (h.behind List.suffix_rfl)).bind ?_
    rintro ⟨args, rest, hlt⟩ hargs
    have hs : rest <:+ ts := suffix_of_reads (.argList args) ⟨hlt, hargs⟩
    refine (Tracks.expectMark .greater (h.suffix_behind hs)).bind ?_
    rintro ⟨rest', hlt'⟩ -
    exact .ok _
  · next hdot hless =>
    rw [readArgs]
    · exact .ok _
    all_goals assumption
termination_by 6 * ts.length
decreasing_by all_goals (subst_vars; simp only [List.length_cons] at *; omega)

theorem tracks_argList {stack : List Visit} {ts : List Token} (h : Inside all Level.union.rank stack ts) :
    Tracks stop all (trackArgList stack stop ts) (readArgList stop ts) := by
  rw [trackArgList, readArgList]
  exact tracks_list h.suffix (fun x _ hlt hx => suffix_of_reads (.union x) ⟨hlt, hx⟩) (tracks_union h)
    fun rest hs hlt => tracks_argList (h.advance hs hlt)
termination_by 6 * ts.length + 5

theorem tracks_returns {stack : List Visit} {ts : List Token} (h : Inside all Level.union.rank stack ts) :
    Tracks stop all (trackReturns stack stop ts) (readReturns stop ts) := by
  unfold trackReturns
  split
  · next pos ts =>
    rw [readReturns]
    refine (tracks_modified (h.behind List.suffix_rfl)).bind ?_
    rintro ⟨t, rest, hlt⟩ -
    exact .ok _
  · next hne =>
    rw [readReturns]
    · exact .ok _
    · assumption
termination_by 6 * ts.length
decreasing_by all_goals (subst_vars; simp only [List.length_cons] at *; omega)

theorem tracks_param {stack : List Visit} {ts : List Token} (h : Inside all Level.union.rank stack ts) :
    Tracks stop all (trackParam stack stop ts) (readParam stop ts) := by
  unfold trackParam
  split
  · next p q ts =>
    rw [readParam]
    refine (tracks_union (h.behind (List.suffix_cons _ _))).bind ?_
    rintro ⟨t, rest, hlt⟩ -
    exact .ok _
  · next p q ts =>
    rw [readParam]
    refine (tracks_union (h.behind (List.suffix_cons _ _))).bind ?_
    rintro ⟨t, rest, hlt⟩ -
    exact .ok _
  · next hthis hnew =>
    rw [readParam]
    · refine (tracks_modified (h.mono (by decide))).bind ?_
      rintro ⟨t, tail⟩ -
      exact .ok _
    all_goals assumption
termination_by 6 * ts.length + 4
decreasing_by all_goals (subst_vars; simp only [List.length_cons] at *; omega)

theorem tracks_params {stack : List Visit} {ts : List Token} (h : Inside all Level.union.rank stack ts) :
    Tracks stop all (trackParams stack stop ts) (readParams stop ts) := by
  rw [trackParams, readParams]
  exact tracks_list h.suffix (fun x _ hlt hx => suffix_of_reads (.param x) ⟨hlt, hx⟩) (tracks_param h)
    fun rest hs hlt => tracks_params (h.advance hs hlt)
termination_by 6 * ts.length + 5

theorem tracks_field {stack : List Visit} {ts : List Token} (h : Inside all Level.union.rank stack ts) :
    Tracks stop all (trackField stack stop ts) (readField stop ts) := by
  unfold trackField
  split
  · rw [readField]
    exact .unmet .key h.suffix
  · next token ts =>
    split
    · next hkey =>
      rw [readField, hkey]
      exact .unmet .key h.suffix
    · next key hkey =>
      split
      · next pos ts =>
        rw [readField, hkey]
        refine (tracks_union (h.behind (List.suffix_cons _ _))).bind ?_
        rintro ⟨t, rest, hlt⟩ -
        exact .ok _
      · next hne =>
        rw [readField, hkey]
        dsimp only
        split
        · exact (hne _ _ rfl).elim
        · exact .ok _
termination_by 6 * ts.length + 4
decreasing_by all_goals (subst_vars; simp only [List.length_cons] at *; omega)

theorem tracks_fields {stack : List Visit} {ts : List Token} (h : Inside all Level.union.rank stack ts) :
    Tracks stop all (trackFields stack stop ts) (readFields stop ts) := by
  rw [trackFields, readFields]
  exact tracks_list h.suffix (fun x _ hlt hx => suffix_of_reads (.field x) ⟨hlt, hx⟩) (tracks_field h)
    fun rest hs hlt => tracks_fields (h.advance hs hlt)
termination_by 6 * ts.length + 5

end

/-! ## Whole texts -/

theorem tracks_tokens : Tracks stop ts (trackTokens stop ts) (ofTokens stop ts) := by
  cases ts with
  | nil => exact .unmet .anything List.suffix_rfl
  | cons token ts =>
    refine (tracks_union (.start _ _)).bind ?_
    rintro ⟨t, rest, hlt⟩ ht
    have hs : rest <:+ token :: ts := suffix_of_reads (.union t) ⟨hlt, ht⟩
    dsimp only
    cases rest with
    | nil => exact .ok _
    | cons _ _ => exact .unmet .finish hs

theorem parse_of_tokensOf {e : String} (hts : tokensOf (trim e.toList) = .ok ts) :
    parse e = ofTokens (trim e.toList).length ts := by
  change tokensOf (trim e.toList) >>= ofTokens (trim e.toList).length = _
  rw [hts]
  rfl

/-- A fault is at a place of the text or at its end. -/
theorem parse_fault {e : String} {fault : Fault} (h : parse e = .error fault) :
    fault.pos ≤ (trim e.toList).length := by
  cases hts : tokensOf (trim e.toList) with
  | error fault' =>
    change tokensOf (trim e.toList) >>= ofTokens (trim e.toList).length = _ at h
    rw [hts] at h
    cases h
    have := tokensFrom_fault hts
    omega
  | ok ts =>
    rw [parse_of_tokensOf hts] at h
    obtain ⟨expectation, behind, hs, rfl⟩ := tracks_tokens.fault fault h
    cases behind with
    | nil => exact Nat.le_refl _
    | cons token behind =>
      have := pos_of_tokensFrom hts token (hs.subset List.mem_cons_self)
      simp only [unmet, List.head?_cons, Fault.pos]
      omega

/-- **Reading a type ends, inside its text.** Either the functions take all the tokens from the first one on and give a
type, or there is a fault, which is at a place of the text or at its end. With notes the same is read, and from each
note the tokens ahead are an end of those of the text: an iteration of a loop has taken at least one of them, and so has
a function that is entered again below itself. -/
theorem parse_progress (e : String) :
    ((∃ t ts h, parse e = .ok t ∧ tokensOf (trim e.toList) = .ok ts ∧
          readUnion (trim e.toList).length ts = .ok (t, ⟨[], h⟩)) ∨
        ∃ fault, parse e = .error fault ∧ fault.pos ≤ (trim e.toList).length) ∧
      ∀ ts, tokensOf (trim e.toList) = .ok ts →
        (trackTokens (trim e.toList).length ts).outcome = parse e ∧
          ∀ n ∈ (trackTokens (trim e.toList).length ts).notes, n.Advances ts := by
  refine ⟨?_, fun ts hts => ⟨?_, tracks_tokens.notes⟩⟩
  · cases h : parse e with
    | ok t =>
      obtain ⟨ts, hts, d⟩ := parse_eq_ok.1 h
      obtain ⟨hlt, hunion⟩ : (Phrase.union t).Reads (trim e.toList).length ts [] := d.reads
      exact .inl ⟨t, ts, hlt, rfl, hts, hunion⟩
    | error fault => exact .inr ⟨fault, rfl, parse_fault h⟩
  · rw [parse_of_tokensOf hts]
    exact tracks_tokens.outcome

/-- Every function and every loop is at work here. -/
theorem parse_progress_nested : ∃ t ts,
    parse " function(this:A|B, ...c[]?=): {d: (e<f, {}>)} " = .ok t ∧
      tokensOf (trim " function(this:A|B, ...c[]?=): {d: (e<f, {}>)} ".toList) = .ok ts ∧ ts.length = 29 ∧
      (trackTokens 45 ts).outcome = .ok t ∧ (trackTokens 45 ts).notes.length = 45 ∧
      ∀ n ∈ (trackTokens 45 ts).notes, n.Advances ts := by
  have h : parse " function(this:A|B, ...c[]?=): {d: (e<f, {}>)} " = .ok (.function
      [.modified (arrayOf (.name "c")) true (some true) true]
      (some (.record [.typed "d" (.application (.name "e") [.name "f", .record []])]))
      (some (.union [.name "A", .name "B"])) none) := by with_unfolding_all rfl
  obtain ⟨ts, hts, -⟩ := parse_eq_ok.1 h
  have hlengths : (tokensOf (trim " function(this:A|B, ...c[]?=): {d: (e<f, {}>)} ".toList)).map
      (fun ts => (ts.length, (trackTokens 45 ts).notes.length)) = .ok (29, 45) := by with_unfolding_all rfl
  rw [hts] at hlengths
  obtain ⟨htokens, hcount⟩ := Prod.mk.inj (Except.ok.inj hlengths)
  have hstop : (trim " function(this:A|B, ...c[]?=): {d: (e<f, {}>)} ".toList).length = 45 := by
    with_unfolding_all rfl
  obtain ⟨houtcome, hnotes⟩ := (parse_progress _).2 ts hts
  rw [hstop] at houtcome hnotes
  exact ⟨_, ts, h, hts, htokens, houtcome.trans h, hcount, hnotes⟩

end SymbolDocs.TypeExpr
