import Mathlib.Data.List.Chain
import SymbolDocs.Proofs.NamePath.Splitting

/-!
# Plain paths

A plain path is made of plain names: no quotes, no brackets, and one separator between any two names. Its normal form
has one separator between any two names again (`Spaced.hashPrototype`), so no dot is left behind `#`, and no prototype
word is left to be replaced (`afterPrototype?_of_suffix_hashPrototype`). What a plain path states at its end, if it is
read as an owner, is the scope of one last separator (`PlainPath.splitOwnerChars_cases`). Below such an owner a path is
brought to normal form on its own (`PlainPath.normalizeChars_below`), and no path stays a single name there
(`PlainPath.split_below_ne`).
-/

namespace SymbolDocs.NamePath

variable {cs owner name rest tail word : List Char} {c sep : Char} {scope : Option Scope}

/-! ## Replaced prototype words -/

theorem hashPrototype_eq_nil_iff : hashPrototype cs = [] ↔ cs = [] := by
  unfold hashPrototype
  split
  · next h =>
    refine iff_of_false (List.cons_ne_nil _ _) ?_
    rintro rfl
    cases h
  · cases cs <;> simp

/-- A beginning without `#` was there before the prototype words were replaced. -/
theorem exists_of_hashPrototype_eq_append (hword : '#' ∉ word) (h : hashPrototype cs = word ++ rest) :
    ∃ rest', cs = word ++ rest' ∧ hashPrototype rest' = rest := by
  induction word generalizing cs with
  | nil => exact ⟨cs, rfl, h⟩
  | cons c word ih =>
    rw [List.mem_cons, not_or] at hword
    unfold hashPrototype at h
    split at h
    · exact absurd (List.cons.inj h).1 hword.1
    · cases cs with
      | nil => cases h
      | cons c' cs =>
        obtain ⟨hhead, htail⟩ := List.cons.inj h
        obtain ⟨rest', hcs, hrest⟩ := ih hword.2 htail
        exact ⟨rest', by rw [hhead, hcs, List.cons_append], hrest⟩

/-- **No prototype word is left to be replaced.** -/
theorem afterPrototype?_of_suffix_hashPrototype (h : tail <:+ hashPrototype cs) : afterPrototype? tail = none := by
  fun_induction hashPrototype cs with
  | case1 cs rest _ _ ih =>
    rcases List.suffix_cons_iff.1 h with rfl | h
    · exact afterPrototype?_cons (by decide) _
    · exact ih h
  | case2 => rw [List.suffix_nil.1 h]; rfl
  | case3 c cs hnone ih =>
    rcases List.suffix_cons_iff.1 h with rfl | h
    · rw [Option.eq_none_iff_forall_not_mem]
      intro rest hrest
      -- What would be replaced now was there before, and would have been replaced then.
      have hback (word : List Char) (hword : '#' ∉ word) {tail : List Char}
          (heq : c :: hashPrototype cs = prototypeWord ++ (word ++ tail)) :
          ∃ tail', c :: cs = prototypeWord ++ (word ++ tail') ∧ hashPrototype tail' = tail := by
        have hp : prototypeWord = '.' :: "prototype".toList := rfl
        rw [hp, List.cons_append, ← List.append_assoc] at heq
        obtain ⟨hhead, heq⟩ := List.cons.inj heq
        have hmem : '#' ∉ "prototype".toList ++ word := by
          rw [List.mem_append, not_or]
          exact ⟨by decide, hword⟩
        obtain ⟨tail', hcs, htail⟩ := exists_of_hashPrototype_eq_append hmem heq
        exact ⟨tail', by rw [hhead, hcs, hp, List.cons_append, List.append_assoc], htail⟩
      have hsome : ∃ rest, afterPrototype? (c :: cs) = some rest := by
        rcases afterPrototype?_eq_some_iff.1 hrest with heq | ⟨heq, -⟩ | ⟨heq, -⟩
        · obtain ⟨tail', hcs, -⟩ := hback ['.'] (by decide) heq
          exact ⟨tail', afterPrototype?_eq_some_iff.2 (.inl hcs)⟩
        · obtain ⟨tail', hcs, htail⟩ := hback [] (by decide) (heq.trans (List.append_nil _).symm)
          rw [hashPrototype_eq_nil_iff.1 htail] at hcs
          exact ⟨[], afterPrototype?_eq_some_iff.2 (.inr (.inl ⟨by simpa using hcs, rfl⟩))⟩
        · obtain ⟨tail', hcs, htail⟩ := hback ['\n'] (by decide) heq
          rw [hashPrototype_eq_nil_iff.1 htail] at hcs
          exact ⟨['\n'], afterPrototype?_eq_some_iff.2 (.inr (.inr ⟨hcs, rfl⟩))⟩
      obtain ⟨rest', hrest'⟩ := hsome
      rw [hnone] at hrest'
      cases hrest'
    · exact ih h

/-! ## Single separators -/

/-- No two separators stand side by side. -/
def Spaced (cs : List Char) : Prop := cs.IsChain fun a b => isSeparator a = true → isSeparator b = false

/-- A replaced prototype word starts with a separator as well. -/
theorem head?_hashPrototype (hc : c ∈ (hashPrototype cs).head?) : c ∈ cs.head? ∨ '.' ∈ cs.head? := by
  unfold hashPrototype at hc
  split at hc
  · next rest h =>
    refine .inr ?_
    rcases afterPrototype?_eq_some_iff.1 h with rfl | ⟨rfl, -⟩ | ⟨rfl, -⟩ <;> rfl
  · cases cs with
    | nil => cases hc
    | cons => exact .inl hc

/-- What is spaced from a text is spaced from it when the prototype words are replaced. -/
theorem isSeparator_head?_hashPrototype (h : ∀ y ∈ cs.head?, isSeparator y = false) :
    ∀ y ∈ (hashPrototype cs).head?, isSeparator y = false := by
  intro y hy
  rcases head?_hashPrototype hy with hy | hdot
  · exact h y hy
  · cases h '.' hdot

/-- **Replaced prototype words leave single separators.** -/
theorem Spaced.hashPrototype (h : Spaced cs) : Spaced (hashPrototype cs) := by
  unfold Spaced at *
  fun_induction NamePath.hashPrototype cs with
  | case1 cs rest hrest _ ih =>
    have hspaced : List.IsChain (fun a b => isSeparator a = true → isSeparator b = false) rest ∧
        ∀ y ∈ rest.head?, isSeparator y = false := by
      rcases afterPrototype?_eq_some_iff.1 hrest with rfl | ⟨-, rfl⟩ | ⟨-, rfl⟩
      · have hdot := List.isChain_cons.1 (h.suffix ⟨prototypeWord, rfl⟩)
        exact ⟨hdot.2, fun y hy => hdot.1 y hy rfl⟩
      · exact ⟨.nil, fun y hy => by cases hy⟩
      · refine ⟨.singleton _, fun y hy => ?_⟩
        obtain rfl : '\n' = y := Option.some.inj hy
        rfl
    rw [List.isChain_cons]
    exact ⟨fun y hy _ => isSeparator_head?_hashPrototype hspaced.2 y hy, ih hspaced.1⟩
  | case2 => exact .nil
  | case3 c cs _ ih =>
    rw [List.isChain_cons] at h ⊢
    exact ⟨fun y hy hc => isSeparator_head?_hashPrototype (fun y hy => h.1 y hy hc) y hy, ih h.2⟩

theorem Spaced.not_infix (h : Spaced cs) (hc : isSeparator c = true) (hsep : isSeparator sep = true) :
    ¬ [c, sep] <:+: cs := by
  intro hin
  have hpair : [c, sep].IsChain fun a b => isSeparator a = true → isSeparator b = false := List.IsChain.infix h hin
  have hfalse := List.isChain_pair.1 hpair hc
  rw [hsep] at hfalse
  cases hfalse

/-- No dot is behind `#` in a spaced text. -/
theorem Spaced.normalizeChars_eq (h : Spaced cs) : normalizeChars cs = NamePath.hashPrototype cs :=
  dropDotAfterHash_eq_self_iff.2 (h.hashPrototype.not_infix rfl rfl)

/-! ## Behind and in front of separators -/

/-- In front of a separator the only prototype words to be replaced are whole ones with a dot behind. -/
theorem afterPrototype?_append_separator (hne : tail ≠ []) (hsep : isSeparator sep = true)
    (h : afterPrototype? (tail ++ sep :: rest) ≠ none) :
    (tail = prototypeWord ∧ sep = '.') ∨ ∃ behind, tail = prototypeWord ++ '.' :: behind := by
  -- Behind its first character the word has no separator.
  have hinside {word behind : List Char} (hword : ∀ c ∈ word, isSeparator c = false)
      (heq : tail ++ sep :: behind = '.' :: word) : False := by
    obtain ⟨t, tail, rfl⟩ := List.exists_cons_of_ne_nil hne
    have hmem : sep ∈ word := by
      rw [← (List.cons.inj heq).2]
      simp
    rw [hword sep hmem] at hsep
    cases hsep
  have hbreak : ∀ c ∈ "prototype".toList ++ ['\n'], isSeparator c = false := by
    have hall : ("prototype".toList ++ ['\n']).all (!isSeparator ·) = true := by decide
    simpa only [List.all_eq_true, Bool.not_eq_true'] using hall
  have hword : ∀ c ∈ "prototype".toList, isSeparator c = false :=
    fun c hc => hbreak c (List.mem_append_left _ hc)
  obtain ⟨behind, hbehind⟩ := Option.ne_none_iff_exists'.1 h
  rcases afterPrototype?_eq_some_iff.1 hbehind with heq | ⟨heq, -⟩ | ⟨heq, -⟩
  · rcases List.append_eq_append_iff.1 heq with ⟨middle, hfirst, hsecond⟩ | ⟨middle, hfirst, hsecond⟩
    · cases middle with
      | nil => exact .inl ⟨by rw [hfirst, List.append_nil], (List.cons.inj hsecond).1⟩
      | cons m middle =>
        obtain ⟨rfl, -⟩ := List.cons.inj hsecond
        exact (hinside hword hfirst.symm).elim
    · cases middle with
      | nil => exact .inl ⟨by rw [hfirst, List.append_nil], (List.cons.inj hsecond).1.symm⟩
      | cons m middle =>
        obtain ⟨rfl, -⟩ := List.cons.inj hsecond
        exact .inr ⟨middle, hfirst⟩
  · exact (hinside hword heq).elim
  · exact (hinside hbreak heq).elim

/-- Behind a separator a path does not become a single name. -/
theorem normalizeChars_cons_ne (hu : Unseparated name) (hn : isNestedChars rest = true) :
    normalizeChars (sep :: rest) ≠ sep :: name := by
  have hcut (cs : List Char) (hc : cut cs = none) : normalizeChars rest ≠ cs := by
    rintro rfl
    rw [isNestedChars, hc] at hn
    cases hn
  intro h
  cases hafter : afterPrototype? (sep :: rest) with
  | some behind =>
    -- The separator and the word behind it become `#`, but the word starts with a dot.
    have hdot : sep = '.' := by
      by_contra hne
      rw [afterPrototype?_cons hne] at hafter
      cases hafter
    have hhead := head?_dropDotAfterHash (hashPrototype (sep :: rest))
    rw [← normalizeChars, h, hashPrototype_of_afterPrototype? hafter, hdot] at hhead
    cases hhead
  | none =>
    rw [normalizeChars, hashPrototype_cons hafter, dropDotAfterHash.eq_def] at h
    split at h
    · next behind heq =>
      -- Behind `#` a dot is dropped, and the path itself starts with it.
      obtain ⟨-, hrest⟩ := List.cons.inj heq
      have hdot : dropDotAfterHash ('.' :: behind) = '.' :: dropDotAfterHash behind := rfl
      refine hcut ('.' :: name) ?_ ?_
      · rw [cut, step_separator rfl, unseparated_iff.1 hu]
        rfl
      · rw [normalizeChars, hrest, hdot, (List.cons.inj h).2]
    · next heq =>
      obtain ⟨-, rfl⟩ := List.cons.inj heq
      exact hcut _ (cut_eq_none (unseparated_iff.1 hu)) (List.cons.inj h).2
    · next heq => cases heq

/-! ## Plain paths -/

/-- A name without separators, quotes and brackets. -/
def PlainSegment (cs : List Char) : Prop := cs ≠ [] ∧ ∀ c ∈ cs, isSeparator c = false ∧ c ∉ delimiters

instance : Decidable (PlainSegment cs) :=
  decidable_of_iff ((!cs.isEmpty && cs.all fun c => !isSeparator c && !delimiters.contains c) = true)
    (by simp [PlainSegment])

/-- Plain names with one separator between any two of them. -/
inductive PlainPath : List Char → Prop
  | segment {name : List Char} (h : PlainSegment name) : PlainPath name
  | member {owner name : List Char} {sep : Char} (ho : PlainPath owner) (hsep : isSeparator sep = true)
    (hn : PlainSegment name) : PlainPath (owner ++ sep :: name)

/-- An owner whose last name is nothing but a line break, which is not read as a name. -/
def EndsInBreak (cs : List Char) : Prop := ∃ before sep, isSeparator sep = true ∧ cs = before ++ [sep, '\n']

namespace PlainSegment

theorem isSeparator_eq (h : PlainSegment cs) (hc : c ∈ cs) : isSeparator c = false := (h.2 c hc).1

theorem unseparated (h : PlainSegment cs) : Unseparated cs := by
  rintro before c after rfl -
  exact h.isSeparator_eq (by simp)

theorem spaced (h : PlainSegment cs) : Spaced cs := by
  unfold Spaced
  rw [List.isChain_iff_forall_rel_of_append_cons_cons]
  rintro a b before after rfl -
  exact h.isSeparator_eq (by simp)

end PlainSegment

namespace PlainPath

theorem ne_nil (h : PlainPath cs) : cs ≠ [] := by
  cases h with
  | segment h => exact h.1
  | member => simp

/-- A plain path starts with a name. -/
theorem isSeparator_head? (h : PlainPath cs) : ∀ c ∈ cs.head?, isSeparator c = false := by
  induction h with
  | segment h => exact fun c hc => h.isSeparator_eq (List.mem_of_mem_head? hc)
  | member ho _ _ ih =>
    intro c hc
    rw [List.head?_append_of_ne_nil _ ho.ne_nil] at hc
    exact ih c hc

/-- A plain path ends in a name. -/
theorem isSeparator_getLast? (h : PlainPath cs) : ∀ c ∈ cs.getLast?, isSeparator c = false := by
  intro c hc
  cases h with
  | segment h => exact h.isSeparator_eq (List.mem_of_mem_getLast? hc)
  | member _ _ hn =>
    rw [List.getLast?_append_of_ne_nil _ (List.cons_ne_nil _ _), List.getLast?_cons_of_ne_nil hn.1] at hc
    exact hn.isSeparator_eq (List.mem_of_mem_getLast? hc)

theorem spaced (h : PlainPath cs) : Spaced cs := by
  induction h with
  | segment h => exact h.spaced
  | member ho hsep hn ih =>
    unfold Spaced
    rw [List.isChain_append, List.isChain_cons]
    refine ⟨ih, ⟨fun c hc _ => hn.isSeparator_eq (List.mem_of_mem_head? hc), hn.spaced⟩, fun c hc b _ hs => ?_⟩
    rw [ho.isSeparator_getLast? c hc] at hs
    cases hs

end PlainPath

/-- A path that ends in the prototype word is not in normal form. -/
theorem not_normal_prototypeWord (cs : List Char) : ¬ Normal (cs ++ prototypeWord) := by
  intro h
  have hnone := (normalizeChars_eq_self_iff.1 h).1 prototypeWord (List.suffix_append cs prototypeWord)
  cases hnone

/-! ## Plain paths as owners -/

/-- At most one line break is dropped. -/
theorem exists_dropFinalBreak_append (cs : List Char) :
    ∃ trailing, (trailing = [] ∨ trailing = ['\n']) ∧ cs = dropFinalBreak cs ++ trailing := by
  unfold dropFinalBreak
  split
  · next rest h => exact ⟨['\n'], .inr rfl, by rw [← List.reverse_cons, ← h, List.reverse_reverse]⟩
  · exact ⟨[], .inl rfl, (List.append_nil cs).symm⟩

theorem dropFinalBreak_concat (cs : List Char) : dropFinalBreak (cs ++ ['\n']) = cs := by
  unfold dropFinalBreak
  rw [List.reverse_concat]
  exact List.reverse_reverse cs

/-- An owner that does not end in the prototype word is left as it is, or it loses its last character, which says how
its members belong to it. -/
theorem splitOwnerChars_cases (hword : ¬ prototypeWord <:+ dropFinalBreak cs) :
    (splitOwnerChars cs = (cs, none) ∧
      ∀ c ∈ (dropFinalBreak cs).getLast?, isSeparator c = true → dropFinalBreak cs = [c]) ∨
    ∃ owner sep scope, Scope.ofPunctuation? sep = some scope ∧ dropFinalBreak cs = owner ++ [sep] ∧
      splitOwnerChars cs = (owner, some scope) := by
  unfold splitOwnerChars
  dsimp only
  rw [if_neg (by rwa [List.isSuffixOf_iff_suffix])]
  split
  · next c c' rest hbody =>
    have hlast : dropFinalBreak cs = (c' :: rest).reverse ++ [c] := by
      rw [← List.reverse_cons, ← hbody, List.reverse_reverse]
    split
    · next scope hscope => exact .inr ⟨_, c, scope, hscope, hlast, rfl⟩
    · next hnone =>
      refine .inl ⟨rfl, fun d hd hsep => ?_⟩
      rw [hlast, List.getLast?_concat] at hd
      cases hd
      rw [isSeparator, hnone] at hsep
      cases hsep
  · next hshort =>
    refine .inl ⟨rfl, fun c hc _ => ?_⟩
    cases hrev : (dropFinalBreak cs).reverse with
    | nil =>
      rw [List.reverse_eq_nil_iff.1 hrev] at hc
      cases hc
    | cons d rest =>
      cases rest with
      | nil =>
        rw [List.getLast?_eq_head?_reverse, hrev] at hc
        cases hc
        rw [← List.reverse_reverse (dropFinalBreak cs), hrev]
        rfl
      | cons d' rest => exact absurd hrev (hshort d d' rest)

namespace PlainPath

variable (h : PlainPath cs)
include h

theorem normalizeChars_eq : normalizeChars cs = hashPrototype cs := h.spaced.normalizeChars_eq

/-- What a plain path states at its end, if it is read as an owner, is the scope of one last separator. -/
theorem splitOwnerChars_cases :
    (splitOwnerChars (normalizeChars cs) = (normalizeChars cs, none) ∧
      ∀ c ∈ (dropFinalBreak (normalizeChars cs)).getLast?, isSeparator c = false) ∨
    ∃ owner sep scope trailing, Scope.ofPunctuation? sep = some scope ∧ (trailing = [] ∨ trailing = ['\n']) ∧
      normalizeChars cs = owner ++ sep :: trailing ∧ splitOwnerChars (normalizeChars cs) = (owner, some scope) := by
  rw [h.normalizeChars_eq]
  have hhead := isSeparator_head?_hashPrototype h.isSeparator_head?
  obtain ⟨trailing, htrailing, happend⟩ := exists_dropFinalBreak_append (hashPrototype cs)
  have hword : ¬ prototypeWord <:+ dropFinalBreak (hashPrototype cs) := by
    rintro ⟨before, hbefore⟩
    have hsome : ∃ rest, afterPrototype? (prototypeWord ++ trailing) = some rest := by
      rcases htrailing with rfl | rfl
      · exact ⟨[], rfl⟩
      · exact ⟨['\n'], rfl⟩
    obtain ⟨rest, hrest⟩ := hsome
    have hsuffix : prototypeWord ++ trailing <:+ hashPrototype cs :=
      ⟨before, by rw [← List.append_assoc, hbefore, ← happend]⟩
    rw [afterPrototype?_of_suffix_hashPrototype hsuffix] at hrest
    cases hrest
  rcases NamePath.splitOwnerChars_cases hword with ⟨hsplit, hlast⟩ | ⟨owner, sep, scope, hscope, hbody, hsplit⟩
  · refine .inl ⟨hsplit, fun c hc => ?_⟩
    cases hsep : isSeparator c with
    | false => rfl
    | true =>
      -- A separator alone would be the whole path, which starts with a name.
      rw [hlast c hc hsep] at happend
      rw [happend] at hhead
      exact hsep.symm.trans (hhead c rfl)
  · exact .inr ⟨owner, sep, scope, trailing, hscope, htrailing, by rw [happend, hbody, List.append_assoc]; rfl, hsplit⟩

/-- The owner becomes shorter, unless it is left as it is. -/
theorem splitOwnerChars_length_lt (hs : splitOwnerChars (normalizeChars cs) = (owner, scope)) :
    (owner = cs ∧ scope = none) ∨ owner.length < cs.length := by
  have hle := normalizeChars_length_le cs
  rcases h.splitOwnerChars_cases with ⟨hsplit, -⟩ | ⟨owner', sep, scope', trailing, -, -, hpath, hsplit⟩
  · rw [hsplit] at hs
    cases hs
    by_cases hself : hashPrototype cs = cs
    · exact .inl ⟨h.normalizeChars_eq.trans hself, rfl⟩
    · rw [h.normalizeChars_eq]
      exact .inr (hashPrototype_length_lt hself)
  · rw [hsplit] at hs
    cases hs
    rw [hpath, List.length_append, List.length_cons] at hle
    exact .inr (by omega)

/-- **A plain path is an owner as it stands** just if it is in normal form and its last name is not a line break. -/
theorem splitOwnerChars_eq_self_iff :
    splitOwnerChars (normalizeChars cs) = (cs, none) ↔ Normal cs ∧ ¬ EndsInBreak cs := by
  rcases h.splitOwnerChars_cases with
    ⟨hsplit, hlast⟩ | ⟨owner, sep, scope, trailing, hscope, htrailing, hpath, hsplit⟩
  · rw [hsplit, Prod.mk.injEq]
    refine ⟨fun heq => ⟨heq.1, ?_⟩, fun heq => ⟨heq.1, rfl⟩⟩
    rintro ⟨before, sep, hsep, hcs⟩
    have hbody : dropFinalBreak (normalizeChars cs) = before ++ [sep] := by
      rw [heq.1, hcs, List.append_cons, dropFinalBreak_concat]
    have hnot := hlast sep (by rw [hbody, List.getLast?_concat]; rfl)
    exact Bool.noConfusion (hnot.symm.trans hsep)
  · refine iff_of_false (fun heq => ?_) ?_
    · rw [hsplit] at heq
      cases (Prod.mk.inj heq).2
    · rintro ⟨hnormal, hbreak⟩
      have hcs : cs = owner ++ sep :: trailing := hnormal.symm.trans hpath
      have hsep : isSeparator sep = true := Option.isSome_iff_exists.2 ⟨scope, hscope⟩
      rcases htrailing with rfl | rfl
      · have hlast := h.isSeparator_getLast? sep (by rw [hcs, List.getLast?_concat]; rfl)
        exact Bool.noConfusion (hlast.symm.trans hsep)
      · exact hbreak ⟨owner, sep, hsep, hcs⟩

theorem spaced_normalizeChars : Spaced (normalizeChars cs) := by
  rw [h.normalizeChars_eq]
  exact h.spaced.hashPrototype

/-- Behind its owner the path ends, or it goes on with the separator of the scope that it states. -/
theorem exists_normalizeChars_eq_append (hs : splitOwnerChars (normalizeChars cs) = (owner, scope))
    (hsep : Scope.ofPunctuation? sep = some (scope.getD .static)) :
    ∃ behind, normalizeChars cs = owner ++ behind ∧ ((behind = [] ∧ sep = '.') ∨ ∃ more, behind = sep :: more) ∧
      owner.getLast? ≠ some '#' := by
  rcases h.splitOwnerChars_cases with ⟨hsplit, hlast⟩ | ⟨owner', sep', scope', trailing, hscope, -, hpath, hsplit⟩
  · rw [hsplit] at hs
    cases hs
    have hdot := (ofPunctuation?_eq_some_iff.1 hsep).2
    refine ⟨[], (List.append_nil _).symm, .inl ⟨rfl, (List.cons.inj hdot).1.symm⟩, fun hhash => ?_⟩
    have hbody : dropFinalBreak (normalizeChars cs) = normalizeChars cs :=
      dropFinalBreak_eq_self (by rw [hhash]; decide)
    cases hlast '#' (by rw [hbody, hhash]; rfl)
  · rw [hsplit] at hs
    cases hs
    have hp := (ofPunctuation?_eq_some_iff.1 hscope).2.symm.trans (ofPunctuation?_eq_some_iff.1 hsep).2
    obtain rfl : sep' = sep := (List.cons.inj hp).1
    refine ⟨sep' :: trailing, hpath, .inr ⟨trailing, rfl⟩, fun hhash => ?_⟩
    obtain ⟨before, rfl⟩ := List.getLast?_eq_some_iff.1 hhash
    have hin : ['#', sep'] <:+: normalizeChars cs := ⟨before, trailing, by rw [hpath]; simp⟩
    exact h.spaced_normalizeChars.not_infix rfl (Option.isSome_iff_exists.2 ⟨_, hscope⟩) hin

/-- **Below the owner that a plain path names, a path is brought to normal form on its own.** -/
theorem normalizeChars_below (hs : splitOwnerChars (normalizeChars cs) = (owner, scope))
    (hsep : Scope.ofPunctuation? sep = some (scope.getD .static)) (rest : List Char) :
    normalizeChars (owner ++ sep :: rest) = owner ++ normalizeChars (sep :: rest) := by
  obtain ⟨behind, hpath, hbehind, hlast⟩ := h.exists_normalizeChars_eq_append hs hsep
  refine normalizeChars_append_of_kept (fun tail ht hne => ?_) (fun hin => ?_) hlast
  · by_contra hsome
    -- A prototype word that would be replaced there would have been replaced in the path.
    have hnone : afterPrototype? (tail ++ behind) = none := by
      obtain ⟨before, rfl⟩ := ht
      have hsuffix : tail ++ behind <:+ hashPrototype cs :=
        ⟨before, by rw [← h.normalizeChars_eq, hpath, List.append_assoc]⟩
      exact afterPrototype?_of_suffix_hashPrototype hsuffix
    rcases afterPrototype?_append_separator hne (Option.isSome_iff_exists.2 ⟨_, hsep⟩) hsome with
      ⟨rfl, rfl⟩ | ⟨more, rfl⟩
    · rcases hbehind with ⟨rfl, -⟩ | ⟨more, rfl⟩
      · cases hnone
      · rw [afterPrototype?_eq_some_iff.2 (.inl rfl)] at hnone
        cases hnone
    · rw [List.append_assoc, List.cons_append, afterPrototype?_eq_some_iff.2 (.inl rfl)] at hnone
      cases hnone
  · have howner : owner <+: normalizeChars cs := ⟨behind, hpath.symm⟩
    exact h.spaced_normalizeChars.not_infix rfl rfl (hin.trans howner.isInfix)

end PlainPath

section Strings

variable {path owner rest name : String}

theorem splitOwner_normalize_eq_iff :
    splitOwner (normalize path) = (owner, scope) ↔
      splitOwnerChars (normalizeChars path.toList) = (owner.toList, scope) := by
  unfold splitOwner normalize
  rw [String.toList_ofList]
  generalize splitOwnerChars (normalizeChars path.toList) = parts
  obtain ⟨owner', scope'⟩ := parts
  rw [Prod.mk.injEq, Prod.mk.injEq, String.ofList_eq]

/-- Below the owner that a plain path names, a path of several parts is not split into that owner and a name. -/
theorem PlainPath.split_below_ne (h : PlainPath path.toList)
    (hs : splitOwner (normalize path) = (owner, scope)) (hn : isNested rest = true) :
    split (owner ++ separator (some (scope.getD .static)) ++ rest) ≠
      (some owner, some (scope.getD .static), name) := by
  intro hsplit
  obtain ⟨hscope, hpath, -, -, -, hu⟩ := split_eq_some_iff.1 hsplit
  obtain ⟨sep, hsep, hp⟩ := exists_punctuation hscope
  have hchars (tail : String) :
      (owner ++ separator (some (scope.getD .static)) ++ tail).toList = owner.toList ++ sep :: tail.toList := by
    simp [separator, hp]
  have hbelow : owner.toList ++ normalizeChars (sep :: rest.toList) = owner.toList ++ sep :: name.toList := by
    rw [← h.normalizeChars_below (splitOwner_normalize_eq_iff.1 hs) hsep, ← hchars, ← hchars, ← hpath, normalize,
      String.toList_ofList]
  exact normalizeChars_cons_ne hu hn (List.append_cancel_left hbelow)

end Strings

end SymbolDocs.NamePath
