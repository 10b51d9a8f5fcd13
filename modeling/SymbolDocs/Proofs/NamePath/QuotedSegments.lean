import SymbolDocs.Proofs.NamePath.Separators

/-!
# Quoted segments

A path is brought to normal form before it is cut, and the normal form knows no quotes. Where all that it replaces is
inside quotes, it does not move the cut: the path is cut where it would be cut as it is written, and each of its parts
is brought to normal form on its own (`cut_normalizeChars`). So quoted segments are opaque to the place of the cut, but
not to what is written in them: the parts make up the path again just if no prototype word with a dot behind it and no
dot behind `#` is quoted (`split_quoted`).
-/

namespace SymbolDocs.NamePath

open SymbolDocs.Text

variable {cs xs ys word : List Char} {n : Nesting} {c : Char}

/-! ## Words in quotes -/

/-- Wherever the word occurs, a quote is open. -/
def OnlyQuoted (n : Nesting) (word cs : List Char) : Prop :=
  ∀ before after, cs = before ++ (word ++ after) → (n.read before).quote.isSome = true

theorem onlyQuoted_cons :
    OnlyQuoted n word (c :: cs) ↔ (word <+: c :: cs → n.quote.isSome = true) ∧ OnlyQuoted (n.step c) word cs := by
  constructor
  · intro h
    refine ⟨?_, fun before after hcs => h (c :: before) after (by rw [hcs, List.cons_append])⟩
    rintro ⟨after, hafter⟩
    exact h [] after hafter.symm
  · rintro ⟨hhere, hrest⟩ before after heq
    cases before with
    | nil => exact hhere ⟨after, heq.symm⟩
    | cons b before =>
      obtain ⟨rfl, hcs⟩ := List.cons.inj heq
      exact hrest before after hcs

theorem onlyQuoted_nil : OnlyQuoted n word [] ↔ (word = [] → n.quote.isSome = true) := by
  constructor
  · rintro h rfl
    exact h [] [] rfl
  · intro h before after heq
    obtain ⟨rfl, hword⟩ := List.append_eq_nil_iff.1 heq.symm
    exact h (List.append_eq_nil_iff.1 hword).1

instance decidableOnlyQuoted (word : List Char) : (n : Nesting) → (cs : List Char) → Decidable (OnlyQuoted n word cs)
  | _, [] => decidable_of_iff _ onlyQuoted_nil.symm
  | n, c :: cs =>
    have := decidableOnlyQuoted word (n.step c) cs
    decidable_of_iff _ onlyQuoted_cons.symm

theorem OnlyQuoted.of_append (h : OnlyQuoted n word (xs ++ ys)) : OnlyQuoted (n.read xs) word ys := by
  intro before after hys
  rw [← Nesting.read_append]
  exact h (xs ++ before) after (by rw [hys, List.append_assoc])

/-! ## The cut -/

/-- The parts around a cut, each of them changed on its own. -/
def mapSides (f : List Char → List Char) (parts : List Char × Char × List Char) : List Char × Char × List Char :=
  (f parts.1, parts.2.1, f parts.2.2)

/-- Nothing is cut where a quote is open. -/
theorem lastCut_cons_quoted (hs : n.Sound) (hquote : n.quote.isSome = true) (hc : c ∉ delimiters) (cs : List Char) :
    lastCut n (c :: cs) = (lastCut n cs).map fun parts => (c :: parts.1, parts.2) := by
  have htop : n.isTop = false := by rw [Nesting.isTop, Option.isNone_eq_false_iff.2 hquote, Bool.false_and]
  rw [lastCut, hs.step_eq_self hc, htop]
  cases lastCut n cs <;> rfl

theorem lastCut_append_quoted (hs : n.Sound) (hquote : n.quote.isSome = true) (hw : ∀ c ∈ word, c ∉ delimiters)
    (cs : List Char) : lastCut n (word ++ cs) = (lastCut n cs).map fun parts => (word ++ parts.1, parts.2) := by
  induction word with
  | nil => simp
  | cons c word ih =>
    rw [List.forall_mem_cons] at hw
    rw [List.cons_append, lastCut_cons_quoted hs hquote hw.1, ih hw.2, Option.map_map]
    rfl

/-- The word `.prototype` with a dot behind it. -/
def dottedPrototype : List Char := prototypeWord ++ ['.']

theorem dottedPrototype_not_delimiters : ∀ c ∈ dottedPrototype, c ∉ delimiters :=
  List.forall_mem_append.2 ⟨prototypeWord_not_delimiters, List.forall_mem_singleton.2 (by decide)⟩

theorem dottedPrototype_append (cs : List Char) : dottedPrototype ++ cs = prototypeWord ++ '.' :: cs := by
  rw [dottedPrototype, List.append_assoc, List.singleton_append]

theorem Nesting.Sound.read_dotted (hs : n.Sound) (cs : List Char) : n.read (dottedPrototype ++ cs) = n.read cs := by
  rw [Nesting.read_append, hs.read_eq_self dottedPrototype_not_delimiters]

theorem OnlyQuoted.of_dotted (h : OnlyQuoted n word (dottedPrototype ++ cs)) (hs : n.Sound) : OnlyQuoted n word cs := by
  have hbehind := h.of_append
  rwa [hs.read_eq_self dottedPrototype_not_delimiters] at hbehind

theorem OnlyQuoted.quote_of_dotted (h : OnlyQuoted n prototypeWord (dottedPrototype ++ cs)) :
    n.quote.isSome = true :=
  h [] ('.' :: cs) (dottedPrototype_append cs)

/-- Behind the end of a quoted prototype word its quote has to be closed, so the path goes on with it. -/
theorem eq_dottedPrototype_append (hs : n.Sound) (hclosed : (n.read cs).quote = none)
    (hq : OnlyQuoted n prototypeWord cs) {rest : List Char} (h : afterPrototype? cs = some rest) :
    cs = dottedPrototype ++ rest := by
  have hopen (word behind : List Char) (hw : ∀ c ∈ word, c ∉ delimiters) (hcs : cs = word)
      (hword : cs = prototypeWord ++ behind) : False := by
    rw [hcs, hs.read_eq_self hw] at hclosed
    have hsome := hq [] behind hword
    rw [Nesting.read, List.foldl_nil, hclosed] at hsome
    cases hsome
  have hbreak : ∀ c ∈ prototypeWord ++ ['\n'], c ∉ delimiters :=
    List.forall_mem_append.2 ⟨prototypeWord_not_delimiters, List.forall_mem_singleton.2 (by decide)⟩
  rcases afterPrototype?_eq_some_iff.1 h with hcs | ⟨hcs, -⟩ | ⟨hcs, -⟩
  · rw [hcs, dottedPrototype_append]
  · exact (hopen _ [] prototypeWord_not_delimiters hcs (hcs.trans (List.append_nil _).symm)).elim
  · exact (hopen _ ['\n'] hbreak hcs hcs).elim

/-- **Prototype words that are replaced inside quotes do not move the cut.** -/
theorem Nesting.Sound.lastCut_hashPrototype_quoted (hs : n.Sound) (hclosed : (n.read cs).quote = none)
    (hq : OnlyQuoted n prototypeWord cs) :
    lastCut n (hashPrototype cs) = (lastCut n cs).map (mapSides hashPrototype) := by
  fun_induction hashPrototype cs generalizing n with
  | case1 cs rest hafter _ ih =>
    obtain rfl := eq_dottedPrototype_append hs hclosed hq hafter
    have hquote := hq.quote_of_dotted
    rw [hs.read_dotted] at hclosed
    rw [lastCut_cons_quoted hs hquote (by decide), ih hs hclosed (hq.of_dotted hs),
      lastCut_append_quoted hs hquote dottedPrototype_not_delimiters]
    cases lastCut n rest with
    | none => rfl
    | some parts => simp only [Option.map_some, mapSides, dottedPrototype_append, hashPrototype_dotted]
  | case2 => rfl
  | case3 c cs hnone ih =>
    simp only [lastCut, ih (hs.step c) hclosed (onlyQuoted_cons.1 hq).2]
    cases hcut : lastCut (n.step c) cs with
    | none =>
      simp only [Option.map_none]
      split
      · simp only [Option.map_some, mapSides, hashPrototype_eq_nil_iff.2]
      · rfl
    | some parts =>
      obtain ⟨before, sep, after⟩ := parts
      obtain ⟨rfl, htop, -, -⟩ := lastCut_eq_some_iff.1 hcut
      -- No quote is open in front of the cut, so a prototype word that ends there would not be quoted.
      have hbefore : afterPrototype? (c :: before) = none := by
        rw [Option.eq_none_iff_forall_not_mem]
        intro rest hrest
        have hclosed' : (n.read (c :: before)).quote = none := congrArg Nesting.quote (eq_of_isTop htop)
        have hq' : OnlyQuoted n prototypeWord (c :: before) := fun b a hb =>
          hq b (a ++ sep :: after) (by rw [← List.cons_append, hb, List.append_assoc, List.append_assoc])
        have heq := eq_dottedPrototype_append hs hclosed' hq' hrest
        have hsome : afterPrototype? (c :: (before ++ sep :: after)) = some (rest ++ sep :: after) := by
          refine afterPrototype?_eq_some_iff.2 (.inl ?_)
          rw [← List.cons_append, heq, List.append_assoc, dottedPrototype_append]
        rw [hnone] at hsome
        cases hsome
      simp only [Option.map_some, mapSides, hashPrototype_cons hbefore]

/-- **Dots that are dropped inside quotes do not move the cut.** -/
theorem Nesting.Sound.lastCut_dropDotAfterHash_quoted (hs : n.Sound) (hq : OnlyQuoted n ['#', '.'] cs) :
    lastCut n (dropDotAfterHash cs) = (lastCut n cs).map (mapSides dropDotAfterHash) := by
  fun_induction dropDotAfterHash cs generalizing n with
  | case1 cs ih =>
    have hquote : n.quote.isSome = true := hq [] cs rfl
    have hread : n.read ['#', '.'] = n :=
      hs.read_eq_self (List.forall_mem_cons.2 ⟨by decide, List.forall_mem_singleton.2 (by decide)⟩)
    have hq' : OnlyQuoted (n.read ['#', '.']) ['#', '.'] cs := OnlyQuoted.of_append hq
    rw [hread] at hq'
    rw [lastCut_cons_quoted hs hquote (by decide), ih hs hq', lastCut_cons_quoted hs hquote (by decide),
      lastCut_cons_quoted hs hquote (by decide)]
    cases lastCut n cs with
    | none => rfl
    | some parts => simp only [Option.map_some, mapSides, dropDotAfterHash]
  | case2 c cs hnot ih =>
    simp only [lastCut, ih (hs.step c) (onlyQuoted_cons.1 hq).2]
    cases hcut : lastCut (n.step c) cs with
    | none =>
      simp only [Option.map_none]
      split <;> rfl
    | some parts =>
      obtain ⟨before, sep, after⟩ := parts
      obtain ⟨rfl, -, -, -⟩ := lastCut_eq_some_iff.1 hcut
      have hbefore : dropDotAfterHash (c :: before) = c :: dropDotAfterHash before := by
        rw [dropDotAfterHash]
        rintro tail rfl rfl
        exact hnot (tail ++ sep :: after) rfl rfl
      simp only [Option.map_some, mapSides, hbefore]
  | case3 => rfl

/-- A dot behind `#` is still in quotes when the prototype words are replaced. -/
theorem OnlyQuoted.hashPrototype (hs : n.Sound) (hclosed : (n.read cs).quote = none)
    (hq : OnlyQuoted n prototypeWord cs) (hd : OnlyQuoted n ['#', '.'] cs) :
    OnlyQuoted n ['#', '.'] (hashPrototype cs) := by
  fun_induction NamePath.hashPrototype cs generalizing n with
  | case1 cs rest hafter _ ih =>
    obtain rfl := eq_dottedPrototype_append hs hclosed hq hafter
    have hhash : n.step '#' = n := hs.step_eq_self (by decide)
    rw [hs.read_dotted] at hclosed
    rw [onlyQuoted_cons, hhash]
    exact ⟨fun _ => hq.quote_of_dotted, ih hs hclosed (hq.of_dotted hs) (hd.of_dotted hs)⟩
  | case2 => exact hd
  | case3 c cs _ ih =>
    rw [onlyQuoted_cons] at hq hd ⊢
    refine ⟨?_, ih (hs.step c) hclosed hq.2 hd.2⟩
    rintro ⟨tail, htail⟩
    obtain ⟨rfl, hrest⟩ := List.cons.inj htail
    have hword : '#' ∉ ['.'] := by decide
    obtain ⟨tail', rfl, -⟩ := exists_of_hashPrototype_eq_append hword hrest.symm
    exact hd.1 ⟨tail', rfl⟩

/-- A separator at the very start is no cut. -/
theorem cut_eq_filter (cs : List Char) : cut cs = (lastCut {} cs).filter fun parts => !parts.1.isEmpty := by
  cases cs with
  | nil => rfl
  | cons c cs =>
    rw [cut, lastCut]
    cases lastCut (Nesting.step {} c) cs with
    | some parts => rfl
    | none =>
      dsimp only [Option.map_none]
      split <;> rfl

theorem normalizeChars_eq_nil_iff : normalizeChars cs = [] ↔ cs = [] := by
  refine ⟨fun h => ?_, ?_⟩
  · by_contra hne
    exact normalizeChars_ne_nil hne h
  · rintro rfl
    exact List.eq_nil_of_length_eq_zero (Nat.le_zero.1 (normalizeChars_length_le []))

section Paths

variable (hclosed : (Nesting.read {} cs).quote = none) (hword : OnlyQuoted {} prototypeWord cs)
  (hdot : OnlyQuoted {} ['#', '.'] cs)
include hclosed hword hdot

/-- **Quoted segments are opaque to the place of the cut.** -/
theorem cut_normalizeChars : cut (normalizeChars cs) = (cut cs).map (mapSides normalizeChars) := by
  have hlast : lastCut {} (normalizeChars cs) = (lastCut {} cs).map (mapSides normalizeChars) := by
    rw [normalizeChars, Nesting.Sound.start.lastCut_dropDotAfterHash_quoted
      (OnlyQuoted.hashPrototype Nesting.Sound.start hclosed hword hdot),
      Nesting.Sound.start.lastCut_hashPrototype_quoted hclosed hword, Option.map_map]
    rfl
  rw [cut_eq_filter, cut_eq_filter, hlast]
  cases lastCut {} cs with
  | none => rfl
  | some parts =>
    have hempty : (normalizeChars parts.1).isEmpty = parts.1.isEmpty := by
      rw [Bool.eq_iff_iff, List.isEmpty_iff, List.isEmpty_iff, normalizeChars_eq_nil_iff]
    simp only [Option.map_some, Option.filter_some, mapSides, hempty]
    split <;> rfl

/-- Such a path is in normal form just if nothing in its quotes is replaced. -/
theorem normal_iff_of_quoted : Normal cs ↔ ¬ dottedPrototype <:+: cs ∧ ¬ ['#', '.'] <:+: cs := by
  rw [normalizeChars_eq_self_iff]
  refine and_congr_left fun _ => ⟨?_, ?_⟩
  · rintro h ⟨before, after, rfl⟩
    have hnone := h (dottedPrototype ++ after) ⟨before, by rw [List.append_assoc]⟩
    rw [dottedPrototype_append, afterPrototype?_eq_some_iff.2 (.inl rfl)] at hnone
    cases hnone
  · rintro h tail ⟨before, rfl⟩
    rw [Option.eq_none_iff_forall_not_mem]
    intro rest hrest
    rw [Nesting.read_append] at hclosed
    have heq := eq_dottedPrototype_append (Nesting.Sound.start.read before) hclosed hword.of_append hrest
    exact h ⟨before, rest, by rw [heq, List.append_assoc]⟩

end Paths

/-! ## Splitting as written -/

/-- The parts of a path as it is written: what `splitChars` makes of it without a normal form. -/
def partsAsWritten (cs : List Char) : Parts :=
  match cut cs with
  | some (before, sep, c :: after) =>
    { memberof := some before, scope := Scope.ofPunctuation? sep, name := c :: after }
  | _ => { memberof := none, scope := none, name := cs }

section Strings

variable {path : String}

/-- The owner of a path as it is written, how it belongs to it, and its own name. -/
def splitAsWritten (path : String) : Option String × Option Scope × String :=
  let parts := partsAsWritten path.toList
  (parts.memberof.map String.ofList, parts.scope, String.ofList parts.name)

/-- Splitting cuts the path and changes nothing: the parts make it up again. -/
def CutsOnly (path : String) : Prop :=
  match split path with
  | (none, _, name) => name = path
  | (some owner, scope, name) => owner ++ separator scope ++ name = path

/-- The parts make up the normal form of a path. -/
theorem cutsOnly_iff : CutsOnly path ↔ normalize path = path := by
  unfold CutsOnly
  rcases split_cases path with hs | ⟨owner, scope, name, -, -, -, hpath, hs⟩
  · rw [hs]
  · rw [hs, hpath]

instance : Decidable (CutsOnly path) := decidable_of_iff _ cutsOnly_iff.symm

theorem splitChars_of_quoted (hclosed : (Nesting.read {} cs).quote = none) (hword : OnlyQuoted {} prototypeWord cs)
    (hdot : OnlyQuoted {} ['#', '.'] cs) :
    splitChars cs =
      { memberof := (partsAsWritten cs).memberof.map normalizeChars
        scope := (partsAsWritten cs).scope
        name := normalizeChars (partsAsWritten cs).name } := by
  unfold splitChars partsAsWritten
  dsimp only
  rw [cut_normalizeChars hclosed hword hdot]
  cases cut cs with
  | none => rfl
  | some parts =>
    obtain ⟨before, sep, after⟩ := parts
    cases after with
    | nil =>
      have hnil : normalizeChars [] = [] := normalizeChars_eq_nil_iff.2 rfl
      simp only [Option.map_some, mapSides, hnil, Option.map_none]
    | cons c after =>
      obtain ⟨c', after', hafter⟩ := List.exists_cons_of_ne_nil (normalizeChars_ne_nil (List.cons_ne_nil c after))
      simp only [Option.map_some, mapSides, hafter]

/-- **Splitting a path with closed quotes in which every prototype word and every dot behind `#` is quoted.** The path
is cut where it is cut as it is written, but each part is brought to normal form, quoted segments included. So the parts
make up the path again just if none of those dots is there to be replaced. -/
theorem split_quoted (hclosed : (Nesting.read {} path.toList).quote = none)
    (hword : OnlyQuoted {} prototypeWord path.toList) (hdot : OnlyQuoted {} ['#', '.'] path.toList) :
    split path = ((splitAsWritten path).1.map normalize, (splitAsWritten path).2.1,
        normalize (splitAsWritten path).2.2) ∧
      (CutsOnly path ↔ ¬ dottedPrototype <:+: path.toList ∧ ¬ ['#', '.'] <:+: path.toList) := by
  constructor
  · have hnormalize : normalize ∘ String.ofList = String.ofList ∘ normalizeChars := by
      funext cs
      simp only [Function.comp_apply, normalize, String.toList_ofList]
    simp only [split, splitAsWritten, splitChars_of_quoted hclosed hword hdot, Option.map_map, hnormalize,
      normalize, String.toList_ofList]
  · rw [cutsOnly_iff, ← normal_iff_of_quoted hclosed hword hdot, normalize, String.ofList_eq]
    rfl

/-- A quoted segment with separators, brackets and the prototype word, none of them with a dot behind. -/
theorem split_quoted_channel :
    let path := "chat.\"#a~(b.prototype\".open"
    (Nesting.read {} path.toList).quote = none ∧ OnlyQuoted {} prototypeWord path.toList ∧
      OnlyQuoted {} ['#', '.'] path.toList ∧ split path = (some "chat.\"#a~(b.prototype\"", some .static, "open") ∧
      CutsOnly path := by
  intro path
  have hclosed : (Nesting.read {} path.toList).quote = none := by decide +kernel
  have hword : OnlyQuoted {} prototypeWord path.toList := by decide +kernel
  have hdot : OnlyQuoted {} ['#', '.'] path.toList := by decide +kernel
  have hboth := split_quoted hclosed hword hdot
  have hsplit : split path = (some "chat.\"#a~(b.prototype\"", some .static, "open") := by decide +kernel
  exact ⟨hclosed, hword, hdot, hsplit, hboth.2.2 (by decide +kernel)⟩

/-- **Quoted segments are not kept as they are written**: the prototype word in this one becomes `#`. -/
theorem not_cutsOnly_quoted :
    let path := "Foo.\"a.prototype.b\".bar"
    (Nesting.read {} path.toList).quote = none ∧ OnlyQuoted {} prototypeWord path.toList ∧
      OnlyQuoted {} ['#', '.'] path.toList ∧ split path = (some "Foo.\"a#b\"", some .static, "bar") ∧
      ¬ CutsOnly path := by
  decide +kernel

end Strings

end SymbolDocs.NamePath
