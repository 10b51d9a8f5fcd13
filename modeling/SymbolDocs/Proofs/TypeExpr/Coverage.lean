import SymbolDocs.Proofs.Outcome
import SymbolDocs.TypeExpr.Parser

/-!
# The tokens of a text cover it

The reader of types goes over the pieces of its text: its tokens in their order, and behind them the end of the text.
`tokensOf_covers` says that each token is the part of the text at its offset and is not empty, that no two of them
overlap, and that all the text between the pieces is blank. A step of `tokensFrom` skips a blank or takes a lexeme, and
both keep this from the offset of the step on (`CoversFrom`).
-/

namespace SymbolDocs.TypeExpr

open SymbolDocs.Text

/-! ## Pieces of a text -/

/-- The offset behind a token. -/
def Token.stop (t : Token) : Nat := t.pos + t.lexeme.chars.length

/-- What the reader meets at some offset: a lexeme, or none at the end of the text. -/
structure Piece where
  lexeme : Option Lexeme
  pos : Nat
  deriving DecidableEq, Repr

namespace Piece

/-- The characters of a piece; the end has none. -/
def chars (p : Piece) : List Char := (p.lexeme.map (·.chars)).getD []

/-- The offset behind a piece. -/
def stop (p : Piece) : Nat := p.pos + p.chars.length

end Piece

/-- A token as a piece. -/
def Token.piece (t : Token) : Piece := ⟨some t.lexeme, t.pos⟩

/-- The pieces that the reader has ahead, where `stop` is the offset of the end of the text. -/
def pieces (stop : Nat) (ts : List Token) : List Piece := ts.map Token.piece ++ [⟨none, stop⟩]

@[simp] theorem Token.chars_piece (t : Token) : t.piece.chars = t.lexeme.chars := rfl

@[simp] theorem Token.pos_piece (t : Token) : t.piece.pos = t.pos := rfl

@[simp] theorem Token.stop_piece (t : Token) : t.piece.stop = t.stop := rfl

/-- The pieces cover the text: all but the last are lexemes with the characters at their offset, one behind the other
with blanks between them, and the last is the end. -/
structure Covers (cs : List Char) (ps : List Piece) : Prop where
  slice : ∀ p ∈ ps, cs.extract p.pos p.stop = p.chars
  filled : ∀ p ∈ ps.dropLast, p.lexeme ≠ none ∧ p.chars ≠ []
  ordered : ps.Pairwise fun p q => p.pos < q.pos ∧ p.stop ≤ q.pos
  blank : ∀ i c, cs[i]? = some c → (∀ p ∈ ps, i < p.pos ∨ p.stop ≤ i) → isBlank c = true
  finish : ps.getLast? = some ⟨none, cs.length⟩

/-! ## One step -/

/-- The tokens cover the text from the offset on. -/
structure CoversFrom (all : List Char) (pos : Nat) (ts : List Token) : Prop where
  slice : ∀ t ∈ ts, t.lexeme.chars ≠ [] ∧ t.lexeme.chars <+: all.drop t.pos
  behind : ∀ t ∈ ts, pos ≤ t.pos
  ordered : ts.Pairwise fun t u => t.stop ≤ u.pos
  blank : ∀ i c, pos ≤ i → all[i]? = some c → (∀ t ∈ ts, i < t.pos ∨ t.stop ≤ i) → isBlank c = true

variable {all cs rest : List Char} {pos : Nat} {c : Char} {l : Lexeme} {ts : List Token}

namespace CoversFrom

/-- At the end of the text there is nothing to cover. -/
theorem nil (h : all.drop pos = []) : CoversFrom all pos [] where
  slice := List.forall_mem_nil _
  behind := List.forall_mem_nil _
  ordered := .nil
  blank i c hi hc _ := by
    have hlen := List.drop_eq_nil_iff.1 h
    rw [List.getElem?_eq_none (Nat.le_trans hlen hi)] at hc
    cases hc

/-- A blank is skipped. -/
theorem skip (hc : all[pos]? = some c) (hb : isBlank c = true) (h : CoversFrom all (pos + 1) ts) :
    CoversFrom all pos ts where
  slice := h.slice
  behind t ht := Nat.le_of_succ_le (h.behind t ht)
  ordered := h.ordered
  blank i d hi hd hout := by
    rcases Nat.eq_or_lt_of_le hi with rfl | hlt
    · rw [hc] at hd
      cases hd
      exact hb
    · exact h.blank i d hlt hd hout

/-- A lexeme is taken. -/
theorem take (hne : l.chars ≠ []) (hl : l.chars <+: all.drop pos) (h : CoversFrom all (pos + l.chars.length) ts) :
    CoversFrom all pos (⟨l, pos⟩ :: ts) where
  slice := List.forall_mem_cons.2 ⟨⟨hne, hl⟩, h.slice⟩
  behind := List.forall_mem_cons.2 ⟨Nat.le_refl _, fun t ht => Nat.le_trans (Nat.le_add_right _ _) (h.behind t ht)⟩
  ordered := List.pairwise_cons.2 ⟨h.behind, h.ordered⟩
  blank i d hi hd hout := by
    obtain ⟨hfirst, hothers⟩ := List.forall_mem_cons.1 hout
    rcases hfirst with hlt | hstop
    · exact absurd hi (Nat.not_le_of_lt hlt)
    · exact h.blank i d hstop hd hothers

end CoversFrom

/-! ## The run -/

theorem chars_ne_nil_of_scanLexeme (h : scanLexeme pos c cs = .ok (l, rest)) : l.chars ≠ [] := by
  intro hnil
  have hlen := scanLexeme_length h
  have happ := scanLexeme_append h
  rw [hnil, List.nil_append] at happ
  rw [← happ, List.length_cons] at hlen
  exact Nat.not_succ_le_self _ hlen

/-- What is read from an offset on covers the text from there on. -/
theorem coversFrom_of_tokensFrom (hcs : all.drop pos = cs) (h : tokensFrom pos cs = .ok ts) :
    CoversFrom all pos ts := by
  fun_induction tokensFrom pos cs generalizing ts with
  | case1 =>
    cases h
    exact .nil hcs
  | case2 pos c cs hb ih =>
    have hc : all[pos]? = some c := by rw [← List.head?_drop, hcs]; rfl
    have hdrop : all.drop (pos + 1) = cs := by rw [← List.drop_drop, hcs]; rfl
    exact .skip hc hb (ih hdrop h)
  | case3 => cases h
  | case4 pos c cs _ l rest hl _ ih =>
    obtain ⟨ts', hts, rfl⟩ := map_eq_ok.1 h
    have happ := scanLexeme_append hl
    -- Reading goes on at the offset behind the lexeme.
    have hnext : pos + (cs.length + 1 - rest.length) = pos + l.chars.length := by
      have := congrArg List.length happ
      rw [List.length_cons, List.length_append] at this
      omega
    have hdrop : all.drop (pos + l.chars.length) = rest := by
      rw [← List.drop_drop, hcs, happ, List.drop_left]
    have hprefix : l.chars <+: all.drop pos := by
      rw [hcs, happ]
      exact List.prefix_append _ _
    rw [hnext] at hts ih
    exact .take (chars_ne_nil_of_scanLexeme hl) hprefix (ih hdrop hts)

/-- A token ends inside the text. -/
theorem CoversFrom.stop_le (h : CoversFrom all pos ts) : ∀ t ∈ ts, t.stop ≤ all.length := by
  intro t ht
  obtain ⟨hne, hprefix⟩ := h.slice t ht
  have hlen := hprefix.length_le
  have hpos := List.length_pos_iff.2 hne
  rw [List.length_drop] at hlen
  unfold Token.stop
  omega

/-- A token starts before it ends. -/
theorem CoversFrom.pos_lt_stop (h : CoversFrom all pos ts) : ∀ t ∈ ts, t.pos < t.stop := by
  intro t ht
  have := List.length_pos_iff.2 (h.slice t ht).1
  unfold Token.stop
  omega

/-- Tokens that cover a text from its start cover it together with its end. -/
theorem CoversFrom.covers (h : CoversFrom all 0 ts) : Covers all (pieces all.length ts) where
  slice := by
    refine List.forall_mem_append.2 ⟨List.forall_mem_map.2 fun t ht => ?_, List.forall_mem_singleton.2 ?_⟩
    · have hlen : t.stop - t.pos = t.lexeme.chars.length := Nat.add_sub_cancel_left ..
      rw [Token.pos_piece, Token.stop_piece, Token.chars_piece, List.extract_eq_take_drop, hlen]
      exact (List.prefix_iff_eq_take.1 (h.slice t ht).2).symm
    · simp [Piece.stop, Piece.chars]
  filled := by
    rw [pieces, List.dropLast_concat]
    exact List.forall_mem_map.2 fun t ht => ⟨nofun, (h.slice t ht).1⟩
  ordered := by
    have htokens : ts.Pairwise fun t u => t.pos < u.pos ∧ t.stop ≤ u.pos :=
      h.ordered.imp_of_mem fun ht _ hle => ⟨Nat.lt_of_lt_of_le (h.pos_lt_stop _ ht) hle, hle⟩
    refine List.pairwise_append.2 ⟨List.pairwise_map.2 htokens, List.pairwise_singleton _ _, ?_⟩
    refine List.forall_mem_map.2 fun t ht => List.forall_mem_singleton.2 ?_
    exact ⟨Nat.lt_of_lt_of_le (h.pos_lt_stop t ht) (h.stop_le t ht), h.stop_le t ht⟩
  blank i c hc hout := by
    obtain ⟨htokens, -⟩ := List.forall_mem_append.1 hout
    exact h.blank i c (Nat.zero_le i) hc (List.forall_mem_map.1 htokens)
  finish := List.getLast?_concat

/-- **The tokens of a text cover it.** Each of them is the part of the text at its offset and is not empty, their
offsets grow and they do not overlap, every character that is in none of them is blank, and behind them all, at the
length of the text, there is its end and no other. -/
theorem tokensOf_covers (h : tokensOf cs = .ok ts) : Covers cs (pieces cs.length ts) :=
  (coversFrom_of_tokensFrom rfl h).covers

theorem tokensOf_covers_quoted :
    tokensOf " a.'b\\' c'[] | -1.5 ".toList =
        .ok [⟨.name "a.'b\\' c'", 1⟩, ⟨.mark .openBracket, 10⟩, ⟨.mark .closeBracket, 11⟩, ⟨.mark .bar, 13⟩,
          ⟨.number "-1.5", 15⟩] ∧
      Covers " a.'b\\' c'[] | -1.5 ".toList
        [⟨some (.name "a.'b\\' c'"), 1⟩, ⟨some (.mark .openBracket), 10⟩, ⟨some (.mark .closeBracket), 11⟩,
          ⟨some (.mark .bar), 13⟩, ⟨some (.number "-1.5"), 15⟩, ⟨none, 20⟩] := by
  have h : tokensOf " a.'b\\' c'[] | -1.5 ".toList =
      .ok [⟨.name "a.'b\\' c'", 1⟩, ⟨.mark .openBracket, 10⟩, ⟨.mark .closeBracket, 11⟩, ⟨.mark .bar, 13⟩,
        ⟨.number "-1.5", 15⟩] := by with_unfolding_all rfl
  exact ⟨h, tokensOf_covers h⟩

end SymbolDocs.TypeExpr
