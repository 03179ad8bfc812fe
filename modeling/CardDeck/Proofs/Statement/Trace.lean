import CardDeck.Proofs.Statement.Blocks
import CardDeck.Proofs.Statement.Pieces

/-! # What a statement keeps of its cards

Joining the cards of a block gives the text and the places of `Statement.blockLayout`
(`Statement.isLaid_blockLayout`), with the blank between two pieces right behind the first of them.
What is known of this layout is then known of every statement of a deck:
`Statement.isFaithful_of_mem_ofCards`. -/

namespace CardDeck.Statement

variable {s : Statement} {line : Nat} {card : Card} {block : List Card}

/-! ### Joining keeps the layout of the block -/

/-- A card without a piece leaves the spans as they are. -/
theorem spans_resume_of_blank (hpiece : piece card = []) : (s.resume line card).spans = s.spans := by
  rw [piece, Text.trimEnd_trimStart_eq_nil_iff] at hpiece
  simp only [Statement.resume, if_pos hpiece]

/-- The span of a piece starts behind the blank that is set before it. -/
theorem spans_resume {l : Layout} (htext : s.text = l.chars) (gap : Position)
    (hpiece : piece card ≠ []) :
    (s.resume line card).spans =
      s.spans ++ [⟨(l.spaced gap).length, piecePosition line card⟩] := by
  rw [piece, Ne, Text.trimEnd_trimStart_eq_nil_iff] at hpiece
  have hlength : (if s.text = [] then [] else s.text ++ [' ']).length = (l.spaced gap).length := by
    rw [htext, ← Layout.chars_spaced l gap, Layout.length_chars]
  simp only [Statement.resume, if_neg hpiece, hlength]
  rfl

/-- The spans of a statement start at its first character and go on from card to card. -/
structure SpansFollow (s : Statement) (line : Int) : Prop where
  first : ∃ span, s.spans.head? = some span ∧ span.offset = 0
  lines : s.spans.Pairwise (·.position.line < ·.position.line)
  before : ∀ span ∈ s.spans, span.position.line < line

theorem spansFollow_of_extendAll (hne : block ≠ []) (h : extendAll none line block = some s) :
    s.SpansFollow (line + block.length : Nat) := by
  refine extendAll_induction (fun card => ?_) (fun block s card _ hs => ?_) hne h
  · exact ⟨⟨_, rfl, rfl⟩, List.pairwise_singleton _ _,
      List.forall_mem_singleton.2 (Int.ofNat_lt.2 (Nat.lt_succ_self line))⟩
  · have hlt : ((line + block.length : Nat) : Int) < (line + (block ++ [card]).length : Nat) := by
      rw [List.length_append]
      exact Int.ofNat_lt.2 (Nat.lt_succ_self _)
    have hbefore (span : Span) (hspan : span ∈ s.spans) := Int.lt_trans (hs.before span hspan) hlt
    by_cases hpiece : piece card = []
    · have hspans := @spans_resume_of_blank s (line + block.length) card hpiece
      exact ⟨hspans ▸ hs.first, hspans ▸ hs.lines, hspans ▸ hbefore⟩
    · obtain ⟨span, hspan, hoffset⟩ := hs.first
      have hspans := @spans_resume s (line + block.length) card _
        (Layout.chars_row ⟨0, 0⟩ s.text).symm ⟨0, 0⟩ hpiece
      refine ⟨⟨span, ?_, hoffset⟩, ?_, ?_⟩
      · rw [hspans, List.head?_append, hspan, Option.some_or]
      · rw [hspans]
        refine List.pairwise_append.2 ⟨hs.lines, List.pairwise_singleton _ _, ?_⟩
        exact fun old hold => List.forall_mem_singleton.2 (hs.before old hold)
      · rw [hspans]
        exact List.forall_mem_append.2 ⟨hbefore, List.forall_mem_singleton.2 hlt⟩

/-- The statement has the layout of its cards, and the blank before a further piece stands behind
the last one. -/
theorem isLaid_blockLayout (hne : block ≠ []) (h : extendAll none line block = some s) :
    s.IsLaid (blockLayout line block) ∧
      s.Traces 0 ((blockLayout line block).spaced (blockLayout line block).next) := by
  -- the blank goes along with the layout, since a further piece is laid out behind it
  refine extendAll_induction (fun card => ?_) (fun block s card hnil hs => ?_) hne h
  · refine ⟨isLaid_start line card, ?_⟩
    rw [blockLayout, resumeAll, startLayout]
    by_cases htext : Text.trimEnd (card.payload 0) = []
    · rw [htext]
      exact True.intro
    · have hspaced := Layout.spaced_next_append_row [] ⟨line, 0⟩ htext
      rw [List.nil_append] at hspaced
      rw [hspaced]
      exact traces_start line card _
  · obtain ⟨hlaid, htraces⟩ := hs
    rw [blockLayout_concat hnil]
    refine ⟨hlaid.resume_of_traces htraces _ card, ?_⟩
    rw [resumeLayout_eq]
    split
    · next hpiece =>
      refine htraces.congr fun i _ _ => ?_
      rw [position?, position?, span?, span?, spans_resume_of_blank hpiece]
    · next hpiece =>
      rw [Layout.spaced_next_append_row _ _ hpiece]
      exact hlaid.traces_append_row htraces (spans_resume hlaid.text _ hpiece) _

theorem Traces.position?_eq {l : Layout} {x : Cell} {offset i : Nat} (h : s.Traces offset l)
    (hx : l[i]? = some x) : s.position? (offset + i : Nat) = some x.position := by
  induction l generalizing offset i with
  | nil => cases hx
  | cons y l ih =>
    cases i with
    | zero =>
      obtain rfl := Option.some.inj hx
      exact h.1
    | succ i =>
      rw [Nat.add_succ, ← Nat.succ_add]
      exact ih h.2 hx

theorem length_text_of_extendAll (hne : block ≠ []) (h : extendAll none line block = some s) :
    s.text.length = (blockLayout line block).length := by
  rw [(isLaid_blockLayout hne h).1.text, Layout.length_chars]

theorem position?_of_extendAll (hne : block ≠ []) (h : extendAll none line block = some s) {i : Nat}
    {x : Cell} (hx : (blockLayout line block)[i]? = some x) : s.position? i = some x.position := by
  have hposition := (isLaid_blockLayout hne h).1.traces.position?_eq hx
  rwa [Nat.zero_add] at hposition

/-- The places of a statement come in the order of reading. -/
theorem before_of_extendAll (hne : block ≠ []) (h : extendAll none line block = some s) {i j : Nat}
    (hij : i < j) (hj : j < s.text.length) :
    ∃ p q, s.position? i = some p ∧ s.position? j = some q ∧ p.Before q := by
  rw [length_text_of_extendAll hne h] at hj
  obtain ⟨horder, -⟩ := @inOrder_blockLayout line block hne
  exact ⟨_, _, position?_of_extendAll hne h (List.getElem?_eq_getElem (hij.trans hj)),
    position?_of_extendAll hne h (List.getElem?_eq_getElem hj),
    List.pairwise_iff_getElem.1 horder i j (hij.trans hj) hj hij⟩

/-- No two characters of a statement have the same place. -/
theorem position?_inj_of_extendAll (hne : block ≠ []) (h : extendAll none line block = some s)
    {i j : Nat} (hi : i < s.text.length) (hj : j < s.text.length)
    (heq : s.position? i = s.position? j) : i = j := by
  have hapart {i j : Nat} (hij : i < j) (hj : j < s.text.length) :
      s.position? i ≠ s.position? j := by
    obtain ⟨p, q, hp, hq, hpq⟩ := before_of_extendAll hne h hij hj
    intro heq
    rw [hp, hq, Option.some.injEq] at heq
    exact Position.not_before_self q (heq ▸ hpq)
  rcases Nat.lt_trichotomy i j with hij | rfl | hji
  · exact absurd heq (hapart hij hj)
  · rfl
  · exact absurd heq.symm (hapart hji hi)

/-! ### The text of a statement is what stands on its cards -/

/-- The cards from line `first` to line `last`. -/
def cardsBetween (cards : List Card) (first last : Nat) : List Card :=
  (cards.drop first).take (last + 1 - first)

/-- The text and the spans of a statement give what stands on the cards from line `first` to line
`last`: no more than that in the order of reading, and everything but blanks. -/
structure IsFaithful (s : Statement) (cards : List Card) (first last : Nat) : Prop where
  text : s.text = [' '].intercalate (pieces (cardsBetween cards first last))
  head : ∃ span, s.spans.head? = some span ∧ span.offset = 0
  offsets : s.spans.Pairwise (·.offset ≤ ·.offset)
  lines : s.spans.Pairwise (·.position.line < ·.position.line)
  stands : ∀ i < s.text.length, ¬ IsGap (pieces (cardsBetween cards first last)) i →
    ∃ line column : Nat, ∃ card, s.position? i = some ⟨line, column⟩ ∧ first ≤ line ∧ line ≤ last ∧
      cards[line]? = some card ∧ card[column]? = s.text[i]?
  inOrder : ∀ i j : Nat, i < j → j < s.text.length →
    ∃ p q, s.position? i = some p ∧ s.position? j = some q ∧ p.Before q
  complete : ∀ (line k : Nat) (card : Card) (c : Char), first ≤ line → line ≤ last →
    cards[line]? = some card → (card.payload (startColumn first line))[k]? = some c →
    Text.isBlank c = false →
    ∃! i : Nat, i < s.text.length ∧
      s.position? i = some ⟨line, (startColumn first line + k : Nat)⟩

section Between

variable (before behind : List Card)

theorem cardsBetween_append (hne : block ≠ []) :
    cardsBetween (before ++ (block ++ behind)) before.length
      (before.length + (block.length - 1)) = block := by
  have hpos := List.length_pos_iff.2 hne
  have hcount : before.length + (block.length - 1) + 1 - before.length = block.length := by omega
  rw [cardsBetween, List.drop_left, hcount, List.take_left]

theorem getElem?_between {k : Nat} (hk : k < block.length) :
    (before ++ (block ++ behind))[before.length + k]? = block[k]? := by
  rw [List.getElem?_append_right (Nat.le_add_right _ _), Nat.add_sub_cancel_left,
    List.getElem?_append_left hk]

theorem isFaithful_of_extendAll (hne : block ≠ [])
    (h : extendAll none before.length block = some s) :
    s.IsFaithful (before ++ (block ++ behind)) before.length
      (before.length + (block.length - 1)) where
  text := by
    rw [cardsBetween_append before behind hne, (isLaid_blockLayout hne h).1.text,
      chars_blockLayout hne]
  head := (spansFollow_of_extendAll hne h).first
  offsets := (isLaid_blockLayout hne h).1.sorted
  lines := (spansFollow_of_extendAll hne h).lines
  stands := by
    intro i hi hgap
    rw [cardsBetween_append before behind hne] at hgap
    have hi' : i < (blockLayout before.length block).length := length_text_of_extendAll hne h ▸ hi
    have hx := List.getElem?_eq_getElem hi'
    obtain hgap' | ⟨k, column, card, hk, hc, hp⟩ := isGap_or_isOn hne i _ hx
    · exact absurd hgap' hgap
    · have hlt := (List.getElem?_eq_some_iff.1 hk).1
      refine ⟨before.length + k, column, card, ?_, by omega, by omega, ?_, ?_⟩
      · rw [position?_of_extendAll hne h hx, hp]
      · rw [getElem?_between before behind hlt, hk]
      · rw [hc, (isLaid_blockLayout hne h).1.text, Layout.chars, List.getElem?_map, hx,
          Option.map_some]
  inOrder _ _ hij hj := before_of_extendAll hne h hij hj
  complete := by
    intro line k card c hfirst hlast hline hc hblank
    have hpos := List.length_pos_iff.2 hne
    obtain ⟨n, rfl⟩ := Nat.exists_eq_add_of_le hfirst
    rw [getElem?_between before behind (by omega)] at hline
    obtain ⟨i, hi⟩ := List.mem_iff_getElem?.1 (mem_blockLayout hne n k card c hline hc hblank)
    have hlt : i < s.text.length := by
      rw [length_text_of_extendAll hne h]
      exact (List.getElem?_eq_some_iff.1 hi).1
    have hposition := position?_of_extendAll hne h hi
    refine ⟨i, ⟨hlt, hposition⟩, ?_⟩
    rintro j ⟨hj, hp⟩
    exact position?_inj_of_extendAll hne h hj hlt (hp.trans hposition.symm)

end Between

/-- Every statement of a deck gives what stands on the cards that it counts as its own. -/
theorem isFaithful_of_mem_ofCards {cards : List Card} {statements : List Statement}
    (h : ofCards cards = .ok statements) (hs : s ∈ statements) :
    ∃ first last, s.StandsOn first last ∧ s.IsFaithful cards first last := by
  obtain ⟨before, block, behind, rfl, hblock, hs⟩ := (joined_of_join h).exists_block hs
  have hne := List.length_pos_iff.1 hblock.length_pos
  rw [Nat.zero_add] at hs
  exact ⟨_, _, standsOn_of_extendAll hne hs, isFaithful_of_extendAll before behind hne hs⟩

theorem isFaithful_blankContinuation :
    ofCards blankContinuation = .ok blankContinuationStatements ∧
      ∀ s ∈ blankContinuationStatements,
        ∃ first last, s.StandsOn first last ∧ s.IsFaithful blankContinuation first last := by
  have h : ofCards blankContinuation = .ok blankContinuationStatements := by decide
  exact ⟨h, fun s hs => isFaithful_of_mem_ofCards h hs⟩

end CardDeck.Statement
