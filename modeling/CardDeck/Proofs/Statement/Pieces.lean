import Mathlib.Data.List.Basic
import Mathlib.Data.List.Induction
import CardDeck.Proofs.Statement.Layout

/-! # The pieces of a statement

`Statement.pieces` are the parts of the text of a statement, card by card, and
`Statement.blockLayout` has with each character the place where it stands. A blank that joins two
pieces counts as standing right behind the first of them, where nothing of the payload can be.

So the places of a statement come in the order of reading (`Statement.inOrder_blockLayout`), every
character that is no such blank stands on its card (`Statement.isGap_or_isOn`), and of the payload
nothing but blanks is left out (`Statement.mem_blockLayout`). -/

namespace CardDeck

/-- The order of reading: card by card, and column by column on each. -/
def Position.Before (p q : Position) : Prop :=
  p.line < q.line ∨ p.line = q.line ∧ p.column < q.column

namespace Position

variable {p q r : Position}

theorem Before.trans (h : p.Before q) (h' : q.Before r) : p.Before r := by
  rcases h with h | ⟨h, hcolumn⟩ <;> rcases h' with h' | ⟨h', hcolumn'⟩
  · exact .inl (Int.lt_trans h h')
  · exact .inl (h' ▸ h)
  · exact .inl (h ▸ h')
  · exact .inr ⟨h.trans h', Int.lt_trans hcolumn hcolumn'⟩

theorem not_before_self (p : Position) : ¬ p.Before p := by
  rintro (h | ⟨-, h⟩)
  · exact Int.lt_irrefl _ h
  · exact Int.lt_irrefl _ h

theorem before_shift (p : Position) {n : Int} (h : 0 < n) : p.Before (p.shift n) :=
  .inr ⟨rfl, Int.lt_add_of_pos_right _ h⟩

end Position

theorem eq_of_getElem?_concat {α : Type} {l : List α} {a b : α} {i : Nat}
    (h : (l ++ [a])[i]? = some b) : l[i]? = some b ∨ i = l.length ∧ b = a := by
  rcases Nat.lt_or_ge i l.length with hlt | hge
  · rw [List.getElem?_append_left hlt] at h
    exact .inl h
  · rw [List.getElem?_append_right hge, List.getElem?_singleton] at h
    split at h
    · exact .inr ⟨by omega, (Option.some.inj h).symm⟩
    · cases h

namespace Layout

variable {l : Layout} {x : Cell} {p : Position} {cs : List Char}

/-- The characters stand in the order of reading. -/
def InOrder (l : Layout) : Prop := l.Pairwise fun x y => x.position.Before y.position

/-- The place behind the last character. -/
def next (l : Layout) : Position := (l.getLast?.map (·.position.shift 1)).getD ⟨0, 0⟩

theorem next_concat (l : Layout) (x : Cell) : next (l ++ [x]) = x.position.shift 1 := by
  simp [next]

theorem line_of_mem_row (h : x ∈ row p cs) : x.position.line = p.line := by
  obtain ⟨i, -, hp⟩ := exists_getElem?_of_mem_row h
  rw [hp, Position.line_shift]

theorem inOrder_row (p : Position) (cs : List Char) : (row p cs).InOrder := by
  induction cs generalizing p with
  | nil => exact .nil
  | cons c cs ih =>
    refine List.pairwise_cons.2 ⟨fun x hx => ?_, ih _⟩
    obtain ⟨i, -, hp⟩ := exists_getElem?_of_mem_row hx
    rw [hp, Position.shift_shift]
    exact Position.before_shift p (by omega)

/-- Two layouts follow each other if the first ends on a card before the cards of the second. -/
theorem InOrder.append {a b : Layout} {line : Int} (ha : a.InOrder) (hb : b.InOrder)
    (hlines : ∀ x ∈ a, x.position.line < line) (hline : ∀ x ∈ b, x.position.line = line) :
    InOrder (a ++ b) :=
  List.pairwise_append.2 ⟨ha, hb, fun x hx y hy => .inl (hline y hy ▸ hlines x hx)⟩

theorem InOrder.before_next (h : l.InOrder) (hx : x ∈ l) : x.position.Before l.next := by
  rcases List.eq_nil_or_concat l with rfl | ⟨l, y, rfl⟩
  · cases hx
  · rw [List.concat_eq_append] at h hx ⊢
    have hnext := Position.before_shift y.position Int.one_pos
    rw [next_concat]
    rcases List.mem_append.1 hx with hx | hx
    · exact ((List.pairwise_append.1 h).2.2 x hx y (List.mem_singleton_self y)).trans hnext
    · rw [List.mem_singleton.1 hx]
      exact hnext

theorem InOrder.spaced (h : l.InOrder) : (l.spaced l.next).InOrder := by
  rw [Layout.spaced]
  split
  · exact .nil
  · refine List.pairwise_append.2 ⟨h, List.pairwise_singleton _ _, fun x hx y hy => ?_⟩
    rw [List.mem_singleton.1 hy]
    exact h.before_next hx

/-- The blank behind a layout is on the card of its last character. -/
theorem line_lt_of_mem_spaced {line : Int} (hlines : ∀ x ∈ l, x.position.line < line) :
    ∀ x ∈ l.spaced l.next, x.position.line < line := by
  rcases List.eq_nil_or_concat l with rfl | ⟨l, y, rfl⟩
  · exact hlines
  · rw [List.concat_eq_append] at hlines ⊢
    rw [Layout.spaced, if_neg (List.append_ne_nil_of_right_ne_nil l (List.cons_ne_nil y [])),
      next_concat, List.forall_mem_append, List.forall_mem_singleton]
    exact ⟨hlines, hlines y (List.mem_append_right l (List.mem_singleton_self y))⟩

/-- The blank behind a row goes on with the row. -/
theorem spaced_next_append_row (a : Layout) (p : Position) (hcs : cs ≠ []) :
    spaced (a ++ row p cs) (next (a ++ row p cs)) = a ++ row p (cs ++ [' ']) := by
  rcases List.eq_nil_or_concat cs with rfl | ⟨cs, c, rfl⟩
  · exact absurd rfl hcs
  · have hrow : a ++ row p (cs ++ [c]) = a ++ row p cs ++ [⟨c, p.shift cs.length⟩] := by
      rw [row_append, ← List.append_assoc]
      rfl
    have hlength : p.shift (cs ++ [c]).length = (p.shift cs.length).shift 1 := by
      rw [Position.shift_shift, List.length_append, Int.natCast_add]
      rfl
    rw [List.concat_eq_append, row_append p (cs ++ [c]), ← List.append_assoc, hrow, next_concat,
      Layout.spaced, if_neg (List.append_ne_nil_of_right_ne_nil _ (List.cons_ne_nil _ [])), hlength]
    rfl

/-- What stands in a layout with a blank behind it is in the layout, or is that blank. -/
theorem eq_of_getElem?_spaced {gap : Position} {i : Nat} (h : (l.spaced gap)[i]? = some x) :
    l[i]? = some x ∨ l ≠ [] ∧ i = l.length := by
  rw [Layout.spaced] at h
  split at h
  · cases h
  · next hne => exact (eq_of_getElem?_concat h).imp_right fun hi => ⟨hne, hi.1⟩

theorem subset_spaced (l : Layout) (gap : Position) : l ⊆ l.spaced gap := by
  rw [Layout.spaced]
  split
  · next hnil => exact fun x hx => absurd (hnil ▸ hx) List.not_mem_nil
  · exact List.subset_append_left l _

theorem getElem?_row (p : Position) (cs : List Char) (i : Nat) :
    (row p cs)[i]? = cs[i]?.map fun c => ⟨c, p.shift i⟩ := by
  induction cs generalizing p i with
  | nil => simp [row]
  | cons c cs ih =>
    cases i with
    | zero => simp [row]
    | succ i =>
      rw [row, List.getElem?_cons_succ, List.getElem?_cons_succ, ih, Position.shift_shift,
        Int.natCast_succ, Int.add_comm]

theorem mem_row_of_getElem? {c : Char} {i : Nat} (h : cs[i]? = some c) :
    ⟨c, p.shift i⟩ ∈ row p cs := by
  refine List.mem_of_getElem? (i := i) ?_
  rw [getElem?_row, h]
  rfl

/-- Trimming the end of a text takes nothing away that is no blank. -/
theorem mem_row_trimEnd (h : x ∈ row p cs) (hx : Text.isBlank x.char = false) :
    x ∈ row p (Text.trimEnd cs) := by
  obtain ⟨blanks, hblank, heq⟩ := row_trimEnd p cs
  rw [heq] at h
  rcases List.mem_append.1 h with h | h
  · exact h
  · have hb := hblank x h
    rw [hx] at hb
    cases hb

theorem mem_row_trimStart (h : x ∈ row p cs) (hx : Text.isBlank x.char = false) :
    x ∈ row (p.shift (cs.length - (Text.trimStart cs).length : Nat)) (Text.trimStart cs) := by
  obtain ⟨blanks, hblank, heq⟩ := row_trimStart p cs
  rw [heq] at h
  rcases List.mem_append.1 h with h | h
  · have hb := hblank x h
    rw [hx] at hb
    cases hb
  · exact h

end Layout

theorem Card.getElem?_of_payload {card : Card} {column i : Nat} {c : Char}
    (h : (card.payload column)[i]? = some c) : card[column + i]? = some c := by
  rw [Card.payload, List.getElem?_drop] at h
  generalize (if card.isContinued then markerColumn else sequenceColumn) = n at h
  rw [List.getElem?_take] at h
  split at h
  · exact h
  · cases h

/-- Only blanks trim to nothing, at whichever end one starts. -/
theorem Text.trimEnd_trimStart_eq_nil_iff {text : List Char} :
    trimEnd (trimStart text) = [] ↔ trimStart text = [] := by
  refine ⟨fun h => ?_, fun h => by rw [h, trimEnd_nil]⟩
  cases hstart : trimStart text with
  | nil => rfl
  | cons c cs =>
    have hword : isBlank c = false := by
      have hhead := List.head?_dropWhile_not isBlank text
      rw [trimStart] at hstart
      rw [hstart] at hhead
      exact hhead
    rw [trimEnd_eq_nil_iff, hstart, List.all_cons, hword] at h
    cases h

namespace Cell

/-- The character stands on one of these cards, the first of which is at `line`. -/
def IsOn (x : Cell) (line : Nat) (block : List Card) : Prop :=
  ∃ k column : Nat, ∃ card, block[k]? = some card ∧ card[column]? = some x.char ∧
    x.position = ⟨(line + k : Nat), column⟩

theorem IsOn.append {x : Cell} {line : Nat} {block : List Card} (h : x.IsOn line block)
    (cards : List Card) : x.IsOn line (block ++ cards) := by
  obtain ⟨k, column, card, hcard, hx⟩ := h
  have hlt := (List.getElem?_eq_some_iff.1 hcard).1
  exact ⟨k, column, card, by rw [List.getElem?_append_left hlt, hcard], hx⟩

/-- What is laid out from the payload of a card stands on that card. -/
theorem isOn_of_mem_row {x : Cell} {line k column : Nat} {block : List Card} {card : Card}
    (hcard : block[k]? = some card)
    (hx : x ∈ Layout.row ⟨(line + k : Nat), column⟩ (card.payload column)) : x.IsOn line block := by
  obtain ⟨i, hi, hp⟩ := Layout.exists_getElem?_of_mem_row hx
  exact ⟨k, column + i, card, hcard, Card.getElem?_of_payload hi, hp⟩

end Cell

namespace Statement

variable {s : Statement} {line : Nat} {card : Card} {block : List Card}

/-! ### The pieces of a text -/

/-- What a card adds to a statement that goes on with it. -/
def piece (card : Card) : List Char :=
  Text.trimEnd (Text.trimStart (card.payload Card.resumeColumn))

/-- What the cards of a statement have in its text, but for those that have nothing. The first card
keeps the blanks in front. -/
def pieces : List Card → List (List Char)
  | [] => []
  | card :: cards => (Text.trimEnd (card.payload 0) :: cards.map piece).filter (· ≠ [])

/-- Whether a blank that joins two pieces stands at offset `i`: right behind the first ones. -/
def IsGap (pieces : List (List Char)) (i : Nat) : Prop :=
  ∃ front back, pieces = front ++ back ∧ front ≠ [] ∧ back ≠ [] ∧
    i = ([' '].intercalate front).length

theorem pieces_concat (hne : block ≠ []) :
    pieces (block ++ [card]) = pieces block ++ [piece card].filter (· ≠ []) := by
  obtain ⟨first, block, rfl⟩ := List.exists_cons_of_ne_nil hne
  rw [List.cons_append, pieces, pieces, List.map_append, ← List.cons_append, List.filter_append]
  rfl

theorem ne_nil_of_mem_pieces {text : List Char} (h : text ∈ pieces block) : text ≠ [] := by
  cases block with
  | nil => cases h
  | cons card block => simpa using (List.mem_filter.1 h).2

/-- A further piece comes behind a blank, unless there is nothing before it. -/
theorem intercalate_concat {texts : List (List Char)} (h : ∀ text ∈ texts, text ≠ [])
    (text : List Char) :
    [' '].intercalate (texts ++ [text]) =
      (if [' '].intercalate texts = [] then [] else [' '].intercalate texts ++ [' ']) ++ text := by
  induction texts with
  | nil => simp
  | cons first texts ih =>
    obtain ⟨hfirst, htexts⟩ := List.forall_mem_cons.1 h
    cases texts with
    | nil => simp [List.intercalate_cons_cons, hfirst]
    | cons next texts =>
      have hnext := (List.forall_mem_cons.1 htexts).1
      have hinner : [' '].intercalate (next :: texts) ≠ [] := by
        cases texts with
        | nil => simpa using hnext
        | cons => simp [List.intercalate_cons_cons, hnext]
      have ih := ih htexts
      rw [if_neg hinner, List.cons_append] at ih
      rw [List.cons_append, List.cons_append, List.intercalate_cons_cons, ih,
        List.intercalate_cons_cons, if_neg (by simp [hfirst])]
      simp only [List.append_assoc]

theorem IsGap.concat {texts : List (List Char)} {i : Nat} (h : IsGap texts i) (text : List Char) :
    IsGap (texts ++ [text]) i := by
  obtain ⟨front, back, rfl, hfront, hback, rfl⟩ := h
  exact ⟨front, back ++ [text], List.append_assoc front back [text], hfront, by simp, rfl⟩

/-! ### The layout of a block -/

/-- The layout of a statement with further cards. A blank between two pieces counts as standing
right behind the first of them. -/
def resumeAll (l : Layout) (line : Nat) : List Card → Layout
  | [] => l
  | card :: cards => resumeAll (resumeLayout l l.next line card) (line + 1) cards

/-- The layout of the statement of these cards, the first of which is at `line`. -/
def blockLayout (line : Nat) : List Card → Layout
  | [] => []
  | card :: cards => resumeAll (startLayout line card) (line + 1) cards

theorem resumeAll_concat (l : Layout) :
    resumeAll l line (block ++ [card]) =
      resumeLayout (resumeAll l line block) (resumeAll l line block).next (line + block.length)
        card := by
  induction block generalizing l line with
  | nil => rfl
  | cons first block ih =>
    rw [List.cons_append, resumeAll, ih, resumeAll, List.length_cons, Nat.add_right_comm,
      Nat.add_assoc]

theorem blockLayout_concat (hne : block ≠ []) :
    blockLayout line (block ++ [card]) =
      resumeLayout (blockLayout line block) (blockLayout line block).next (line + block.length)
        card := by
  obtain ⟨first, block, rfl⟩ := List.exists_cons_of_ne_nil hne
  rw [List.cons_append, blockLayout, resumeAll_concat, blockLayout, List.length_cons,
    Nat.add_right_comm, Nat.add_assoc]

/-- Where the piece of a card starts. -/
def piecePosition (line : Nat) (card : Card) : Position :=
  let payload := card.payload Card.resumeColumn
  ⟨line, Card.resumeColumn + (payload.length - (Text.trimStart payload).length : Nat)⟩

theorem resumeLayout_eq (l : Layout) (gap : Position) :
    resumeLayout l gap line card =
      if piece card = [] then l
      else l.spaced gap ++ Layout.row (piecePosition line card) (piece card) := by
  simp only [resumeLayout, piece, Text.trimEnd_trimStart_eq_nil_iff, piecePosition]

/-- What holds of the layout of a card, and of a layout with a further piece if it holds without it,
holds of the layout of every block. A card without a piece changes nothing but the number of the
cards. -/
@[elab_as_elim]
theorem blockLayout_induction {motive : List Card → Layout → Prop}
    (start : ∀ card, motive [card] (Layout.row ⟨line, 0⟩ (Text.trimEnd (card.payload 0))))
    (blank : ∀ block card, block ≠ [] → piece card = [] → motive block (blockLayout line block) →
      motive (block ++ [card]) (blockLayout line block))
    (piece : ∀ block card, block ≠ [] → piece card ≠ [] →
      motive block (blockLayout line block) →
      motive (block ++ [card]) ((blockLayout line block).spaced (blockLayout line block).next ++
        Layout.row (piecePosition (line + block.length) card) (piece card)))
    (hne : block ≠ []) : motive block (blockLayout line block) := by
  induction block using List.reverseRecOn with
  | nil => exact absurd rfl hne
  | append_singleton block card ih =>
    by_cases hnil : block = []
    · subst hnil
      exact start card
    · rw [blockLayout_concat hnil, resumeLayout_eq]
      split
      · next hpiece => exact blank block card hnil hpiece (ih hnil)
      · next hpiece => exact piece block card hnil hpiece (ih hnil)

/-- The text of a statement is its pieces, with a blank between any two. -/
theorem chars_blockLayout (hne : block ≠ []) :
    (blockLayout line block).chars = [' '].intercalate (pieces block) := by
  refine blockLayout_induction (fun card => ?_) (fun block card hnil hpiece ih => ?_)
    (fun block card hnil hpiece ih => ?_) hne
  · rw [Layout.chars_row, pieces, List.map_nil, List.filter_cons]
    split
    · exact List.intercalate_singleton.symm
    · next h => simpa using h
  · rw [pieces_concat hnil, hpiece, ih]
    simp
  · have hfilter : [piece card].filter (· ≠ []) = [piece card] := by simp [hpiece]
    rw [pieces_concat hnil, hfilter, intercalate_concat fun _ => ne_nil_of_mem_pieces, ← ih,
      Layout.chars_append, Layout.chars_spaced, Layout.chars_row]

/-- The places of a statement come in the order of reading, on the lines of its cards. -/
theorem inOrder_blockLayout (hne : block ≠ []) :
    (blockLayout line block).InOrder ∧
      ∀ x ∈ blockLayout line block, x.position.line < ((line + block.length : Nat) : Int) := by
  refine blockLayout_induction (fun card => ?_) (fun block card _ _ ih => ?_)
    (fun block card _ _ ih => ?_) hne
  · refine ⟨Layout.inOrder_row _ _, fun x hx => ?_⟩
    rw [Layout.line_of_mem_row hx, List.length_singleton]
    exact Int.ofNat_lt.2 (Nat.lt_succ_self line)
  · refine ⟨ih.1, fun x hx => Int.lt_trans (ih.2 x hx) ?_⟩
    rw [List.length_append]
    exact Int.ofNat_lt.2 (Nat.lt_succ_self _)
  · obtain ⟨horder, hlines⟩ := ih
    have hlines := Layout.line_lt_of_mem_spaced hlines
    have hrow : ∀ x ∈ Layout.row (piecePosition (line + block.length) card) (piece card),
        x.position.line = ((line + block.length : Nat) : Int) := fun x hx =>
      Layout.line_of_mem_row hx
    have hlt : ((line + block.length : Nat) : Int) < (line + (block ++ [card]).length : Nat) := by
      rw [List.length_append]
      exact Int.ofNat_lt.2 (Nat.lt_succ_self _)
    refine ⟨horder.spaced.append (Layout.inOrder_row _ _) hlines hrow,
      List.forall_mem_append.2 ⟨fun x hx => Int.lt_trans (hlines x hx) hlt, fun x hx => ?_⟩⟩
    rw [hrow x hx]
    exact hlt

/-- A character that is no joining blank stands on the cards where it has its place. -/
theorem isGap_or_isOn (hne : block ≠ []) :
    ∀ i x, (blockLayout line block)[i]? = some x → IsGap (pieces block) i ∨ x.IsOn line block := by
  refine blockLayout_induction (fun card => ?_) (fun block card hnil hpiece ih => ?_)
    (fun block card hnil hpiece ih => ?_) hne
  · intro i x hx
    have hrow : x ∈ Layout.row ⟨line, 0⟩ (card.payload 0) := by
      obtain ⟨blanks, -, heq⟩ := Layout.row_trimEnd ⟨line, 0⟩ (card.payload 0)
      exact heq ▸ List.mem_append_left blanks (List.mem_of_getElem? hx)
    exact .inr (Cell.isOn_of_mem_row (k := 0) rfl hrow)
  · intro i x hx
    rw [pieces_concat hnil, hpiece]
    rcases ih i x hx with h | h
    · exact .inl (by simpa using h)
    · exact .inr (h.append [card])
  · intro i x hx
    have hfilter : [piece card].filter (· ≠ []) = [piece card] := by simp [hpiece]
    rw [pieces_concat hnil, hfilter]
    rcases Nat.lt_or_ge i ((blockLayout line block).spaced (blockLayout line block).next).length
      with hlt | hge
    · rw [List.getElem?_append_left hlt] at hx
      rcases Layout.eq_of_getElem?_spaced hx with h | ⟨hlayout, hi⟩
      · rcases ih i x h with h | h
        · exact .inl (h.concat _)
        · exact .inr (h.append [card])
      · refine .inl ⟨pieces block, [piece card], rfl, ?_, List.cons_ne_nil _ _, ?_⟩
        · intro hpieces
          have hchars := @chars_blockLayout line block hnil
          rw [hpieces] at hchars
          exact hlayout (List.map_eq_nil_iff.1 hchars)
        · rw [← @chars_blockLayout line block hnil, Layout.length_chars, hi]
    · rw [List.getElem?_append_right hge] at hx
      have hrow := Layout.row_trim_subset ⟨(line + block.length : Nat), Card.resumeColumn⟩
        (card.payload Card.resumeColumn) (List.mem_of_getElem? hx)
      exact .inr (Cell.isOn_of_mem_row (List.getElem?_concat_length) hrow)

/-- The column from which the text of a card counts, where `first` is the first card of its
statement. -/
def startColumn (first line : Nat) : Nat := if line = first then 0 else Card.resumeColumn

theorem startColumn_add_length (hne : block ≠ []) :
    startColumn line (line + block.length) = Card.resumeColumn := by
  have hpos := List.length_pos_iff.2 hne
  exact if_neg (by omega)

theorem mem_row_piece {i : Nat} {c : Char}
    (hc : (card.payload Card.resumeColumn)[i]? = some c) (hblank : Text.isBlank c = false) :
    ⟨c, ⟨line, (Card.resumeColumn + i : Nat)⟩⟩ ∈
      Layout.row (piecePosition line card) (piece card) :=
  have hrow : ⟨c, ⟨line, (Card.resumeColumn + i : Nat)⟩⟩ ∈
      Layout.row ⟨line, Card.resumeColumn⟩ (card.payload Card.resumeColumn) :=
    Layout.mem_row_of_getElem? hc
  Layout.mem_row_trimEnd (Layout.mem_row_trimStart hrow hblank) hblank

/-- Whatever is no blank in the payload of a card is found where it stands. -/
theorem mem_blockLayout (hne : block ≠ []) :
    ∀ (k i : Nat) (card : Card) (c : Char), block[k]? = some card →
      (card.payload (startColumn line (line + k)))[i]? = some c → Text.isBlank c = false →
      ⟨c, ⟨(line + k : Nat), (startColumn line (line + k) + i : Nat)⟩⟩ ∈
        blockLayout line block := by
  refine blockLayout_induction (fun first => ?_) (fun block last hnil hpiece ih => ?_)
    (fun block last hnil hpiece ih => ?_) hne
  · intro k i card c hcard hc hblank
    obtain ⟨rfl, rfl⟩ : k = 0 ∧ first = card := by
      cases k with
      | zero => exact ⟨rfl, Option.some.inj hcard⟩
      | succ k => cases hcard
    have hcolumn : startColumn line (line + 0) = 0 := if_pos rfl
    rw [hcolumn] at hc ⊢
    exact Layout.mem_row_trimEnd (p := ⟨line, 0⟩) (Layout.mem_row_of_getElem? hc) hblank
  · intro k i card c hcard hc hblank
    rcases eq_of_getElem?_concat hcard with hcard | ⟨rfl, rfl⟩
    · exact ih k i card c hcard hc hblank
    · -- a card without a piece holds nothing but blanks
      rw [startColumn_add_length hnil] at hc
      have hrow := @mem_row_piece (line + block.length) card i c hc hblank
      rw [hpiece] at hrow
      cases hrow
  · intro k i card c hcard hc hblank
    rcases eq_of_getElem?_concat hcard with hcard | ⟨rfl, rfl⟩
    · have hold := ih k i card c hcard hc hblank
      exact List.mem_append_left _ (Layout.subset_spaced _ _ hold)
    · rw [startColumn_add_length hnil] at hc ⊢
      exact List.mem_append_right _ (mem_row_piece hc hblank)

end Statement

end CardDeck
