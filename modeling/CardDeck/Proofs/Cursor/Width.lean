import CardDeck.Proofs.Cursor.Deck

/-! # What a cursor makes sure of

A cursor that gets through a deck has seen every line end at the width of cards, but for the lines
that end among the columns behind a marker: these columns are jumped over, and a newline with them.
`Cursor.layout_of_tokens_eq_ok` says that nothing else gets through, and
`Cursor.tokens_clippedDeck` that this does. -/

namespace CardDeck

/-- What comes behind a newline decides whether a statement is left unfinished. -/
theorem Reading.isLeftOpen_ofText_append (a : List Char) {b : List Char} (hb : b ≠ []) :
    isLeftOpen false (Card.ofText (a ++ '\n' :: b)) = isLeftOpen false (Card.ofText b) := by
  have hcards : Card.ofText b ≠ [] := mt Card.ofText_eq_nil_iff.1 hb
  rw [Card.ofText_append_newline_append, isLeftOpen, isLeftOpen, List.getLast?_append,
    List.getLast?_eq_some_getLast hcards, Option.some_or]

namespace Cursor

/-- The cursor gets to the end of its text. -/
def Passes (v : Vocabulary) (cur : Cursor) : Prop := ∃ found, tokensFrom v cur [] = .ok found

variable {v : Vocabulary} {card : Card} {text : List Char} {line : Nat} {index : Int}
  {p : Position}

/-! ### Steps -/

/-- A cursor that passes a card passes what comes behind its payload. -/
theorem Passes.behind_payload {tail : List Char} (hnewline : '\n' ∉ card)
    (htail : ∀ c ∈ tail.head?, isDelimiter c) (h : Passes v ⟨card ++ tail, index, ⟨line, 0⟩⟩) :
    Passes v ⟨(if card.isContinued then [Card.marker] else []) ++ card.drop Card.sequenceColumn ++
      tail, index + (card.payload 0).length, ⟨line, (card.payload 0).length⟩⟩ := by
  obtain ⟨found, h⟩ := h
  rw [tokensFrom_payload hnewline htail] at h
  unfold Passes
  generalize tokensFrom v _ [] = behind at h ⊢
  cases hwords : Reading.checked (Reading.ofText v ⟨line, 0⟩ (card.payload 0)) with
  | error fault =>
    rw [hwords] at h
    cases h
  | ok words =>
    cases behind with
    | error fault =>
      rw [hwords] at h
      cases h
    | ok behind => exact ⟨behind, rfl⟩

/-- At a newline a cursor stands at the width of cards. -/
theorem Passes.newline (h : Passes v ⟨'\n' :: text, index, p⟩) :
    p.column = Card.width ∧ Passes v ⟨text, index + 1, ⟨p.line + 1, 0⟩⟩ := by
  obtain ⟨found, h⟩ := h
  rw [tokensFrom_newline] at h
  split at h
  · next hcolumn =>
    refine ⟨hcolumn, ?_⟩
    unfold Passes
    cases hbehind : tokensFrom v ⟨text, index + 1, ⟨p.line + 1, 0⟩⟩ [] with
    | error fault =>
      rw [hbehind] at h
      cases h
    | ok behind => exact ⟨behind, rfl⟩
  · cases h

/-- At a marker in its column a cursor jumps to a newline, whatever it jumps over, and there is
more behind that. -/
theorem Passes.marker (hp : p.column = Card.markerColumn)
    (h : Passes v ⟨Card.marker :: text, index, p⟩) :
    ∃ rest, text.drop (Card.markerSpan - 1) = '\n' :: rest ∧ rest ≠ [] ∧
      Passes v ⟨rest, index + Card.markerSpan + 1, ⟨p.line + 1, 0⟩⟩ := by
  obtain ⟨found, h⟩ := h
  rw [tokensFrom_marker_cons hp] at h
  split at h
  · cases h
  · next c rest hdrop =>
    split at h
    · cases h
    · next hc =>
      split at h
      · cases h
      · next hne =>
        obtain rfl : c = '\n' := not_not.1 hc
        exact ⟨rest, hdrop, hne, found, h⟩

/-- A card that is passed without a marker has the width of cards. -/
theorem Passes.card_newline (hnewline : '\n' ∉ card) (hc : card.isContinued = false)
    (h : Passes v ⟨card ++ '\n' :: text, index, ⟨line, 0⟩⟩) :
    card.length = Card.width ∧
      Passes v ⟨text, index + card.length + 1, ⟨(line + 1 : Nat), 0⟩⟩ := by
  have hbehind := h.behind_payload hnewline (by simp; decide)
  rw [Passes, tokensFrom_rest_of_not_isContinued hnewline hc] at hbehind
  obtain ⟨hwidth, htext⟩ := Passes.newline hbehind
  exact ⟨Int.ofNat_inj.1 hwidth, htext⟩

/-- A card that is passed with a marker has, as many characters behind the marker as there are
columns, a newline and more. -/
theorem Passes.continued_newline (hnewline : '\n' ∉ card) (hc : card.isContinued)
    (h : Passes v ⟨card ++ '\n' :: text, index, ⟨line, 0⟩⟩) :
    ∃ rest, (card.drop Card.sequenceColumn ++ '\n' :: text).drop (Card.markerSpan - 1) =
        '\n' :: rest ∧ rest ≠ [] ∧
      Passes v ⟨rest, index + Card.markerColumn + Card.markerSpan + 1, ⟨(line + 1 : Nat), 0⟩⟩ := by
  have hbehind := h.behind_payload hnewline (by simp; decide)
  rw [Card.length_payload_of_isContinued hc, if_pos hc, List.append_assoc,
    List.singleton_append] at hbehind
  exact hbehind.marker rfl

/-- A last card that no newline ends is not continued, and has the width of cards. -/
theorem Passes.lastCard (hnewline : '\n' ∉ card) (hne : card ≠ [])
    (h : Passes v ⟨card, index, ⟨line, 0⟩⟩) :
    card.isContinued = false ∧ card.length = Card.width := by
  rw [← List.append_nil card] at h
  have hbehind := h.behind_payload hnewline (by simp)
  cases hc : card.isContinued with
  | true =>
    rw [Card.length_payload_of_isContinued hc, if_pos hc, List.append_assoc,
      List.singleton_append, List.append_nil] at hbehind
    obtain ⟨rest, hdrop, -, -⟩ := hbehind.marker rfl
    have hmem : '\n' ∈ (card.drop Card.sequenceColumn).drop (Card.markerSpan - 1) :=
      hdrop ▸ List.mem_cons_self
    exact absurd (List.mem_of_mem_drop (List.mem_of_mem_drop hmem)) hnewline
  | false =>
    rw [Passes, tokensFrom_rest_of_not_isContinued hnewline hc, tokensFrom_nil] at hbehind
    obtain ⟨found, hfound⟩ := hbehind
    split at hfound
    · next hcolumn =>
      have hlength := List.length_pos_iff.2 hne
      simp only at hcolumn
      exact ⟨rfl, by omega⟩
    · cases hfound

/-! ### Decks -/

/-- Whatever a marker jumps over, a deck that is passed does not end with a continued card. -/
theorem Passes.isLeftOpen_eq_false (h : Passes v ⟨text, index, ⟨line, 0⟩⟩) :
    Reading.isLeftOpen false (Card.ofText text) = false := by
  induction hn : text.length using Nat.strongRecOn generalizing text line index with
  | ind n ih =>
    induction text using Card.text_induction with
    | nil => rfl
    | card card hnewline hne =>
      rw [Card.ofText_card hnewline hne, Reading.isLeftOpen_cons]
      exact (h.lastCard hnewline hne).1
    | newline card text hnewline _ =>
      rw [List.length_append, List.length_cons] at hn
      cases hc : card.isContinued with
      | false =>
        have hrest := ih text.length (by omega) (h.card_newline hnewline hc).2 rfl
        rw [Card.ofText_card_newline hnewline, Reading.isLeftOpen_cons, hc]
        exact hrest
      | true =>
        obtain ⟨rest, hdrop, hne, hrest⟩ := h.continued_newline hnewline hc
        -- The text goes on behind the newline that the cursor has jumped to.
        have hsplit : card ++ '\n' :: text =
            (card.take Card.sequenceColumn ++ (card.drop Card.sequenceColumn ++ '\n' :: text).take
              (Card.markerSpan - 1)) ++ '\n' :: rest := by
          rw [← hdrop, List.append_assoc, List.take_append_drop, ← List.append_assoc,
            List.take_append_drop]
        have hlength := congrArg List.length hsplit
        simp only [List.length_append, List.length_cons] at hlength
        rw [hsplit, Reading.isLeftOpen_ofText_append _ hne]
        exact ih rest.length (by omega) hrest rfl

/-- Where no line ends among the columns behind a marker, every card that is passed has the width
of cards. -/
theorem Passes.length_eq_width (h : Passes v ⟨text, index, ⟨line, 0⟩⟩)
    (hcontinued : ∀ card ∈ Card.ofText text, card.isContinued → Card.width ≤ card.length) :
    ∀ card ∈ Card.ofText text, card.length = Card.width := by
  induction text using Card.text_induction generalizing line index with
  | nil => simp
  | card card hnewline hne =>
    rw [Card.ofText_card hnewline hne, List.forall_mem_singleton]
    exact (h.lastCard hnewline hne).2
  | newline card text hnewline ih =>
    rw [Card.ofText_card_newline hnewline] at hcontinued ⊢
    obtain ⟨hcard, htext⟩ := List.forall_mem_cons.1 hcontinued
    rw [List.forall_mem_cons]
    cases hc : card.isContinued with
    | false =>
      obtain ⟨hwidth, hrest⟩ := h.card_newline hnewline hc
      exact ⟨hwidth, ih hrest htext⟩
    | true =>
      obtain ⟨rest, hdrop, -, hrest⟩ := h.continued_newline hnewline hc
      have hjump : Card.markerSpan - 1 ≤ (card.drop Card.sequenceColumn).length := by
        have hwidth : Card.sequenceColumn + (Card.markerSpan - 1) = Card.width := rfl
        have hle := hcard hc
        rw [List.length_drop]
        omega
      rw [List.drop_append_of_le_length hjump, List.drop_drop] at hdrop
      -- The jump comes down within the card, unless that ends there.
      cases htail : card.drop (Card.sequenceColumn + (Card.markerSpan - 1)) with
      | nil =>
        rw [htail] at hdrop
        obtain ⟨-, rfl⟩ := List.cons.inj hdrop
        exact ⟨Nat.le_antisymm (List.drop_eq_nil_iff.1 htail) (hcard hc), ih hrest htext⟩
      | cons c tail =>
        rw [htail] at hdrop
        obtain ⟨rfl, -⟩ := List.cons.inj hdrop
        have hmem : '\n' ∈ card.drop (Card.sequenceColumn + (Card.markerSpan - 1)) :=
          htail ▸ List.mem_cons_self
        exact absurd (List.mem_of_mem_drop hmem) hnewline

/-- A deck that a cursor gets through does not end with a continued card, and its cards have the
width of cards just where none that is continued is shorter. -/
theorem layout_of_tokens_eq_ok {found : List Token} (h : tokens v text = .ok found) :
    Reading.isLeftOpen false (Card.ofText text) = false ∧
      ((∀ card ∈ Card.ofText text, card.length = Card.width) ↔
        ∀ card ∈ Card.ofText text, card.isContinued → Card.width ≤ card.length) := by
  have hpasses : Passes v ⟨text, 0, ⟨(0 : Nat), 0⟩⟩ := ⟨found, h⟩
  refine ⟨hpasses.isLeftOpen_eq_false, ?_, hpasses.length_eq_width⟩
  intro hwidth card hcard _
  exact (hwidth card hcard).ge

/-- A continued card and the card that goes on with it. -/
def continuedDeck : List Char :=
  List.replicate 71 ' ' ++ "*00000010\n".toList ++ List.replicate 80 ' '

theorem layout_of_tokens_continuedDeck :
    Reading.isLeftOpen false (Card.ofText continuedDeck) = false ∧
      ∀ card ∈ Card.ofText continuedDeck, card.length = Card.width := by
  have hfound : tokens .standard continuedDeck = .ok [.endOfLine ⟨1, 80⟩] := by decide +kernel
  obtain ⟨hopen, hwidth⟩ := layout_of_tokens_eq_ok hfound
  exact ⟨hopen, hwidth.2 (by decide +kernel)⟩

/-- A continued card that has lost its last character, with an empty line behind it. -/
def clippedDeck : List Char :=
  List.replicate 71 ' ' ++ "*0000001\n\n".toList ++ List.replicate 80 ' '

/-- The newline behind a clipped card counts among the columns that the marker jumps over. -/
theorem tokens_clippedDeck :
    tokens .standard clippedDeck = .ok [.endOfLine ⟨1, 80⟩] ∧
      ¬ ∀ card ∈ Card.ofText clippedDeck, card.length = Card.width := by
  constructor
  · decide +kernel
  · decide +kernel

end Cursor

end CardDeck
