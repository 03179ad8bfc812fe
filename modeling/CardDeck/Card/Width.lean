import CardDeck.Fault

/-! # The width of cards

Columns carry meaning, so a deck whose cards have lost their padding cannot be read. -/

namespace CardDeck.Card

/-- Refuse the first card, counted from `line`, that has not the width of cards. -/
def checkWidths (line : Nat) : List Card → Except CardFault Unit
  | [] => .ok ()
  | card :: cards =>
    if card.length = width then checkWidths (line + 1) cards
    else .error (.width line card.length)

theorem checkWidths_eq_ok_iff {line : Nat} {cards : List Card} :
    checkWidths line cards = .ok () ↔ ∀ card ∈ cards, card.length = width := by
  induction cards generalizing line with
  | nil => simp [checkWidths]
  | cons card cards ih => by_cases h : card.length = width <;> simp [checkWidths, h, ih]

end CardDeck.Card
