/-! # Positions -/

namespace CardDeck

/-- A place in a deck: a card and a column of it, both counted from 0. Positions are integers
because a column can be reckoned back past the start of the piece it belongs to. -/
structure Position where
  line : Int
  column : Int
deriving DecidableEq, Repr

namespace Position

/-- The place `n` columns further on the same card. -/
def shift (p : Position) (n : Int) : Position := ⟨p.line, p.column + n⟩

@[simp] theorem line_shift (p : Position) (n : Int) : (p.shift n).line = p.line := rfl
@[simp] theorem column_shift (p : Position) (n : Int) : (p.shift n).column = p.column + n := rfl

@[simp] theorem shift_zero (p : Position) : p.shift 0 = p := by simp [shift]

theorem shift_shift (p : Position) (m n : Int) : (p.shift m).shift n = p.shift (m + n) := by
  simp [shift, Int.add_assoc]

end Position

end CardDeck
