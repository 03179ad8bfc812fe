import CardDeck.Fault
import CardDeck.Text.Blank

/-! # Statements

A statement is the text of one card and of the cards that continue it, joined by single blanks.
Its spans trace each piece back to its card, so that every character has a position.

`Statement.ofCards` joins the cards of a deck. -/

namespace CardDeck

/-- A piece of a statement: from `offset` on, the text stands at `position`. -/
structure Span where
  offset : Int
  position : Position
deriving DecidableEq, Repr

structure Statement where
  text : List Char
  spans : List Span
  /-- The last card of the statement, which may be blank. -/
  endLine? : Option Int
deriving DecidableEq, Repr

namespace Statement

/-- How many spans, in a list ordered by offset, start at or before `offset`: the half of the
interval from `low` to `high` that must hold the border is searched on. -/
def spansUpTo (spans : List Span) (offset : Int) (low high : Nat) : Nat :=
  if _h : low < high then
    let middle := (low + high) / 2
    if spans[middle]?.any (offset < ·.offset) then spansUpTo spans offset low middle
    else spansUpTo spans offset (middle + 1) high
  else low
termination_by high - low

theorem spansUpTo_le (spans : List Span) (offset : Int) {low high : Nat} (h : low ≤ high) :
    spansUpTo spans offset low high ≤ high := by
  fun_induction spansUpTo spans offset low high with
  | case1 low high _ middle _ ih => have := ih (by omega); omega
  | case2 low high _ middle _ ih => exact ih (by omega)
  | case3 => exact h

/-- The span of an offset. An offset before all spans is reckoned back from the last one. -/
def span? (s : Statement) (offset : Int) : Option Span :=
  match spansUpTo s.spans offset 0 s.spans.length with
  | 0 => s.spans.getLast?
  | n + 1 => s.spans[n]?

/-- Only a statement without spans has offsets without one. -/
theorem span?_eq_none_iff {s : Statement} {offset : Int} : s.span? offset = none ↔ s.spans = [] := by
  have := spansUpTo_le s.spans offset (Nat.zero_le s.spans.length)
  rw [span?]
  split
  · exact List.getLast?_eq_none_iff
  · rw [List.getElem?_eq_none_iff, ← List.length_eq_zero_iff]
    omega

/-- The position of the character at an offset of the text. -/
def position? (s : Statement) (offset : Int) : Option Position :=
  (s.span? offset).map fun span => span.position.shift (offset - span.offset)

def firstLine? (s : Statement) : Option Int := s.spans.head?.map (·.position.line)

def lastLine? (s : Statement) : Option Int :=
  s.endLine? <|> s.spans.getLast?.map (·.position.line)

/-! ### Joining cards -/

/-- The statement of a card that continues none. Blanks at the start stay, since columns count. -/
def start (line : Nat) (card : Card) : Statement where
  text := Text.trimEnd (card.payload 0)
  spans := [⟨0, line, 0⟩]
  endLine? := some line

/-- The statement with a further card. A blank card adds nothing but its line, and no blank is
set before the first piece that is not empty. -/
def resume (s : Statement) (line : Nat) (card : Card) : Statement :=
  let piece := card.payload Card.resumeColumn
  let body := Text.trimStart piece
  let skipped := piece.length - body.length
  if body = [] then { s with endLine? := some line }
  else
    let text := if s.text = [] then [] else s.text ++ [' ']
    { text := text ++ Text.trimEnd body
      spans := s.spans ++ [⟨text.length, line, Card.resumeColumn + skipped⟩]
      endLine? := some line }

/-- Join the cards from `line` on to the statement that the card before has left unfinished. -/
def join (line : Nat) (unfinished : Option Statement) :
    List Card → Except CardFault (List Statement)
  | [] =>
    match unfinished with
    | none => .ok []
    | some _ => .error (.unfinished (line - 1 : Int))
  | card :: cards =>
    let s := match unfinished with
      | none => start line card
      | some s => s.resume line card
    if card.isContinued then join (line + 1) (some s) cards
    else (s :: ·) <$> join (line + 1) none cards

/-- The statements of a deck. -/
def ofCards (cards : List Card) : Except CardFault (List Statement) := join 0 none cards

end Statement

end CardDeck
