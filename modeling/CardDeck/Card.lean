/-! # Cards

A deck is text, one card to a line. Columns count from 0: a word in column 0 is a label, one in
column 7 a directive, statements stand in columns 0 to 71, an asterisk in column 71 continues the
statement on the next card from column 14, and columns 72 to 79 number the cards.

`Card.ofText` cuts text into cards, and `Card.ofText_append_newline` says that the newline after
the last card is optional. -/

namespace CardDeck

/-- The characters of one line, without its newline. A well-formed card has `Card.width` of
them. -/
abbrev Card := List Char

namespace Card

def width : Nat := 80

def labelColumn : Nat := 0

def directiveColumn : Nat := 7

/-- Where a continued statement goes on. -/
def resumeColumn : Nat := 14

def markerColumn : Nat := 71

/-- Where the columns that number the cards begin; no statement reaches them. -/
def sequenceColumn : Nat := 72

def marker : Char := '*'

/-- The columns from the marker on. -/
def markerSpan : Nat := width - markerColumn

/-- A newline that ends the text starts no card, and empty text has none. -/
def ofText (text : List Char) : List Card :=
  text.foldr
    (fun c cards =>
      if c = '\n' then [] :: cards
      else match cards with
        | [] => [[c]]
        | card :: cards => (c :: card) :: cards)
    []

@[simp] theorem ofText_nil : ofText [] = [] := rfl

@[simp] theorem ofText_newline (text : List Char) :
    ofText ('\n' :: text) = [] :: ofText text := rfl

theorem ofText_append_newline {text : List Char} (h : text.getLast? ≠ some '\n')
    (hne : text ≠ []) : ofText (text ++ ['\n']) = ofText text := by
  induction text with
  | nil => exact absurd rfl hne
  | cons c cs ih =>
    cases cs with
    | nil =>
      have hc : c ≠ '\n' := by simpa using h
      simp [ofText, hc]
    | cons d ds =>
      have := ih (by simpa using h) (by simp)
      simp only [ofText, List.cons_append, List.foldr_cons] at this ⊢
      rw [this]

/-- The statement on this card goes on with the next. -/
def isContinued (card : Card) : Bool := card[markerColumn]? = some marker

/-- The part of the statement that stands on this card, from `column` on. The marker is no part
of it. -/
def payload (card : Card) (column : Nat) : List Char :=
  (card.take (if card.isContinued then markerColumn else sequenceColumn)).drop column

end Card

end CardDeck
