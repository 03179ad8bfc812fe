import CardDeck.Card.Width
import CardDeck.Cursor
import CardDeck.Deck
import CardDeck.Statement.Tokens
import CardDeck.Text.Utf8

/-! # Decoding a deck

From text to segments, in one of two ways: the cards are joined to statements and the statements
read, or the text is read as it stands. -/

namespace CardDeck

/-- How a deck is read. -/
structure Decoder where
  vocabulary : Vocabulary := .standard
  /-- Read the cards as they stand, and do not join them to statements. -/
  raw : Bool := false
deriving DecidableEq, Repr

/-- The statements of a deck of well-formed cards. -/
def Statement.ofText (text : List Char) : Except CardFault (List Statement) := do
  let cards := Card.ofText text
  Card.checkWidths 0 cards
  Statement.ofCards cards

namespace Decoder

def tokens (d : Decoder) (text : List Char) : Except CardFault (List Token) :=
  if d.raw then Cursor.tokens d.vocabulary text
  else do
    let statements ← Statement.ofText text
    Statement.tokensOfList d.vocabulary statements (text.getLast? = some '\n')

def segments (d : Decoder) (text : List Char) : Except Fault (List Segment) := do
  let tokens ← (d.tokens text).mapError .card
  (Segment.ofTokens tokens).mapError .record

/-- The segments of a deck in a file. -/
def segmentsOfFile (d : Decoder) (bytes : List UInt8) : Except Fault (List Segment) :=
  d.segments (Text.ofFile bytes)

end Decoder

end CardDeck
