import CardDeck.Card
import CardDeck.Token

/-! # Faults

What can be wrong with a deck. A fault names its cause; its wording, and the place that the
wording starts with, are in its notice. Faults of the cards are found before there are tokens;
faults of the records each have a token to point at. -/

namespace CardDeck

/-- A worded fault and the place of it, as far as there is one. -/
structure Notice where
  message : String
  line? : Option Int
  column? : Option Int
deriving DecidableEq, Repr

namespace Notice

/-- The place as a message starts with it. A column without a line says nothing. -/
def location (n : Notice) : String :=
  match n.line?, n.column? with
  | none, _ => ""
  | some line, none => s!"line {line}: "
  | some line, some column => s!"line {line}, column {column}: "

/-- The message after its place. -/
def text (n : Notice) : String := n.location ++ n.message

/-- A message about a position. -/
def ofPosition (message : String) (p : Position) : Notice := ⟨message, some p.line, some p.column⟩

end Notice

inductive CardFault where
  /-- A card of some other length than the width of cards. -/
  | width (line length : Int)
  /-- The last card promises a continuation. -/
  | unfinished (line : Int)
  /-- A marker outside its column. -/
  | strayMarker (position : Position)
  /-- The card goes on after the columns that follow a marker. -/
  | noLineEnd (position : Position)
  /-- A line ends before or after the width of cards. -/
  | lineEnd (position : Position)
  /-- A statement that stands on no card, or a place further back than the text goes. -/
  | untraceable
deriving DecidableEq, Repr

namespace CardFault

def notice : CardFault → Notice
  | .width line length => ⟨s!"record length is {length}, expected {Card.width}", some line, none⟩
  | .unfinished line => ⟨"continuation marker without a following line", some line, none⟩
  | .strayMarker p =>
    .ofPosition s!"continuation marker must be in column {Card.markerColumn}" p
  | .noLineEnd p => .ofPosition "no newline after line continuation" p
  | .lineEnd p => .ofPosition s!"newline is only allowed at column {Card.width}" p
  | .untraceable => ⟨"no such place", none, none⟩

end CardFault

/-- Why a statement is no record of a certain header. -/
structure Rejection where
  header : String
  why : String
deriving DecidableEq, Repr

inductive RecordFault where
  /-- A statement starts with no header. -/
  | unexpected (token : Token) (rejections : List Rejection)
  /-- What follows the equals sign is no value. -/
  | badValue (token : Token) (reason : String)
  /-- An attribute starts with a token that is no key. -/
  | badKey (token : Token)
  /-- No equals sign follows the key. -/
  | missingEquals (token : Token) (key : String)
  /-- The statement ends after its header. -/
  | noAttributes (token : Token) (header : String)
  /-- A leaf record with no segment to go to. -/
  | orphaned (token : Token)
deriving DecidableEq, Repr

namespace RecordFault

/-- The token that the fault points at. -/
def token : RecordFault → Token
  | .unexpected t _ | .badValue t _ | .badKey t | .missingEquals t _ | .noAttributes t _
  | .orphaned t => t

def message : RecordFault → String
  | .unexpected t rejections =>
    "unexpected token " ++ t.shown ++
      .join (rejections.map fun r => "\n  " ++ r.header ++ ": " ++ r.why)
  | .badValue _ reason => "invalid attribute value: " ++ reason
  | .badKey t => "expected attribute keyword, got " ++ t.shown
  | .missingEquals t key => "expected \x27=\x27 after " ++ key ++ ", got " ++ t.shown
  | .noAttributes _ header => header ++ " has no attributes"
  | .orphaned t => t.text ++ " outside of any SEGM"

def notice (f : RecordFault) : Notice := .ofPosition f.message f.token.position

end RecordFault

inductive Fault where
  | card (fault : CardFault)
  | record (fault : RecordFault)
deriving DecidableEq, Repr

namespace Fault

def notice : Fault → Notice
  | .card f => f.notice
  | .record f => f.notice

end Fault

end CardDeck
