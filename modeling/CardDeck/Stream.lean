import CardDeck.Deck

/-! # Streams of tokens

A list of tokens with a place in it. Each construct can be read from wherever the stream stands,
and the stream moves past the tokens that were read, whether or not a fault was found. -/

namespace CardDeck

structure Stream where
  tokens : List Token
  /-- The tokens passed, which can be more than there are. -/
  index : Nat := 0
deriving DecidableEq, Repr

/-- The outcome of matching a record of some kind. -/
inductive Match where
  | record (header : Token) (attributes : Attributes)
  | mismatch (reason : String)
deriving DecidableEq, Repr

namespace Stream

variable {α : Type}

/-- The tokens that have not been passed. -/
def rest (s : Stream) : List Token := s.tokens.drop s.index

/-- What stands past the last token. -/
def last (s : Stream) : Token := .endAfter s.tokens

/-- The next token. -/
def current (s : Stream) : Token := s.rest.head?.getD s.last

def advance (s : Stream) : Stream := { s with index := s.index + 1 }

/-- Read from the rest of the tokens with a function that says which it has left. -/
def read (s : Stream) (f : List Token → α × List Token) : α × Stream :=
  let (result, left) := f s.rest
  (result, { s with index := s.index + (s.rest.length - left.length) })

@[simp] theorem rest_advance (s : Stream) : s.advance.rest = s.rest.drop 1 := by
  simp [rest, advance, List.drop_drop]

/-- Read a value. -/
def value (s : Stream) : Except RecordFault String × Stream :=
  s.read (Record.valueReader.read s.last .start)

/-- Read the items of a list up to its closing parenthesis. -/
def items (s : Stream) : Except RecordFault String × Stream :=
  s.read (Record.valueReader.read s.last (.item []))

/-- Read one attribute. -/
def oneAttribute (s : Stream) : Except RecordFault Attribute × Stream :=
  s.read (Record.attributeReader.read s.last .key)

/-- Read the attributes after a header, with the end of their statement. -/
def attributes (s : Stream) (header : Token) : Except RecordFault Attributes × Stream :=
  s.read ((Record.attributesReader header).read s.last {})

/-- Read a record whose first token is of this kind, or leave a token of another kind. -/
def attempt (s : Stream) (kind : Token.Kind) : Except RecordFault Match × Stream :=
  let header := s.current
  if header.kind ≠ kind then (.ok (.mismatch (Deck.mismatch kind header)), s)
  else
    let (result, s) := s.advance.attributes header
    (result.map (.record header), s)

/-- Read what comes before the next record. -/
def skip (s : Stream) (assembly : Assembly) : Assembly × Stream :=
  s.read (Deck.skip ⟨assembly, .between⟩)

/-- Read the segments of the rest of a deck. -/
def segments (s : Stream) : Except RecordFault (List Segment) × Stream :=
  s.read (Deck.read s.last {})

end Stream

end CardDeck
