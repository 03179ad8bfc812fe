import CardDeck.Position
import CardDeck.Text.Quoted

/-! # Tokens -/

namespace CardDeck

/-- The words that open a record: a segment, or one of the three leaf records of a segment. -/
inductive Header where
  | segm
  | field
  | lchild
  | xdfld
deriving DecidableEq, Repr

namespace Header

/-- The headers in the order in which a statement is matched against them. -/
def all : List Header := [.segm, .field, .lchild, .xdfld]

theorem mem_all (h : Header) : h ∈ all := by cases h <;> decide

/-- The header as a deck writes it. -/
def word : Header → String
  | .segm => "SEGM"
  | .field => "FIELD"
  | .lchild => "LCHILD"
  | .xdfld => "XDFLD"

def ofWord? (word : String) : Option Header := all.find? (·.word = word)

@[simp] theorem ofWord?_word (h : Header) : ofWord? h.word = some h := by cases h <;> decide

end Header

namespace Token

inductive Kind where
  /-- The end of a statement. -/
  | endOfLine
  /-- The end of the deck, which a reader sees past the last token. -/
  | endOfInput
  | header (header : Header)
  /-- A word that may stand before an equals sign. -/
  | key
  | identifier
  | label
  /-- The first word of a statement that carries no record. -/
  | directive
  | equals
  | comma
  | openParen
  | closeParen
deriving DecidableEq, Repr

namespace Kind

def all : List Kind :=
  [.endOfLine, .endOfInput] ++ Header.all.map .header ++
    [.key, .identifier, .label, .directive, .equals, .comma, .openParen, .closeParen]

theorem mem_all (k : Kind) : k ∈ all := by
  rcases k with _ | _ | ⟨_ | _ | _ | _⟩ | _ | _ | _ | _ | _ | _ | _ | _ <;> decide

/-- The name of a kind in listings. -/
def name : Kind → String
  | .endOfLine => "EOL"
  | .endOfInput => "EOF"
  | .header h => h.word
  | .key => "ATTR"
  | .identifier => "IDENT"
  | .label => "LABEL"
  | .directive => "SKIPLINE"
  | .equals => "EQUALS"
  | .comma => "COMMA"
  | .openParen => "LPAREN"
  | .closeParen => "RPAREN"

/-- What messages call a kind: punctuation by itself, all else by name. -/
def symbol : Kind → String
  | .equals => "="
  | .comma => ","
  | .openParen => "("
  | .closeParen => ")"
  | k => k.name

def ofName? (name : String) : Option Kind := all.find? (·.name = name)

end Kind

end Token

/-- A word or a mark of a deck with the place of its first character. -/
structure Token where
  kind : Token.Kind
  text : String
  position : Position
deriving DecidableEq, Repr

namespace Token

/-- Kind and quoted text, as a message names a token that it found. -/
def shown (t : Token) : String := t.kind.symbol ++ " " ++ Text.quoted t.text

/-- Like `shown`, but a token without text goes by its kind alone. -/
def describe (t : Token) : String := if t.text = "" then t.kind.symbol else t.shown

/-- One token on one line, in full. -/
def inspect (t : Token) : String :=
  let text := Text.quoted t.text
  s!"Token({t.kind.name}, {text}, {t.position.line}:{t.position.column})"

/-- The end of a statement at `position`. -/
def endOfLine (position : Position) : Token := ⟨.endOfLine, "", position⟩

/-- The end of a deck whose last token is at `position`. -/
def endOfInput (position : Position) : Token := ⟨.endOfInput, "", position⟩

end Token

end CardDeck
