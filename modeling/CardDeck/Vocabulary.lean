import CardDeck.Card
import CardDeck.Token
import CardDeck.Text.Blank

/-! # Words and marks

The same word can be a label, a directive, an attribute key or a value. What tells them apart is
a fixed list of words and the column where the word starts. -/

namespace CardDeck

/-- The words that are attribute keys. -/
structure Vocabulary where
  keys : List String
deriving DecidableEq, Repr

namespace Vocabulary

/-- The attributes of segments, fields, logical children and indexed fields. -/
def standard : Vocabulary where
  keys := [
    "BYTES", "COMPRTN", "CONST", "DDATA", "DSGROUP",
    "EXIT", "EXTRN", "FREQ", "INDEX", "NAME",
    "NULLVAL", "PAIR", "PARENT", "POINTER", "PTR",
    "RKSIZE", "RMNAME", "RULES", "SEGMENT", "SOURCE",
    "SRCH", "SSPTR", "START", "SUBSEQ", "TYPE"]

/-- The words that make a statement a directive in whatever column they start. -/
def directives : List String := ["DBD", "DATASET"]

/-- The kind of a word that starts in `column`. Listed words come before columns, and headers
before the keys of the vocabulary. -/
def classify (v : Vocabulary) (word : String) (column : Int) : Token.Kind :=
  match Header.ofWord? word with
  | some h => .header h
  | none =>
    if word ∈ v.keys then .key
    else if column = Card.labelColumn then .label
    else if column = Card.directiveColumn ∨ word ∈ directives then .directive
    else .identifier

/-- The token of a word. -/
def word (v : Vocabulary) (text : List Char) (position : Position) : Token :=
  let text := String.ofList text
  ⟨v.classify text position.column, text, position⟩

@[simp] theorem text_word (v : Vocabulary) (text : List Char) (p : Position) :
    (v.word text p).text = String.ofList text := rfl

@[simp] theorem position_word (v : Vocabulary) (text : List Char) (p : Position) :
    (v.word text p).position = p := rfl

@[simp] theorem classify_header (v : Vocabulary) (h : Header) (column : Int) :
    v.classify h.word column = .header h := by
  simp [classify]

end Vocabulary

/-- The marks, which are tokens of one character. -/
def punctuation? : Char → Option Token.Kind
  | '=' => some .equals
  | ',' => some .comma
  | '(' => some .openParen
  | ')' => some .closeParen
  | _ => none

/-- A character that no word holds. -/
def isDelimiter (c : Char) : Bool := Text.isBlank c || (punctuation? c).isSome

end CardDeck
