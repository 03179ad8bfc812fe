import CardDeck.Text.Hex
import CardDeck.Text.Printable

/-! # Quoted text

How a message shows a piece of source text: between single quotes, or between double quotes where
that saves escaping, with every character that would not show written by name or by number. -/

namespace CardDeck.Text

/-- Single quotes, unless the text holds single quotes and no double ones. -/
def quoteMark (text : List Char) : Char :=
  if '\x27' ∈ text ∧ '\x22' ∉ text then '\x22' else '\x27'

/-- One character between quotes `mark`. A character without a name takes the shortest of the
forms with two, four and eight digits that holds its number. -/
def quotedChar (mark c : Char) : List Char :=
  if c = mark ∨ c = '\x5c' then ['\x5c', c]
  else if c = '\n' then ['\x5c', 'n']
  else if c = '\r' then ['\x5c', 'r']
  else if c = '\t' then ['\x5c', 't']
  else if isPrintable c then [c]
  else if c.toNat < 0x100 then '\x5c' :: 'x' :: hexDigits 2 c.toNat
  else if c.toNat < 0x10000 then '\x5c' :: 'u' :: hexDigits 4 c.toNat
  else '\x5c' :: 'U' :: hexDigits 8 c.toNat

/-- A text as messages quote it. -/
def quoted (text : String) : String :=
  let mark := quoteMark text.toList
  .ofList (mark :: text.toList.flatMap (quotedChar mark) ++ [mark])

end CardDeck.Text
