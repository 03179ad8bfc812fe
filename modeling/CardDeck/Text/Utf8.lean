/-! # Text from bytes

Reading UTF-8 where every maximal piece of an ill-formed sequence becomes one replacement
character, and the three spellings of a line end become one. Both functions are total: any bytes
are some text. -/

namespace CardDeck.Text

/-- The character that stands for bytes that are no character. -/
def replacement : Char := '\ufffd'

namespace Utf8

/-- A sequence that has started: how many bytes are still due, the range that the next one must
lie in, and the value of the bits so far. -/
structure Pending where
  due : Nat
  least : Nat
  most : Nat
  bits : Nat
deriving DecidableEq, Repr

/-- What a byte means where a character starts: the character, or the sequence it opens, or
neither. The ranges for the second byte keep out overlong forms, surrogates and numbers past the
last code point. -/
def first (byte : Nat) : Option (Char ⊕ Pending) :=
  if byte < 0x80 then some (.inl (Char.ofNat byte))
  else if byte < 0xC2 then none
  else if byte < 0xE0 then some (.inr ⟨1, 0x80, 0xBF, byte - 0xC0⟩)
  else if byte < 0xF0 then
    some (.inr ⟨2, if byte = 0xE0 then 0xA0 else 0x80, if byte = 0xED then 0x9F else 0xBF,
      byte - 0xE0⟩)
  else if byte < 0xF5 then
    some (.inr ⟨3, if byte = 0xF0 then 0x90 else 0x80, if byte = 0xF4 then 0x8F else 0xBF,
      byte - 0xF0⟩)
  else none

/-- A reader between bytes: the characters so far, latest first, and the open sequence. -/
structure Reading where
  found : List Char := []
  pending : Option Pending := none

namespace Reading

/-- Read a byte where a character starts. -/
def start (found : List Char) (byte : Nat) : Reading :=
  match first byte with
  | some (.inl c) => ⟨c :: found, none⟩
  | some (.inr pending) => ⟨found, some pending⟩
  | none => ⟨replacement :: found, none⟩

/-- Read a byte. One that cannot continue the open sequence ends it as a replacement character
and starts afresh. -/
def next (r : Reading) (byte : Nat) : Reading :=
  match r.pending with
  | none => start r.found byte
  | some p =>
    if p.least ≤ byte ∧ byte ≤ p.most then
      let bits := p.bits * 64 + (byte - 0x80)
      if p.due ≤ 1 then ⟨Char.ofNat bits :: r.found, none⟩
      else ⟨r.found, some ⟨p.due - 1, 0x80, 0xBF, bits⟩⟩
    else start (replacement :: r.found) byte

/-- The text that was read. -/
def finish (r : Reading) : List Char :=
  match r.pending with
  | none => r.found.reverse
  | some _ => (replacement :: r.found).reverse

end Reading

/-- The characters of a sequence of bytes. -/
def decode (bytes : List UInt8) : List Char :=
  (bytes.foldl (fun (r : Reading) b => r.next b.toNat) {}).finish

end Utf8

/-- The text with `\r\n` and `\r` written as `\n`. -/
def unifyLineEnds (text : List Char) : List Char :=
  (text.foldr
    (fun c (beforeNewline, rest) =>
      if c = '\r' then (false, if beforeNewline then rest else '\n' :: rest)
      else (c == '\n', c :: rest))
    (false, [])).2

/-- The text of a file with these bytes. -/
def ofFile (bytes : List UInt8) : List Char := unifyLineEnds (Utf8.decode bytes)

end CardDeck.Text
