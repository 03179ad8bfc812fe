import CardDeck.Segment
import CardDeck.Text.Hex

/-! # JSON

Segments as JSON text, one member or item to a line, indented by two blanks a level and in ASCII
only. -/

namespace CardDeck.Listing

inductive Json where
  | text (s : String)
  | array (items : List Json)
  | object (members : List (String × Json))

namespace Json

/-- A code unit of 16 bits as an escape. -/
def unitEscape (n : Nat) : List Char := '\x5c' :: 'u' :: Text.hexDigits 4 n

/-- A character between quotes. A code point past 16 bits takes two surrogates. -/
def escapedChar (c : Char) : List Char :=
  let n := c.toNat
  if c = '\x22' ∨ c = '\x5c' then ['\x5c', c]
  else if c = '\n' then ['\x5c', 'n']
  else if c = '\r' then ['\x5c', 'r']
  else if c = '\t' then ['\x5c', 't']
  else if c = '\x08' then ['\x5c', 'b']
  else if c = '\x0c' then ['\x5c', 'f']
  else if 0x20 ≤ n ∧ n ≤ 0x7E then [c]
  else if n < 0x10000 then unitEscape n
  else
    unitEscape (0xD800 + (n - 0x10000) / 0x400) ++ unitEscape (0xDC00 + (n - 0x10000) % 0x400)

def escaped (s : String) : String :=
  .ofList ('\x22' :: s.toList.flatMap escapedChar ++ ['\x22'])

/-- The lines of a bracketed list of blocks: a comma ends every block but the last. -/
def bracketed (opening closing : String) (blocks : List (List String)) : List String :=
  let comma (block : List String) : List String :=
    block.dropLast ++ block.getLast?.toList.map (· ++ ",")
  match blocks.getLast? with
  | none => [opening ++ closing]
  | some last =>
    opening :: (blocks.dropLast.flatMap comma ++ last).map ("  " ++ ·) ++ [closing]

/-- The lines of a value. -/
def lines : Json → List String
  | .text s => [escaped s]
  | .array items => bracketed "[" "]" (items.attach.map fun ⟨item, _⟩ => item.lines)
  | .object members =>
    bracketed "\x7b" "\x7d" (members.attach.map fun ⟨(key, value), _⟩ =>
      let block := value.lines
      block.head?.toList.map (escaped key ++ ": " ++ ·) ++ block.tail)
termination_by j => sizeOf j
decreasing_by
  · have := List.sizeOf_lt_of_mem ‹_›
    simp_all
    omega
  · have := List.sizeOf_lt_of_mem ‹_›
    simp_all
    omega

/-- The text of a value. -/
def render (j : Json) : String := "\n".intercalate j.lines

def ofAttributes (attributes : Attributes) : Json :=
  .array (attributes.map fun a => .object [("key", .text a.key), ("value", .text a.value)])

def ofRecord (attributes : Attributes) : Json :=
  .object [("attributes", ofAttributes attributes)]

def ofSegment (s : Segment) : Json :=
  .object [("attributes", ofAttributes s.attributes), ("fields", .array (s.fields.map ofRecord)),
    ("leftChildren", .array (s.leftChildren.map ofRecord)),
    ("crossReferences", .array (s.crossReferences.map ofRecord))]

end Json

/-- The text of a list of segments. -/
def jsonOfSegments (segments : List Segment) : String :=
  (Json.array (segments.map Json.ofSegment)).render

end CardDeck.Listing
