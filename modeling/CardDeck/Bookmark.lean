import CardDeck.Cursor
import CardDeck.Text.Slice

/-! # Places that can be set back

A cursor only goes on. A bookmark is a place in a text that can be moved both ways, also past
either end. Places before the start count back from the end of the text: what comes from there on
is the end of the text and then the text from its start. Further back than its length there is
nothing.

`Bookmark.readWord_of_nonneg` says that from a place of the text itself a word is read as a cursor
reads it. -/

namespace CardDeck

/-- A place in a text, or outside of it. -/
structure Bookmark where
  text : List Char
  index : Int
  position : Position
deriving DecidableEq, Repr

namespace Bookmark

def start (text : List Char) : Bookmark := ⟨text, 0, ⟨0, 0⟩⟩

/-- Move by `n` characters of the same line, back if `n` is negative. -/
def move (b : Bookmark) (n : Int) : Bookmark :=
  { b with index := b.index + n, position := b.position.shift n }

/-- Move to the start of the next line, which is the next character. -/
def newline (b : Bookmark) : Bookmark :=
  { b with index := b.index + 1, position := ⟨b.position.line + 1, 0⟩ }

/-- What comes from here on, unless this is further back than the text goes. -/
def rest? (b : Bookmark) : Option (List Char) :=
  if b.index < -b.text.length then none
  else
    let ahead := b.text.drop (Text.offset b.text.length b.index)
    some (if b.index < 0 then ahead ++ b.text else ahead)

/-- The cursor that starts here. -/
def cursor? (b : Bookmark) : Option Cursor := b.rest?.map fun rest => ⟨rest, b.index, b.position⟩

/-- The place that a cursor has come to. -/
def follow (b : Bookmark) (cur : Cursor) : Bookmark :=
  { b with index := cur.index, position := cur.position }

@[simp] theorem text_move (b : Bookmark) (n : Int) : (b.move n).text = b.text := rfl
@[simp] theorem text_newline (b : Bookmark) : b.newline.text = b.text := rfl
@[simp] theorem text_follow (b : Bookmark) (cur : Cursor) : (b.follow cur).text = b.text := rfl

@[simp] theorem move_zero (b : Bookmark) : b.move 0 = b := by simp [move]

/-- Read a word. Its end is looked for from here on, and its text is what stands between the two
places, which is nothing if the reading has passed the end of the text meanwhile and stopped
before the place it came from. -/
def readWord (v : Vocabulary) (b : Bookmark) : Except CardFault Token × Bookmark :=
  match b.cursor? with
  | none => (.error .untraceable, b)
  | some cur =>
    let (_, next) := cur.readWord v
    (.ok (v.word (Text.slice b.text b.index next.index) b.position), b.follow next)

/-- Pass a marker with the columns after it and the end of the line, whatever the character here
is. The bookmark stays where a fault is found. -/
def passContinuation (b : Bookmark) : Except CardFault Unit × Bookmark :=
  if b.position.column ≠ Card.markerColumn then (.error (.strayMarker b.position), b)
  else
    let past := b.move Card.markerSpan
    match past.cursor? with
    | none => (.error .untraceable, past)
    | some cur =>
      let (found, next) := cur.endCard
      (found, past.follow next)

theorem cursor?_of_nonneg {b : Bookmark} (h : 0 ≤ b.index) :
    b.cursor? = some ⟨b.text.drop b.index.toNat, b.index, b.position⟩ := by
  have hfar : ¬ b.index < -b.text.length := by omega
  simp [cursor?, rest?, Text.offset_of_nonneg _ h, Int.not_lt.2 h, hfar]

/-- In the text itself a word is read as a cursor reads it. -/
theorem readWord_of_nonneg {v : Vocabulary} {b : Bookmark} {cur : Cursor} (h : 0 ≤ b.index)
    (hc : b.cursor? = some cur) :
    b.readWord v = (.ok (cur.readWord v).1, b.follow (cur.readWord v).2) := by
  obtain rfl : _ = cur := by simpa [cursor?_of_nonneg h] using hc
  have hpart := Cursor.wordPart_prefix b.position.column (b.text.drop b.index.toNat)
  simp only [readWord, hc, Cursor.readWord, Cursor.advance, Text.slice_add _ _ h,
    ← List.prefix_iff_eq_take.1 hpart]

end Bookmark

end CardDeck
