/-! # Blanks

A blank is a character that separates words: the white space of Unicode together with the four
separator controls. Trimming takes blanks off one end of a text and nothing else. -/

namespace CardDeck.Text

/-- The characters of the bidirectional classes WS, B and S and of the category Zs. -/
def isBlank (c : Char) : Bool :=
  let n := c.toNat
  (0x09 ≤ n && n ≤ 0x0D) || (0x1C ≤ n && n ≤ 0x20) || n == 0x85 || n == 0xA0 || n == 0x1680
    || (0x2000 ≤ n && n ≤ 0x200A) || n == 0x2028 || n == 0x2029 || n == 0x202F || n == 0x205F
    || n == 0x3000

/-- Drop the blanks at the start. -/
def trimStart (text : List Char) : List Char := text.dropWhile isBlank

/-- Drop the blanks at the end: a blank survives only before a character that does. -/
def trimEnd : List Char → List Char
  | [] => []
  | c :: cs =>
    match trimEnd cs with
    | [] => if isBlank c then [] else [c]
    | kept => c :: kept

@[simp] theorem trimEnd_nil : trimEnd [] = [] := rfl

theorem takeWhile_append_trimStart (text : List Char) :
    text.takeWhile isBlank ++ trimStart text = text :=
  List.takeWhile_append_dropWhile

/-- Only blanks trim to nothing. -/
theorem trimEnd_eq_nil_iff {text : List Char} : trimEnd text = [] ↔ text.all isBlank := by
  induction text with
  | nil => simp
  | cons c cs ih =>
    rw [trimEnd]
    split
    · next h => simp_all
    · next h => simp_all

end CardDeck.Text
