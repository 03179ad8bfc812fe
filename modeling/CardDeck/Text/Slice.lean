/-! # Slices

Indices into a text count from its start, or back from its end if they are negative. -/

namespace CardDeck.Text

/-- How many characters of a text of `n` stand before an index. An index too far back stands at
the start. -/
def offset (n : Nat) (index : Int) : Nat :=
  if index < 0 then (n + index).toNat else index.toNat

/-- The characters from one index to before another. -/
def slice (text : List Char) (i j : Int) : List Char :=
  let start := offset text.length i
  (text.drop start).take (offset text.length j - start)

theorem offset_of_nonneg {index : Int} (n : Nat) (h : 0 ≤ index) :
    offset n index = index.toNat := by
  simp [offset, Int.not_lt.2 h]

/-- A slice within the text is what is left to the end of it, cut to a length. -/
theorem slice_add {i : Int} (text : List Char) (n : Nat) (h : 0 ≤ i) :
    slice text i (i + n) = (text.drop i.toNat).take n := by
  have hlength : (i + n).toNat - i.toNat = n := by omega
  simp only [slice, offset_of_nonneg _ h, offset_of_nonneg _ (show 0 ≤ i + n by omega), hlength]

end CardDeck.Text
