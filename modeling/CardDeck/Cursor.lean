import CardDeck.Fault
import CardDeck.Vocabulary

/-! # Reading tokens from the text of a deck

A cursor walks through the text and keeps count of line and column. It reads whole decks, and
refuses one whose cards are not laid out as cards: a line must end at the width of cards, a marker
must stand in its column, and a card with a marker must be followed by another. -/

namespace CardDeck

/-- A place in a text: what comes from here on, and how far the reader has come. -/
structure Cursor where
  rest : List Char
  /-- The characters passed, which can be more than the text had. -/
  index : Int
  position : Position
deriving DecidableEq, Repr

namespace Cursor

/-- The cursor at the start of a text. -/
def start (text : List Char) : Cursor := ⟨text, 0, ⟨0, 0⟩⟩

/-- Pass `n` characters of the same line. -/
def advance (cur : Cursor) (n : Nat) : Cursor :=
  ⟨cur.rest.drop n, cur.index + n, cur.position.shift n⟩

/-- Pass the character that ends a line. -/
def newline (cur : Cursor) : Cursor :=
  ⟨cur.rest.drop 1, cur.index + 1, ⟨cur.position.line + 1, 0⟩⟩

@[simp] theorem rest_advance (cur : Cursor) (n : Nat) :
    (cur.advance n).rest = cur.rest.drop n := rfl
@[simp] theorem rest_newline (cur : Cursor) : cur.newline.rest = cur.rest.drop 1 := rfl

/-- The characters of the word whose next one would stand in `column`. A word ends before a
delimiter, before the columns that number the cards, and before a marker in its column. -/
def wordPart (column : Int) : List Char → List Char
  | [] => []
  | c :: cs =>
    if isDelimiter c || Card.sequenceColumn ≤ column
      || (c = Card.marker && column = Card.markerColumn) then []
    else c :: wordPart (column + 1) cs

theorem wordPart_prefix (column : Int) (cs : List Char) : wordPart column cs <+: cs := by
  induction cs generalizing column with
  | nil => exact List.prefix_refl _
  | cons c cs ih =>
    unfold wordPart
    split
    · exact List.nil_prefix
    · exact List.prefix_cons_inj c |>.2 (ih _)

theorem wordPart_cons {column : Int} {c : Char} {cs : List Char} (hd : isDelimiter c = false)
    (hs : column < Card.sequenceColumn) (hm : c ≠ Card.marker) :
    wordPart column (c :: cs) = c :: wordPart (column + 1) cs := by
  simp [wordPart, hd, hm, Int.not_le.2 hs]

/-- Read a word, which is empty if none starts here. -/
def readWord (v : Vocabulary) (cur : Cursor) : Token × Cursor :=
  let text := wordPart cur.position.column cur.rest
  (v.word text cur.position, cur.advance text.length)

/-- End a card that goes on with the next one, behind the columns that follow its marker. The
cursor stays where a fault is found. -/
def endCard (cur : Cursor) : Except CardFault Unit × Cursor :=
  match cur.rest with
  | [] => (.error (.unfinished cur.position.line), cur)
  | c :: rest =>
    if c ≠ '\n' then (.error (.noLineEnd cur.position), cur)
    else if rest = [] then (.error (.unfinished cur.position.line), cur.newline)
    else (.ok (), cur.newline)

/-- Pass a marker with the columns after it and the end of the line, whatever the character at
the cursor is. -/
def passContinuation (cur : Cursor) : Except CardFault Unit × Cursor :=
  if cur.position.column ≠ Card.markerColumn then (.error (.strayMarker cur.position), cur)
  else (cur.advance Card.markerSpan).endCard

/-- One round at the character `c`, which is the next: a token or none, and where to go on. -/
def round (v : Vocabulary) (cur : Cursor) (c : Char) :
    Except CardFault (Option Token × Cursor) :=
  if c = '\n' then
    if cur.position.column = Card.width then .ok (some (.endOfLine cur.position), cur.newline)
    else .error (.lineEnd cur.position)
  else if Text.isBlank c || Card.sequenceColumn ≤ cur.position.column then
    .ok (none, cur.advance 1)
  else if c = Card.marker then
    match cur.passContinuation with
    | (.ok (), next) => .ok (none, next)
    | (.error fault, _) => .error fault
  else
    match punctuation? c with
    | some kind => .ok (some ⟨kind, c.toString, cur.position⟩, cur.advance 1)
    | none =>
      let (token, next) := cur.readWord v
      .ok (some token, next)

theorem rest_passContinuation_lt {cur next : Cursor} (h : cur.rest ≠ [])
    (hn : cur.passContinuation = (.ok (), next)) : next.rest.length < cur.rest.length := by
  have := List.length_pos_iff.2 h
  simp only [passContinuation, endCard, rest_advance] at hn
  split at hn
  · simp at hn
  · split at hn
    · simp at hn
    · split at hn
      · simp at hn
      · split at hn
        · simp at hn
        · simp only [Prod.mk.injEq, true_and] at hn
          subst hn
          simp only [rest_newline, rest_advance, List.length_drop]
          omega

/-- Every round passes a character at least: a word that starts here is not empty, since what
could end it has been dealt with before. -/
theorem rest_round_lt {v : Vocabulary} {cur next : Cursor} {c : Char} {cs : List Char}
    {token : Option Token} (h : cur.rest = c :: cs) (hr : cur.round v c = .ok (token, next)) :
    next.rest.length < cur.rest.length := by
  unfold round at hr
  split at hr
  · split at hr <;> simp only [Except.ok.injEq, Prod.mk.injEq, reduceCtorEq] at hr
    simp [← hr.2, h]
  · split at hr
    · simp only [Except.ok.injEq, Prod.mk.injEq] at hr
      simp [← hr.2, h]
    · next hblank =>
      split at hr
      · split at hr
        · next hpass =>
          simp only [Except.ok.injEq, Prod.mk.injEq] at hr
          exact hr.2 ▸ rest_passContinuation_lt (by simp [h]) hpass
        · simp at hr
      · next hmarker =>
        split at hr
        · simp only [Except.ok.injEq, Prod.mk.injEq] at hr
          simp [← hr.2, h]
        · next hmark =>
          simp only [Bool.or_eq_true, decide_eq_true_eq, not_or, Int.not_le] at hblank
          have hd : isDelimiter c = false := by simp [isDelimiter, hblank.1, hmark]
          simp only [readWord, Except.ok.injEq, Prod.mk.injEq] at hr
          rw [← hr.2, h, wordPart_cons hd hblank.2 hmarker]
          simp only [rest_advance, List.length_drop, List.length_cons, h]
          omega

/-- The end of the text, which ends a line as a newline would. -/
def finish (cur : Cursor) : Except CardFault Token :=
  if cur.position.column = 0 ∨ cur.position.column = Card.width then
    .ok (.endOfLine cur.position)
  else .error (.lineEnd cur.position)

/-- The tokens from the cursor on, after those found before it, latest first. -/
def tokensFrom (v : Vocabulary) (cur : Cursor) (found : List Token) :
    Except CardFault (List Token) :=
  match _h : cur.rest with
  | [] => cur.finish.map fun last => (last :: found).reverse
  | c :: _ =>
    match _hr : cur.round v c with
    | .error fault => .error fault
    | .ok (token, next) => tokensFrom v next (token.toList ++ found)
termination_by cur.rest.length
decreasing_by exact rest_round_lt ‹_› ‹_›

theorem tokensFrom_of_rest_nil {v : Vocabulary} {cur : Cursor} (found : List Token)
    (h : cur.rest = []) :
    tokensFrom v cur found = cur.finish.map fun last => found.reverse ++ [last] := by
  rw [tokensFrom]
  split <;> simp_all

theorem tokensFrom_of_rest_cons {v : Vocabulary} {cur : Cursor} {c : Char} {cs : List Char}
    (found : List Token) (h : cur.rest = c :: cs) :
    tokensFrom v cur found =
      match cur.round v c with
      | .error fault => .error fault
      | .ok (token, next) => tokensFrom v next (token.toList ++ found) := by
  rw [tokensFrom]
  split
  · simp_all
  · next heq =>
    obtain ⟨rfl, rfl⟩ : c = _ ∧ cs = _ := by simpa [h] using heq
    split <;> simp_all

/-- What has been found before is only put in front. -/
theorem tokensFrom_eq_map (v : Vocabulary) (cur : Cursor) (found : List Token) :
    tokensFrom v cur found = (tokensFrom v cur []).map (found.reverse ++ ·) := by
  generalize hn : cur.rest.length = n
  induction n using Nat.strongRecOn generalizing cur found with
  | ind n ih =>
    cases hc : cur.rest with
    | nil =>
      rw [tokensFrom_of_rest_nil _ hc, tokensFrom_of_rest_nil _ hc]
      cases cur.finish <;> simp [Except.map]
    | cons c cs =>
      rw [tokensFrom_of_rest_cons _ hc, tokensFrom_of_rest_cons _ hc]
      cases hr : cur.round v c with
      | error fault => rfl
      | ok found' =>
        obtain ⟨token, next⟩ := found'
        have hlt := hn ▸ rest_round_lt hc hr
        simp only
        rw [ih _ hlt next (token.toList ++ found) rfl, ih _ hlt next (token.toList ++ []) rfl]
        cases tokensFrom v next [] <;> simp [Except.map]

/-- The tokens of a text. -/
def tokens (v : Vocabulary) (text : List Char) : Except CardFault (List Token) :=
  tokensFrom v (start text) []

end Cursor

end CardDeck
