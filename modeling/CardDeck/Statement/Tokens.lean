import CardDeck.Statement
import CardDeck.Vocabulary

/-! # Reading tokens from statements

A joined statement has no layout left to check. Words and marks are read off its text, and the
spans say where on the cards they stand. -/

namespace CardDeck.Statement

/-- The tokens of the rest of the text, which starts at `offset`. -/
def tokensFrom (v : Vocabulary) (s : Statement) (offset : Nat) (rest : List Char) :
    Except CardFault (List Token) :=
  match rest with
  | [] => .ok []
  | c :: cs =>
    if Text.isBlank c then tokensFrom v s (offset + 1) cs
    else match s.position? offset with
      | none => .error .untraceable
      | some p =>
        if Card.sequenceColumn ≤ p.column then tokensFrom v s (offset + 1) cs
        else if c = Card.marker then .error (.strayMarker p)
        else match punctuation? c with
          | some kind => (⟨kind, c.toString, p⟩ :: ·) <$> tokensFrom v s (offset + 1) cs
          | none =>
            let word := c :: cs.takeWhile (!isDelimiter ·)
            (v.word word p :: ·) <$>
              tokensFrom v s (offset + word.length) (cs.dropWhile (!isDelimiter ·))
termination_by rest.length
decreasing_by
  all_goals simp only [List.length_cons]
  all_goals have := (cs.dropWhile_sublist (!isDelimiter ·)).length_le
  all_goals omega

/-- The tokens of a statement and its end, which counts as the end of its last card. -/
def tokens (v : Vocabulary) (s : Statement) : Except CardFault (List Token) := do
  let words ← tokensFrom v s 0 s.text
  match s.lastLine? with
  | none => .error .untraceable
  | some line => .ok (words ++ [.endOfLine ⟨line, Card.width⟩])

/-- The tokens of a list of statements. If the text they come from was `terminated` by a newline,
or had no statement, an empty line follows the last card. -/
def tokensOfList (v : Vocabulary) (statements : List Statement) (terminated : Bool) :
    Except CardFault (List Token) := do
  let groups ← statements.mapM (tokens v)
  let found := groups.flatten
  if terminated || found.isEmpty then
    let next := match statements.getLast?.bind lastLine? with
      | none => 0
      | some line => line + 1
    .ok (found ++ [.endOfLine ⟨next, 0⟩])
  else .ok found

end CardDeck.Statement
