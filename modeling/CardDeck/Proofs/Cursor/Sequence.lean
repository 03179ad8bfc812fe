import CardDeck.Proofs.Cursor.Reading

/-! # A cursor does not see what numbers the cards

Two cursors go in step over texts that are the same but for the columns behind the payload, whatever
the width of the cards: `Cursor.tokensFrom_congr`. Behind a marker the columns are not counted one
by one, and a newline may be among them. What keeps the cursors together there is that the newlines
of the two texts are at the same places. -/

namespace CardDeck.Cursor

/-- Texts that go on in `column`, have their newlines at the same places, and are the same but for
the columns that number the cards. -/
inductive Matches : Int → List Char → List Char → Prop
  | nil {column : Int} : Matches column [] []
  | newline {column : Int} {a b : List Char} (h : Matches 0 a b) :
      Matches column ('\n' :: a) ('\n' :: b)
  | char {column : Int} {c d : Char} {a b : List Char} (hc : c ≠ '\n') (hd : d ≠ '\n')
      (hsame : column < Card.sequenceColumn → c = d) (h : Matches (column + 1) a b) :
      Matches column (c :: a) (d :: b)

variable {v : Vocabulary} {column : Int} {a b : List Char} {index : Int} {p : Position}

namespace Matches

theorem eq_nil_iff (h : Matches column a b) : a = [] ↔ b = [] := by
  cases h with
  | nil => exact Iff.rfl
  | newline => simp
  | char => simp

/-- A word does not reach the columns that number the cards. -/
theorem wordPart_eq (h : Matches column a b) : wordPart column a = wordPart column b := by
  induction h with
  | nil => rfl
  | newline => simp [wordPart, isDelimiter_newline]
  | @char column c d a b hc hd hsame h ih =>
    rcases Int.lt_or_le column Card.sequenceColumn with hlt | hle
    · obtain rfl := hsame hlt
      rw [wordPart, wordPart, ih]
    · simp [wordPart, hle]

theorem drop_wordPart (h : Matches column a b) :
    Matches (column + (wordPart column a).length) (a.drop (wordPart column a).length)
      (b.drop (wordPart column a).length) := by
  induction h with
  | nil => exact .nil
  | @newline column a b h =>
    have hpart : wordPart column ('\n' :: a) = [] := by simp [wordPart, isDelimiter_newline]
    rw [hpart]
    exact .newline h
  | @char column c d a b hc hd hsame h ih =>
    rw [wordPart]
    split
    · rw [List.length_nil, Int.natCast_zero, Int.add_zero]
      exact .char hc hd hsame h
    · rw [List.length_cons, Int.natCast_add, Int.add_comm (_ : Int) ((1 : Nat) : Int),
        ← Int.add_assoc]
      exact ih

/-- Wherever one goes on in both texts, they have their newlines at the same places. -/
theorem exists_drop (h : Matches column a b) (n : Nat) :
    ∃ column, Matches column (a.drop n) (b.drop n) := by
  induction n generalizing column a b with
  | zero => exact ⟨column, h⟩
  | succ n ih =>
    cases h with
    | nil => exact ⟨column, .nil⟩
    | newline h => exact ih h
    | char _ _ _ h => exact ih h

end Matches

/-! ### Steps -/

/-- Cursors that are at the same place, over matching texts. -/
structure Alike (cur other : Cursor) : Prop where
  index : cur.index = other.index
  position : cur.position = other.position
  rest : Matches cur.position.column cur.rest other.rest

/-- The same fault, or the same find and alike cursors behind it. -/
inductive AlikeOutcome {α : Type} :
    Except CardFault (α × Cursor) → Except CardFault (α × Cursor) → Prop
  | error (fault : CardFault) : AlikeOutcome (.error fault) (.error fault)
  | ok (found : α) {cur other : Cursor} (h : Alike cur other) :
      AlikeOutcome (.ok (found, cur)) (.ok (found, other))

/-- At a marker it does not matter what the columns behind it hold, but where lines end. -/
theorem alikeOutcome_marker (h : Matches column a b) (hp : p.column < Card.sequenceColumn) :
    AlikeOutcome (round v ⟨Card.marker :: a, index, p⟩ Card.marker)
      (round v ⟨Card.marker :: b, index, p⟩ Card.marker) := by
  obtain ⟨hgo, hfault⟩ := @round_marker v ⟨Card.marker :: a, index, p⟩ hp
  obtain ⟨hgo', hfault'⟩ := @round_marker v ⟨Card.marker :: b, index, p⟩ hp
  by_cases hcolumn : p.column = Card.markerColumn
  · obtain ⟨column, hdrop⟩ := h.exists_drop (Card.markerSpan - 1)
    rw [passContinuation_cons hcolumn] at hgo hfault hgo' hfault'
    generalize a.drop (Card.markerSpan - 1) = a at hdrop hgo hfault
    generalize b.drop (Card.markerSpan - 1) = b at hdrop hgo' hfault'
    cases hdrop with
    | nil =>
      rw [hfault rfl, hfault' rfl]
      exact .error _
    | @newline _ a b h =>
      simp only [endCard, ne_eq, not_true_eq_false, if_false] at hgo hfault hgo' hfault'
      by_cases hnil : a = []
      · rw [if_pos hnil] at hfault
        rw [if_pos (h.eq_nil_iff.1 hnil)] at hfault'
        rw [hfault rfl, hfault' rfl]
        exact .error _
      · rw [if_neg hnil] at hgo
        rw [if_neg (mt h.eq_nil_iff.2 hnil)] at hgo'
        rw [hgo rfl, hgo' rfl]
        exact .ok none ⟨rfl, rfl, h⟩
    | char hc hd =>
      simp only [endCard, if_pos hc] at hfault
      simp only [endCard, if_pos hd] at hfault'
      rw [hfault rfl, hfault' rfl]
      exact .error _
  · rw [hfault (passContinuation_of_ne hcolumn), hfault' (passContinuation_of_ne hcolumn)]
    exact .error _

/-- In one round, alike cursors find the same and stay alike. -/
theorem alikeOutcome_round {c d : Char} (h : Matches p.column (c :: a) (d :: b)) :
    AlikeOutcome (round v ⟨c :: a, index, p⟩ c) (round v ⟨d :: b, index, p⟩ d) := by
  cases h with
  | newline h =>
    rw [round, round, if_pos rfl, if_pos rfl]
    split
    · exact .ok _ ⟨rfl, rfl, h⟩
    · exact .error _
  | char hc hd hsame h =>
    rcases Int.lt_or_le p.column Card.sequenceColumn with hlt | hle
    · obtain rfl := hsame hlt
      by_cases hb : Text.isBlank c
      · rw [round_skip hc (.inl hb), round_skip hc (.inl hb)]
        exact .ok none ⟨rfl, rfl, h⟩
      · by_cases hm : c = Card.marker
        · subst hm
          exact alikeOutcome_marker h hlt
        · cases hk : punctuation? c with
          | some kind =>
            rw [round_mark hc hk hlt, round_mark hc hk hlt]
            exact .ok _ ⟨rfl, rfl, h⟩
          | none =>
            have hword : isDelimiter c = false := by simp [isDelimiter, hb, hk]
            have hrest := Matches.drop_wordPart (.char hc hd hsame h)
            rw [wordPart_cons hword hlt hm] at hrest
            rw [round_word hword hm hlt, round_word hword hm hlt, ← h.wordPart_eq]
            exact .ok _ ⟨rfl, rfl, hrest⟩
    · rw [round_skip hc (.inr hle), round_skip hd (.inr hle)]
      exact .ok none ⟨rfl, rfl, h⟩

/-! ### Runs -/

/-- Over matching texts a cursor comes to the same. -/
theorem tokensFrom_congr (h : Matches p.column a b) :
    tokensFrom v ⟨a, index, p⟩ [] = tokensFrom v ⟨b, index, p⟩ [] := by
  induction hn : a.length using Nat.strongRecOn generalizing a b index p with
  | ind n ih =>
    cases a with
    | nil => rw [h.eq_nil_iff.1 rfl]
    | cons c a =>
      cases b with
      | nil => exact absurd (h.eq_nil_iff.2 rfl) (List.cons_ne_nil c a)
      | cons d b =>
        have hround := @alikeOutcome_round v a b index p c d h
        generalize hr : round v ⟨c :: a, index, p⟩ c = outcome at hround
        generalize hr' : round v ⟨d :: b, index, p⟩ d = outcome' at hround
        cases hround with
        | error fault => rw [tokensFrom_of_fault rfl hr, tokensFrom_of_fault rfl hr']
        | @ok token cur other hnext =>
          have hlt := rest_round_lt rfl hr
          obtain ⟨rest, index', p'⟩ := cur
          obtain ⟨rest', _, _⟩ := other
          obtain ⟨rfl, rfl, hrest⟩ := hnext
          have hsame := @ih rest.length (hn ▸ hlt) rest rest' index' p' hrest rfl
          cases token with
          | none => rw [tokensFrom_of_pass rfl hr, tokensFrom_of_pass rfl hr', hsame]
          | some t => rw [tokensFrom_of_token rfl hr, tokensFrom_of_token rfl hr', hsame]

theorem tokens_congr (h : Matches 0 a b) : tokens v a = tokens v b := tokensFrom_congr h

end CardDeck.Cursor
