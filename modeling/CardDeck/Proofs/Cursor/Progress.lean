import CardDeck.Proofs.Words

/-! # A cursor comes further

In a round a cursor passes a character at least, or it refuses the text. So it comes to the end of
what it reads in as many rounds as there are characters, or in fewer:
`Cursor.exists_rounds`.

On cards of full width, how many characters have been passed is told by line and column
(`Cursor.IsAligned`), since a newline stands wherever a card ends and nowhere else. A marker jumps
to such a place, and no other round passes one. `Cursor.progress` puts this together. -/

namespace CardDeck

/-- On cards of full width the newlines stand at equal distances. -/
theorem Card.getElem?_eq_newline_iff {text : List Char}
    (hwidth : ∀ card ∈ ofText text, card.length = width) {i : Nat} (hi : i < text.length) :
    text[i]? = some '\n' ↔ i % (width + 1) = width := by
  induction text using text_induction generalizing i with
  | nil => cases hi
  | card card hnewline hne =>
    rw [ofText_card hnewline hne, List.forall_mem_singleton] at hwidth
    rw [hwidth] at hi
    rw [Nat.mod_eq_of_lt (Nat.lt_succ_of_lt hi)]
    exact iff_of_false (fun h => hnewline (List.mem_of_getElem? h)) (Nat.ne_of_lt hi)
  | newline card text hnewline ih =>
    rw [ofText_card_newline hnewline, List.forall_mem_cons] at hwidth
    obtain ⟨hcard, htext⟩ := hwidth
    rcases Nat.lt_trichotomy i width with hlt | heq | hgt
    · rw [List.getElem?_append_left (hcard ▸ hlt), Nat.mod_eq_of_lt (Nat.lt_succ_of_lt hlt)]
      exact iff_of_false (fun h => hnewline (List.mem_of_getElem? h)) (Nat.ne_of_lt hlt)
    · rw [List.getElem?_append_right (hcard.trans_le heq.ge), hcard, heq, Nat.sub_self,
        Nat.mod_eq_of_lt (Nat.lt_succ_self width)]
      exact iff_of_true rfl rfl
    · -- the newline behind the first card counts with it
      have hbehind : (card ++ '\n' :: text)[i]? = text[i - (width + 1)]? := by
        rw [List.append_cons, List.getElem?_append_right (by simp [hcard]; omega)]
        simp [hcard]
      rw [List.length_append, List.length_cons, hcard] at hi
      rw [hbehind, ih htext (by omega), Nat.mod_eq_sub_mod hgt]

namespace Cursor

/-- The rounds that take a cursor to another, how many they are, and what is found in them. -/
inductive Rounds (v : Vocabulary) : Cursor → Nat → List Token → Cursor → Prop
  | nil {cur : Cursor} : Rounds v cur 0 [] cur
  | cons {cur next last : Cursor} {c : Char} {cs : List Char} {token : Option Token} {n : Nat}
      {found : List Token} (hrest : cur.rest = c :: cs)
      (hround : cur.round v c = .ok (token, next)) (hrounds : Rounds v next n found last) :
      Rounds v cur (n + 1) (token.toList ++ found) last

/-- There is no further round, and this is what the run comes to that has found these tokens. -/
inductive Ends (v : Vocabulary) : Cursor → List Token → Except CardFault (List Token) → Prop
  | text {cur : Cursor} {found : List Token} (hrest : cur.rest = []) :
      Ends v cur found (cur.finish.map fun last => found ++ [last])
  | fault {cur : Cursor} {found : List Token} {c : Char} {cs : List Char} {fault : CardFault}
      (hrest : cur.rest = c :: cs) (hround : cur.round v c = .error fault) :
      Ends v cur found (.error fault)

/-- The cursor stands in the text, as far from its start as it counts. -/
structure StandsIn (text : List Char) (cur : Cursor) : Prop where
  index_nonneg : 0 ≤ cur.index
  index_le : cur.index ≤ text.length
  rest_eq : cur.rest = text.drop cur.index.toNat

/-- Line and column tell how many characters have been passed, if every card takes up its width and
a newline. -/
structure IsAligned (cur : Cursor) : Prop where
  index_eq : cur.index = (Card.width + 1 : Nat) * cur.position.line + cur.position.column
  column_nonneg : 0 ≤ cur.position.column
  column_le : cur.position.column ≤ Card.width

variable {v : Vocabulary} {cur next last : Cursor} {token : Option Token} {fault : CardFault}
  {text passed : List Char} {n : Nat} {found : List Token}

/-! ### Rounds -/

theorem moves_of_round {c : Char} {cs : List Char} (hrest : cur.rest = c :: cs)
    (hround : cur.round v c = .ok (token, next)) : Moves v cur token next := by
  obtain ⟨rest, index, p⟩ := cur
  obtain rfl : rest = c :: cs := hrest
  rcases moves_or_refuses v c cs index p with ⟨token', next', hmoves⟩ | ⟨fault, hrefuses⟩
  · obtain ⟨d, ds, hcons, heq⟩ := hmoves.round_eq
    obtain ⟨rfl, rfl⟩ := List.cons.inj hcons
    rw [hround] at heq
    obtain ⟨rfl, rfl⟩ := Prod.mk.inj (Except.ok.inj heq)
    exact hmoves
  · obtain ⟨d, ds, hcons, heq⟩ := hrefuses.round_eq (v := v)
    obtain ⟨rfl, rfl⟩ := List.cons.inj hcons
    rw [hround] at heq
    cases heq

theorem Moves.index_lt (h : Moves v cur token next) : cur.index < next.index := by
  obtain ⟨passed, hne, -, hindex⟩ := h.exists_rest_eq
  have hpos := List.length_pos_iff.2 hne
  omega

/-- What a round keeps is kept by all of them. -/
theorem Rounds.invariant {P : Cursor → Prop}
    (hkeeps : ∀ {cur token next}, Moves v cur token next → P cur → P next)
    (h : Rounds v cur n found last) (hcur : P cur) : P last := by
  induction h with
  | nil => exact hcur
  | cons hrest hround _ ih => exact ih (hkeeps (moves_of_round hrest hround) hcur)

theorem Rounds.isRead (h : Rounds v cur n found last) :
    ∀ t ∈ found, t.IsRead v ∧ t.isStray = false := by
  induction h with
  | nil => simp
  | cons hrest hround _ ih =>
    exact List.forall_mem_append.2 ⟨(moves_of_round hrest hround).isRead, ih⟩

theorem Ends.map_append {outcome : Except CardFault (List Token)} (h : Ends v cur found outcome)
    (before : List Token) : Ends v cur (before ++ found) (outcome.map (before ++ ·)) := by
  cases h with
  | text hrest =>
    have hfinish : (cur.finish.map fun last => found ++ [last]).map (before ++ ·) =
        cur.finish.map fun last => before ++ found ++ [last] := by
      cases cur.finish with
      | error fault => rfl
      | ok last => exact congrArg Except.ok (List.append_assoc before found [last]).symm
    rw [hfinish]
    exact .text hrest
  | fault hrest hround => exact .fault hrest hround

/-- A cursor is through after as many rounds as there are characters left, or after fewer. -/
theorem exists_rounds (v : Vocabulary) (cur : Cursor) :
    ∃ n found last, Rounds v cur n found last ∧ n ≤ cur.rest.length ∧
      Ends v last found (tokensFrom v cur []) := by
  induction cur using round_induction v with
  | nil index p =>
    rw [tokensFrom_of_rest_nil [] rfl]
    exact ⟨0, [], _, .nil, Nat.le_refl 0, .text rfl⟩
  | refuses cur fault hrefuses =>
    obtain ⟨c, cs, hrest, hround⟩ := hrefuses.round_eq (v := v)
    rw [hrefuses.tokensFrom_eq]
    exact ⟨0, [], cur, .nil, Nat.zero_le _, .fault hrest hround⟩
  | moves cur token next hmoves ih =>
    obtain ⟨n, found, last, hrounds, hn, hends⟩ := ih
    obtain ⟨c, cs, hrest, hround⟩ := hmoves.round_eq
    rw [hmoves.tokensFrom_eq]
    exact ⟨n + 1, token.toList ++ found, last, .cons hrest hround hrounds,
      Nat.succ_le_of_lt (Nat.lt_of_le_of_lt hn hmoves.length_lt), hends.map_append _⟩

/-! ### Where a cursor stands -/

theorem standsIn_start (text : List Char) : StandsIn text (start text) :=
  ⟨Int.le_refl 0, Int.natCast_nonneg _, rfl⟩

theorem StandsIn.moves (hcur : StandsIn text cur) (h : Moves v cur token next) :
    StandsIn text next := by
  obtain ⟨hnonneg, hle, hdrop⟩ := hcur
  obtain ⟨passed, -, hrest, hindex⟩ := h.exists_rest_eq
  have htoNat : next.index.toNat = cur.index.toNat + passed.length := by omega
  have hlength : cur.index.toNat + (passed ++ next.rest).length = text.length := by
    rw [← hrest, hdrop, List.length_drop]
    omega
  rw [List.length_append] at hlength
  refine ⟨by omega, by omega, ?_⟩
  rw [htoNat, ← List.drop_drop, ← hdrop, hrest, List.drop_left]

theorem isAligned_start (text : List Char) : IsAligned (start text) :=
  ⟨rfl, Int.le_refl 0, Int.natCast_nonneg _⟩

/-- Up to the newline of its card a cursor passes columns. -/
theorem IsAligned.pass (hcur : IsAligned cur) (hstands : StandsIn text cur)
    (hwidth : ∀ card ∈ Card.ofText text, card.length = Card.width)
    (hrest : passed <+: cur.rest) (hnewline : '\n' ∉ passed) (rest : List Char) :
    IsAligned ⟨rest, cur.index + passed.length, cur.position.shift passed.length⟩ := by
  obtain ⟨hindex, hnonneg, hle⟩ := hcur
  have hcolumns : Card.width = 80 := rfl
  have hcolumn : cur.position.column + passed.length ≤ Card.width := by
    refine Int.not_lt.1 fun hlt => hnewline ?_
    -- otherwise the newline stands among what is passed, behind the last column
    obtain ⟨k, hk⟩ : ∃ k : Nat, cur.position.column + k = Card.width :=
      ⟨(Card.width - cur.position.column).toNat, by omega⟩
    have hkp : k < passed.length := by omega
    obtain ⟨behind, hbehind⟩ := hrest
    have hget : passed[k]? = text[cur.index.toNat + k]? := by
      rw [← List.getElem?_drop, ← hstands.rest_eq, ← hbehind, List.getElem?_append_left hkp]
    have hlength := congrArg List.length hstands.rest_eq
    rw [← hbehind, List.length_append, List.length_drop] at hlength
    have hplace : (cur.index.toNat + k) % (Card.width + 1) = Card.width := by
      have hmultiple : cur.index.toNat + k = 81 * cur.position.line.toNat + 80 := by
        have hcards : ((Card.width + 1 : Nat) : Int) = 81 := rfl
        rw [hcards] at hindex
        have hnonnegIndex := hstands.index_nonneg
        omega
      rw [hmultiple]
      exact Nat.mul_add_mod 81 _ 80
    rw [← Card.getElem?_eq_newline_iff hwidth (by omega), ← hget] at hplace
    exact List.mem_of_getElem? hplace
  refine ⟨?_, Int.add_nonneg hnonneg (Int.natCast_nonneg _), hcolumn⟩
  rw [hindex, Position.line_shift, Position.column_shift, Int.add_assoc]

/-- Behind its newline a cursor stands at the start of the next card. -/
theorem IsAligned.nextLine {k : Int} (hcur : IsAligned cur)
    (hk : cur.position.column + k = (Card.width + 1 : Nat)) (rest : List Char) :
    IsAligned ⟨rest, cur.index + k, ⟨cur.position.line + 1, 0⟩⟩ := by
  refine ⟨?_, Int.le_refl 0, Int.natCast_nonneg _⟩
  rw [hcur.index_eq, Int.add_assoc, hk]
  exact (Int.mul_add _ _ 1).symm.trans (Int.add_zero _).symm

theorem IsAligned.moves (hcur : IsAligned cur) (hstands : StandsIn text cur)
    (hwidth : ∀ card ∈ Card.ofText text, card.length = Card.width) (h : Moves v cur token next) :
    IsAligned next := by
  cases h with
  | newline hp => exact hcur.nextLine (by rw [hp]; rfl) _
  | @skip c rest index p hc =>
    have hpassed : [c] <+: c :: rest := ⟨rest, rfl⟩
    exact hcur.pass hstands hwidth hpassed (by simpa using Ne.symm hc) rest
  | @mark c kind rest index p hc =>
    have hpassed : [c] <+: c :: rest := ⟨rest, rfl⟩
    exact hcur.pass hstands hwidth hpassed (by simpa using Ne.symm hc) rest
  | @word c w rest index p hd hm hp hw =>
    refine hcur.pass hstands hwidth ⟨rest, rfl⟩ (fun hmem => ?_) rest
    have hword : isDelimiter '\n' = false := by
      rcases List.mem_cons.1 hmem with rfl | hmem
      · exact hd
      · rw [← hw] at hmem
        exact isDelimiter_of_mem_wordPart hmem
    rw [isDelimiter_newline] at hword
    cases hword
  | @marker jumped rest index p hp =>
    have hnext := hcur.nextLine (k := Card.markerSpan + 1) (by rw [hp]; rfl) rest
    rwa [← Int.add_assoc] at hnext

/-! ### Runs -/

/-- Wherever a run comes to, the cursor stands in the text, and each word that it has found on the
way is one. There it comes further in the next round, or refuses the text; so it is through in as
many rounds as the text has characters at most, and comes to the tokens of the text. If the cards
have their width, it stands where line and column say. -/
theorem progress (v : Vocabulary) (text : List Char) :
    (∀ n found cur, Rounds v (start text) n found cur →
      StandsIn text cur ∧
      (∀ t ∈ found, t.kind ∉ [.endOfLine, .equals, .comma, .openParen, .closeParen] →
        Writing.IsLexable t.text) ∧
      (∀ c cs, cur.rest = c :: cs →
        (∃ fault, cur.round v c = .error fault) ∨
          ∃ token next, cur.round v c = .ok (token, next) ∧ cur.index < next.index) ∧
      ((∀ card ∈ Card.ofText text, card.length = Card.width) → IsAligned cur)) ∧
    ∃ n found last, Rounds v (start text) n found last ∧ n ≤ text.length ∧
      Ends v last found (tokens v text) := by
  refine ⟨fun n found cur hrounds => ⟨?_, ?_, ?_, ?_⟩, exists_rounds v (start text)⟩
  · exact hrounds.invariant (fun hmoves hcur => hcur.moves hmoves) (standsIn_start text)
  · intro t ht hkind
    obtain ⟨hread, hstray⟩ := hrounds.isRead t ht
    exact (hread.isLexable hstray hkind).1
  · intro c cs hrest
    cases hround : cur.round v c with
    | error fault => exact .inl ⟨fault, rfl⟩
    | ok step => exact .inr ⟨step.1, step.2, rfl, (moves_of_round hrest hround).index_lt⟩
  · intro hwidth
    have hboth := hrounds.invariant (P := fun cur => StandsIn text cur ∧ IsAligned cur)
      (fun hmoves ⟨hstands, hcur⟩ => ⟨hstands.moves hmoves, hcur.moves hstands hwidth hmoves⟩)
      ⟨standsIn_start text, isAligned_start text⟩
    exact hboth.2

/-- Two cards are passed, with the marker of the first and the newline behind it. -/
theorem progress_segmentOnTwoCards :
    (∀ card ∈ Card.ofText Decoder.segmentOnTwoCards, card.length = Card.width) ∧
      ∃ n found last, Rounds .standard (start Decoder.segmentOnTwoCards) n found last ∧
        found.length = 9 ∧ last.rest = [] ∧ IsAligned last ∧
        ∀ t ∈ found, t.kind = .header .segm → Writing.IsLexable t.text := by
  have hwidth : ∀ card ∈ Card.ofText Decoder.segmentOnTwoCards, card.length = Card.width := by
    decide +kernel
  have hlength : (tokens .standard Decoder.segmentOnTwoCards).map List.length = .ok 10 := by
    decide +kernel
  obtain ⟨hruns, n, found, last, hrounds, -, hends⟩ := progress .standard Decoder.segmentOnTwoCards
  obtain ⟨-, hwords, -, haligned⟩ := hruns n found last hrounds
  have hwords : ∀ t ∈ found, t.kind = .header .segm → Writing.IsLexable t.text :=
    fun t ht hkind => hwords t ht (by simp [hkind])
  generalize tokens .standard Decoder.segmentOnTwoCards = outcome at hlength hends
  cases hends with
  | text hrest =>
    refine ⟨hwidth, n, found, last, hrounds, ?_, hrest, haligned hwidth, hwords⟩
    cases hfinish : last.finish with
    | error fault =>
      rw [hfinish] at hlength
      cases hlength
    | ok t =>
      rw [hfinish] at hlength
      simpa [Except.map] using hlength
  | fault => cases hlength

end Cursor

end CardDeck
