import CardDeck.Proofs.Cursor.Reading

/-! # The rounds of a cursor

In a round a cursor moves on, with a token or without one, or it refuses the text. `Cursor.Moves`
and `Cursor.Refuses` say when, with the characters that are passed laid open, and
`Cursor.moves_or_refuses` that there is nothing else. What holds of whole runs is proved by
`Cursor.round_induction`. -/

namespace CardDeck.Cursor

/-- A round that finds a token, or none, and goes on behind the characters it has passed. -/
inductive Moves (v : Vocabulary) : Cursor → Option Token → Cursor → Prop
  | newline {rest : List Char} {index : Int} {p : Position} (hp : p.column = Card.width) :
      Moves v ⟨'\n' :: rest, index, p⟩ (some (.endOfLine p)) ⟨rest, index + 1, ⟨p.line + 1, 0⟩⟩
  | skip {c : Char} {rest : List Char} {index : Int} {p : Position} (hc : c ≠ '\n')
      (h : Text.isBlank c ∨ Card.sequenceColumn ≤ p.column) :
      Moves v ⟨c :: rest, index, p⟩ none ⟨rest, index + 1, p.shift 1⟩
  | mark {c : Char} {kind : Token.Kind} {rest : List Char} {index : Int} {p : Position}
      (hc : c ≠ '\n') (hk : punctuation? c = some kind) (hp : p.column < Card.sequenceColumn) :
      Moves v ⟨c :: rest, index, p⟩ (some ⟨kind, c.toString, p⟩) ⟨rest, index + 1, p.shift 1⟩
  | word {c : Char} {w rest : List Char} {index : Int} {p : Position}
      (hd : isDelimiter c = false) (hm : c ≠ Card.marker) (hp : p.column < Card.sequenceColumn)
      (hw : wordPart (p.column + 1) (w ++ rest) = w) :
      Moves v ⟨c :: (w ++ rest), index, p⟩ (some (v.word (c :: w) p))
        ⟨rest, index + (c :: w).length, p.shift (c :: w).length⟩
  /-- A marker is passed with the columns behind it, whatever they hold, and the end of the line. -/
  | marker {jumped rest : List Char} {index : Int} {p : Position}
      (hp : p.column = Card.markerColumn) (hlength : jumped.length + 1 = Card.markerSpan)
      (hne : rest ≠ []) :
      Moves v ⟨Card.marker :: (jumped ++ '\n' :: rest), index, p⟩ none
        ⟨rest, index + Card.markerSpan + 1, ⟨p.line + 1, 0⟩⟩

/-- A round that ends the run with a fault. -/
inductive Refuses : Cursor → CardFault → Prop
  | lineEnd {rest : List Char} {index : Int} {p : Position} (hp : p.column ≠ Card.width) :
      Refuses ⟨'\n' :: rest, index, p⟩ (.lineEnd p)
  | stray {rest : List Char} {index : Int} {p : Position} (hp : p.column < Card.markerColumn) :
      Refuses ⟨Card.marker :: rest, index, p⟩ (.strayMarker p)
  /-- The text ends among the columns behind a marker, or right behind them. -/
  | short {rest : List Char} {index : Int} {p : Position} (hp : p.column = Card.markerColumn)
      (hlength : rest.length < Card.markerSpan) :
      Refuses ⟨Card.marker :: rest, index, p⟩ (.unfinished p.line)
  /-- The text ends with the line of the marker. -/
  | lastLine {jumped : List Char} {index : Int} {p : Position}
      (hp : p.column = Card.markerColumn) (hlength : jumped.length + 1 = Card.markerSpan) :
      Refuses ⟨Card.marker :: (jumped ++ ['\n']), index, p⟩ (.unfinished p.line)
  | noLineEnd {jumped rest : List Char} {c : Char} {index : Int} {p : Position}
      (hp : p.column = Card.markerColumn) (hlength : jumped.length + 1 = Card.markerSpan)
      (hc : c ≠ '\n') :
      Refuses ⟨Card.marker :: (jumped ++ c :: rest), index, p⟩
        (.noLineEnd (p.shift Card.markerSpan))

variable {v : Vocabulary} {cur next : Cursor} {token : Option Token} {fault : CardFault}

theorem isDelimiter_of_mem_wordPart {c : Char} {cs : List Char} {column : Int}
    (h : c ∈ wordPart column cs) : isDelimiter c = false := by
  induction cs generalizing column with
  | nil => cases h
  | cons d cs ih =>
    rw [wordPart] at h
    split at h
    · cases h
    · next hgo =>
      simp only [Bool.or_eq_true, not_or, Bool.not_eq_true] at hgo
      rcases List.mem_cons.1 h with rfl | hmem
      · exact hgo.1.1
      · exact ih hmem

/-- What is found in a round is no word that starts with a marker. -/
theorem Moves.isRead (h : Moves v cur token next) :
    ∀ t ∈ token.toList, t.IsRead v ∧ t.isStray = false := by
  intro t ht
  cases h with
  | newline =>
    rw [List.mem_singleton.1 ht]
    exact ⟨.endOfLine _, Token.isStray_endOfLine _⟩
  | skip => cases ht
  | mark hc hk =>
    rw [List.mem_singleton.1 ht]
    exact ⟨.mark hk _, isStray_mark hk _⟩
  | @word c w rest index p hd hm hp hw =>
    rw [List.mem_singleton.1 ht]
    refine ⟨.word (List.cons_ne_nil c w) (List.forall_mem_cons.2 ⟨hd, fun d hmem => ?_⟩) p, ?_⟩
    · rw [← hw] at hmem
      exact isDelimiter_of_mem_wordPart hmem
    · rw [Vocabulary.isStray_word]
      exact decide_eq_false hm
  | marker => cases ht

/-- At a marker in its column, what stands in the columns after it is jumped over. -/
theorem passContinuation_append {c : Char} {jumped rest : List Char} {index : Int} {p : Position}
    (hp : p.column = Card.markerColumn) (hlength : jumped.length + 1 = Card.markerSpan) :
    passContinuation ⟨c :: (jumped ++ rest), index, p⟩ =
      endCard ⟨rest, index + Card.markerSpan, p.shift Card.markerSpan⟩ := by
  rw [passContinuation_cons hp, ← hlength, Nat.add_sub_cancel, List.drop_left]

theorem Moves.round_eq (h : Moves v cur token next) :
    ∃ c cs, cur.rest = c :: cs ∧ cur.round v c = .ok (token, next) := by
  cases h with
  | newline hp =>
    refine ⟨_, _, rfl, ?_⟩
    rw [round, if_pos rfl, if_pos hp]
    rfl
  | skip hc h => exact ⟨_, _, rfl, round_skip hc h⟩
  | mark hc hk hp => exact ⟨_, _, rfl, round_mark hc hk hp⟩
  | @word c w rest index p hd hm hp hw =>
    have hdrop : (c :: (w ++ rest)).drop (c :: w).length = rest := List.drop_left
    refine ⟨_, _, rfl, ?_⟩
    rw [round_word hd hm hp, hw, advance, hdrop]
  | @marker jumped rest index p hp hlength hne =>
    refine ⟨_, _, rfl, (round_marker (by simp only [hp]; decide)).1 ?_⟩
    rw [passContinuation_append hp hlength]
    simp only [endCard, ne_eq, not_true_eq_false, if_false, if_neg hne]
    rfl

theorem Refuses.round_eq (h : Refuses cur fault) :
    ∃ c cs, cur.rest = c :: cs ∧ cur.round v c = .error fault := by
  cases h with
  | lineEnd hp =>
    refine ⟨_, _, rfl, ?_⟩
    rw [round, if_pos rfl, if_neg hp]
  | @stray rest index p hp =>
    have := Card.markerColumn_lt_sequenceColumn
    have hne : p.column ≠ Card.markerColumn := by omega
    exact ⟨_, _, rfl, (round_marker (by simp only; omega)).2 (passContinuation_of_ne hne)⟩
  | @short rest index p hp hlength =>
    refine ⟨_, _, rfl, (round_marker (by simp only [hp]; decide)).2 ?_⟩
    rw [passContinuation_cons hp, List.drop_eq_nil_of_le (Nat.le_sub_one_of_lt hlength)]
    rfl
  | lastLine hp hlength =>
    refine ⟨_, _, rfl, (round_marker (by simp only [hp]; decide)).2 ?_⟩
    rw [passContinuation_append hp hlength]
    rfl
  | noLineEnd hp hlength hc =>
    refine ⟨_, _, rfl, (round_marker (by simp only [hp]; decide)).2 ?_⟩
    rw [passContinuation_append hp hlength]
    simp only [endCard, if_pos hc]

/-- What a run finds from a round on is what the round finds and what is found from there on. -/
theorem Moves.tokensFrom_eq (h : Moves v cur token next) :
    tokensFrom v cur [] = (tokensFrom v next []).map (token.toList ++ ·) := by
  obtain ⟨c, cs, hrest, hround⟩ := h.round_eq
  cases token with
  | none =>
    rw [tokensFrom_of_pass hrest hround]
    cases tokensFrom v next [] <;> rfl
  | some token => exact tokensFrom_of_token hrest hround

/-- A run that comes to its end with tokens does so from every round on. -/
theorem Moves.exists_of_tokensFrom_eq_ok {found : List Token} (h : Moves v cur token next)
    (hfound : tokensFrom v cur [] = .ok found) :
    ∃ behind, tokensFrom v next [] = .ok behind ∧ found = token.toList ++ behind := by
  rw [h.tokensFrom_eq] at hfound
  cases hnext : tokensFrom v next [] with
  | error fault =>
    rw [hnext] at hfound
    cases hfound
  | ok behind =>
    rw [hnext] at hfound
    exact ⟨behind, rfl, (Except.ok.inj hfound).symm⟩

theorem Refuses.tokensFrom_eq (h : Refuses cur fault) : tokensFrom v cur [] = .error fault := by
  obtain ⟨c, cs, hrest, hround⟩ := h.round_eq (v := v)
  exact tokensFrom_of_fault hrest hround

/-- At a marker in its column everything is up to what comes behind the columns that follow it. -/
theorem moves_or_refuses_marker {rest : List Char} {index : Int} {p : Position}
    (hp : p.column = Card.markerColumn) :
    (∃ token next, Moves v ⟨Card.marker :: rest, index, p⟩ token next) ∨
      ∃ fault, Refuses ⟨Card.marker :: rest, index, p⟩ fault := by
  rcases Nat.lt_or_ge rest.length Card.markerSpan with hshort | hlong
  · exact .inr ⟨_, .short hp hshort⟩
  · have hspan : 0 < Card.markerSpan := by decide
    have hlength : (rest.take (Card.markerSpan - 1)).length + 1 = Card.markerSpan := by
      rw [List.length_take]
      omega
    rw [← rest.take_append_drop (Card.markerSpan - 1)]
    cases hdrop : rest.drop (Card.markerSpan - 1) with
    | nil =>
      have hle := List.drop_eq_nil_iff.1 hdrop
      omega
    | cons c behind =>
      by_cases hc : c = '\n'
      · subst hc
        by_cases hne : behind = []
        · subst hne
          exact .inr ⟨_, .lastLine hp hlength⟩
        · exact .inl ⟨_, _, .marker hp hlength hne⟩
      · exact .inr ⟨_, .noLineEnd hp hlength hc⟩

/-- Where there is text left, a cursor moves on or refuses it. -/
theorem moves_or_refuses (v : Vocabulary) (c : Char) (rest : List Char) (index : Int)
    (p : Position) :
    (∃ token next, Moves v ⟨c :: rest, index, p⟩ token next) ∨
      ∃ fault, Refuses ⟨c :: rest, index, p⟩ fault := by
  by_cases hc : c = '\n'
  · subst hc
    by_cases hp : p.column = Card.width
    · exact .inl ⟨_, _, .newline hp⟩
    · exact .inr ⟨_, .lineEnd hp⟩
  · by_cases hskip : Text.isBlank c ∨ (Card.sequenceColumn : Int) ≤ p.column
    · exact .inl ⟨_, _, .skip hc hskip⟩
    · obtain ⟨hblank, hp⟩ := not_or.1 hskip
      rw [Int.not_le] at hp
      by_cases hm : c = Card.marker
      · subst hm
        have hsucc : (Card.sequenceColumn : Int) = Card.markerColumn + 1 := by decide
        rcases Int.lt_or_le p.column Card.markerColumn with hlt | hle
        · exact .inr ⟨_, .stray hlt⟩
        · exact moves_or_refuses_marker (by omega)
      · cases hk : punctuation? c with
        | some kind => exact .inl ⟨_, _, .mark hc hk hp⟩
        | none =>
          have hd : isDelimiter c = false := by simp [isDelimiter, hblank, hk]
          obtain ⟨behind, hsplit⟩ := wordPart_prefix (p.column + 1) rest
          have hw : wordPart (p.column + 1) (wordPart (p.column + 1) rest ++ behind) =
              wordPart (p.column + 1) rest := by
            rw [hsplit]
          have hmoves := @Moves.word v c _ behind index p hd hm hp hw
          rw [hsplit] at hmoves
          exact .inl ⟨_, _, hmoves⟩

/-- What is passed in a round comes before what is left behind it, and is counted. -/
theorem Moves.exists_rest_eq (h : Moves v cur token next) :
    ∃ passed, passed ≠ [] ∧ cur.rest = passed ++ next.rest ∧
      next.index = cur.index + passed.length := by
  cases h with
  | newline => exact ⟨['\n'], List.cons_ne_nil _ _, rfl, rfl⟩
  | @skip c => exact ⟨[c], List.cons_ne_nil _ _, rfl, rfl⟩
  | @mark c => exact ⟨[c], List.cons_ne_nil _ _, rfl, rfl⟩
  | @word c w => exact ⟨c :: w, List.cons_ne_nil _ _, rfl, rfl⟩
  | @marker jumped rest index p hp hlength =>
    refine ⟨Card.marker :: (jumped ++ ['\n']), List.cons_ne_nil _ _, by simp, ?_⟩
    simp only [List.length_cons, List.length_append, List.length_nil]
    omega

theorem Moves.length_lt (h : Moves v cur token next) :
    next.rest.length < cur.rest.length := by
  obtain ⟨passed, hne, hrest, -⟩ := h.exists_rest_eq
  have hpos := List.length_pos_iff.2 hne
  rw [hrest, List.length_append]
  omega

/-- What holds at the end of a text and at a fault, and before a round if it holds behind it, holds
of every run. -/
theorem round_induction (v : Vocabulary) {motive : Cursor → Prop}
    (nil : ∀ index p, motive ⟨[], index, p⟩)
    (refuses : ∀ cur fault, Refuses cur fault → motive cur)
    (moves : ∀ cur token next, Moves v cur token next → motive next → motive cur)
    (cur : Cursor) : motive cur := by
  induction hn : cur.rest.length using Nat.strongRecOn generalizing cur with
  | ind n ih =>
    obtain ⟨rest, index, p⟩ := cur
    cases rest with
    | nil => exact nil index p
    | cons c rest =>
      rcases moves_or_refuses v c rest index p with ⟨token, next, hmoves⟩ | ⟨fault, hrefuses⟩
      · exact moves _ token next hmoves (ih _ (hn ▸ hmoves.length_lt) next rfl)
      · exact refuses _ fault hrefuses

end CardDeck.Cursor
