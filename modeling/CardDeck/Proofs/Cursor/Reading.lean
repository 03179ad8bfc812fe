import CardDeck.Proofs.Card
import CardDeck.Proofs.Reading

/-! # A cursor reads cards as they stand

A cursor that walks over a card takes the words and marks of its payload, passes the columns that
number it, and ends it at the newline or behind the marker. `Cursor.tokensFrom_body` is the walk
over the payload. -/

namespace CardDeck.Cursor

variable {v : Vocabulary}

/-! ### Rounds -/

theorem tokensFrom_of_pass {cur next : Cursor} {c : Char} {cs : List Char}
    (h : cur.rest = c :: cs) (hr : cur.round v c = .ok (none, next)) :
    tokensFrom v cur [] = tokensFrom v next [] := by
  rw [tokensFrom_of_rest_cons _ h, hr]
  rfl

theorem tokensFrom_of_token {cur next : Cursor} {c : Char} {cs : List Char} {token : Token}
    (h : cur.rest = c :: cs) (hr : cur.round v c = .ok (some token, next)) :
    tokensFrom v cur [] = (tokensFrom v next []).map (token :: ·) := by
  rw [tokensFrom_of_rest_cons _ h, hr]
  simp only
  rw [tokensFrom_eq_map]
  rfl

theorem tokensFrom_of_fault {cur : Cursor} {c : Char} {cs : List Char} {fault : CardFault}
    (h : cur.rest = c :: cs) (hr : cur.round v c = .error fault) :
    tokensFrom v cur [] = .error fault := by
  rw [tokensFrom_of_rest_cons _ h, hr]

/-- A blank, and whatever stands behind the payload, is passed over. -/
theorem round_skip {c : Char} {rest : List Char} {index : Int} {p : Position} (hc : c ≠ '\n')
    (h : Text.isBlank c ∨ Card.sequenceColumn ≤ p.column) :
    round v ⟨c :: rest, index, p⟩ c = .ok (none, ⟨rest, index + 1, p.shift 1⟩) := by
  rw [round, if_neg hc, if_pos (by simpa using h)]
  rfl

theorem tokensFrom_skip {c : Char} {rest : List Char} {index : Int} {p : Position}
    (hc : c ≠ '\n') (h : Text.isBlank c ∨ Card.sequenceColumn ≤ p.column) :
    tokensFrom v ⟨c :: rest, index, p⟩ [] = tokensFrom v ⟨rest, index + 1, p.shift 1⟩ [] :=
  tokensFrom_of_pass rfl (round_skip hc h)

theorem round_mark {c : Char} {kind : Token.Kind} {rest : List Char} {index : Int}
    {p : Position} (hc : c ≠ '\n') (hk : punctuation? c = some kind)
    (hp : p.column < Card.sequenceColumn) :
    round v ⟨c :: rest, index, p⟩ c =
      .ok (some ⟨kind, c.toString, p⟩, ⟨rest, index + 1, p.shift 1⟩) := by
  have hm : c ≠ Card.marker := by
    rintro rfl
    cases hk
  rw [round, if_neg hc, if_neg (by simp [not_isBlank_of_punctuation? hk, hp]), if_neg hm, hk]
  rfl

theorem tokensFrom_mark {c : Char} {kind : Token.Kind} {rest : List Char} {index : Int}
    {p : Position} (hc : c ≠ '\n') (hk : punctuation? c = some kind)
    (hp : p.column < Card.sequenceColumn) :
    tokensFrom v ⟨c :: rest, index, p⟩ [] =
      (tokensFrom v ⟨rest, index + 1, p.shift 1⟩ []).map (⟨kind, c.toString, p⟩ :: ·) :=
  tokensFrom_of_token rfl (round_mark hc hk hp)

/-- What a cursor does at a marker is up to where it stands and what comes behind. -/
theorem round_marker {cur : Cursor} (hcolumn : cur.position.column < Card.sequenceColumn) :
    (∀ {next : Cursor}, cur.passContinuation = (.ok (), next) →
      cur.round v Card.marker = .ok (none, next)) ∧
    ∀ {fault : CardFault}, cur.passContinuation.1 = .error fault →
      cur.round v Card.marker = .error fault := by
  have hblank : Text.isBlank Card.marker = false := by decide
  have hnext : ¬ (Text.isBlank Card.marker ||
      (Card.sequenceColumn : Int) ≤ cur.position.column) = true := by
    simpa [hblank] using hcolumn
  constructor
  · intro next hpass
    rw [round, if_neg (by decide), if_neg hnext, if_pos rfl, hpass]
  · intro fault hpass
    rw [round, if_neg (by decide), if_neg hnext, if_pos rfl]
    split
    · next heq =>
      rw [heq] at hpass
      cases hpass
    · next heq =>
      rw [heq] at hpass
      exact congrArg Except.error (Except.error.inj hpass)

theorem passContinuation_of_ne {cur : Cursor} (h : cur.position.column ≠ Card.markerColumn) :
    cur.passContinuation.1 = .error (.strayMarker cur.position) := by
  rw [passContinuation, if_pos h]

theorem tokensFrom_strayMarker {rest : List Char} {index : Int} {p : Position}
    (hp : p.column < Card.markerColumn) :
    tokensFrom v ⟨Card.marker :: rest, index, p⟩ [] = .error (.strayMarker p) := by
  refine tokensFrom_of_fault rfl ?_
  have := Card.markerColumn_lt_sequenceColumn
  have hne : p.column ≠ Card.markerColumn := by omega
  exact (round_marker (by simp only; omega)).2 (passContinuation_of_ne hne)

theorem round_word {c : Char} {rest : List Char} {index : Int} {p : Position}
    (hd : isDelimiter c = false) (hm : c ≠ Card.marker) (hp : p.column < Card.sequenceColumn) :
    round v ⟨c :: rest, index, p⟩ c =
      .ok (some (v.word (c :: wordPart (p.column + 1) rest) p),
        advance ⟨c :: rest, index, p⟩ (c :: wordPart (p.column + 1) rest).length) := by
  have hb : Text.isBlank c = false ∧ punctuation? c = none := by simpa [isDelimiter] using hd
  have hc : c ≠ '\n' := by
    rintro rfl
    exact absurd hb.1 (by decide)
  rw [round, if_neg hc, if_neg (by simp [hb.1, hp]), if_neg hm, hb.2, readWord,
    wordPart_cons hd hp hm]

theorem tokensFrom_word {c : Char} {rest : List Char} {index : Int} {p : Position}
    (hd : isDelimiter c = false) (hm : c ≠ Card.marker) (hp : p.column < Card.sequenceColumn) :
    tokensFrom v ⟨c :: rest, index, p⟩ [] =
      (tokensFrom v (advance ⟨c :: rest, index, p⟩ (c :: wordPart (p.column + 1) rest).length)
        []).map (v.word (c :: wordPart (p.column + 1) rest) p :: ·) :=
  tokensFrom_of_token rfl (round_word hd hm hp)

/-! ### The payload -/

/-- What a cursor takes for the payload of a card: it ends before the newline, before the columns
that number the card, and before a marker in its column. -/
def IsBody (l : Layout) : Prop :=
  ∀ x ∈ l, x.char ≠ '\n' ∧ x.position.column < Card.sequenceColumn ∧
    (x.char = Card.marker → x.position.column ≠ Card.markerColumn)

/-- In a body a word ends only before a blank or a mark. -/
theorem wordPart_append {p : Position} {body after : List Char} (h : IsBody (Layout.row p body))
    (hafter : wordPart (p.column + body.length) after = []) :
    wordPart p.column (body ++ after) = body.takeWhile (!isDelimiter ·) := by
  induction body generalizing p with
  | nil => simpa using hafter
  | cons c body ih =>
    obtain ⟨-, hcolumn, hmarker⟩ := h ⟨c, p⟩ List.mem_cons_self
    have hrest : IsBody (Layout.row (p.shift 1) body) := fun x hx =>
      h x (List.mem_cons_of_mem _ hx)
    have ih := ih hrest (by
      rw [← hafter, Position.column_shift, List.length_cons]
      congr 1
      omega)
    rw [List.cons_append, wordPart]
    by_cases hd : isDelimiter c
    · simp [hd]
    · have hstop : ¬ (c = Card.marker ∧ p.column = Card.markerColumn) := fun hc =>
        hmarker hc.1 hc.2
      rw [List.takeWhile_cons_of_pos (by simpa using hd), ← ih, Position.column_shift]
      simp [hd, hstop, hcolumn]

theorem IsBody.of_append {p : Position} {a b : List Char} (h : IsBody (Layout.row p (a ++ b))) :
    IsBody (Layout.row (p.shift a.length) b) := by
  intro x hx
  rw [Layout.row_append] at h
  exact h x (List.mem_append_right _ hx)

theorem map_cons_append (a b : Except CardFault (List Token)) (t : Token) :
    (do return (← a) ++ (← b)).map (t :: ·) = do return (← (t :: ·) <$> a) ++ (← b) := by
  cases a with
  | error fault => rfl
  | ok a => cases b <;> rfl

/-- A cursor takes the words and marks of a body, up to the first word astray, and goes on behind
it. -/
theorem tokensFrom_body {p : Position} {body after : List Char} {index : Int}
    (h : IsBody (Layout.row p body))
    (hafter : wordPart (p.column + body.length) after = []) :
    tokensFrom v ⟨body ++ after, index, p⟩ [] = do
      return (← Reading.checked (Layout.tokens v (Layout.row p body))) ++
        (← tokensFrom v ⟨after, index + body.length, p.shift body.length⟩ []) := by
  induction hn : body.length using Nat.strongRecOn generalizing p body index with
  | ind n ih =>
    -- What is left of the body once a piece of it has been read.
    have hrest : ∀ a b : List Char, body = a ++ b → a ≠ [] →
        tokensFrom v ⟨b ++ after, index + a.length, p.shift a.length⟩ [] = do
          return (← Reading.checked (Layout.tokens v (Layout.row (p.shift a.length) b))) ++
            (← tokensFrom v ⟨after, index + n, p.shift n⟩ []) := by
      rintro a b rfl ha
      have hlength := List.length_pos_iff.2 ha
      rw [List.length_append] at hn
      have hend : wordPart ((p.shift a.length).column + b.length) after = [] := by
        rw [← hafter, Position.column_shift, List.length_append, Int.natCast_add, Int.add_assoc]
      rw [ih b.length (by omega) h.of_append hend rfl, Position.shift_shift, Int.add_assoc,
        ← Int.natCast_add, hn]
    cases body with
    | nil =>
      subst hn
      rw [List.nil_append, List.length_nil, Int.natCast_zero, Int.add_zero, Position.shift_zero]
      cases tokensFrom v ⟨after, index, p⟩ [] <;> rfl
    | cons c body =>
      obtain ⟨hc, hcolumn, hmarker⟩ := h ⟨c, p⟩ List.mem_cons_self
      have hone := hrest [c] body rfl (List.cons_ne_nil c [])
      rw [List.cons_append, Layout.row]
      by_cases hb : Text.isBlank c
      · rw [tokensFrom_skip hc (.inl hb), Layout.tokens_blank (x := ⟨c, p⟩) hb]
        exact hone
      · by_cases hm : c = Card.marker
        · have hstray : p.column < Card.markerColumn := by
            have hne : p.column ≠ Card.markerColumn := hmarker hm
            have : Card.sequenceColumn = Card.markerColumn + 1 := by decide
            simp only at hcolumn
            omega
          have hd : isDelimiter c = false := by rw [hm]; decide
          rw [Layout.tokens_word (x := ⟨c, p⟩) hd,
            Reading.checked_cons_of_isStray (by simp [Vocabulary.isStray_word, hm]), hm,
            tokensFrom_strayMarker hstray]
          rfl
        · cases hk : punctuation? c with
          | some kind =>
            rw [tokensFrom_mark hc hk hcolumn, Layout.tokens_mark (x := ⟨c, p⟩) hk,
              Reading.checked_cons (isStray_mark hk p), ← map_cons_append]
            exact congrArg _ hone
          | none =>
            have hd : isDelimiter c = false := by simp [isDelimiter, hb, hk]
            have hpart : wordPart (p.column + 1) (body ++ after) =
                body.takeWhile (!isDelimiter ·) := by
              refine wordPart_append (p := p.shift 1) (h.of_append (a := [c])) ?_
              rw [← hafter, Position.column_shift, List.length_cons]
              congr 1
              omega
            have hcut := body.takeWhile_append_dropWhile (p := (!isDelimiter ·))
            have hword := hrest (c :: body.takeWhile (!isDelimiter ·))
              (body.dropWhile (!isDelimiter ·)) (congrArg (c :: ·) hcut).symm
              (List.cons_ne_nil c _)
            rw [tokensFrom_word hd hm hcolumn, Layout.tokens_word (x := ⟨c, p⟩) hd,
              Reading.checked_cons (by simp [Vocabulary.isStray_word, hm]), ← map_cons_append,
              Layout.row_takeWhile_inWord, Layout.chars_row, Layout.row_dropWhile_inWord, hpart,
              Position.shift_shift]
            generalize body.takeWhile (!isDelimiter ·) = w at hcut hword ⊢
            generalize body.dropWhile (!isDelimiter ·) = r at hcut hword ⊢
            have hdrop : ((c :: w) ++ (r ++ after)).drop (c :: w).length = r ++ after :=
              List.drop_left
            rw [← List.append_assoc, List.cons_append, hcut] at hdrop
            have hplace : p.shift (1 + w.length) = p.shift (c :: w).length := by
              rw [List.length_cons, Int.natCast_add, Int.add_comm]
              rfl
            rw [advance, hplace]
            simp only [List.cons_append] at hdrop ⊢
            rw [hdrop]
            exact congrArg _ hword

/-! ### The columns behind the payload -/

theorem tokensFrom_sequence {sequence rest : List Char} {index : Int} {p : Position}
    (hnewline : '\n' ∉ sequence) (hp : Card.sequenceColumn ≤ p.column) :
    tokensFrom v ⟨sequence ++ rest, index, p⟩ [] =
      tokensFrom v ⟨rest, index + sequence.length, p.shift sequence.length⟩ [] := by
  induction sequence generalizing index p with
  | nil =>
    rw [List.nil_append, List.length_nil, Int.natCast_zero, Int.add_zero, Position.shift_zero]
  | cons c sequence ih =>
    rw [List.mem_cons, not_or] at hnewline
    have hp' : Card.sequenceColumn ≤ (p.shift 1).column := by
      rw [Position.column_shift]
      omega
    rw [List.cons_append, tokensFrom_skip (Ne.symm hnewline.1) (.inr hp), ih hnewline.2 hp',
      Position.shift_shift, Int.add_assoc, List.length_cons, Int.natCast_add,
      Int.add_comm (sequence.length : Int)]
    rfl

theorem tokensFrom_newline {rest : List Char} {index : Int} {p : Position} :
    tokensFrom v ⟨'\n' :: rest, index, p⟩ [] =
      if p.column = Card.width then
        (.endOfLine p :: ·) <$> tokensFrom v ⟨rest, index + 1, ⟨p.line + 1, 0⟩⟩ []
      else .error (.lineEnd p) := by
  split
  · next h =>
    have hround : round v ⟨'\n' :: rest, index, p⟩ '\n' =
        .ok (some (.endOfLine p), ⟨rest, index + 1, ⟨p.line + 1, 0⟩⟩) := by
      rw [round, if_pos rfl, if_pos h]
      rfl
    exact tokensFrom_of_token rfl hround
  · next h =>
    refine tokensFrom_of_fault rfl ?_
    rw [round, if_pos rfl, if_neg h]

theorem tokensFrom_nil {index : Int} {p : Position} :
    tokensFrom v ⟨[], index, p⟩ [] =
      if p.column = 0 ∨ p.column = Card.width then .ok [.endOfLine p]
      else .error (.lineEnd p) := by
  rw [tokensFrom_of_rest_nil _ rfl, finish]
  split <;> rfl

/-- A marker in its column is passed with as many characters as there are columns after it. -/
theorem passContinuation_cons {c : Char} {rest : List Char} {index : Int} {p : Position}
    (hp : p.column = Card.markerColumn) :
    passContinuation ⟨c :: rest, index, p⟩ =
      endCard ⟨rest.drop (Card.markerSpan - 1), index + Card.markerSpan,
        p.shift Card.markerSpan⟩ := by
  rw [passContinuation, if_neg (not_not.2 hp), advance]
  rfl

/-- Behind a marker in its column and as many characters as there are columns after it, whatever
they are, a line must end and another begin. -/
theorem tokensFrom_marker_cons {rest : List Char} {index : Int} {p : Position}
    (hp : p.column = Card.markerColumn) :
    tokensFrom v ⟨Card.marker :: rest, index, p⟩ [] =
      match rest.drop (Card.markerSpan - 1) with
      | [] => .error (.unfinished p.line)
      | c :: rest =>
        if c ≠ '\n' then .error (.noLineEnd (p.shift Card.markerSpan))
        else if rest = [] then .error (.unfinished p.line)
        else tokensFrom v ⟨rest, index + Card.markerSpan + 1, ⟨p.line + 1, 0⟩⟩ [] := by
  have hpass := @passContinuation_cons Card.marker rest index p hp
  generalize rest.drop (Card.markerSpan - 1) = behind at hpass ⊢
  obtain ⟨hgo, hfault⟩ := @round_marker v ⟨Card.marker :: rest, index, p⟩ (by
    simp only [hp]
    decide)
  rw [hpass] at hgo hfault
  cases behind with
  | nil => exact tokensFrom_of_fault rfl (hfault rfl)
  | cons c rest =>
    simp only [endCard] at hgo hfault ⊢
    split
    · next hc =>
      rw [if_pos hc] at hfault
      exact tokensFrom_of_fault rfl (hfault rfl)
    · next hc =>
      rw [if_neg hc] at hgo hfault
      split
      · next hnil =>
        rw [if_pos hnil] at hfault
        exact tokensFrom_of_fault rfl (hfault rfl)
      · next hnil =>
        rw [if_neg hnil] at hgo
        exact tokensFrom_of_pass rfl (hgo rfl)

/-- Behind a marker in its column and the columns after it, a card must end and another begin. -/
theorem tokensFrom_marker {sequence rest : List Char} {index : Int} {p : Position}
    (hp : p.column = Card.markerColumn) (hlength : sequence.length + 1 = Card.markerSpan) :
    tokensFrom v ⟨Card.marker :: (sequence ++ rest), index, p⟩ [] =
      match rest with
      | [] => .error (.unfinished p.line)
      | c :: rest =>
        if c ≠ '\n' then .error (.noLineEnd (p.shift Card.markerSpan))
        else if rest = [] then .error (.unfinished p.line)
        else tokensFrom v ⟨rest, index + Card.markerSpan + 1, ⟨p.line + 1, 0⟩⟩ [] := by
  rw [tokensFrom_marker_cons hp, ← hlength, Nat.add_sub_cancel, List.drop_left]

end CardDeck.Cursor
