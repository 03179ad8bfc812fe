import CardDeck.Proofs.Cursor.Reading

/-! # A cursor reads a deck card by card

`Reading.scan` says card by card what comes of a deck that is read as it stands: the first word
astray, the first card that does not end where it must, or the marker of the last card, whichever
comes first. `Cursor.tokensFrom_text` is that a cursor does just this. -/

namespace CardDeck

namespace Reading

/-- What comes behind the payload of a card: nothing where the next card goes on with it, or the
end of its line. `rest` is what comes of the cards behind it. -/
def ending (line : Nat) (card : Card) (cards : List Card)
    (rest : Except CardFault (List Token)) : Except CardFault (List Token) :=
  if card.isContinued then
    if cards = [] then .error (.unfinished line) else rest
  else if card.length = Card.width then (.endOfLine ⟨line, Card.width⟩ :: ·) <$> rest
  else .error (.lineEnd ⟨line, card.length⟩)

theorem ending_map_append (line : Nat) (card : Card) (cards : List Card)
    (rest : Except CardFault (List Token)) (last : List Token) :
    ending line card cards ((· ++ last) <$> rest) =
      (· ++ last) <$> ending line card cards rest := by
  unfold ending
  split
  · split
    · rfl
    · rfl
  · split
    · cases rest <;> rfl
    · rfl

/-- What comes of the cards from `line` on, each read as it stands. -/
def scan (v : Vocabulary) (line : Nat) : List Card → Except CardFault (List Token)
  | [] => .ok []
  | card :: cards => do
    return (← checked (ofText v ⟨line, 0⟩ (card.payload 0))) ++
      (← ending line card cards (scan v (line + 1) cards))

end Reading

namespace Cursor

variable {v : Vocabulary} {card : Card} {line : Nat} {index : Int}

theorem isBody_payload (hnewline : '\n' ∉ card) :
    IsBody (Layout.row ⟨line, 0⟩ (card.payload 0)) := by
  intro x hx
  obtain ⟨i, hi, hp⟩ := Layout.exists_getElem?_of_mem_row hx
  have hlt : i < (card.payload 0).length := (List.getElem?_eq_some_iff.1 hi).1
  have hle := card.length_payload_le
  have hcard : card[i]? = some x.char := by
    rw [@Card.eq_payload_append card, List.getElem?_append_left hlt, hi]
  rw [hp]
  refine ⟨?_, ?_, ?_⟩
  · intro hx
    exact hnewline (hx ▸ List.mem_of_getElem? hcard)
  · simp only [Position.column_shift]
    omega
  · intro hx hcolumn
    simp only [Position.column_shift] at hcolumn
    obtain rfl : i = Card.markerColumn := by omega
    rw [hx] at hcard
    have := Card.length_payload_of_isContinued (Card.isContinued_iff.2 hcard)
    omega

theorem wordPart_payload {tail : List Char} (htail : ∀ c ∈ tail.head?, isDelimiter c) :
    wordPart (card.payload 0).length
      ((if card.isContinued then [Card.marker] else []) ++ card.drop Card.sequenceColumn ++ tail) =
        [] := by
  cases hc : card.isContinued with
  | true =>
    rw [Card.length_payload_of_isContinued hc, if_pos rfl, List.append_assoc, List.singleton_append,
      wordPart]
    simp
  | false =>
    rw [if_neg Bool.false_ne_true, List.nil_append, Card.payload_zero, hc,
      if_neg Bool.false_ne_true, List.length_take]
    rcases Nat.le_total card.length Card.sequenceColumn with h | h
    · rw [List.drop_eq_nil_of_le h, List.nil_append]
      cases tail with
      | nil => rfl
      | cons c tail => simp [wordPart, htail c rfl]
    · rw [Nat.min_eq_left h]
      cases card.drop Card.sequenceColumn ++ tail with
      | nil => rfl
      | cons c rest => simp [wordPart]

/-- A cursor takes the words and marks of a card and comes to the columns behind its payload. -/
theorem tokensFrom_payload {tail : List Char} (hnewline : '\n' ∉ card)
    (htail : ∀ c ∈ tail.head?, isDelimiter c) :
    tokensFrom v ⟨card ++ tail, index, ⟨line, 0⟩⟩ [] = do
      return (← Reading.checked (Reading.ofText v ⟨line, 0⟩ (card.payload 0))) ++
        (← tokensFrom v ⟨(if card.isContinued then [Card.marker] else []) ++
          card.drop Card.sequenceColumn ++ tail, index + (card.payload 0).length,
            ⟨line, (card.payload 0).length⟩⟩ []) := by
  have hplace : Position.shift ⟨line, 0⟩ (card.payload 0).length =
      ⟨line, (card.payload 0).length⟩ := by
    rw [Position.shift, Int.zero_add]
  have hafter := @wordPart_payload card tail htail
  conv => lhs; rw [@Card.eq_payload_append card, List.append_assoc]
  rw [tokensFrom_body (isBody_payload hnewline) (by rw [Int.zero_add]; exact hafter), hplace,
    Reading.ofText_eq_tokens]

/-- A card that is not continued is passed up to its end. -/
theorem tokensFrom_rest_of_not_isContinued {tail : List Char} (hnewline : '\n' ∉ card)
    (hc : card.isContinued = false) :
    tokensFrom v ⟨(if card.isContinued then [Card.marker] else []) ++
        card.drop Card.sequenceColumn ++ tail, index + (card.payload 0).length,
          ⟨line, (card.payload 0).length⟩⟩ [] =
      tokensFrom v ⟨tail, index + card.length, ⟨line, card.length⟩⟩ [] := by
  rw [hc, if_neg Bool.false_ne_true, List.nil_append, Card.payload_zero, hc,
    if_neg Bool.false_ne_true, List.length_take]
  rcases Nat.le_total card.length Card.sequenceColumn with h | h
  · rw [List.drop_eq_nil_of_le h, List.nil_append, Nat.min_eq_right h]
  · have hmem : '\n' ∉ card.drop Card.sequenceColumn := fun hm => hnewline (List.mem_of_mem_drop hm)
    have hlength : (Card.sequenceColumn : Int) + (card.drop Card.sequenceColumn).length =
        card.length := by
      rw [List.length_drop]
      omega
    rw [Nat.min_eq_left h, tokensFrom_sequence hmem (Int.le_refl _), Position.shift, Int.add_assoc,
      hlength]

/-- A continued card of full width is passed with its newline, behind which there must be more. -/
theorem tokensFrom_rest_of_isContinued {tail : List Char} (hc : card.isContinued)
    (hwidth : card.length = Card.width) :
    tokensFrom v ⟨(if card.isContinued then [Card.marker] else []) ++
        card.drop Card.sequenceColumn ++ tail, index + (card.payload 0).length,
          ⟨line, (card.payload 0).length⟩⟩ [] =
      match tail with
      | [] => .error (.unfinished line)
      | c :: rest =>
        if c ≠ '\n' then .error (.noLineEnd ⟨line, Card.width⟩)
        else if rest = [] then .error (.unfinished line)
        else tokensFrom v ⟨rest, index + Card.width + 1, ⟨line + 1, 0⟩⟩ [] := by
  have hspan : (Card.markerColumn : Int) + Card.markerSpan = Card.width := by decide
  have hsequence : (card.drop Card.sequenceColumn).length + 1 = Card.markerSpan := by
    rw [List.length_drop, hwidth]
    rfl
  have hmarker := @tokensFrom_marker v (card.drop Card.sequenceColumn) tail
    (index + Card.markerColumn) ⟨line, Card.markerColumn⟩ rfl hsequence
  rw [Position.shift, Int.add_assoc index, hspan] at hmarker
  rw [Card.length_payload_of_isContinued hc, if_pos hc, List.append_assoc, List.singleton_append]
  exact hmarker

/-! ### Decks -/

theorem tokensFrom_lastCard (hnewline : '\n' ∉ card) (hne : card ≠ [])
    (hwidth : card.isContinued → card.length = Card.width) :
    tokensFrom v ⟨card, index, ⟨line, 0⟩⟩ [] = Reading.scan v line [card] := by
  have hwalk := @tokensFrom_payload v card line index [] hnewline (by simp)
  rw [List.append_nil] at hwalk
  rw [hwalk, Reading.scan, Reading.ending]
  cases hc : card.isContinued with
  | true =>
    have hrest := @tokensFrom_rest_of_isContinued v card line index [] hc (hwidth hc)
    rw [hc] at hrest
    rw [hrest]
    rfl
  | false =>
    have hrest := @tokensFrom_rest_of_not_isContinued v card line index [] hnewline hc
    have hzero : (card.length : Int) ≠ 0 := by simpa using hne
    rw [hc, tokensFrom_nil] at hrest
    rw [hrest]
    by_cases hw : card.length = Card.width
    · rw [if_pos (.inr (congrArg Nat.cast hw)), if_pos hw, hw]
      rfl
    · rw [if_neg (not_or.2 ⟨hzero, fun h => hw (Int.ofNat_inj.1 h)⟩), if_neg hw]
      rfl

theorem tokensFrom_cardNewline {text : List Char} (hnewline : '\n' ∉ card)
    (hwidth : card.isContinued → card.length = Card.width) :
    tokensFrom v ⟨card ++ '\n' :: text, index, ⟨line, 0⟩⟩ [] = do
      return (← Reading.checked (Reading.ofText v ⟨line, 0⟩ (card.payload 0))) ++
        (← Reading.ending line card (Card.ofText text)
          (tokensFrom v ⟨text, index + card.length + 1, ⟨line + 1, 0⟩⟩ [])) := by
  have hwalk := @tokensFrom_payload v card line index ('\n' :: text) hnewline (by simp; decide)
  rw [hwalk, Reading.ending]
  cases hc : card.isContinued with
  | true =>
    have hrest := @tokensFrom_rest_of_isContinued v card line index ('\n' :: text) hc (hwidth hc)
    rw [hc] at hrest
    rw [hrest, hwidth hc]
    simp only [ne_eq, not_true_eq_false, if_false, if_true, Card.ofText_eq_nil_iff]
  | false =>
    have hrest := @tokensFrom_rest_of_not_isContinued v card line index ('\n' :: text) hnewline hc
    rw [hc, tokensFrom_newline] at hrest
    rw [hrest]
    by_cases hw : card.length = Card.width
    · rw [if_pos (congrArg Nat.cast hw), if_neg Bool.false_ne_true, if_pos hw, hw]
    · rw [if_neg (fun h => hw (Int.ofNat_inj.1 h)), if_neg Bool.false_ne_true, if_neg hw]

/-- Where every continued card has the width of cards, a cursor makes of a deck what `scan` makes
of its cards, and finds an empty line behind a newline or in an empty text. -/
theorem tokensFrom_text {text : List Char}
    (hwidth : ∀ card ∈ Card.ofText text, card.isContinued → card.length = Card.width) :
    tokensFrom v ⟨text, index, ⟨line, 0⟩⟩ [] =
      (· ++ if text = [] ∨ text.getLast? = some '\n' then
        [.endOfLine ⟨line + (Card.ofText text).length, 0⟩] else []) <$>
          Reading.scan v line (Card.ofText text) := by
  induction text using Card.text_induction generalizing line index with
  | nil =>
    rw [tokensFrom_nil, if_pos (.inl rfl)]
    simp [Reading.scan]
  | card card hnewline hne =>
    rw [Card.ofText_card hnewline hne] at hwidth ⊢
    have hlast : card.getLast? ≠ some '\n' := fun h => hnewline (List.mem_of_getLast? h)
    rw [tokensFrom_lastCard hnewline hne (hwidth card (List.mem_singleton_self card)),
      if_neg (by simp [hne, hlast])]
    cases Reading.scan v line [card] <;> simp
  | newline card text hnewline ih =>
    rw [Card.ofText_card_newline hnewline] at hwidth ⊢
    obtain ⟨hcard, htext⟩ := List.forall_mem_cons.1 hwidth
    have ih := @ih (line + 1) (index + card.length + 1) htext
    have hlast : (card ++ '\n' :: text = [] ∨ (card ++ '\n' :: text).getLast? = some '\n') ↔
        (text = [] ∨ text.getLast? = some '\n') := by
      cases text with
      | nil => simp
      | cons c text => simp [List.getLast?_cons]
    have hline : ((line + 1 : Nat) : Int) + (Card.ofText text).length =
        line + (card :: Card.ofText text).length := by
      rw [List.length_cons]
      omega
    rw [hline] at ih
    rw [tokensFrom_cardNewline hnewline hcard, Reading.scan]
    change (do return (← Reading.checked _) ++ (← Reading.ending line card (Card.ofText text)
      (tokensFrom v ⟨text, index + card.length + 1, ⟨(line + 1 : Nat), 0⟩⟩ []))) = _
    simp only [ih, hlast, Reading.ending_map_append]
    cases Reading.checked (Reading.ofText v ⟨line, 0⟩ (card.payload 0)) with
    | error fault => rfl
    | ok words =>
      cases Reading.ending line card (Card.ofText text)
        (Reading.scan v (line + 1) (Card.ofText text)) with
      | error fault => rfl
      | ok found => exact congrArg Except.ok (List.append_assoc _ _ _).symm

end Cursor

/-! ### Decks of full width -/

namespace Reading

/-- Where every card has the width of cards, what comes of them is their reading, up to the first
word astray, unless the last one is continued. -/
theorem scan_eq_checked (v : Vocabulary) {line : Nat} {cards : List Card} (continuing : Bool)
    (hwidth : ∀ card ∈ cards, card.length = Card.width) :
    scan v line cards =
      checked (ofCards ⟨v, true⟩ line continuing cards) >>= fun found =>
        if isLeftOpen false cards then .error (.unfinished (line + cards.length - 1))
        else .ok found := by
  induction cards generalizing line continuing with
  | nil => rfl
  | cons card cards ih =>
    obtain ⟨hcard, hcards⟩ := List.forall_mem_cons.1 hwidth
    have ih := @ih (line + 1) card.isContinued hcards
    have hline :
        ((line + 1 : Nat) : Int) + cards.length - 1 = line + (card :: cards).length - 1 := by
      rw [List.length_cons]
      omega
    rw [hline] at ih
    rw [scan, ending, ofCards_raw_cons, checked_append, checked_append, isLeftOpen_cons, ih]
    cases checked (ofText v ⟨line, 0⟩ (card.payload 0)) with
    | error fault => rfl
    | ok words =>
      cases hc : card.isContinued with
      | true =>
        rw [if_pos rfl, if_pos rfl]
        by_cases hnil : cards = []
        · subst hnil
          have hlast : (line : Int) + [card].length - 1 = line := by simp
          rw [hlast]
          rfl
        · rw [if_neg hnil, isLeftOpen_of_ne_nil hnil true false]
          cases checked (ofCards ⟨v, true⟩ (line + 1) true cards) with
          | error fault => rfl
          | ok found =>
            cases isLeftOpen false cards with
            | true => rfl
            | false =>
              exact congrArg (fun ws => Except.ok (ws ++ found)) (List.append_nil words).symm
      | false =>
        rw [if_neg Bool.false_ne_true, if_neg Bool.false_ne_true, if_pos hcard,
          checked_cons (Token.isStray_endOfLine _)]
        cases checked (ofCards ⟨v, true⟩ (line + 1) false cards) with
        | error fault => rfl
        | ok found =>
          cases isLeftOpen false cards with
          | true => rfl
          | false => exact congrArg Except.ok (List.append_cons words _ found)

end Reading

/-- What comes of a deck that is read as it stands: the first word astray, or else its reading,
unless its last card is continued. -/
theorem Decoder.tokens_raw (v : Vocabulary) {text : List Char}
    (hwidth : ∀ card ∈ Card.ofText text, card.length = Card.width) :
    (⟨v, true⟩ : Decoder).tokens text =
      Reading.checked ((⟨v, true⟩ : Decoder).reading text) >>= fun found =>
        if Reading.isLeftOpen false (Card.ofText text) then
          .error (.unfinished ((Card.ofText text).length - 1))
        else .ok found := by
  have hsentinel : Reading.checked (if text = [] ∨ text.getLast? = some '\n' then
      [.endOfLine ⟨(Card.ofText text).length, 0⟩] else []) =
        .ok (if text = [] ∨ text.getLast? = some '\n' then
          [.endOfLine ⟨(Card.ofText text).length, 0⟩] else []) := by
    split
    · rw [Reading.checked_cons (Token.isStray_endOfLine _)]
      rfl
    · rfl
  have hscan := @Reading.scan_eq_checked v 0 (Card.ofText text) false hwidth
  rw [tokens, if_pos rfl, Decoder.reading, Reading.checked_append, hsentinel]
  refine (@Cursor.tokensFrom_text v 0 0 text fun card hcard _ => hwidth card hcard).trans ?_
  rw [hscan]
  simp only [Int.natCast_zero, Int.zero_add]
  cases Reading.checked (Reading.ofCards ⟨v, true⟩ 0 false (Card.ofText text)) with
  | error fault => rfl
  | ok found => cases Reading.isLeftOpen false (Card.ofText text) <;> rfl

end CardDeck
