import Mathlib.Data.List.Basic
import CardDeck.Proofs.Cursor.Deck
import CardDeck.Proofs.Defect

/-! # What is wrong with a deck as it stands

Where a deck is read as it stands, card by card and on a card from left to right, whatever is wrong
with it is found in this order: a word that starts with a marker, a last card that is continued, a
card that is not continued and does not end at the width of cards. `Defect.standing` lists all of
it, and `Cursor.tokens_eq_standing` is that a cursor refuses a deck for the first on the list. -/

namespace CardDeck

namespace Defect

/-- What is wrong where a card ends. A continued card must have another behind it, and any other
must have the width of cards. -/
def ofEnd (line : Nat) (card : Card) (behind : List Card) : List CardFault :=
  if card.isContinued then
    if behind = [] then [.unfinished line] else []
  else if card.length = Card.width then [] else [.lineEnd ⟨line, card.length⟩]

/-- What is wrong with a card, from left to right. -/
def ofCard (line : Nat) (card : Card) (behind : List Card) : List CardFault :=
  (straysOfText ⟨line, 0⟩ (card.take Card.markerColumn)).map .strayMarker ++ ofEnd line card behind

/-- All that is wrong with the cards from `line` on, in the order in which they are read. -/
def standing (line : Nat) : List Card → List CardFault
  | [] => []
  | card :: behind => ofCard line card behind ++ standing (line + 1) behind

/-- A single thing that is wrong with a card. -/
inductive OnCard (line : Nat) (card : Card) (behind : List Card) : CardFault → Prop
  | stray {column : Nat} (hcolumn : column < Card.markerColumn) (h : isStrayAt card column) :
      OnCard line card behind (.strayMarker ⟨line, column⟩)
  | unfinished (hc : card.isContinued) (hlast : behind = []) :
      OnCard line card behind (.unfinished line)
  | lineEnd (hc : card.isContinued = false) (hwidth : card.length ≠ Card.width) :
      OnCard line card behind (.lineEnd ⟨line, card.length⟩)

variable {line : Nat} {card : Card} {cards behind : List Card} {fault : CardFault}
  {text : List Char} {p q : Position}

/-! ### What is on the list -/

theorem mem_straysOfText_iff :
    q ∈ straysOfText p text ↔ ∃ i < text.length, isStrayAt text i ∧ q = p.shift i := by
  rw [straysOfText, List.mem_filterMap]
  constructor
  · rintro ⟨i, hi, h⟩
    split at h
    · next hstray => exact ⟨i, List.mem_range.1 hi, hstray, (Option.some.inj h).symm⟩
    · cases h
  · rintro ⟨i, hi, hstray, rfl⟩
    exact ⟨i, List.mem_range.2 hi, if_pos hstray⟩

theorem lt_length_of_isStrayAt {i : Nat} (h : isStrayAt text i) : i < text.length := by
  rw [isStrayAt, Bool.and_eq_true, decide_eq_true_iff] at h
  exact (List.getElem?_eq_some_iff.1 h.1).1

/-- Whether a word with a marker in front starts at an offset is told without what comes behind. -/
theorem isStrayAt_take {n i : Nat} (hi : i < n) : isStrayAt (text.take n) i = isStrayAt text i := by
  have hbefore : i - 1 < n := Nat.lt_of_le_of_lt (Nat.sub_le i 1) hi
  rw [isStrayAt, isStrayAt, List.getElem?_take_of_lt hi, List.getElem?_take_of_lt hbefore]

/-- A card has on its list what is wrong with it, and nothing else. -/
theorem mem_ofCard_iff : fault ∈ ofCard line card behind ↔ OnCard line card behind fault := by
  have hplace (i : Nat) : (⟨line, 0⟩ : Position).shift i = ⟨line, i⟩ := by
    rw [Position.shift, Int.zero_add]
  rw [ofCard, List.mem_append, List.mem_map, ofEnd]
  constructor
  · rintro (⟨q, hq, rfl⟩ | h)
    · obtain ⟨i, hi, hstray, rfl⟩ := mem_straysOfText_iff.1 hq
      rw [List.length_take] at hi
      have hcolumn : i < Card.markerColumn := Nat.lt_of_lt_of_le hi (Nat.min_le_left _ _)
      rw [isStrayAt_take hcolumn] at hstray
      rw [hplace]
      exact .stray hcolumn hstray
    · split at h
      · next hc =>
        split at h
        · next hlast =>
          rw [List.mem_singleton.1 h]
          exact .unfinished hc hlast
        · cases h
      · next hc =>
        split at h
        · cases h
        · next hwidth =>
          rw [List.mem_singleton.1 h]
          exact .lineEnd (Bool.eq_false_iff.2 hc) hwidth
  · intro h
    cases h with
    | @stray column hcolumn hstray =>
      have hlt : column < (card.take Card.markerColumn).length := by
        rw [List.length_take]
        exact Nat.lt_min.2 ⟨hcolumn, lt_length_of_isStrayAt hstray⟩
      rw [← isStrayAt_take hcolumn] at hstray
      exact .inl ⟨_, mem_straysOfText_iff.2 ⟨column, hlt, hstray, (hplace column).symm⟩, rfl⟩
    | unfinished hc hlast =>
      rw [if_pos hc, if_pos hlast]
      exact .inr (List.mem_singleton_self _)
    | lineEnd hc hwidth =>
      rw [hc, if_neg Bool.false_ne_true, if_neg hwidth]
      exact .inr (List.mem_singleton_self _)

/-- The list has what is wrong with each of the cards, and nothing else. -/
theorem mem_standing_iff :
    fault ∈ standing line cards ↔
      ∃ before card behind, cards = before ++ card :: behind ∧
        OnCard (line + before.length) card behind fault := by
  induction cards generalizing line with
  | nil => simp [standing]
  | cons card cards ih =>
    have hline (before : List Card) :
        line + 1 + before.length = line + (card :: before).length := by
      rw [List.length_cons, Nat.add_assoc, Nat.add_comm 1]
    rw [standing, List.mem_append, mem_ofCard_iff, ih]
    constructor
    · rintro (h | ⟨before, next, behind, rfl, h⟩)
      · exact ⟨[], card, cards, rfl, h⟩
      · rw [hline] at h
        exact ⟨card :: before, next, behind, rfl, h⟩
    · rintro ⟨_ | ⟨first, before⟩, next, behind, hcards, h⟩
      · obtain ⟨rfl, rfl⟩ := List.cons.inj hcards
        exact .inl h
      · obtain ⟨rfl, rfl⟩ := List.cons.inj hcards
        rw [← hline] at h
        exact .inr ⟨before, next, behind, rfl, h⟩

/-! ### What comes of a list -/

/-- The first fault, or these tokens if there is none. -/
def outcome (faults : List CardFault) (found : List Token) : Except CardFault (List Token) :=
  match faults.head? with
  | some fault => .error fault
  | none => .ok found

theorem outcome_append (faults faults' : List CardFault) (found found' : List Token) :
    outcome (faults ++ faults') (found ++ found') =
      do return (← outcome faults found) ++ (← outcome faults' found') := by
  cases faults with
  | nil => cases faults' <;> rfl
  | cons fault faults => rfl

theorem outcome_map_append (faults : List CardFault) (found last : List Token) :
    outcome faults (found ++ last) = (· ++ last) <$> outcome faults found := by
  cases faults <;> rfl

/-- A character that is no marker makes nothing astray. -/
theorem straysOfText_concat {c : Char} (hc : c ≠ Card.marker) :
    straysOfText p (text ++ [c]) = straysOfText p text := by
  have hlast : isStrayAt (text ++ [c]) text.length = false := by
    simp [isStrayAt, hc]
  have hnone : [text.length].filterMap (fun i =>
      if isStrayAt (text ++ [c]) i then some (p.shift i) else none) = [] := by
    rw [List.filterMap_cons, hlast]
    rfl
  rw [straysOfText, straysOfText, List.length_append, List.length_singleton, List.range_succ,
    List.filterMap_append, hnone, List.append_nil]
  apply List.filterMap_congr
  intro i hi
  have htake := @isStrayAt_take (text ++ [c]) text.length i (List.mem_range.1 hi)
  rw [List.take_left] at htake
  rw [htake]

/-- What is astray on a card stands before the column of markers. -/
theorem straysOfText_payload (card : Card) :
    straysOfText p (card.payload 0) = straysOfText p (card.take Card.markerColumn) := by
  rw [Card.payload_zero]
  cases hc : card.isContinued with
  | true => rfl
  | false =>
    have hsucc : Card.sequenceColumn = Card.markerColumn + 1 := rfl
    rw [if_neg Bool.false_ne_true, hsucc, List.take_add_one]
    cases hmarker : card[Card.markerColumn]? with
    | none => rw [Option.toList_none, List.append_nil]
    | some c =>
      have hne : c ≠ Card.marker := by
        rintro rfl
        rw [Card.isContinued_iff.2 hmarker] at hc
        cases hc
      exact straysOfText_concat hne

theorem checked_ofText (v : Vocabulary) (p : Position) (text : List Char) :
    Reading.checked (Reading.ofText v p text) =
      outcome ((straysOfText p text).map .strayMarker) (Reading.ofText v p text) := by
  rw [checked_eq_head?, filter_ofText, outcome, List.head?_map]
  cases (straysOfText p text).head? <;> rfl

/-- A card has its own faults, and then the cards behind it have theirs. -/
theorem ending_outcome (faults : List CardFault) (found : List Token) :
    Reading.ending line card behind (outcome faults found) =
      outcome (ofEnd line card behind ++ faults)
        ((if card.isContinued then [] else [.endOfLine ⟨line, Card.width⟩]) ++ found) := by
  rw [Reading.ending, ofEnd]
  split
  · split
    · rfl
    · rfl
  · split
    · cases faults <;> rfl
    · rfl

/-- What comes of cards as they stand is the first fault, or their reading. -/
theorem scan_eq_outcome (v : Vocabulary) (line : Nat) (continuing : Bool) (cards : List Card) :
    Reading.scan v line cards =
      outcome (standing line cards) (Reading.ofCards ⟨v, true⟩ line continuing cards) := by
  induction cards generalizing line continuing with
  | nil => rfl
  | cons card cards ih =>
    rw [Reading.scan, checked_ofText, ih (line + 1) card.isContinued, ending_outcome,
      ← outcome_append, Reading.ofCards_raw_cons, standing, ofCard, straysOfText_payload,
      List.append_assoc, List.append_assoc]

end Defect

/-- A deck on whose continued cards the width is right is refused for the first thing on it that is
wrong, and for nothing else; if nothing is wrong, its tokens are its reading. -/
theorem Cursor.tokens_eq_standing (v : Vocabulary) {text : List Char}
    (hwidth : ∀ card ∈ Card.ofText text, card.isContinued → card.length = Card.width) :
    (tokens v text =
      match (Defect.standing 0 (Card.ofText text)).head? with
      | some fault => .error fault
      | none => .ok ((⟨v, true⟩ : Decoder).reading text)) ∧
    ∀ fault, tokens v text = .error fault →
      ∃ before card behind, Card.ofText text = before ++ card :: behind ∧
        Defect.OnCard before.length card behind fault := by
  have htokens : tokens v text = Defect.outcome (Defect.standing 0 (Card.ofText text))
      ((⟨v, true⟩ : Decoder).reading text) := by
    have hscan := Defect.scan_eq_outcome v 0 false (Card.ofText text)
    refine (@tokensFrom_text v 0 0 text hwidth).trans ?_
    rw [hscan, Decoder.reading, Defect.outcome_map_append]
    simp only [Int.natCast_zero, Int.zero_add]
  refine ⟨htokens, fun fault h => ?_⟩
  have hmem : fault ∈ Defect.standing 0 (Card.ofText text) := by
    rw [htokens, Defect.outcome] at h
    split at h
    · next hhead =>
      obtain rfl := Except.error.inj h
      exact List.mem_of_head? hhead
    · cases h
  obtain ⟨before, card, behind, hcards, hcard⟩ := Defect.mem_standing_iff.1 hmem
  rw [Nat.zero_add] at hcard
  exact ⟨before, card, behind, hcards, hcard⟩

/-- Three cards: a good one, one that is short and has a word astray, and a last one that is
continued. -/
def Cursor.faultyDeck : List Char :=
  List.replicate 9 ' ' ++ "SEGM NAME=A".toList ++ List.replicate 60 ' ' ++ "\n  A *B C\n".toList ++
    List.replicate 71 ' ' ++ "*00000030".toList

theorem Cursor.tokens_eq_standing_faultyDeck :
    (∀ card ∈ Card.ofText faultyDeck, card.isContinued → card.length = Card.width) ∧
      Defect.standing 0 (Card.ofText faultyDeck) =
        [.strayMarker ⟨1, 4⟩, .lineEnd ⟨1, 8⟩, .unfinished 2] ∧
      tokens .standard faultyDeck = .error (.strayMarker ⟨1, 4⟩) := by
  have hwidth : ∀ card ∈ Card.ofText faultyDeck, card.isContinued → card.length = Card.width := by
    decide +kernel
  have hstanding : Defect.standing 0 (Card.ofText faultyDeck) =
      [.strayMarker ⟨1, 4⟩, .lineEnd ⟨1, 8⟩, .unfinished 2] := by
    decide +kernel
  refine ⟨hwidth, hstanding, ?_⟩
  rw [(tokens_eq_standing .standard hwidth).1, hstanding]
  rfl

end CardDeck
