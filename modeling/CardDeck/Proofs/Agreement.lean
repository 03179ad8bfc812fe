import Mathlib.Data.List.Chain
import Mathlib.Data.List.Infix
import CardDeck.Proofs.Cursor.Deck
import CardDeck.Proofs.Statement.Reading

/-! # Two ways to read a deck

A deck is read as it stands, or its cards are joined to statements first. `Decoder.tokens_eq_ok_iff`
says of either way when it succeeds and with what. The two differ in where a continued statement
goes on, so they agree where nothing stands before the column of resumption:
`Reading.ofCards_eq_iff`. -/

namespace CardDeck

/-! ### What is read is what the cards say -/

/-- A deck is read if its last card is not continued and no word in it starts with a marker, and
then the tokens are its reading. -/
theorem Decoder.tokens_eq_ok_iff {d : Decoder} {text : List Char} {found : List Token}
    (hwidth : ∀ card ∈ Card.ofText text, card.length = Card.width) :
    d.tokens text = .ok found ↔
      Reading.isLeftOpen false (Card.ofText text) = false ∧
        (∀ t ∈ d.reading text, t.isStray = false) ∧ found = d.reading text := by
  rw [← Reading.checked_eq_ok_iff]
  obtain ⟨v, raw⟩ := d
  cases raw with
  | true =>
    rw [Decoder.tokens_raw v hwidth]
    cases Reading.isLeftOpen false (Card.ofText text) <;>
      cases Reading.checked ((⟨v, true⟩ : Decoder).reading text) <;> simp [bind, Except.bind]
  | false =>
    rw [Decoder.tokens_joined v hwidth]
    cases Reading.isLeftOpen false (Card.ofText text) <;> simp

/-- What comes of a deck whose last card is not continued. -/
theorem Decoder.tokens_eq_checked {d : Decoder} {text : List Char}
    (hwidth : ∀ card ∈ Card.ofText text, card.length = Card.width)
    (hopen : Reading.isLeftOpen false (Card.ofText text) = false) :
    d.tokens text = Reading.checked (d.reading text) := by
  obtain ⟨v, raw⟩ := d
  cases raw with
  | true =>
    rw [Decoder.tokens_raw v hwidth, hopen]
    cases Reading.checked ((⟨v, true⟩ : Decoder).reading text) <;> rfl
  | false => rw [Decoder.tokens_joined v hwidth, hopen, if_neg Bool.false_ne_true]

theorem Decoder.segments_of_tokens {d : Decoder} {text : List Char} {found : List Token}
    (h : d.tokens text = .ok found) :
    d.segments text = (Segment.ofTokens found).mapError .record := by
  rw [segments, h]
  rfl

theorem Decoder.segments_of_tokens_eq_error {d : Decoder} {text : List Char} {fault : CardFault}
    (h : d.tokens text = .error fault) : d.segments text = .error (.card fault) := by
  rw [segments, h]
  rfl

namespace Reading

/-- The text of a token stands where the token does. -/
theorem exists_prefix_of_mem_ofText {v : Vocabulary} {p : Position} {text : List Char} {t : Token}
    (h : t ∈ ofText v p text) :
    ∃ i < text.length, t.position = p.shift i ∧ t.text.toList <+: text.drop i := by
  obtain ⟨i, hi, ht⟩ := List.mem_filterMap.1 h
  have hlt := List.mem_range.1 hi
  refine ⟨i, hlt, ?_⟩
  rw [tokenAt?, List.getElem?_eq_getElem hlt, Option.bind_some] at ht
  split at ht
  · cases ht
  · split at ht
    · obtain rfl := Option.some.inj ht
      refine ⟨rfl, ?_⟩
      have hmark : text[i].toString.toList = [text[i]] := by simp
      rw [hmark, List.drop_eq_getElem_cons hlt]
      exact List.prefix_append [text[i]] _
    · split at ht
      · cases ht
      · obtain rfl := Option.some.inj ht
        refine ⟨Vocabulary.position_word .., ?_⟩
        rw [Vocabulary.text_word, String.toList_ofList]
        exact List.takeWhile_prefix _

/-- The tokens of cards stand on these cards, and their texts are read off them. -/
theorem exists_prefix_of_mem_ofCards {d : Decoder} {line : Nat} {continuing : Bool}
    {cards : List Card} {t : Token} (h : t ∈ ofCards d line continuing cards) :
    ∃ i column : Nat, t.position = ⟨(line + i : Nat), column⟩ ∧ i < cards.length ∧
      t.text.toList <+: (cards[i]?.getD []).drop column := by
  induction cards generalizing line continuing with
  | nil => cases h
  | cons card cards ih =>
    rw [ofCards, List.mem_append, List.mem_append] at h
    rcases h with (h | h) | h
    · obtain ⟨i, hi, hp, htext⟩ := exists_prefix_of_mem_ofText h
      refine ⟨0, (if continuing && !d.raw then Card.resumeColumn else 0) + i, ?_, by simp, ?_⟩
      · rw [hp]
        rfl
      · rw [Card.payload, List.drop_drop] at htext
        exact htext.trans (List.IsPrefix.drop (List.take_prefix _ _) _)
    · split at h
      · cases h
      · obtain rfl := List.mem_singleton.1 h
        exact ⟨0, Card.width, rfl, by simp, List.nil_prefix⟩
    · obtain ⟨i, column, hp, hi, htext⟩ := ih h
      refine ⟨i + 1, column, ?_, by simpa using hi, by simpa using htext⟩
      rw [hp, Nat.add_assoc, Nat.add_comm 1 i]

end Reading

/-- What is read off a deck of full width, in either way, is its reading: the words and marks of
the payload of each card, and the end of its line unless it is continued. Every token stands
where its text does. -/
theorem Decoder.tokens_eq_reading {d : Decoder} {text : List Char} {found : List Token}
    (hwidth : ∀ card ∈ Card.ofText text, card.length = Card.width)
    (h : d.tokens text = .ok found) :
    found = d.reading text ∧ ∀ t ∈ found, ∃ line column : Nat, t.position = ⟨line, column⟩ ∧
      t.text.toList <+: ((Card.ofText text)[line]?.getD []).drop column := by
  obtain ⟨-, -, rfl⟩ := (Decoder.tokens_eq_ok_iff hwidth).1 h
  refine ⟨rfl, forall_mem_reading (fun t ht => ?_) ?_⟩
  · obtain ⟨i, column, hp, -, htext⟩ := Reading.exists_prefix_of_mem_ofCards ht
    rw [Nat.zero_add] at hp
    exact ⟨i, column, hp, htext⟩
  · exact ⟨(Card.ofText text).length, 0, rfl, List.nil_prefix⟩

/-- One record on two cards; the second card goes on in the column of resumption. -/
def Decoder.segmentOnTwoCards : List Char :=
  List.replicate 9 ' ' ++ "SEGM NAME=A,".toList ++ List.replicate 50 ' ' ++ "*00000010\n".toList ++
    List.replicate 14 ' ' ++ "BYTES=5".toList ++ List.replicate 51 ' ' ++ "00000020\n".toList

theorem Decoder.tokens_eq_reading_segmentOnTwoCards :
    ∃ found, (⟨.standard, false⟩ : Decoder).tokens segmentOnTwoCards = .ok found ∧
      found = (⟨.standard, false⟩ : Decoder).reading segmentOnTwoCards ∧ found.length = 10 := by
  have hwidth : ∀ card ∈ Card.ofText segmentOnTwoCards, card.length = Card.width := by
    decide +kernel
  have hok : (⟨.standard, false⟩ : Decoder).tokens segmentOnTwoCards =
      .ok ((⟨.standard, false⟩ : Decoder).reading segmentOnTwoCards) := by
    rw [tokens_eq_ok_iff hwidth]
    decide +kernel
  exact ⟨_, hok, (tokens_eq_reading hwidth hok).1, by decide +kernel⟩

/-! ### Where the two ways agree -/

/-- Nothing but blanks stands on the card before the column of resumption. -/
def Card.isIndented (card : Card) : Bool := (card.take Card.resumeColumn).all Text.isBlank

namespace Reading

/-- Every card that goes on with the card before it is indented. -/
def Indented (cards : List Card) : Prop :=
  cards.IsChain fun card next => card.isContinued → next.isIndented

instance (cards : List Card) : Decidable (Indented cards) :=
  inferInstanceAs (Decidable (cards.IsChain _))

variable {v : Vocabulary} {line : Nat} {card : Card}

/-- Read from the column of resumption on, a card loses what stands before it, and nothing else. -/
theorem ofText_payload_eq_iff :
    ofText v ⟨line, 0⟩ (card.payload 0) =
        ofText v ⟨line, Card.resumeColumn⟩ (card.payload Card.resumeColumn) ↔
      card.isIndented := by
  have htake : (card.payload 0).take Card.resumeColumn = card.take Card.resumeColumn := by
    have hle := Card.resumeColumn_lt_markerColumn.le.trans (Card.payloadEnd_mem card.isContinued).1
    rw [Card.payload_zero, List.take_take, Nat.min_eq_left hle]
  have hcut : card.payload 0 =
      card.take Card.resumeColumn ++ card.payload Card.resumeColumn := by
    rw [← htake]
    exact (List.take_append_drop _ _).symm
  have hrow : Layout.row ⟨line, 0⟩ (card.payload 0) =
      Layout.row ⟨line, 0⟩ (card.take Card.resumeColumn) ++
        Layout.row ⟨line, Card.resumeColumn⟩ (card.payload Card.resumeColumn) := by
    rw [hcut, Layout.row_append]
    rcases Nat.le_total Card.resumeColumn card.length with h | h
    · rw [List.length_take, Nat.min_eq_left h, Position.shift, Int.zero_add]
    · have hnil : card.payload Card.resumeColumn = [] :=
        List.drop_eq_nil_of_le ((List.length_take_le' _ _).trans h)
      rw [hnil]
      rfl
  rw [ofText_eq_tokens, hrow]
  constructor
  · intro h
    by_contra hindent
    obtain ⟨c, hc, hblank⟩ : ∃ c ∈ card.take Card.resumeColumn, Text.isBlank c = false := by
      simpa [Card.isIndented] using hindent
    rw [← Layout.chars_row ⟨line, 0⟩ (card.take Card.resumeColumn)] at hc
    obtain ⟨x, hx, rfl⟩ := List.mem_map.1 hc
    obtain ⟨t, ht, y, hy, hp⟩ := Layout.exists_mem_tokens_append _ ⟨x, hx, hblank⟩
    rw [h] at ht
    obtain ⟨i, -, hbehind, -⟩ := exists_prefix_of_mem_ofText ht
    obtain ⟨j, hj, hbefore⟩ := Layout.exists_getElem?_of_mem_row hy
    have hlt := (List.getElem?_eq_some_iff.1 hj).1
    have hcolumn := congrArg Position.column (hbehind.symm.trans (hp.trans hbefore))
    simp only [Position.column_shift, List.length_take] at hcolumn hlt
    omega
  · intro h
    rw [ofText_eq_tokens, Layout.tokens_blanks_append]
    intro x hx
    exact List.all_eq_true.1 h _ (Layout.mem_chars_of_mem_row hx)

theorem line_of_mem_ofCards {d : Decoder} {continuing : Bool} {cards : List Card} {t : Token}
    (h : t ∈ ofCards d line continuing cards) : line ≤ t.position.line := by
  obtain ⟨i, column, hp, -, -⟩ := exists_prefix_of_mem_ofCards h
  simp only [hp]
  omega

/-- What is read off a card is told by its line from what is read off the cards behind it. -/
theorem append_ofCards_inj {a b : List Token} {d e : Decoder} {continuing : Bool}
    {cards : List Card} (ha : ∀ t ∈ a, t.position.line = line)
    (hb : ∀ t ∈ b, t.position.line = line) :
    a ++ ofCards d (line + 1) continuing cards = b ++ ofCards e (line + 1) continuing cards ↔
      a = b ∧ ofCards d (line + 1) continuing cards = ofCards e (line + 1) continuing cards := by
  have hbehind {d : Decoder} : ∀ t ∈ ofCards d (line + 1) continuing cards,
      ¬ t.position.line = line := by
    intro t ht
    have := line_of_mem_ofCards ht
    omega
  have hfilter {a : List Token} {d : Decoder} (ha : ∀ t ∈ a, t.position.line = line) :
      (a ++ ofCards d (line + 1) continuing cards).filter (·.position.line = (line : Int)) = a := by
    rw [List.filter_append, List.filter_eq_self.2 (by simpa using ha),
      List.filter_eq_nil_iff.2 (by simpa using hbehind), List.append_nil]
  constructor
  · intro h
    have hab : a = b := by
      rw [← hfilter ha, h, hfilter hb]
    subst hab
    exact ⟨rfl, List.append_cancel_left h⟩
  · rintro ⟨rfl, h⟩
    rw [h]

/-- An indented card may as well be read from its first column. -/
theorem ofCards_cons_of_isIndented (d : Decoder) {continuing : Bool} (cards : List Card)
    (h : continuing → card.isIndented) :
    ofCards d line continuing (card :: cards) =
      ofText d.vocabulary ⟨line, 0⟩ (card.payload 0) ++
        (if card.isContinued then [] else [.endOfLine ⟨line, Card.width⟩]) ++
          ofCards d (line + 1) card.isContinued cards := by
  obtain ⟨v, raw⟩ := d
  cases raw with
  | true => exact ofCards_raw_cons v line continuing card cards
  | false =>
    rw [ofCards_joined_cons]
    cases continuing with
    | true =>
      rw [ofText_payload_eq_iff.2 (h rfl)]
      rfl
    | false => rfl

/-- The two ways read the same off cards if and only if every card that goes on with a statement
is indented. -/
theorem ofCards_eq_iff {continuing : Bool} {cards : List Card} :
    ofCards ⟨v, true⟩ line continuing cards = ofCards ⟨v, false⟩ line continuing cards ↔
      (∀ next ∈ cards.head?, continuing → next.isIndented) ∧ Indented cards := by
  induction cards generalizing line continuing with
  | nil => simp [Indented]
  | cons card cards ih =>
    have hline {p : Position} {text : List Char} (hp : p.line = line) : ∀ t ∈ ofText v p text ++
        (if card.isContinued then [] else [.endOfLine ⟨line, Card.width⟩]),
          t.position.line = (line : Int) := by
      intro t ht
      rcases List.mem_append.1 ht with ht | ht
      · obtain ⟨i, -, hshift, -⟩ := exists_prefix_of_mem_ofText ht
        rw [hshift, Position.line_shift, hp]
      · split at ht
        · cases ht
        · rw [List.mem_singleton.1 ht]
          rfl
    rw [ofCards_raw_cons, ofCards_joined_cons, append_ofCards_inj (hline rfl) (hline rfl),
      List.append_left_inj, ih, Indented, Indented, List.isChain_cons]
    simp only [List.head?_cons, Option.mem_some_iff, forall_eq']
    have hfirst : ofText v ⟨line, 0⟩ (card.payload 0) =
        ofText v ⟨line, if continuing then Card.resumeColumn else 0⟩
          (card.payload (if continuing then Card.resumeColumn else 0)) ↔
            (continuing → card.isIndented) := by
      cases continuing with
      | true => simpa using ofText_payload_eq_iff
      | false => simp
    rw [hfirst]

end Reading

namespace Decoder

theorem reading_eq_iff {v : Vocabulary} {text : List Char} :
    (⟨v, true⟩ : Decoder).reading text = (⟨v, false⟩ : Decoder).reading text ↔
      Reading.Indented (Card.ofText text) := by
  rw [reading, reading, List.append_left_inj, Reading.ofCards_eq_iff]
  simp

/-- On decks of full width the two ways give the same tokens just where joining the cards gives
tokens and every card that goes on with a statement is indented. Where the cards are indented, both
ways refuse a deck whose last card is continued, and come to the same, word astray or tokens, on any
other. -/
theorem tokens_agree (v : Vocabulary) {text : List Char}
    (hwidth : ∀ card ∈ Card.ofText text, card.length = Card.width) :
    ((∃ found, Cursor.tokens v text = .ok found ∧
        (⟨v, false⟩ : Decoder).tokens text = .ok found) ↔
      (∃ found, (⟨v, false⟩ : Decoder).tokens text = .ok found) ∧
        Reading.Indented (Card.ofText text)) ∧
    (Reading.Indented (Card.ofText text) →
      Reading.isLeftOpen false (Card.ofText text) = false →
        Cursor.tokens v text = (⟨v, false⟩ : Decoder).tokens text ∧
          ∀ fault, Cursor.tokens v text = .error fault → ∃ p, fault = .strayMarker p) ∧
    (Reading.Indented (Card.ofText text) →
      Reading.isLeftOpen false (Card.ofText text) →
        (∃ fault, Cursor.tokens v text = .error fault) ∧
          ∃ fault, (⟨v, false⟩ : Decoder).tokens text = .error fault) := by
  have hcursor : Cursor.tokens v text = (⟨v, true⟩ : Decoder).tokens text := rfl
  rw [hcursor]
  refine ⟨⟨?_, ?_⟩, ?_, ?_⟩
  · rintro ⟨found, hraw, hjoined⟩
    obtain ⟨-, -, hfound⟩ := (tokens_eq_ok_iff hwidth).1 hraw
    obtain ⟨-, -, hfound'⟩ := (tokens_eq_ok_iff hwidth).1 hjoined
    exact ⟨⟨found, hjoined⟩, reading_eq_iff.1 (hfound.symm.trans hfound')⟩
  · rintro ⟨⟨found, hjoined⟩, hindented⟩
    refine ⟨found, ?_, hjoined⟩
    rwa [tokens_eq_ok_iff hwidth, reading_eq_iff.2 hindented, ← tokens_eq_ok_iff hwidth]
  · intro hindented hopen
    rw [tokens_raw v hwidth, tokens_joined v hwidth, hopen, if_neg Bool.false_ne_true,
      reading_eq_iff.2 hindented]
    cases hchecked : Reading.checked ((⟨v, false⟩ : Decoder).reading text) with
    | error fault =>
      refine ⟨rfl, fun _ h => ?_⟩
      rw [← Except.error.inj h]
      exact Reading.exists_of_checked_eq_error hchecked
    | ok found =>
      refine ⟨rfl, fun _ h => ?_⟩
      cases h
  · intro hindented hopen
    rw [tokens_raw v hwidth, tokens_joined v hwidth, hopen]
    refine ⟨?_, _, rfl⟩
    cases Reading.checked ((⟨v, true⟩ : Decoder).reading text) with
    | error fault => exact ⟨fault, rfl⟩
    | ok found => exact ⟨_, rfl⟩

theorem tokens_agree_segmentOnTwoCards :
    ∃ found, Cursor.tokens .standard segmentOnTwoCards = .ok found ∧
      (⟨.standard, false⟩ : Decoder).tokens segmentOnTwoCards = .ok found := by
  have hwidth : ∀ card ∈ Card.ofText segmentOnTwoCards, card.length = Card.width := by
    decide +kernel
  refine (tokens_agree .standard hwidth).1.2
    ⟨⟨(⟨.standard, false⟩ : Decoder).reading segmentOnTwoCards, ?_⟩, by decide +kernel⟩
  rw [tokens_eq_ok_iff hwidth]
  decide +kernel

end Decoder

end CardDeck
