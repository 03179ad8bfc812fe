import CardDeck.Proofs.Deck.Run
import CardDeck.Proofs.LineEnds
import CardDeck.Proofs.Lines

/-! # Blank cards between statements

A blank card where no statement is left unfinished adds the end of a line to the tokens and moves
those behind it one line down: `Decoder.exists_reading_insert`. Nothing else comes of it, in either
way of reading. The segments are the same, and so is a fault, but for its line:
`Decoder.segments_insert_blankCard`. -/

namespace CardDeck

/-- Nothing stands on the card but what may number it. -/
structure Card.IsBlank (card : Card) : Prop where
  length : card.length = width
  newline : '\n' ∉ card
  blank : ∀ c ∈ card.take sequenceColumn, Text.isBlank c

instance (card : Card) : Decidable card.IsBlank :=
  -- over the characters of the card, and not over all characters
  decidable_of_iff (card.length = Card.width ∧ '\n' ∉ card ∧
      (card.take Card.sequenceColumn).all Text.isBlank)
    ⟨fun ⟨hlength, hnewline, hblank⟩ => ⟨hlength, hnewline, List.all_eq_true.1 hblank⟩,
      fun h => ⟨h.length, h.newline, List.all_eq_true.2 h.blank⟩⟩

/-- Where a place comes to lie when a card is put before line `n`. -/
def Position.pushed (n : Nat) (p : Position) : Position := if p.line < n then p else p.down 1

namespace Position

variable {n : Nat} {p : Position}

theorem pushed_of_lt (h : p.line < n) : p.pushed n = p := if_pos h

theorem pushed_of_le (h : n ≤ p.line) : p.pushed n = p.down 1 := if_neg (Int.not_lt.2 h)

@[simp] theorem column_pushed (n : Nat) (p : Position) : (p.pushed n).column = p.column := by
  unfold pushed
  split
  · rfl
  · rfl

theorem line_pushed (n : Nat) (p : Position) :
    (p.pushed n).line = if (n : Int) ≤ p.line then p.line + 1 else p.line := by
  rcases Int.lt_or_le p.line n with h | h
  · rw [pushed_of_lt h, if_neg (Int.not_le.2 h)]
  · rw [pushed_of_le h, if_pos h]
    rfl

end Position

/-! ### What faults say -/

/-- The notice with its line one further down, if that is not before line `n`. -/
def Notice.pushed (n : Nat) (notice : Notice) : Notice :=
  { notice with line? := notice.line?.map fun line => if (n : Int) ≤ line then line + 1 else line }

theorem Notice.ofPosition_pushed (n : Nat) (message : String) (p : Position) :
    ofPosition message (p.pushed n) = (ofPosition message p).pushed n := by
  rw [ofPosition, Position.line_pushed, Position.column_pushed]
  rfl

theorem CardFault.notice_pushed (n : Nat) (fault : CardFault) :
    (fault.moved (Position.pushed n)).notice = fault.notice.pushed n := by
  -- The equations of `notice` are too costly to state, since they would evaluate its texts.
  unfold notice moved
  cases fault with
  | width line length | unfinished line =>
    exact congrArg (fun line => Notice.mk _ (some line) none) (Position.line_pushed n ⟨line, 0⟩)
  | strayMarker p | noLineEnd p | lineEnd p => exact Notice.ofPosition_pushed n _ p
  | untraceable => rfl

/-- A fault is noted with the same words, and at a place that has been pushed. -/
theorem Fault.notice_pushed (n : Nat) (fault : Fault) :
    (fault.moved (Position.pushed n)).notice = fault.notice.pushed n := by
  cases fault with
  | card fault => exact fault.notice_pushed n
  | record fault =>
    rw [moved, notice, RecordFault.notice_moved, Notice.ofPosition_pushed]
    rfl

/-! ### The reading -/

namespace Card.IsBlank

variable {card : Card} {v : Vocabulary} {p : Position}

theorem isContinued_eq_false (h : card.IsBlank) : card.isContinued = false := by
  rw [← Bool.not_eq_true, isContinued_iff]
  intro hmarker
  have htake : (card.take sequenceColumn)[markerColumn]? = some marker := by
    rw [List.getElem?_take_of_lt markerColumn_lt_sequenceColumn, hmarker]
  have hblank := h.blank marker (List.mem_of_getElem? htake)
  cases hblank

theorem ofText_payload_zero (h : card.IsBlank) : Reading.ofText v p (card.payload 0) = [] := by
  rw [Reading.ofText_eq_tokens]
  refine Layout.tokens_append_blanks [] fun x hx => h.blank _ ?_
  have hmem := Layout.mem_chars_of_mem_row hx
  rwa [payload_zero, h.isContinued_eq_false] at hmem

end Card.IsBlank

variable {d : Decoder} {front back : List Char} {blank : Card}

/-- A text may be cut behind a newline, and at its start. -/
theorem Card.ofText_append_of_lineEnd (hfront : front = [] ∨ front.getLast? = some '\n') :
    ofText (front ++ back) = ofText front ++ ofText back := by
  rcases hfront with rfl | hfront
  · rfl
  · exact ofText_append hfront back

theorem Card.ofText_insert (hfront : front = [] ∨ front.getLast? = some '\n')
    (hblank : blank.IsBlank) :
    ofText (front ++ (blank ++ '\n' :: back)) = ofText front ++ blank :: ofText back := by
  rw [ofText_append_of_lineEnd hfront, ofText_card_newline hblank.newline]

namespace Reading

/-- Where no statement is left unfinished, a blank card adds the end of a line, and the cards behind
it are read one line further down. -/
theorem ofCards_insert {a b : List Card} (hopen : isLeftOpen false a = false)
    (hblank : blank.IsBlank) :
    ofCards d 0 false (a ++ blank :: b) = ofCards d 0 false a ++
      .endOfLine ⟨a.length, Card.width⟩ :: (ofCards d a.length false b).map (Token.down 1) := by
  have hdown := ofCards_down d 1 a.length false b
  rw [ofCards_append, hopen, Nat.zero_add, ofCards, Bool.false_and, if_neg Bool.false_ne_true,
    hblank.ofText_payload_zero, hblank.isContinued_eq_false, hdown]
  rfl

/-- Only what stands behind the card is moved. -/
theorem map_pushed_ofCards {a b : List Card} (hopen : isLeftOpen false a = false) :
    (ofCards d 0 false (a ++ b)).map (Token.moved (Position.pushed a.length)) =
      ofCards d 0 false a ++ (ofCards d a.length false b).map (Token.down 1) := by
  have hbefore : ∀ t ∈ ofCards d 0 false a, t.moved (Position.pushed a.length) = t := by
    intro t ht
    obtain ⟨i, column, hp, hi, -⟩ := exists_prefix_of_mem_ofCards ht
    have hlt : t.position.line < a.length := by
      rw [hp]
      simp only
      omega
    rw [Token.moved, Position.pushed_of_lt hlt]
  have hbehind : ∀ t ∈ ofCards d a.length false b,
      t.moved (Position.pushed a.length) = t.down 1 := by
    intro t ht
    rw [Token.moved, Position.pushed_of_le (line_of_mem_ofCards ht)]
    rfl
  rw [ofCards_append, hopen, Nat.zero_add, List.map_append, List.map_congr_left hbefore,
    List.map_id', List.map_congr_left hbehind]

/-- Where no statement is left unfinished, the last token of the cards, if there is any, is the end
of a line. -/
theorem kind_of_getLast?_ofCards {cards : List Card} (hopen : isLeftOpen false cards = false) :
    ∀ t ∈ (ofCards d 0 false cards).getLast?, t.kind = .endOfLine := by
  by_cases hnil : cards = []
  · rw [hnil]
    exact fun t ht => absurd ht (by simp)
  · obtain ⟨before, hbefore⟩ := @exists_ofCards_concat d 0 false cards hnil hopen
    rw [hbefore, List.getLast?_concat]
    rintro t ⟨⟩
    rfl

end Reading

/-- The reading of a deck with a blank card in it is that of the deck without, pushed down from
there on, and the end of a line. -/
theorem Decoder.exists_reading_insert (hend : (front ++ back).getLast? = some '\n')
    (hfront : front = [] ∨ front.getLast? = some '\n')
    (hopen : Reading.isLeftOpen false (Card.ofText front) = false) (hblank : blank.IsBlank) :
    ∃ before behind, (d.reading (front ++ back)).map
        (Token.moved (Position.pushed (Card.ofText front).length)) = before ++ behind ∧
      (∀ t ∈ before.getLast?, t.kind = .endOfLine) ∧
      d.reading (front ++ (blank ++ '\n' :: back)) =
        before ++ .endOfLine ⟨(Card.ofText front).length, Card.width⟩ :: behind := by
  have hend' : (front ++ (blank ++ '\n' :: back)).getLast? = some '\n' := by
    cases back with
    | nil => rw [← List.append_assoc, List.getLast?_concat]
    | cons c back => simpa [List.getLast?_append, List.getLast?_cons] using hend
  have hcards := @Card.ofText_append_of_lineEnd front back hfront
  have hcards' := @Card.ofText_insert front back blank hfront hblank
  rw [reading_of_newline hend, reading_of_newline hend', hcards, hcards',
    Reading.ofCards_insert hopen hblank, List.map_append, Reading.map_pushed_ofCards hopen]
  refine ⟨Reading.ofCards d 0 false (Card.ofText front),
    (Reading.ofCards d (Card.ofText front).length false (Card.ofText back)).map (Token.down 1) ++
      [.endOfLine ⟨(Card.ofText front ++ blank :: Card.ofText back).length, 0⟩], ?_,
    Reading.kind_of_getLast?_ofCards hopen, ?_⟩
  · have hle : ((Card.ofText front).length : Int) ≤
        (Card.ofText front ++ Card.ofText back).length := by
      rw [List.length_append]
      omega
    rw [List.map_singleton, Token.moved, Token.endOfLine, Position.pushed_of_le hle,
      List.length_append, List.length_append, List.length_cons, ← Nat.add_assoc, List.append_assoc]
    rfl
  · rw [List.append_assoc, List.cons_append]

/-! ### What comes of a deck -/

/-- The second outcome is the first, moved, with the end of a line in addition where a statement is
about to start. -/
inductive Reading.Inserts (f : Position → Position) :
    Except CardFault (List Token) → Except CardFault (List Token) → Prop
  | error (fault : CardFault) : Inserts f (.error fault) (.error (fault.moved f))
  | ok {found before behind : List Token} (h : found.map (·.moved f) = before ++ behind)
      (hline : ∀ t ∈ before.getLast?, t.kind = .endOfLine) (p : Position) :
      Inserts f (.ok found) (.ok (before ++ .endOfLine p :: behind))

/-- The first word astray is the same, where it has been moved to. -/
theorem Reading.inserts_checked {f : Position → Position} {found before behind : List Token}
    (h : found.map (·.moved f) = before ++ behind)
    (hline : ∀ t ∈ before.getLast?, t.kind = .endOfLine) (p : Position) :
    Inserts f (checked found) (checked (before ++ .endOfLine p :: behind)) := by
  have hfind : (before ++ .endOfLine p :: behind).find? (·.isStray) =
      (found.find? (·.isStray)).map (·.moved f) := by
    rw [List.find?_append, List.find?_cons_of_neg (by simp), ← List.find?_append, ← h,
      List.find?_map]
    rfl
  rw [checked, checked, hfind]
  cases found.find? (·.isStray) with
  | none => exact .ok h hline p
  | some t => exact .error (.strayMarker t.position)

theorem Decoder.inserts_tokens (d : Decoder) (hend : (front ++ back).getLast? = some '\n')
    (hwidth : ∀ card ∈ Card.ofText (front ++ back), card.length = Card.width)
    (hfront : front = [] ∨ front.getLast? = some '\n')
    (hopen : Reading.isLeftOpen false (Card.ofText front) = false) (hblank : blank.IsBlank) :
    Reading.Inserts (Position.pushed (Card.ofText front).length) (d.tokens (front ++ back))
      (d.tokens (front ++ (blank ++ '\n' :: back))) := by
  obtain ⟨before, behind, hfound, hline, hread⟩ :=
    exists_reading_insert (d := d) hend hfront hopen hblank
  have hwidth' : ∀ card ∈ Card.ofText (front ++ (blank ++ '\n' :: back)),
      card.length = Card.width := by
    rw [Card.ofText_append_of_lineEnd hfront, List.forall_mem_append] at hwidth
    rw [Card.ofText_insert hfront hblank, List.forall_mem_append, List.forall_mem_cons]
    exact ⟨hwidth.1, hblank.length, hwidth.2⟩
  have hchecked := Reading.inserts_checked hfound hline
    ⟨(Card.ofText front).length, Card.width⟩
  rw [← hread] at hchecked
  have hcards := @Card.ofText_append_of_lineEnd front back hfront
  have hcards' := @Card.ofText_insert front back blank hfront hblank
  have hleft : Reading.isLeftOpen false (Card.ofText (front ++ (blank ++ '\n' :: back))) =
      Reading.isLeftOpen false (Card.ofText (front ++ back)) := by
    rw [hcards, hcards', Reading.isLeftOpen_append, Reading.isLeftOpen_append, hopen,
      Reading.isLeftOpen_cons, hblank.isContinued_eq_false]
  cases hcontinued : Reading.isLeftOpen false (Card.ofText (front ++ back)) with
  | false =>
    rw [tokens_eq_checked hwidth hcontinued, tokens_eq_checked hwidth' (hleft.trans hcontinued)]
    exact hchecked
  | true =>
    -- The continued card at the end of the deck comes behind the blank card.
    have hne : Card.ofText back ≠ [] := by
      intro hnil
      rw [hcards, hnil, List.append_nil, hopen] at hcontinued
      cases hcontinued
    have hunfinished : CardFault.unfinished
        ((Card.ofText (front ++ (blank ++ '\n' :: back))).length - 1) =
          (CardFault.unfinished ((Card.ofText (front ++ back)).length - 1)).moved
            (Position.pushed (Card.ofText front).length) := by
      have hpos := List.length_pos_iff.2 hne
      rw [CardFault.moved, Position.pushed_of_le, hcards, hcards', List.length_append,
        List.length_append, List.length_cons]
      · exact congrArg CardFault.unfinished (by simp only [Position.down]; omega)
      · rw [hcards, List.length_append]
        simp only
        omega
    obtain ⟨v, raw⟩ := d
    cases raw with
    | false =>
      rw [tokens_joined v hwidth, tokens_joined v hwidth', hleft, hcontinued, if_pos rfl,
        if_pos rfl, hunfinished]
      exact .error _
    | true =>
      rw [tokens_raw v hwidth, tokens_raw v hwidth', hleft, hcontinued, hunfinished]
      generalize Reading.checked ((⟨v, true⟩ : Decoder).reading (front ++ back)) = outcome
        at hchecked
      generalize Reading.checked ((⟨v, true⟩ : Decoder).reading
        (front ++ (blank ++ '\n' :: back))) = outcome' at hchecked
      cases hchecked with
      | error fault => exact .error fault
      | ok => exact .error _

/-- A blank card between statements leaves the segments of a deck as they are. Where a deck is
refused, it is refused with the blank card in it for the same fault, with the same words and in the
same column, and one line further down if the fault is not before the card. -/
theorem Decoder.segments_insert_blankCard (d : Decoder)
    (hend : (front ++ back).getLast? = some '\n')
    (hwidth : ∀ card ∈ Card.ofText (front ++ back), card.length = Card.width)
    (hfront : front = [] ∨ front.getLast? = some '\n')
    (hopen : Reading.isLeftOpen false (Card.ofText front) = false) (hblank : blank.IsBlank) :
    d.segments (front ++ (blank ++ '\n' :: back)) =
        (d.segments (front ++ back)).mapError
          (Fault.moved (Position.pushed (Card.ofText front).length)) ∧
      ∀ fault, d.segments (front ++ back) = .error fault →
        ∃ fault', d.segments (front ++ (blank ++ '\n' :: back)) = .error fault' ∧
          fault'.notice.message = fault.notice.message ∧
          fault'.notice.column? = fault.notice.column? ∧
          fault'.notice.line? = fault.notice.line?.map fun line : Int =>
            if (Card.ofText front).length ≤ line then line + 1 else line := by
  have hinserts := d.inserts_tokens hend hwidth hfront hopen hblank
  have hsegments : d.segments (front ++ (blank ++ '\n' :: back)) =
      (d.segments (front ++ back)).mapError
        (Fault.moved (Position.pushed (Card.ofText front).length)) := by
    generalize htokens : d.tokens (front ++ back) = outcome at hinserts
    generalize htokens' : d.tokens (front ++ (blank ++ '\n' :: back)) = outcome' at hinserts
    cases hinserts with
    | error fault =>
      rw [segments_of_tokens_eq_error htokens, segments_of_tokens_eq_error htokens']
      rfl
    | @ok found before behind hfound hline p =>
      have hkind : ∀ t ∈ before, t.kind ≠ .endOfInput := by
        intro t ht
        have hmem : t ∈ found.map
            (Token.moved (Position.pushed (Card.ofText front).length)) :=
          hfound ▸ List.mem_append_left behind ht
        obtain ⟨u, hu, rfl⟩ := List.mem_map.1 hmem
        exact (endsLine_of_tokens htokens).kind_ne u hu
      rw [segments_of_tokens htokens, segments_of_tokens htokens',
        Segment.ofTokens_insert_endOfLine behind hkind hline rfl, ← hfound,
        Segment.ofTokens_map_moved]
      cases Segment.ofTokens found <;> rfl
  refine ⟨hsegments, fun fault hfault => ⟨_, hsegments.trans (congrArg _ hfault), ?_⟩⟩
  rw [Fault.notice_pushed]
  exact ⟨rfl, rfl, rfl⟩

namespace Decoder

/-- A segment on one card. -/
def segmentLine : List Char :=
  List.replicate 9 ' ' ++ "SEGM NAME=A".toList ++ List.replicate 60 ' ' ++ ['\n']

/-- A field that has a key and no value. -/
def valuelessFieldLine : List Char :=
  List.replicate 9 ' ' ++ "FIELD NAME".toList ++ List.replicate 61 ' ' ++ ['\n']

/-- A blank card that has a number. -/
def numberedBlank : Card := List.replicate 72 ' ' ++ "00000015".toList

theorem segments_insert_numberedBlank :
    (⟨.standard, true⟩ : Decoder).segments (segmentLine ++ valuelessFieldLine) =
        .error (.record (.missingEquals (.endOfLine ⟨1, 80⟩) "NAME")) ∧
      (⟨.standard, true⟩ : Decoder).segments
          (segmentLine ++ (numberedBlank ++ '\n' :: valuelessFieldLine)) =
        .error (.record (.missingEquals (.endOfLine ⟨2, 80⟩) "NAME")) := by
  have hfault : (⟨.standard, true⟩ : Decoder).segments (segmentLine ++ valuelessFieldLine) =
      .error (.record (.missingEquals (.endOfLine ⟨1, 80⟩) "NAME")) := by
    decide +kernel
  have hwidth : ∀ card ∈ Card.ofText (segmentLine ++ valuelessFieldLine),
      card.length = Card.width := by
    decide +kernel
  have hblank : numberedBlank.IsBlank := by decide +kernel
  have hinsert := segments_insert_blankCard ⟨.standard, true⟩ (by decide +kernel) hwidth
    (.inr (by decide +kernel)) (by decide +kernel) hblank
  refine ⟨hfault, hinsert.1.trans ?_⟩
  rw [hfault]
  decide +kernel

end Decoder

end CardDeck
