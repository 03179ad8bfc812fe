import CardDeck.Proofs.Cursor.Append
import CardDeck.Proofs.Deck.Run
import CardDeck.Proofs.LineEnds
import CardDeck.Proofs.Lines

/-! # Decks behind decks

What a deck says does not depend on a deck before it, as long as a newline ends that one: the
segments of both are those of the first and then those of the second, `Decoder.segments_append`.

Nothing is carried over the seam. The cards of the second deck are cut and read as they are without
the first, further down (`Decoder.exists_tokens_append`). A segment may be open when its records
begin, but no leaf record there can go to it, or the second deck could not be read alone
(`Assembly.Yields.behind`). -/

namespace CardDeck

/-! ### Records behind records -/

namespace Grammar

/-- Where every leaf record has a segment of its own to go to, it does not matter whether another
one is open before. -/
theorem OrderlyFrom.of_false {opened : Bool} {items : List Item} (h : OrderlyFrom false items) :
    OrderlyFrom opened items := by
  rw [orderlyFrom_iff] at h ⊢
  intro before header attributes behind hitems hne
  have hbefore := foldl_leavesOpen_iff.1 (h before header attributes behind hitems hne)
  rw [foldl_leavesOpen_iff]
  exact .inl (hbefore.resolve_right fun hopened => Bool.false_ne_true hopened.1)

end Grammar

/-- What is read without an assembly before it is added to one as it is, and the segment that is
open there gets nothing of it. -/
theorem Assembly.Yields.behind {items : List Grammar.Item} {segments : List Segment}
    (h : Yields {} items segments) (a : Assembly) :
    a.Yields items (a.flush.closed ++ segments) := by
  obtain ⟨horderly, rfl⟩ := h
  refine ⟨horderly.of_false, ?_⟩
  rcases a with ⟨closed, _ | s⟩
  · simp [flush]
  · have hextend : s.extend items = s := Segment.extend_of_orderlyFrom horderly
    simp [flush, hextend]

/-- Behind the end of a line, tokens are read as they are read alone. -/
theorem Segment.ofTokens_append {ts us : List Token} {e : Token} {segments segments' : List Segment}
    (hts : ∀ t ∈ ts ++ [e], t.kind ≠ .endOfInput) (he : e.kind = .endOfLine)
    (h : ofTokens (ts ++ [e]) = .ok segments) (h' : ofTokens us = .ok segments') :
    ofTokens (ts ++ [e] ++ us) = .ok (segments ++ segments') := by
  rcases Deck.reaches_or_refuses {} hts with
    ⟨d, hreaches⟩ | ⟨front, t, behind, d, fault, hsplit, hreaches, hrefuses⟩
  · have hplace := hreaches.place_eq_between he
    have hsegments : segments = d.assembly.flush.closed := by
      rw [hreaches.ofTokens_eq_ok hplace] at h
      exact (Except.ok.inj h).symm
    obtain ⟨items, hitems, hyields⟩ := Deck.ofTokens_eq_ok_iff_fromBetween.1 h'
    rw [ofTokens, hreaches.read_append, Deck.read_eq_ok_iff rfl, Deck.From, hplace, hsegments]
    exact ⟨items, hitems, hyields.behind d.assembly⟩
  · rw [hsplit, hreaches.ofTokens_eq_error hrefuses] at h
    cases h

/-! ### Tokens behind tokens -/

namespace Decoder

variable {v : Vocabulary} {d : Decoder} {a b : List Char} {found found' : List Token}

/-- The reading of a second deck is what it is alone, further down, and it takes the place of the
empty line behind the first. -/
theorem reading_append (d : Decoder) (ha : a.getLast? = some '\n')
    (hopen : Reading.isLeftOpen false (Card.ofText a) = false) (b : List Char) :
    d.reading (a ++ b) = Reading.ofCards d 0 false (Card.ofText a) ++
      (d.reading b).map (Token.down (Card.ofText a).length) := by
  have hempty : (a ++ b = [] ∨ (a ++ b).getLast? = some '\n') ↔
      (b = [] ∨ b.getLast? = some '\n') := by
    by_cases hb : b = []
    · subst hb
      rw [List.append_nil]
      exact iff_of_true (.inr ha) (.inl rfl)
    · rw [List.getLast?_append_of_ne_nil a hb, List.append_eq_nil_iff, or_iff_right hb,
        or_iff_right fun hnil => hb hnil.2]
  have hcards := Reading.ofCards_down d (Card.ofText a).length 0 false (Card.ofText b)
  rw [reading, reading, Card.ofText_append ha, Reading.ofCards_append, hopen, hcards,
    List.map_append, List.append_assoc, List.length_append]
  simp only [hempty]
  congr 2
  split
  · simp [Token.down, Token.moved, Token.endOfLine, Position.down, Int.add_comm]
  · rfl

theorem exists_tokens_append_raw (ha : a.getLast? = some '\n')
    (hfound : Cursor.tokens v a = .ok found) (hfound' : Cursor.tokens v b = .ok found') :
    ∃ before p line, found = before ++ [.endOfLine p] ++ [.endOfLine ⟨line, 0⟩] ∧
      Cursor.tokens v (a ++ b) =
        .ok (before ++ [.endOfLine p] ++ found'.map (Token.down line)) := by
  obtain ⟨before, p, index, line, rfl, hbehind⟩ := Cursor.exists_tokensFrom_append hfound ha
  refine ⟨before, p, line, rfl, ?_⟩
  have hdown := @Cursor.tokensFrom_down v (.start b) line index
  have hstart : (Cursor.start b).position.down line = ⟨line, 0⟩ :=
    congrArg (Position.mk · 0) (Int.zero_add line)
  have htokens : Cursor.tokensFrom v (.start b) [] = .ok found' := hfound'
  rw [hstart, htokens] at hdown
  exact (hbehind b).trans (congrArg (Except.map _) hdown)

theorem exists_tokens_append_joined (ha : a.getLast? = some '\n')
    (hfound : (⟨v, false⟩ : Decoder).tokens a = .ok found)
    (hfound' : (⟨v, false⟩ : Decoder).tokens b = .ok found') :
    ∃ before p line, found = before ++ [.endOfLine p] ++ [.endOfLine ⟨line, 0⟩] ∧
      (⟨v, false⟩ : Decoder).tokens (a ++ b) =
        .ok (before ++ [.endOfLine p] ++ found'.map (Token.down line)) := by
  obtain ⟨hwidth, hopen⟩ := layout_of_tokens_joined hfound
  obtain ⟨hwidth', hopen'⟩ := layout_of_tokens_joined hfound'
  obtain ⟨-, hstray, rfl⟩ := (tokens_eq_ok_iff hwidth).1 hfound
  obtain ⟨-, hstray', rfl⟩ := (tokens_eq_ok_iff hwidth').1 hfound'
  have hne : Card.ofText a ≠ [] := by
    intro hnil
    rw [Card.ofText_eq_nil_iff.1 hnil] at ha
    cases ha
  obtain ⟨before, hbefore⟩ := @Reading.exists_ofCards_concat ⟨v, false⟩ 0 false _ hne hopen
  have hread := reading_append ⟨v, false⟩ ha hopen b
  rw [reading_of_newline ha, List.forall_mem_append] at hstray
  rw [hbefore] at hread
  refine ⟨before, ⟨(0 : Nat) + (Card.ofText a).length - 1, Card.width⟩, (Card.ofText a).length,
    ?_, ?_⟩
  · rw [reading_of_newline ha, hbefore]
  · rw [← hread, tokens_eq_ok_iff]
    · refine ⟨?_, ?_, rfl⟩
      · rw [Card.ofText_append ha, Reading.isLeftOpen_append, hopen, hopen']
      · rw [hread, ← hbefore, List.forall_mem_append, List.forall_mem_map]
        exact ⟨hstray.1, hstray'⟩
    · rw [Card.ofText_append ha, List.forall_mem_append]
      exact ⟨hwidth, hwidth'⟩

/-- Where a newline ends a deck, the tokens of a deck behind it are what they are alone, further
down, and they take the place of the empty line behind the first deck. -/
theorem exists_tokens_append (ha : a.getLast? = some '\n') (hfound : d.tokens a = .ok found)
    (hfound' : d.tokens b = .ok found') :
    ∃ before p line, found = before ++ [.endOfLine p] ++ [.endOfLine ⟨line, 0⟩] ∧
      d.tokens (a ++ b) = .ok (before ++ [.endOfLine p] ++ found'.map (Token.down line)) := by
  obtain ⟨v, raw⟩ := d
  cases raw with
  | true => exact exists_tokens_append_raw ha hfound hfound'
  | false => exact exists_tokens_append_joined ha hfound hfound'

theorem tokens_nil (d : Decoder) : d.tokens [] = .ok [.endOfLine ⟨0, 0⟩] := by
  obtain ⟨v, raw⟩ := d
  cases raw with
  | true => exact Cursor.tokensFrom_nil.trans (if_pos (.inl rfl))
  | false => rfl

/-! ### Decks behind decks -/

theorem exists_tokens_of_segments {segments : List Segment} (h : d.segments a = .ok segments) :
    ∃ found, d.tokens a = .ok found ∧ Segment.ofTokens found = .ok segments := by
  cases htokens : d.tokens a with
  | error fault =>
    rw [segments_of_tokens_eq_error htokens] at h
    cases h
  | ok found =>
    rw [segments_of_tokens htokens] at h
    cases hread : Segment.ofTokens found with
    | error fault =>
      rw [hread] at h
      cases h
    | ok segments =>
      rw [hread] at h
      obtain rfl := Except.ok.inj h
      exact ⟨found, rfl, hread⟩

/-- A deck behind a deck adds its segments, whatever segment is open where it begins. Its tokens are
what they are alone, further down, and they take the place of the empty line that ends the first
deck. -/
theorem segments_append (d : Decoder) {a b : List Char} {segments segments' : List Segment}
    (hend : a = [] ∨ a.getLast? = some '\n') (ha : d.segments a = .ok segments)
    (hb : d.segments b = .ok segments') :
    d.segments (a ++ b) = .ok (segments ++ segments') ∧
      ∃ before line found', d.tokens a = .ok (before ++ [.endOfLine ⟨line, 0⟩]) ∧
        d.tokens b = .ok found' ∧
          d.tokens (a ++ b) = .ok (before ++ found'.map (Token.down line)) := by
  obtain ⟨found, hfound, hread⟩ := exists_tokens_of_segments ha
  obtain ⟨found', hfound', hread'⟩ := exists_tokens_of_segments hb
  rcases hend with rfl | hend
  · rw [tokens_nil] at hfound
    obtain rfl := Except.ok.inj hfound
    obtain rfl : [] = segments := Except.ok.inj hread
    refine ⟨hb, [], 0, found', tokens_nil d, hfound', ?_⟩
    rw [List.nil_append, List.nil_append, Token.map_down_zero, hfound']
  · obtain ⟨before, p, line, rfl, happend⟩ := exists_tokens_append hend hfound hfound'
    refine ⟨?_, before ++ [.endOfLine p], line, found', hfound, hfound', happend⟩
    have hbefore := (List.forall_mem_append.1 (endsLine_of_tokens hfound).kind_ne).1
    have hdown : Segment.ofTokens (found'.map (Token.down line)) = .ok segments' := by
      rw [Segment.ofTokens_map_moved, hread']
      rfl
    rw [Segment.ofTokens_concat_endOfLine hbefore rfl rfl] at hread
    rw [segments_of_tokens happend, Segment.ofTokens_append hbefore rfl hread hdown]
    rfl

/-- A segment and a field of it, with a newline behind each card. -/
def segmentAndField : List Char :=
  List.replicate 9 ' ' ++ "SEGM NAME=A".toList ++ List.replicate 60 ' ' ++ ['\n'] ++
    List.replicate 9 ' ' ++ "FIELD NAME=B".toList ++ List.replicate 59 ' ' ++ ['\n']

theorem segments_append_segmentAndField :
    ∃ s : Segment, s.fields.length = 1 ∧
      (⟨.standard, false⟩ : Decoder).segments segmentAndField = .ok [s] ∧
      (⟨.standard, false⟩ : Decoder).segments (segmentAndField ++ segmentAndField) =
        .ok [s, s] := by
  have hend : segmentAndField.getLast? = some '\n' := by decide +kernel
  have hone : (⟨.standard, false⟩ : Decoder).segments segmentAndField =
      .ok [{ attributes := [⟨"NAME", "A"⟩], fields := [[⟨"NAME", "B"⟩]] }] := by
    decide +kernel
  exact ⟨_, rfl, hone, (segments_append _ (.inr hend) hone hone).1⟩

end Decoder

end CardDeck
