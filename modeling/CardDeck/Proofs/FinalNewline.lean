import CardDeck.Proofs.Cursor.Append
import CardDeck.Proofs.Deck.Run
import CardDeck.Proofs.LineEnds

/-! # The newline behind the last card

A newline behind the last card is optional. It adds an empty line, of which nothing is said in the
segments, and it neither mends a fault nor makes one: `Decoder.outcome_append_newline`.

Joined cards do not see the newline at all, as the cards are the same with it. A cursor comes upon
it, and has to find it just where it would have found the end of the text. -/

namespace CardDeck

namespace Reading

theorem addsLine_checked (before : List Token) (p : Position) :
    AddsLine (checked (before ++ [.endOfLine p]))
      (checked (before ++ [.endOfLine p] ++ [.endOfLine ⟨p.line + 1, 0⟩])) := by
  have hend (p : Position) : checked [.endOfLine p] = .ok [.endOfLine p] :=
    checked_cons (Token.isStray_endOfLine p) []
  rw [checked_append _ [.endOfLine ⟨p.line + 1, 0⟩], checked_append before, hend, hend]
  cases checked before with
  | error fault => exact .error fault
  | ok found => exact .ok found p

theorem AddsLine.error_iff {a b : Except CardFault (List Token)} (h : AddsLine a b)
    (fault : CardFault) : a = .error fault ↔ b = .error fault := by
  cases h with
  | error => exact Iff.rfl
  | ok => simp only [reduceCtorEq]

end Reading

namespace Decoder

variable {d : Decoder} {text : List Char}

theorem reading_append_newline (hne : text ≠ []) (hlast : text.getLast? ≠ some '\n') :
    d.reading (text ++ ['\n']) =
      d.reading text ++ [.endOfLine ⟨(Card.ofText text).length, 0⟩] := by
  rw [reading_of_newline List.getLast?_concat, reading_of_ne_newline hne hlast,
    Card.ofText_append_newline hlast hne]

theorem addsLine_tokens_raw (v : Vocabulary) (hne : text ≠ []) (hlast : text.getLast? ≠ some '\n') :
    Reading.AddsLine (Cursor.tokens v text) (Cursor.tokens v (text ++ ['\n'])) := by
  have hstart : (Cursor.start text).InLine :=
    ⟨Int.le_refl 0, hlast, fun hnil => absurd hnil hne⟩
  exact Cursor.addsLine_tokensFrom hstart

theorem addsLine_tokens_joined (v : Vocabulary) (hne : text ≠ [])
    (hlast : text.getLast? ≠ some '\n') :
    Reading.AddsLine ((⟨v, false⟩ : Decoder).tokens text)
      ((⟨v, false⟩ : Decoder).tokens (text ++ ['\n'])) := by
  have hcards := Card.ofText_append_newline hlast hne
  cases hstatements : Statement.ofText text with
  | error fault =>
    have hbehind : Statement.ofText (text ++ ['\n']) = .error fault := by
      rw [← hstatements, Statement.ofText, Statement.ofText, hcards]
    rw [tokens, tokens, if_neg Bool.false_ne_true, if_neg Bool.false_ne_true, hstatements, hbehind]
    exact .error fault
  | ok statements =>
    obtain ⟨hwidth, hopen⟩ := Statement.layout_of_ofText_eq_ok hstatements
    have hcardsNe : Card.ofText text ≠ [] := mt Card.ofText_eq_nil_iff.1 hne
    obtain ⟨before, hbefore⟩ :=
      @Reading.exists_ofCards_concat ⟨v, false⟩ 0 false _ hcardsNe hopen
    have hline : ((Card.ofText text).length : Int) =
        (0 : Nat) + (Card.ofText text).length - 1 + 1 := by
      omega
    have hadds := Reading.addsLine_checked before
      ⟨(0 : Nat) + (Card.ofText text).length - 1, Card.width⟩
    rw [← hline, ← hbefore, ← reading_of_ne_newline hne hlast,
      ← reading_append_newline hne hlast] at hadds
    rw [tokens_eq_checked hwidth hopen,
      tokens_eq_checked (hcards.symm ▸ hwidth) (hcards.symm ▸ hopen)]
    exact hadds

/-- The newline adds an empty line to the tokens, and leaves every fault as it is. -/
theorem addsLine_tokens (d : Decoder) (hne : text ≠ []) (hlast : text.getLast? ≠ some '\n') :
    Reading.AddsLine (d.tokens text) (d.tokens (text ++ ['\n'])) := by
  obtain ⟨v, raw⟩ := d
  cases raw with
  | true => exact addsLine_tokens_raw v hne hlast
  | false => exact addsLine_tokens_joined v hne hlast

/-- With a newline behind it, a deck is refused for the same fault or has the same tokens and an
empty line behind them. The segments are the same, and so is the fault that it has none for. -/
theorem outcome_append_newline (d : Decoder) {text : List Char} (hne : text ≠ [])
    (hlast : text.getLast? ≠ some '\n') :
    (∀ fault, d.tokens text = .error fault ↔ d.tokens (text ++ ['\n']) = .error fault) ∧
      (∀ found, d.tokens text = .ok found →
        ∃ before p, found = before ++ [.endOfLine p] ∧
          d.tokens (text ++ ['\n']) = .ok (found ++ [.endOfLine ⟨p.line + 1, 0⟩])) ∧
      d.segments (text ++ ['\n']) = d.segments text := by
  have hadds := d.addsLine_tokens hne hlast
  refine ⟨hadds.error_iff, ?_⟩
  generalize htokens : d.tokens text = outcome at hadds
  generalize htokens' : d.tokens (text ++ ['\n']) = outcome' at hadds
  cases hadds with
  | error fault =>
    refine ⟨fun found h => ?_, ?_⟩
    · cases h
    · rw [segments_of_tokens_eq_error htokens, segments_of_tokens_eq_error htokens']
  | ok before p =>
    refine ⟨fun found h => ?_, ?_⟩
    · rw [← Except.ok.inj h]
      exact ⟨before, p, rfl, rfl⟩
    · have hkind := (endsLine_of_tokens htokens).kind_ne
      rw [segments_of_tokens htokens, segments_of_tokens htokens',
        Segment.ofTokens_concat_endOfLine hkind rfl rfl]

/-- A segment on one card, without a newline behind it. -/
def segmentCard : List Char :=
  List.replicate 9 ' ' ++ "SEGM NAME=A".toList ++ List.replicate 60 ' '

theorem outcome_append_newline_segmentCard :
    ∃ found before p, (⟨.standard, true⟩ : Decoder).tokens segmentCard = .ok found ∧
      found = before ++ [.endOfLine p] ∧ found.length = 5 ∧
      (⟨.standard, true⟩ : Decoder).tokens (segmentCard ++ ['\n']) =
        .ok (found ++ [.endOfLine ⟨p.line + 1, 0⟩]) ∧
      (⟨.standard, true⟩ : Decoder).segments (segmentCard ++ ['\n']) =
        (⟨.standard, true⟩ : Decoder).segments segmentCard := by
  have hfound : (⟨.standard, true⟩ : Decoder).tokens segmentCard =
      .ok [⟨.header .segm, "SEGM", 0, 9⟩, ⟨.key, "NAME", 0, 14⟩, ⟨.equals, "=", 0, 18⟩,
        ⟨.identifier, "A", 0, 19⟩, .endOfLine ⟨0, 80⟩] := by
    decide +kernel
  have hne : segmentCard ≠ [] := by decide +kernel
  have hlast : segmentCard.getLast? ≠ some '\n' := by decide +kernel
  obtain ⟨-, hok, hsegments⟩ := outcome_append_newline ⟨.standard, true⟩ hne hlast
  obtain ⟨before, p, hlast, hbehind⟩ := hok _ hfound
  exact ⟨_, before, p, hfound, hlast, rfl, hbehind, hsegments⟩

end Decoder

end CardDeck
