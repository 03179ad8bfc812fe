import CardDeck.Proofs.Agreement
import CardDeck.Proofs.Cursor.Sequence
import CardDeck.Proofs.Writing

/-! # Columns that are not read

What numbers a card is not read, and where the cards are joined, neither is what stands before the
column of resumption on a card that goes on with a statement. Decks that are the same but for these
columns come to the same, whatever is wrong with them: `Decoder.outcome_eq_of_sameDeck`.

Joined cards are cut up before they are read, so their ignored columns are gone early. A cursor
passes over them, so there the two runs are compared step by step, by `Cursor.tokens_congr`. -/

namespace CardDeck

/-! ### The same cards -/

namespace Decoder

/-- Whether a column is not read of a card, where `continuing` says whether the card before it is
continued. -/
def ignores (d : Decoder) (continuing : Bool) (column : Nat) : Bool :=
  Card.sequenceColumn ≤ column || (continuing && !d.raw && column < Card.resumeColumn)

/-- Cards of one width that hold the same in every column that is read. -/
structure SameCard (d : Decoder) (continuing : Bool) (card other : Card) : Prop where
  length : other.length = card.length
  column : ∀ column < card.length, d.ignores continuing column = false →
    other[column]? = card[column]?

instance (d : Decoder) (continuing : Bool) (card other : Card) :
    Decidable (d.SameCard continuing card other) :=
  decidable_of_iff (other.length = card.length ∧ ∀ column < card.length,
      d.ignores continuing column = false → other[column]? = card[column]?)
    ⟨fun ⟨hlength, hcolumn⟩ => ⟨hlength, hcolumn⟩, fun h => ⟨h.length, h.column⟩⟩

/-- As many cards, each the same as its counterpart. -/
inductive SameCards (d : Decoder) : Bool → List Card → List Card → Prop
  | nil {continuing : Bool} : SameCards d continuing [] []
  | cons {continuing : Bool} {card other : Card} {cards others : List Card}
      (hcard : d.SameCard continuing card other)
      (hcards : SameCards d card.isContinued cards others) :
      SameCards d continuing (card :: cards) (other :: others)

instance decidableSameCards (d : Decoder) :
    ∀ (continuing : Bool) (cards others : List Card),
      Decidable (d.SameCards continuing cards others)
  | _, [], [] => isTrue .nil
  | continuing, card :: cards, other :: others =>
    have := decidableSameCards d card.isContinued cards others
    decidable_of_iff
      (d.SameCard continuing card other ∧ d.SameCards card.isContinued cards others)
      ⟨fun ⟨hcard, hcards⟩ => .cons hcard hcards, fun | .cons hcard hcards => ⟨hcard, hcards⟩⟩
  | _, [], _ :: _ => isFalse nofun
  | _, _ :: _, [] => isFalse nofun

/-- Decks with the same cards, both or neither with a newline at the end. -/
structure SameDeck (d : Decoder) (deck other : List Char) : Prop where
  cards : d.SameCards false (Card.ofText deck) (Card.ofText other)
  terminated : other.getLast? = some '\n' ↔ deck.getLast? = some '\n'

variable {d : Decoder} {continuing : Bool} {card other : Card} {cards others : List Card}

theorem ignores_of_lt {column : Nat} (h : column < Card.sequenceColumn)
    (hfirst : (if continuing && !d.raw then Card.resumeColumn else 0) ≤ column) :
    d.ignores continuing column = false := by
  cases hresume : continuing && !d.raw with
  | true =>
    rw [hresume, if_pos rfl] at hfirst
    simp [ignores, hresume, h, hfirst]
  | false => simp [ignores, hresume, h]

namespace SameCard

theorem getElem?_eq (h : d.SameCard continuing card other) {column : Nat}
    (hread : d.ignores continuing column = false) : other[column]? = card[column]? := by
  rcases Nat.lt_or_ge column card.length with hlt | hge
  · exact h.column column hlt hread
  · rw [List.getElem?_eq_none hge, List.getElem?_eq_none (h.length ▸ hge)]

/-- The marker is always read. -/
theorem isContinued_eq (h : d.SameCard continuing card other) :
    other.isContinued = card.isContinued := by
  have hread : d.ignores continuing Card.markerColumn = false := by
    apply ignores_of_lt Card.markerColumn_lt_sequenceColumn
    split
    · exact Card.resumeColumn_lt_markerColumn.le
    · exact Nat.zero_le _
  rw [Card.isContinued, Card.isContinued, h.getElem?_eq hread]

theorem payload_eq (h : d.SameCard continuing card other) :
    other.payload (if continuing && !d.raw then Card.resumeColumn else 0) =
      card.payload (if continuing && !d.raw then Card.resumeColumn else 0) := by
  apply List.ext_getElem?
  intro i
  rw [Card.payload, Card.payload, h.isContinued_eq, List.getElem?_drop, List.getElem?_drop,
    List.getElem?_take, List.getElem?_take]
  by_cases hi : (if continuing && !d.raw then Card.resumeColumn else 0) + i <
      if card.isContinued then Card.markerColumn else Card.sequenceColumn
  · rw [if_pos hi, if_pos hi]
    have hlt := hi.trans_le (Card.payloadEnd_mem card.isContinued).2
    exact h.getElem?_eq (ignores_of_lt hlt (Nat.le_add_right _ i))
  · rw [if_neg hi, if_neg hi]

end SameCard

end Decoder

/-! ### Joined cards -/

section Joined

variable {v : Vocabulary} {continuing : Bool} {cards others : List Card}

open Decoder

theorem Card.checkWidths_congr {d : Decoder} {line : Nat}
    (h : d.SameCards continuing cards others) :
    checkWidths line others = checkWidths line cards := by
  induction h generalizing line with
  | nil => rfl
  | cons hcard _ ih => rw [checkWidths, checkWidths, hcard.length, ih]

namespace Statement

theorem extend_congr {unfinished : Option Statement} {line : Nat} {card other : Card}
    (h : (⟨v, false⟩ : Decoder).SameCard unfinished.isSome card other) :
    extend unfinished line other = extend unfinished line card := by
  have hpayload := h.payload_eq
  cases unfinished with
  | none => exact congrArg (fun text => Statement.mk (Text.trimEnd text) _ _) hpayload
  | some s =>
    rw [Option.isSome_some, Bool.not_false, Bool.and_self, if_pos rfl] at hpayload
    rw [extend, extend, resume, resume, hpayload]

theorem join_congr {unfinished : Option Statement} {line : Nat}
    (hunfinished : unfinished.isSome = continuing)
    (h : (⟨v, false⟩ : Decoder).SameCards continuing cards others) :
    join line unfinished others = join line unfinished cards := by
  induction h generalizing line unfinished with
  | nil => rfl
  | @cons continuing card other cards others hcard _ ih =>
    subst hunfinished
    rw [join_cons, join_cons, extend_congr hcard, hcard.isContinued_eq]
    cases hc : card.isContinued with
    | true => exact ih hc.symm
    | false =>
      rw [if_neg Bool.false_ne_true, if_neg Bool.false_ne_true]
      exact congrArg _ (ih hc.symm)

end Statement

end Joined

/-! ### Cards as they stand -/

namespace Cursor

/-- Matching texts, each behind a card. -/
theorem Matches.card_append {card other : Card} {column : Nat} {a b : List Char}
    (hcard : '\n' ∉ card) (hother : '\n' ∉ other) (hlength : other.length = card.length)
    (hsame : ∀ i, column + i < Card.sequenceColumn → other[i]? = card[i]?)
    (h : ∀ column, Matches column a b) : Matches column (card ++ a) (other ++ b) := by
  induction card generalizing column other with
  | nil =>
    obtain rfl := List.length_eq_zero_iff.1 hlength
    exact h column
  | cons c card ih =>
    obtain ⟨d, other, rfl⟩ := List.exists_cons_of_length_eq_add_one hlength
    rw [List.mem_cons, not_or] at hcard hother
    refine .char (Ne.symm hcard.1) (Ne.symm hother.1) ?_ ?_
    · intro hlt
      have hfirst := hsame 0 (by omega)
      exact (Option.some.inj hfirst).symm
    · refine @ih other (column + 1) hcard.2 hother.2 (Nat.succ.inj hlength) ?_
      intro i hi
      have hbehind := hsame (i + 1) (by omega)
      rwa [List.getElem?_cons_succ, List.getElem?_cons_succ] at hbehind

/-- The same cards, with a newline behind each but perhaps the last, are matching texts. -/
theorem matches_text {v : Vocabulary} {continuing terminated : Bool} {cards others : List Card}
    (hcards : ∀ card ∈ cards, '\n' ∉ card) (hothers : ∀ card ∈ others, '\n' ∉ card)
    (h : (⟨v, true⟩ : Decoder).SameCards continuing cards others) :
    Matches 0 (Writing.text terminated cards) (Writing.text terminated others) := by
  induction h with
  | nil => exact .nil
  | @cons continuing card other cards others hcard hrest ih =>
    obtain ⟨hnewline, hcards⟩ := List.forall_mem_cons.1 hcards
    obtain ⟨hnewline', hothers⟩ := List.forall_mem_cons.1 hothers
    have hread (i : Nat) (hi : 0 + i < Card.sequenceColumn) : other[i]? = card[i]? := by
      rw [Nat.zero_add] at hi
      refine hcard.getElem?_eq (Decoder.ignores_of_lt hi ?_)
      rw [Bool.not_true, Bool.and_false, if_neg Bool.false_ne_true]
      exact Nat.zero_le i
    have hbehind := ih hcards hothers
    have happend {a b : List Char} :=
      @Matches.card_append card other 0 a b hnewline hnewline' hcard.length hread
    cases hrest with
    | nil =>
      apply happend
      intro column
      cases terminated with
      | true => exact .newline .nil
      | false => exact .nil
    | cons => exact happend fun _ => .newline hbehind

end Cursor

namespace Decoder

theorem tokens_congr {d : Decoder} {deck other : List Char} (h : d.SameDeck deck other) :
    d.tokens other = d.tokens deck := by
  obtain ⟨v, raw⟩ := d
  have hterminated : decide (other.getLast? = some '\n') = decide (deck.getLast? = some '\n') :=
    decide_eq_decide.2 h.terminated
  cases raw with
  | true =>
    have hmatches := @Cursor.matches_text v false (deck.getLast? = some '\n') _ _
      Card.newline_not_mem_of_mem_ofText Card.newline_not_mem_of_mem_ofText h.cards
    rw [Writing.text_ofText deck, ← hterminated, Writing.text_ofText other] at hmatches
    exact (Cursor.tokens_congr hmatches).symm
  | false =>
    have hstatements : Statement.ofText other = Statement.ofText deck := by
      rw [Statement.ofText, Statement.ofText, Card.checkWidths_congr h.cards, Statement.ofCards,
        Statement.ofCards, @Statement.join_congr v false _ _ none 0 rfl h.cards]
    rw [tokens, tokens, hstatements, hterminated]
    rfl

/-- What stands in columns that are not read changes nothing: not the tokens of a deck, not its
segments, and not the fault that it is refused for. -/
theorem outcome_eq_of_sameDeck {d : Decoder} {deck other : List Char}
    (h : d.SameDeck deck other) :
    d.tokens other = d.tokens deck ∧ d.segments other = d.segments deck := by
  have htokens := tokens_congr h
  refine ⟨htokens, ?_⟩
  rw [segments, segments, htokens]

/-- The cards of `segmentOnTwoCards` with other things where no card is read. -/
def scribbledDeck : List Char :=
  List.replicate 9 ' ' ++ "SEGM NAME=A,".toList ++ List.replicate 50 ' ' ++ "**=(),*AB\n".toList ++
    "FIELD *=XX( ),".toList ++ "BYTES=5".toList ++ List.replicate 51 ' ' ++ "*DATASET\n".toList

theorem outcome_eq_scribbledDeck :
    (⟨.standard, false⟩ : Decoder).SameDeck segmentOnTwoCards scribbledDeck ∧
      (⟨.standard, false⟩ : Decoder).tokens scribbledDeck =
        (⟨.standard, false⟩ : Decoder).tokens segmentOnTwoCards ∧
      (⟨.standard, false⟩ : Decoder).segments scribbledDeck =
        (⟨.standard, false⟩ : Decoder).segments segmentOnTwoCards := by
  have hsame : (⟨.standard, false⟩ : Decoder).SameDeck segmentOnTwoCards scribbledDeck :=
    ⟨by decide +kernel, by decide +kernel⟩
  exact ⟨hsame, outcome_eq_of_sameDeck hsame⟩

end Decoder

end CardDeck
