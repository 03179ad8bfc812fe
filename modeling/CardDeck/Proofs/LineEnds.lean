import CardDeck.Proofs.Agreement
import CardDeck.Proofs.Cursor.Step

/-! # Where tokens end

The last token of a deck is the end of a line, in either way of reading, and the end of the deck is
never among the tokens: `Decoder.endsLine_of_tokens`. So a reader of the tokens comes to the end of
the deck only behind the end of a line. -/

namespace CardDeck

/-- Tokens with the end of a line behind all others, and no end of the deck among them. -/
structure Reading.EndsLine (found : List Token) : Prop where
  last : ∃ before p, found = before ++ [.endOfLine p]
  kind_ne : ∀ t ∈ found, t.kind ≠ .endOfInput

namespace Reading

theorem endsLine_singleton (p : Position) : EndsLine [.endOfLine p] := by
  refine ⟨⟨[], p, rfl⟩, ?_⟩
  rw [List.forall_mem_singleton]
  exact Token.Kind.noConfusion

theorem EndsLine.append {a b : List Token} (ha : ∀ t ∈ a, t.kind ≠ .endOfInput)
    (hb : EndsLine b) : EndsLine (a ++ b) := by
  obtain ⟨before, p, rfl⟩ := hb.last
  exact ⟨⟨a ++ before, p, (List.append_assoc a before _).symm⟩,
    List.forall_mem_append.2 ⟨ha, hb.kind_ne⟩⟩

end Reading

/-! ### Cursors -/

namespace Cursor

variable {v : Vocabulary} {cur next : Cursor} {token : Option Token} {found : List Token}

theorem endsLine_of_tokensFrom (h : tokensFrom v cur [] = .ok found) :
    Reading.EndsLine found := by
  induction cur using round_induction v generalizing found with
  | nil index p =>
    rw [tokensFrom_nil] at h
    split at h
    · rw [← Except.ok.inj h]
      exact Reading.endsLine_singleton p
    · cases h
  | refuses cur fault hrefuses =>
    rw [hrefuses.tokensFrom_eq] at h
    cases h
  | moves cur token next hmoves ih =>
    obtain ⟨behind, hnext, rfl⟩ := hmoves.exists_of_tokensFrom_eq_ok h
    exact (ih hnext).append fun t ht => (hmoves.isRead t ht).1.kind_ne_endOfInput

end Cursor

/-! ### Joined cards -/

/-- The last token of cards is the end of the last line, if no statement is left open there. -/
theorem Reading.exists_ofCards_concat {d : Decoder} {line : Nat} {continuing : Bool}
    {cards : List Card} (hne : cards ≠ []) (hopen : isLeftOpen continuing cards = false) :
    ∃ before, ofCards d line continuing cards =
      before ++ [.endOfLine ⟨line + cards.length - 1, Card.width⟩] := by
  induction cards generalizing line continuing with
  | nil => exact absurd rfl hne
  | cons card cards ih =>
    rw [isLeftOpen_cons] at hopen
    rw [ofCards]
    by_cases hnil : cards = []
    · subst hnil
      rw [isLeftOpen_nil] at hopen
      have hline : (line : Int) + [card].length - 1 = line := by simp
      rw [hopen, if_neg Bool.false_ne_true, ofCards_nil, List.append_nil, hline]
      exact ⟨_, rfl⟩
    · obtain ⟨before, hbefore⟩ := @ih (line + 1) card.isContinued hnil hopen
      have hline : ((line + 1 : Nat) : Int) + cards.length - 1 =
          line + (card :: cards).length - 1 := by
        rw [List.length_cons]
        omega
      rw [hbefore, hline, ← List.append_assoc]
      exact ⟨_, rfl⟩

/-- What can be joined has cards of full width, and no statement is left open at its end. -/
theorem Statement.layout_of_ofText_eq_ok {text : List Char} {statements : List Statement}
    (h : ofText text = .ok statements) :
    (∀ card ∈ Card.ofText text, card.length = Card.width) ∧
      Reading.isLeftOpen false (Card.ofText text) = false := by
  rw [ofText] at h
  cases hcheck : Card.checkWidths 0 (Card.ofText text) with
  | error fault =>
    rw [hcheck] at h
    cases h
  | ok =>
    refine ⟨Card.checkWidths_eq_ok_iff.1 hcheck, ?_⟩
    rw [hcheck] at h
    rw [← Bool.not_eq_true]
    intro hopen
    have hjoin := @join_of_isLeftOpen 0 none (Card.ofText text) hopen
    change ofCards (Card.ofText text) = _ at h
    rw [ofCards, hjoin] at h
    cases h

/-- Decks of joined cards are read only if they are laid out as cards. -/
theorem Decoder.layout_of_tokens_joined {v : Vocabulary} {text : List Char} {found : List Token}
    (h : (⟨v, false⟩ : Decoder).tokens text = .ok found) :
    (∀ card ∈ Card.ofText text, card.length = Card.width) ∧
      Reading.isLeftOpen false (Card.ofText text) = false := by
  rw [tokens, if_neg Bool.false_ne_true] at h
  cases hstatements : Statement.ofText text with
  | error fault =>
    rw [hstatements] at h
    cases h
  | ok statements => exact Statement.layout_of_ofText_eq_ok hstatements

theorem Decoder.endsLine_reading {d : Decoder} {text : List Char}
    (hopen : Reading.isLeftOpen false (Card.ofText text) = false) :
    Reading.EndsLine (d.reading text) := by
  have hcards : ∀ t ∈ Reading.ofCards d 0 false (Card.ofText text), t.kind ≠ .endOfInput :=
    fun t ht => (Reading.isRead_of_mem_ofCards ht).kind_ne_endOfInput
  by_cases hempty : text = [] ∨ text.getLast? = some '\n'
  · rw [reading, if_pos hempty]
    exact (Reading.endsLine_singleton _).append hcards
  · obtain ⟨hne, hlast⟩ := not_or.1 hempty
    obtain ⟨before, hbefore⟩ :=
      @Reading.exists_ofCards_concat d 0 false _ (mt Card.ofText_eq_nil_iff.1 hne) hopen
    rw [reading_of_ne_newline hne hlast]
    exact ⟨⟨before, _, hbefore⟩, hcards⟩

/-! ### Decks -/

theorem Decoder.endsLine_of_tokens {d : Decoder} {text : List Char} {found : List Token}
    (h : d.tokens text = .ok found) : Reading.EndsLine found := by
  obtain ⟨v, raw⟩ := d
  cases raw with
  | true => exact Cursor.endsLine_of_tokensFrom (h : Cursor.tokens v text = .ok found)
  | false =>
    obtain ⟨hwidth, hopen⟩ := layout_of_tokens_joined h
    obtain ⟨-, -, rfl⟩ := (tokens_eq_ok_iff hwidth).1 h
    exact endsLine_reading hopen

end CardDeck
