import Mathlib.Data.List.Basic
import Mathlib.Data.List.Induction
import CardDeck.Proofs.Statement.Reading

/-! # The cards of a statement

The cards of a deck fall into blocks, one behind the other: of the cards of a block all but the last
are continued. Joining makes one statement of each block (`Statement.Joined`), and the lines that a
statement counts as its own are those of its block. So the statements divide the cards of a deck
among them, with none left out and none used twice: `Statement.ofCards_tiles`. -/

namespace CardDeck

/-- The cards of one statement: all but the last are continued. -/
def Card.IsBlock (block : List Card) : Prop :=
  ∃ front last, block = front ++ [last] ∧ (∀ card ∈ front, card.isContinued) ∧
    last.isContinued = false

theorem Card.IsBlock.cons {card : Card} {block : List Card} (h : IsBlock block)
    (hcard : card.isContinued) : IsBlock (card :: block) := by
  obtain ⟨front, last, rfl, hfront, hlast⟩ := h
  exact ⟨card :: front, last, rfl, List.forall_mem_cons.2 ⟨hcard, hfront⟩, hlast⟩

theorem Card.IsBlock.length_pos {block : List Card} (h : IsBlock block) : 0 < block.length := by
  obtain ⟨front, last, rfl, -, -⟩ := h
  simp

namespace Statement

variable {s : Statement} {unfinished : Option Statement} {line first last : Nat} {card : Card}
  {block cards : List Card} {statements : List Statement}

/-- The statement with all these cards, the first of which is at `line`. -/
def extendAll (unfinished : Option Statement) (line : Nat) : List Card → Option Statement
  | [] => unfinished
  | card :: cards => extendAll (some (extend unfinished line card)) (line + 1) cards

theorem extendAll_concat :
    extendAll unfinished line (block ++ [card]) =
      some (extend (extendAll unfinished line block) (line + block.length) card) := by
  induction block generalizing unfinished line with
  | nil => rfl
  | cons first block ih =>
    rw [List.cons_append, extendAll, ih, extendAll, List.length_cons, Nat.add_right_comm,
      Nat.add_assoc]

/-- What holds of the statement of a card, and of a statement with a further card if it holds
without it, holds of every statement that cards are joined to. -/
@[elab_as_elim]
theorem extendAll_induction {motive : List Card → Statement → Prop}
    (start : ∀ card, motive [card] (start line card))
    (resume : ∀ block s card, block ≠ [] → motive block s →
      motive (block ++ [card]) (s.resume (line + block.length) card))
    (hne : block ≠ []) (h : extendAll none line block = some s) : motive block s := by
  induction block using List.reverseRecOn generalizing s with
  | nil => exact absurd rfl hne
  | append_singleton block card ih =>
    rw [extendAll_concat] at h
    obtain rfl := Option.some.inj h
    by_cases hnil : block = []
    · subst hnil
      exact start card
    · obtain ⟨t, ht⟩ : ∃ t, extendAll none line block = some t := by
        rw [← List.dropLast_append_getLast hnil, extendAll_concat]
        exact ⟨_, rfl⟩
      rw [ht]
      exact resume block t card hnil (ih hnil ht)

/-- Each statement is joined from a block of cards, and the blocks follow each other from `line`
on. -/
inductive Joined : Nat → List Card → List Statement → Prop
  | nil {line : Nat} : Joined line [] []
  | cons {line : Nat} {block cards : List Card} {s : Statement} {statements : List Statement}
      (hblock : Card.IsBlock block) (hs : extendAll none line block = some s)
      (h : Joined (line + block.length) cards statements) :
      Joined line (block ++ cards) (s :: statements)

/-- Joining goes on with the statement that is not complete up to the end of its block. -/
theorem exists_block_of_join (hcards : cards ≠ [])
    (h : join line unfinished cards = .ok statements) :
    ∃ block behind s rest, cards = block ++ behind ∧ Card.IsBlock block ∧
      extendAll unfinished line block = some s ∧ statements = s :: rest ∧
      join (line + block.length) none behind = .ok rest := by
  induction cards generalizing line unfinished with
  | nil => exact absurd rfl hcards
  | cons card cards ih =>
    rw [join_cons] at h
    cases hc : card.isContinued with
    | true =>
      rw [hc, if_pos rfl] at h
      have hne : cards ≠ [] := by
        rintro rfl
        cases h
      obtain ⟨block, behind, s, rest, rfl, hblock, hs, rfl, hrest⟩ := ih hne h
      refine ⟨card :: block, behind, s, rest, rfl, hblock.cons hc, hs, rfl, ?_⟩
      rw [List.length_cons, Nat.add_comm block.length, ← Nat.add_assoc]
      exact hrest
    | false =>
      rw [hc, if_neg Bool.false_ne_true] at h
      cases hjoin : join (line + 1) none cards with
      | error fault =>
        rw [hjoin] at h
        cases h
      | ok rest =>
        rw [hjoin] at h
        exact ⟨[card], cards, _, rest, rfl, ⟨[], card, rfl, by simp, hc⟩, rfl,
          (Except.ok.inj h).symm, hjoin⟩

theorem joined_of_join (h : join line none cards = .ok statements) :
    Joined line cards statements := by
  -- on the number of cards, since a block takes any number of them
  induction hn : cards.length using Nat.strongRecOn generalizing line cards statements with
  | ind n ih =>
    by_cases hcards : cards = []
    · subst hcards
      obtain rfl : statements = [] := (Except.ok.inj h).symm
      exact .nil
    · obtain ⟨block, behind, s, rest, rfl, hblock, hs, rfl, hrest⟩ :=
        exists_block_of_join hcards h
      have hpos := hblock.length_pos
      rw [List.length_append] at hn
      exact .cons hblock hs (ih behind.length (by omega) hrest rfl)

/-- A statement of a deck is joined from some block of its cards. -/
theorem Joined.exists_block (h : Joined line cards statements) (hs : s ∈ statements) :
    ∃ before block behind, cards = before ++ (block ++ behind) ∧ Card.IsBlock block ∧
      extendAll none (line + before.length) block = some s := by
  induction h with
  | nil => cases hs
  | @cons line block cards t statements hblock ht _ ih =>
    rcases List.mem_cons.1 hs with rfl | hs
    · exact ⟨[], block, cards, rfl, hblock, ht⟩
    · obtain ⟨before, own, behind, rfl, hown, hs⟩ := ih hs
      refine ⟨block ++ before, own, behind, (List.append_assoc _ _ _).symm, hown, ?_⟩
      rw [List.length_append, ← Nat.add_assoc]
      exact hs

/-! ### The lines of a statement -/

/-- The statement counts the cards from line `first` to line `last` as its own. -/
structure StandsOn (s : Statement) (first last : Nat) : Prop where
  firstLine : s.firstLine? = some (first : Int)
  endLine : s.endLine? = some (last : Int)
  lastLine : s.lastLine? = some (last : Int)

theorem standsOn_start (line : Nat) (card : Card) : (start line card).StandsOn line line :=
  ⟨rfl, rfl, rfl⟩

/-- A further card is the last one then, even if it is blank. -/
theorem StandsOn.resume (h : s.StandsOn first last) (line : Nat) (card : Card) :
    (s.resume line card).StandsOn first line := by
  have hne : s.spans ≠ [] := by
    intro hnil
    have hfirst := h.firstLine
    rw [firstLine?, hnil] at hfirst
    cases hfirst
  have hfirst : (s.resume line card).firstLine? = s.firstLine? := by
    rw [firstLine?, firstLine?, Statement.resume]
    split
    · rfl
    · rw [List.head?_append_of_ne_nil _ hne]
  have hend : (s.resume line card).endLine? = some (line : Int) := by
    rw [Statement.resume]
    split <;> rfl
  refine ⟨hfirst.trans h.firstLine, hend, ?_⟩
  rw [lastLine?, hend]
  rfl

/-- Whatever the cards hold, a statement counts all of them as its own. -/
theorem standsOn_of_extendAll (hne : block ≠ []) (h : extendAll none line block = some s) :
    s.StandsOn line (line + (block.length - 1)) := by
  refine extendAll_induction (fun card => ?_) (fun block s card _ hs => ?_) hne h
  · exact standsOn_start line card
  · rw [List.length_append, List.length_singleton, Nat.add_sub_cancel]
    exact hs.resume _ card

/-- Statements that stand on the cards of a deck from a line on, each behind the one before it, up
to the end of the deck. Of the cards of a statement all but the last are continued. -/
inductive Tiles (cards : List Card) : Nat → List Statement → Prop
  | nil : Tiles cards cards.length []
  | cons {first last : Nat} {s : Statement} {statements : List Statement}
      (hs : s.StandsOn first last) (hle : first ≤ last)
      (hcontinued : ∀ line, first ≤ line → line < last →
        ∃ card, cards[line]? = some card ∧ card.isContinued)
      (hend : ∃ card, cards[last]? = some card ∧ card.isContinued = false)
      (h : Tiles cards (last + 1) statements) : Tiles cards first (s :: statements)

theorem StandsOn.unique {first' last' : Nat} (h : s.StandsOn first last)
    (h' : s.StandsOn first' last') : first = first' ∧ last = last' := by
  have hfirst := h.firstLine.symm.trans h'.firstLine
  have hend := h.endLine.symm.trans h'.endLine
  simp only [Option.some.injEq] at hfirst hend
  omega

/-- No statement stands on a line before those that are to be divided. -/
theorem Tiles.le_of_standsOn (h : Tiles cards line statements) (hs : s ∈ statements)
    (hstands : s.StandsOn first last) : line ≤ first := by
  induction h with
  | nil => cases hs
  | @cons low high t statements ht hle _ _ _ ih =>
    rcases List.mem_cons.1 hs with rfl | hs
    · exact (ht.unique hstands).1.le
    · have := ih hs
      omega

/-- Every card belongs to one statement and to no other. -/
theorem Tiles.existsUnique (h : Tiles cards first statements) (hle : first ≤ line)
    (hlt : line < cards.length) :
    ∃! i : Nat, ∃ s low high, statements[i]? = some s ∧ s.StandsOn low high ∧ low ≤ line ∧
      line ≤ high := by
  induction h with
  | nil => omega
  | @cons low high s statements hs hlow _ _ hrest ih =>
    -- the line is one of the first statement, or of one of those behind it
    rcases Nat.lt_or_ge high line with hhigh | hhigh
    · obtain ⟨i, ⟨t, low', high', ht, hstands, hlines⟩, hunique⟩ := ih hhigh
      refine ⟨i + 1, ⟨t, low', high', ht, hstands, hlines⟩, ?_⟩
      rintro (_ | j) ⟨u, low'', high'', hu, hstands', hlines'⟩
      · obtain rfl := Option.some.inj hu
        have := hs.unique hstands'
        omega
      · exact congrArg (· + 1) (hunique j ⟨u, low'', high'', hu, hstands', hlines'⟩)
    · refine ⟨0, ⟨s, low, high, rfl, hs, hle, hhigh⟩, ?_⟩
      rintro (_ | j) ⟨u, low', high', hu, hstands, hlines⟩
      · rfl
      · have := hrest.le_of_standsOn (List.mem_of_getElem? hu) hstands
        omega

/-- Blocks of cards divide the lines on which they stand. -/
theorem Joined.tiles {before : List Card} (h : Joined line cards statements)
    (hline : line = before.length) : Tiles (before ++ cards) line statements := by
  induction h generalizing before with
  | nil =>
    rw [List.append_nil, hline]
    exact .nil
  | @cons line block cards s statements hblock hs _ ih =>
    obtain ⟨front, last, rfl, hfront, hlast⟩ := hblock
    have hrest := @ih (before ++ (front ++ [last])) (by rw [hline, ← List.length_append])
    have hget (i : Nat) (hi : i ≤ front.length) :
        (before ++ (front ++ [last] ++ cards))[line + i]? = (front ++ [last])[i]? := by
      have hlt : i < (front ++ [last]).length := by
        rw [List.length_append, List.length_singleton]
        omega
      rw [hline, List.getElem?_append_right (Nat.le_add_right _ _), Nat.add_sub_cancel_left,
        List.getElem?_append_left hlt]
    rw [List.append_assoc, List.length_append, List.length_singleton, ← Nat.add_assoc] at hrest
    have hstands := standsOn_of_extendAll (List.concat_ne_nil last front) hs
    rw [List.length_append, List.length_singleton, Nat.add_sub_cancel] at hstands
    refine .cons hstands (Nat.le_add_right _ _) ?_ ?_ hrest
    · intro i hle hlt
      obtain ⟨k, rfl⟩ := Nat.exists_eq_add_of_le hle
      have hk : k < front.length := by omega
      refine ⟨front[k], ?_, hfront _ (List.getElem_mem hk)⟩
      rw [hget k hk.le, List.getElem?_append_left hk, List.getElem?_eq_getElem hk]
    · refine ⟨last, ?_, hlast⟩
      rw [hget _ (Nat.le_refl _), List.getElem?_concat_length]

/-- Joining is refused for a deck whose last card is continued, with the line of that card, and for
no other. The statements of any other deck stand on its cards one behind the other, each on cards of
which all but the last are continued, so that every card belongs to just one of them. -/
theorem ofCards_tiles (cards : List Card) :
    (∀ fault, ofCards cards = .error fault ↔
      (∃ card, cards.getLast? = some card ∧ card.isContinued) ∧
        fault = .unfinished (cards.length - 1)) ∧
    ∀ statements, ofCards cards = .ok statements →
      Tiles cards 0 statements ∧
        ∀ line < cards.length, ∃! i : Nat, ∃ s first last, statements[i]? = some s ∧
          s.StandsOn first last ∧ first ≤ line ∧ line ≤ last := by
  have hopen : Reading.isLeftOpen false cards ↔
      ∃ card, cards.getLast? = some card ∧ card.isContinued := by
    rw [Reading.isLeftOpen]
    cases cards.getLast? <;> simp
  refine ⟨fun fault => ?_, fun statements h => ?_⟩
  · rw [← hopen]
    cases hleft : Reading.isLeftOpen false cards with
    | true =>
      have hline : ((0 : Nat) : Int) + cards.length - 1 = cards.length - 1 := by omega
      rw [ofCards, @join_of_isLeftOpen 0 none cards hleft, hline, Except.error.injEq]
      simp [eq_comm]
    | false =>
      obtain ⟨statements, hjoin, -⟩ := @exists_join_eq_ok .standard 0 none cards [] .none hleft
      simp [ofCards, hjoin]
  · have htiles : Tiles ([] ++ cards) 0 statements := (joined_of_join h).tiles rfl
    exact ⟨htiles, fun line hline => htiles.existsUnique (Nat.zero_le line) hline⟩

/-- A statement of three cards, the second of which is blank, and a short card behind it. -/
def blankContinuation : List Card :=
  ["  GO ON".toList ++ List.replicate 64 ' ' ++ ['*'], List.replicate 71 ' ' ++ ['*'],
    List.replicate 15 ' ' ++ "PAST IT".toList, "DONE".toList]

def blankContinuationStatements : List Statement :=
  [⟨"  GO ON PAST IT".toList, [⟨0, 0, 0⟩, ⟨8, 2, 15⟩], some 2⟩, ⟨"DONE".toList, [⟨0, 3, 0⟩], some 3⟩]

theorem ofCards_tiles_blankContinuation :
    ofCards blankContinuation = .ok blankContinuationStatements ∧
      Tiles blankContinuation 0 blankContinuationStatements := by
  have h : ofCards blankContinuation = .ok blankContinuationStatements := by decide
  exact ⟨h, ((ofCards_tiles blankContinuation).2 _ h).1⟩

end Statement

end CardDeck
