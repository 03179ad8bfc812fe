import CardDeck.Proofs.Card
import CardDeck.Proofs.Statement.Layout

/-! # Joined statements read as their cards

Cards are joined only to be cut up again. `Statement.exists_join_eq_ok` says that the tokens of the
joined statements are the reading of the cards, and `Decoder.tokens_joined` what this comes to for a
deck: it is refused for a word astray, unless its last card is continued, which comes first. -/

namespace CardDeck

namespace Statement

/-- The statement that a card begins, or that it goes on with. -/
def extend (unfinished : Option Statement) (line : Nat) (card : Card) : Statement :=
  match unfinished with
  | none => start line card
  | some s => s.resume line card

theorem join_cons (line : Nat) (unfinished : Option Statement) (card : Card) (cards : List Card) :
    join line unfinished (card :: cards) =
      if card.isContinued then join (line + 1) (some (extend unfinished line card)) cards
      else (extend unfinished line card :: ·) <$> join (line + 1) none cards := by
  cases unfinished <;> rfl

@[simp] theorem lastLine?_extend (unfinished : Option Statement) (line : Nat) (card : Card) :
    (extend unfinished line card).lastLine? = some (line : Int) := by
  cases unfinished with
  | none => rfl
  | some s =>
    simp only [extend, resume, lastLine?]
    split <;> rfl

/-! ### Decks that end in the middle of a statement -/

theorem join_of_isLeftOpen {line : Nat} {unfinished : Option Statement} {cards : List Card}
    (h : Reading.isLeftOpen unfinished.isSome cards) :
    join line unfinished cards = .error (.unfinished (line + cards.length - 1)) := by
  induction cards generalizing line unfinished with
  | nil =>
    obtain ⟨s, rfl⟩ := Option.isSome_iff_exists.1 h
    rw [join, List.length_nil, Int.natCast_zero, Int.add_zero]
  | cons card cards ih =>
    rw [Reading.isLeftOpen_cons] at h
    have hline :
        ((line + 1 : Nat) : Int) + cards.length - 1 = line + (cards.length + 1 : Nat) - 1 := by
      omega
    rw [List.length_cons, join_cons, ← hline]
    split
    · next hc =>
      rw [hc] at h
      exact @ih (line + 1) (some (extend unfinished line card)) h
    · next hc =>
      rw [Bool.not_eq_true] at hc
      rw [hc] at h
      rw [@ih (line + 1) none h]
      rfl

/-! ### Decks whose statements are complete -/

/-- A statement that is not complete yet, if there is one, with its layout so far. -/
inductive Pending : Option Statement → Layout → Prop
  | none : Pending none []
  | some {s : Statement} {l : Layout} (h : s.IsLaid l) : Pending (some s) l

/-- A card adds the words and marks of its part of a statement to those of the cards before it. -/
theorem Pending.exists_isLaid_extend {unfinished : Option Statement} {l : Layout}
    (h : Pending unfinished l) (line : Nat) (card : Card) :
    ∃ l' : Layout, (extend unfinished line card).IsLaid l' ∧ ∀ v, l'.tokens v =
      l.tokens v ++ Reading.ofText v
        ⟨line, if unfinished.isSome then Card.resumeColumn else 0⟩
        (card.payload (if unfinished.isSome then Card.resumeColumn else 0)) := by
  cases h with
  | none =>
    refine ⟨startLayout line card, isLaid_start line card, fun v => ?_⟩
    rw [tokens_startLayout, Reading.ofText_eq_tokens]
    rfl
  | some h =>
    obtain ⟨gap, hlaid⟩ := h.resume line card
    refine ⟨resumeLayout _ gap line card, hlaid, fun v => ?_⟩
    rw [tokens_resumeLayout, Reading.ofText_eq_tokens]
    rfl

/-- A statement reads as its layout does, and ends its last card. -/
theorem IsLaid.tokens_eq {s : Statement} {l : Layout} (h : s.IsLaid l) {line : Int}
    (hline : s.lastLine? = some line) (v : Vocabulary) :
    tokens v s = Reading.checked (l.tokens v ++ [.endOfLine ⟨line, Card.width⟩]) := by
  rw [tokens, h.text, tokensFrom_eq_checked h.traces h.onPayload, hline, Reading.checked_append,
    Reading.checked_cons (Token.isStray_endOfLine _)]
  cases Reading.checked (l.tokens v) <;> rfl

theorem exists_join_eq_ok (v : Vocabulary) {line : Nat} {unfinished : Option Statement}
    {cards : List Card} {l : Layout} (hl : Pending unfinished l)
    (h : Reading.isLeftOpen unfinished.isSome cards = false) :
    ∃ statements, join line unfinished cards = .ok statements ∧
      List.flatten <$> statements.mapM (tokens v) =
        Reading.checked
          (l.tokens v ++ Reading.ofCards ⟨v, false⟩ line unfinished.isSome cards) ∧
      statements.getLast?.map lastLine? =
        if cards = [] then none else some (some (line + cards.length - 1 : Int)) := by
  induction cards generalizing line unfinished l with
  | nil =>
    cases hl with
    | none => exact ⟨[], rfl, rfl, rfl⟩
    | some => cases h
  | cons card cards ih =>
    obtain ⟨l', hlaid, htokens⟩ := hl.exists_isLaid_extend line card
    rw [Reading.isLeftOpen_cons] at h
    cases hc : card.isContinued with
    | true =>
      rw [hc] at h
      obtain ⟨statements, hjoin, hread, hlast⟩ := @ih (line + 1) _ l' (.some hlaid) h
      refine ⟨statements, ?_, ?_, ?_⟩
      · rw [join_cons, hc, if_pos rfl, hjoin]
      · rw [hread, htokens, Reading.ofCards_joined_cons, hc, if_pos rfl, List.append_nil,
          List.append_assoc]
        rfl
      · have hne : cards ≠ [] := by
          rintro rfl
          cases h
        rw [hlast, if_neg hne, if_neg (List.cons_ne_nil card cards), List.length_cons]
        congr 2
        omega
    | false =>
      rw [hc] at h
      obtain ⟨statements, hjoin, hread, hlast⟩ := @ih (line + 1) none [] .none h
      refine ⟨extend unfinished line card :: statements, ?_, ?_, ?_⟩
      · rw [join_cons, hc, if_neg Bool.false_ne_true, hjoin]
        rfl
      · rw [Reading.ofCards_joined_cons, hc, if_neg Bool.false_ne_true, ← List.append_assoc,
          ← List.append_assoc, ← htokens, Reading.checked_append, List.mapM_cons,
          hlaid.tokens_eq (lastLine?_extend unfinished line card)]
        rw [Layout.tokens_nil, List.nil_append, Option.isSome_none] at hread
        change _ = (do
          return (← Reading.checked (l'.tokens v ++ [Token.endOfLine ⟨line, Card.width⟩])) ++
            (← Reading.checked (Reading.ofCards ⟨v, false⟩ (line + 1) false cards)))
        rw [← hread]
        cases Reading.checked (l'.tokens v ++ [Token.endOfLine ⟨line, Card.width⟩]) with
        | error fault => rfl
        | ok found => cases statements.mapM (tokens v) <;> rfl
      · rw [if_neg (List.cons_ne_nil card cards), List.length_cons, List.getLast?_cons]
        by_cases hne : cards = []
        · subst hne
          rw [if_pos rfl, Option.map_eq_none_iff] at hlast
          rw [hlast, Option.getD_none, Option.map_some, lastLine?_extend]
          simp
        · rw [if_neg hne, Option.map_eq_some_iff] at hlast
          obtain ⟨last, hgetLast, hline⟩ := hlast
          rw [hgetLast, Option.getD_some, Option.map_some, hline]
          congr 2
          omega

/-- The line behind statements, if they end on a line. -/
theorem tokensOfList_eq_checked {v : Vocabulary} {statements : List Statement} {terminated : Bool}
    {found : List Token}
    (h : List.flatten <$> statements.mapM (tokens v) = Reading.checked found) :
    tokensOfList v statements terminated =
      Reading.checked (found ++ if terminated || found.isEmpty then
        [.endOfLine ⟨((statements.getLast?.bind lastLine?).map (· + 1)).getD 0, 0⟩] else []) := by
  rw [tokensOfList, Reading.checked_append, ← h]
  cases hm : statements.mapM (tokens v) with
  | error fault => rfl
  | ok groups =>
    rw [hm] at h
    obtain ⟨-, hfound⟩ := Reading.checked_eq_ok_iff.1 h.symm
    rw [← hfound]
    change ite _ _ _ = (do
      return groups.flatten ++ (← Reading.checked _))
    split
    · rw [Reading.checked_cons (Token.isStray_endOfLine _)]
      cases statements.getLast?.bind lastLine? <;> rfl
    · rw [Reading.checked_nil]
      exact congrArg Except.ok (List.append_nil _).symm

/-- A deck in which every statement is complete has an end of line for its last card. -/
theorem ofCards_eq_nil_iff {d : Decoder} {line : Nat} {continuing : Bool} {cards : List Card}
    (h : Reading.isLeftOpen continuing cards = false) :
    Reading.ofCards d line continuing cards = [] ↔ cards = [] := by
  induction cards generalizing line continuing with
  | nil => simp
  | cons card cards ih =>
    rw [Reading.isLeftOpen_cons] at h
    simp only [Reading.ofCards, List.append_eq_nil_iff, ih h, List.cons_ne_nil, iff_false]
    rintro ⟨⟨-, hend⟩, rfl⟩
    rw [Reading.isLeftOpen_nil] at h
    simp [h] at hend

end Statement

/-- What comes of a deck whose cards are joined: if its last card is continued, that; else its
reading, up to the first word astray. -/
theorem Decoder.tokens_joined (v : Vocabulary) {text : List Char}
    (hwidth : ∀ card ∈ Card.ofText text, card.length = Card.width) :
    (⟨v, false⟩ : Decoder).tokens text =
      if Reading.isLeftOpen false (Card.ofText text) then
        .error (.unfinished ((Card.ofText text).length - 1))
      else Reading.checked ((⟨v, false⟩ : Decoder).reading text) := by
  have hcheck : Card.checkWidths 0 (Card.ofText text) = .ok () :=
    Card.checkWidths_eq_ok_iff.2 hwidth
  rw [tokens, if_neg Bool.false_ne_true, Statement.ofText, hcheck]
  cases hopen : Reading.isLeftOpen false (Card.ofText text) with
  | true =>
    have hline (n : Nat) : ((0 : Nat) : Int) + n - 1 = n - 1 := by omega
    rw [Statement.ofCards, @Statement.join_of_isLeftOpen 0 none _ hopen, if_pos rfl, hline]
    rfl
  | false =>
    obtain ⟨statements, hjoin, hread, hlast⟩ :=
      @Statement.exists_join_eq_ok v 0 none _ [] .none hopen
    rw [Layout.tokens_nil, List.nil_append, Option.isSome_none] at hread
    rw [if_neg Bool.false_ne_true, Statement.ofCards, hjoin]
    change Statement.tokensOfList v statements _ = _
    have hempty : (Reading.ofCards ⟨v, false⟩ 0 false (Card.ofText text)).isEmpty ↔ text = [] := by
      rw [List.isEmpty_iff, Statement.ofCards_eq_nil_iff hopen, Card.ofText_eq_nil_iff]
    have hnext : ((statements.getLast?.bind Statement.lastLine?).map (· + 1)).getD 0 =
        ((Card.ofText text).length : Int) := by
      by_cases hnil : Card.ofText text = []
      · rw [if_pos hnil, Option.map_eq_none_iff] at hlast
        rw [hlast, hnil]
        rfl
      · rw [if_neg hnil, Option.map_eq_some_iff] at hlast
        obtain ⟨last, hgetLast, hline⟩ := hlast
        rw [hgetLast, Option.bind_some, hline]
        simp
    rw [Statement.tokensOfList_eq_checked hread, reading, hnext]
    simp only [Bool.or_eq_true, decide_eq_true_eq, hempty, or_comm]

end CardDeck
