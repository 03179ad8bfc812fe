import Mathlib.Data.List.TakeWhile
import CardDeck.Card

/-! # Cutting text into cards

A text is empty, or a last card that no newline ends, or a card, its newline and a text.
`Card.text_induction` is induction over that. -/

namespace CardDeck.Card

/-! ### The order of the columns -/

theorem labelColumn_lt_directiveColumn : labelColumn < directiveColumn := by decide

theorem directiveColumn_lt_resumeColumn : directiveColumn < resumeColumn := by decide

theorem resumeColumn_lt_markerColumn : resumeColumn < markerColumn := by decide

theorem markerColumn_lt_sequenceColumn : markerColumn < sequenceColumn := by decide

/-- Where the payload of a card ends, from the marker on or behind it. -/
theorem payloadEnd_mem (isContinued : Bool) :
    markerColumn ≤ (if isContinued then markerColumn else sequenceColumn) ∧
      (if isContinued then markerColumn else sequenceColumn) ≤ sequenceColumn := by
  cases isContinued with
  | true => exact ⟨Nat.le_refl _, markerColumn_lt_sequenceColumn.le⟩
  | false => exact ⟨markerColumn_lt_sequenceColumn.le, Nat.le_refl _⟩

/-! ### Cutting and joining -/

theorem ofText_eq_nil_iff {text : List Char} : ofText text = [] ↔ text = [] := by
  cases text with
  | nil => simp
  | cons c cs =>
    simp only [ofText, List.foldr_cons, List.cons_ne_nil, iff_false]
    split
    · simp
    · split <;> simp

theorem ofText_cons_of_ne {c : Char} (h : c ≠ '\n') (text : List Char) :
    ofText (c :: text) =
      match ofText text with
      | [] => [[c]]
      | card :: cards => (c :: card) :: cards := by
  rw [ofText, List.foldr_cons, if_neg h]
  rfl

theorem ofText_card {card : Card} (hnewline : '\n' ∉ card) (hne : card ≠ []) :
    ofText card = [card] := by
  induction card with
  | nil => exact absurd rfl hne
  | cons c cs ih =>
    rw [List.mem_cons, not_or] at hnewline
    rw [ofText_cons_of_ne (Ne.symm hnewline.1)]
    cases cs with
    | nil => rfl
    | cons d ds => rw [ih hnewline.2 (List.cons_ne_nil d ds)]

theorem ofText_card_newline {card : Card} (hnewline : '\n' ∉ card) (text : List Char) :
    ofText (card ++ '\n' :: text) = card :: ofText text := by
  induction card with
  | nil => exact ofText_newline text
  | cons c cs ih =>
    rw [List.mem_cons, not_or] at hnewline
    rw [List.cons_append, ofText_cons_of_ne (Ne.symm hnewline.1), ih hnewline.2]

/-- A text may be cut behind a newline. -/
theorem ofText_append_newline_append (a b : List Char) :
    ofText (a ++ '\n' :: b) = ofText (a ++ ['\n']) ++ ofText b := by
  induction a with
  | nil => rfl
  | cons c a ih =>
    by_cases hc : c = '\n'
    · subst hc
      rw [List.cons_append, List.cons_append, ofText_newline, ofText_newline, ih, List.cons_append]
    · rw [List.cons_append, List.cons_append, ofText_cons_of_ne hc, ofText_cons_of_ne hc, ih]
      cases hcards : ofText (a ++ ['\n']) with
      | nil => exact absurd (ofText_eq_nil_iff.1 hcards) (by simp)
      | cons card cards => rfl

theorem ofText_append {a : List Char} (ha : a.getLast? = some '\n') (b : List Char) :
    ofText (a ++ b) = ofText a ++ ofText b := by
  obtain ⟨before, rfl⟩ := List.getLast?_eq_some_iff.1 ha
  rw [List.append_assoc, List.singleton_append, ofText_append_newline_append]

theorem text_induction {motive : List Char → Prop} (nil : motive [])
    (card : ∀ card : Card, '\n' ∉ card → card ≠ [] → motive card)
    (newline : ∀ (card : Card) (text : List Char), '\n' ∉ card → motive text →
      motive (card ++ '\n' :: text)) (text : List Char) : motive text := by
  induction hn : text.length using Nat.strongRecOn generalizing text with
  | ind n ih =>
    have hcut := text.takeWhile_append_dropWhile (p := (· ≠ '\n'))
    have hfirst : '\n' ∉ text.takeWhile (· ≠ '\n') := fun hmem => by
      simpa using List.mem_takeWhile_imp hmem
    cases hrest : text.dropWhile (· ≠ '\n') with
    | nil =>
      rw [hrest, List.append_nil] at hcut
      by_cases hne : text = []
      · exact hne ▸ nil
      · exact card text (hcut ▸ hfirst) hne
    | cons c rest =>
      have hc : c = '\n' := by
        have := List.head?_dropWhile_not (· ≠ '\n') text
        rw [hrest] at this
        simpa using this
      rw [hrest, hc] at hcut
      rw [← hcut]
      refine newline _ rest hfirst (ih rest.length ?_ rest rfl)
      rw [← hn, ← hcut, List.length_append, List.length_cons]
      omega

theorem newline_not_mem_of_mem_ofText {text : List Char} : ∀ card ∈ ofText text, '\n' ∉ card := by
  induction text using text_induction with
  | nil => simp
  | card card hnewline hne =>
    rw [ofText_card hnewline hne, List.forall_mem_singleton]
    exact hnewline
  | newline card text hnewline ih =>
    rw [ofText_card_newline hnewline, List.forall_mem_cons]
    exact ⟨hnewline, ih⟩

/-! ### The payload -/

theorem isContinued_iff {card : Card} : card.isContinued ↔ card[markerColumn]? = some marker :=
  decide_eq_true_iff

theorem payload_zero {card : Card} :
    card.payload 0 = card.take (if card.isContinued then markerColumn else sequenceColumn) := rfl

/-- A card is its payload and the columns that number it, with the marker between them if it is
continued. -/
theorem eq_payload_append {card : Card} :
    card = card.payload 0 ++
      ((if card.isContinued then [marker] else []) ++ card.drop sequenceColumn) := by
  have hsucc : sequenceColumn = markerColumn + 1 := rfl
  rw [payload_zero]
  split
  · next h =>
    obtain ⟨hlt, hget⟩ := List.getElem?_eq_some_iff.1 (isContinued_iff.1 h)
    rw [hsucc, List.singleton_append, ← hget, List.getElem_cons_drop, List.take_append_drop]
  · rw [List.nil_append, List.take_append_drop]

theorem length_payload_of_isContinued {card : Card} (h : card.isContinued) :
    (card.payload 0).length = markerColumn := by
  have hlt := (List.getElem?_eq_some_iff.1 (isContinued_iff.1 h)).1
  rw [payload_zero, if_pos h, List.length_take]
  omega

theorem length_payload_le (card : Card) : (card.payload 0).length ≤ sequenceColumn := by
  rw [payload_zero]
  exact (List.length_take_le _ _).trans (payloadEnd_mem card.isContinued).2

end CardDeck.Card
