import CardDeck.Proofs.Stream.Rounds

/-! # Reading a stream comes to an end

A stream goes forward and stays in its tokens, whatever is read from it, and no loop goes on without
end: `Stream.reading_ends`.

A stream that has been read to the end of the deck has no more to give, and one that stands at a
token that starts no statement stays there. -/

namespace CardDeck

/-! ### What is unexpected -/

namespace Record

variable {t u : Token} {found : List Rejection}

theorem ValueState.refusal_ne_unexpected (state : ValueState) :
    state.refusal t ≠ .unexpected u found := by
  intro h
  cases state with
  | start | separator items => cases h
  | item items =>
    rw [refusal] at h
    split at h
    · cases h
    · cases h

/-- Within a record no token is unexpected as the start of a statement. -/
theorem AttributesState.refusal_ne_unexpected (s : AttributesState) :
    s.refusal t ≠ .unexpected u found := by
  rcases s with ⟨attributes, _ | _ | _ | ⟨key, state⟩⟩
  · exact RecordFault.noConfusion
  · exact RecordFault.noConfusion
  · exact RecordFault.noConfusion
  · exact state.refusal_ne_unexpected

end Record

namespace Deck

variable {d : Deck} {t : Token}

/-- A deck may end only at its end. -/
theorem kind_of_outcome_ok {segments : List Segment} (h : d.outcome t = .ok segments) :
    t.kind = .endOfInput := by
  rw [outcome] at h
  split at h
  · cases h
  · split at h
    · assumption
    · cases h

/-- The end of the deck is not unexpected as the start of a statement. -/
theorem outcome_ne_unexpected (ht : t.kind = .endOfInput) {u : Token}
    {found : List Rejection} : d.outcome t ≠ .error (.unexpected u found) := by
  intro h
  rw [outcome] at h
  split at h
  · next state _ => exact state.refusal_ne_unexpected (Except.error.inj h)
  · rw [if_pos ht] at h
    cases h

/-- Only what starts no statement is unexpected. -/
theorem Refuses.unexpected {u : Token} {found : List Rejection}
    (h : d.Refuses t (.unexpected u found)) :
    u = t ∧ found = rejections t ∧
      t.kind ∈ [.key, .identifier, .equals, .comma, .openParen, .closeParen] := by
  generalize hfault : RecordFault.unexpected u found = fault at h
  cases h with
  | statement ht =>
    obtain ⟨rfl, rfl⟩ := RecordFault.unexpected.inj hfault
    exact ⟨rfl, rfl, ht⟩
  | @within _ _ _ state ht => exact absurd hfault.symm state.refusal_ne_unexpected
  | whole ht =>
    rw [(Record.AttributesState.eq_of_accept_done_error ht).2.2] at hfault
    cases hfault
  | orphaned ht hattach =>
    rw [Assembly.eq_orphaned_of_attach hattach] at hfault
    cases hfault

end Deck

namespace Stream

variable {s : Stream} {d : Deck}

/-- A header goes first, and the attributes behind it. -/
theorem onward_attempt (h : Header) (hs : s.index ≤ s.tokens.length) :
    s.Onward (s.attempt (.header h)).2 := by
  by_cases hk : s.current.kind = .header h
  · obtain ⟨ts, hrest⟩ := rest_ne_nil_of_kind (s := s) (by simp [hk])
    have hadvance := onward_advance hrest
    rw [attempt, if_neg (not_not_intro hk)]
    exact hadvance.trans ((attributesLoop_computes s.current).onward [] hadvance.le_length)
  · rw [attempt, if_pos hk]
    exact onward_self hs

/-! ### Reading once more -/

/-- A deck is read without a fault up to its end. -/
theorem kind_of_read_deck_ok (s : Stream) {segments : List Segment}
    (h : (s.read (Deck.read s.last d)).1 = .ok segments) :
    (s.read (Deck.read s.last d)).2.current.kind = .endOfInput := by
  induction s using rest_induction generalizing d with
  | nil s hrest =>
    rw [read_deck_of_nil hrest, current_of_rest_nil hrest]
    rfl
  | cons s t ts hrest ih =>
    cases haccept : d.accept t with
    | none =>
      rw [← current_of_rest_cons hrest] at haccept
      rw [read_deck_of_none haccept] at h ⊢
      exact Deck.kind_of_outcome_ok h
    | some result =>
      cases result with
      | error fault =>
        rw [read_deck_of_error hrest haccept] at h
        cases h
      | ok d' =>
        rw [read_deck_of_ok hrest haccept] at h ⊢
        exact ih h

/-- A token that starts no statement is left unread, and it is what the fault says it is. -/
theorem unexpected_of_read_deck (s : Stream) {t : Token} {rejections : List Rejection}
    (h : (s.read (Deck.read s.last d)).1 = .error (.unexpected t rejections)) :
    (s.read (Deck.read s.last d)).2.current = t ∧ rejections = Deck.rejections t ∧
      t.kind ∈ [.key, .identifier, .equals, .comma, .openParen, .closeParen] := by
  induction s using rest_induction generalizing d with
  | nil s hrest =>
    rw [read_deck_of_nil hrest, current_of_rest_nil hrest] at h
    exact absurd h (Deck.outcome_ne_unexpected rfl)
  | cons s u ts hrest ih =>
    by_cases hlast : u.kind = .endOfInput
    · have ht := current_of_rest_cons hrest
      rw [read_deck_of_none (Deck.accept_endOfInput (by rw [ht, hlast])), ht] at h
      exact absurd h (Deck.outcome_ne_unexpected hlast)
    rcases d.moves_or_refuses hlast with ⟨next, hmoves⟩ | ⟨fault, hrefuses⟩
    · rw [read_deck_of_ok hrest hmoves.accept_eq] at h ⊢
      exact ih h
    · have hread : Deck.read s.last d s.rest = (.error fault, (u :: ts).drop fault.passed) := by
        rw [hrest, hrefuses.read_cons]
      obtain rfl : fault = .unexpected t rejections := by
        rw [read, hread] at h
        exact Except.error.inj h
      obtain ⟨rfl, hrejections, hk⟩ := hrefuses.unexpected
      rw [read_eq_self (by rw [hread, hrest]; rfl), current_of_rest_cons hrest]
      exact ⟨rfl, hrejections, hk⟩

/-- A stream that sees the end of the deck is there, or before a token that says so. -/
theorem index_of_kind (hs : s.index ≤ s.tokens.length) (h : s.current.kind = .endOfInput) :
    s.index = s.tokens.length ∨ ∃ t, s.tokens[s.index]? = some t ∧ t.kind = .endOfInput := by
  cases hrest : s.rest with
  | nil => exact .inl (Nat.le_antisymm hs (List.drop_eq_nil_iff.1 hrest))
  | cons t ts =>
    rw [current_of_rest_cons hrest] at h
    refine .inr ⟨t, ?_, h⟩
    rw [← List.head?_drop, ← rest, hrest, List.head?_cons]

/-- At the end of the deck there are no more segments. -/
theorem segments_of_kind (h : s.current.kind = .endOfInput) : s.segments = (.ok [], s) := by
  rw [segments, read_deck_of_none (Deck.accept_endOfInput h)]
  exact Prod.ext (if_pos h) rfl

/-- A token that starts no statement is not passed. -/
theorem segments_of_unexpected
    (h : s.current.kind ∈ [.key, .identifier, .equals, .comma, .openParen, .closeParen]) :
    s.segments = (.error (.unexpected s.current (Deck.rejections s.current)), s) := by
  have hlast : s.current.kind ≠ .endOfInput := by
    intro hlast
    rw [hlast] at h
    simp at h
  obtain ⟨ts, hrest⟩ := rest_ne_nil_of_kind hlast
  refine read_eq_self ?_
  rw [hrest]
  exact (Deck.Refuses.statement h).read_cons

/-- Wherever in the tokens a stream stands, each construct is read to its end or to a fault. The
stream goes forward then and stays in the tokens, and so it does in every round of a loop; where the
round does not leave the loop, a token is passed. A stream whose segments have been read stands at
the end of the deck, and has no more. One that stands at a token which starts no statement stays
there, with the same fault. -/
theorem reading_ends (s : Stream) (hs : s.index ≤ s.tokens.length) :
    ((∀ a, s.Onward (s.skip a).2) ∧ (∀ h, s.Onward (s.attempt (.header h)).2) ∧
      (∀ header, s.Onward (s.attributes header).2) ∧ s.Onward s.oneAttribute.2 ∧
      s.Onward s.value.2 ∧ s.Onward s.items.2 ∧ s.Onward s.segments.2) ∧
    (lineLoop.Progresses ∧ skipLoop.Progresses ∧ (∀ header, (attributesLoop header).Progresses) ∧
      itemsLoop.Progresses ∧ segmentsLoop.Progresses) ∧
    (lineLoop.ComesTo () s ((), s.passLine) ∧ (∀ a, skipLoop.ComesTo a s (s.skip a)) ∧
      (∀ header, (attributesLoop header).ComesTo [] s (s.attributes header)) ∧
      itemsLoop.ComesTo [] s s.items ∧ segmentsLoop.ComesTo {} s s.segments) ∧
    (∀ segments, s.segments.1 = .ok segments →
      (s.segments.2.index = s.tokens.length ∨
        ∃ t, s.tokens[s.segments.2.index]? = some t ∧ t.kind = .endOfInput) ∧
      s.segments.2.segments = (.ok [], s.segments.2)) ∧
    ∀ t rejections, s.segments.1 = .error (.unexpected t rejections) →
      s.segments.2.segments = s.segments := by
  refine ⟨⟨fun a => skipLoop_computes.onward a hs, fun h => onward_attempt h hs,
      fun header => (attributesLoop_computes header).onward [] hs, onward_oneAttribute hs,
      onward_value hs, itemsLoop_computes.onward [] hs, segmentsLoop_computes.onward {} hs⟩,
    ⟨lineLoop_computes.progresses, skipLoop_computes.progresses,
      fun header => (attributesLoop_computes header).progresses, itemsLoop_computes.progresses,
      segmentsLoop_computes.progresses⟩,
    ⟨lineLoop_computes.comesTo () hs, fun a => skipLoop_computes.comesTo a hs,
      fun header => (attributesLoop_computes header).comesTo [] hs,
      itemsLoop_computes.comesTo [] hs, segmentsLoop_computes.comesTo {} hs⟩, ?_, ?_⟩
  · intro segments h
    have hk : s.segments.2.current.kind = .endOfInput := kind_of_read_deck_ok s h
    have hsegments := segmentsLoop_computes.onward {} hs
    exact ⟨index_of_kind (s := s.segments.2) hsegments.le_length hk, segments_of_kind hk⟩
  · intro t rejections h
    obtain ⟨hcurrent, hrejections, hk⟩ := unexpected_of_read_deck s h
    rw [← segments] at hcurrent
    rw [segments_of_unexpected (hcurrent ▸ hk), hcurrent, ← hrejections, ← h]

/-- A segment, the end of the deck, and a word behind it all the same. -/
def endInTheMiddle : Stream where
  tokens := [⟨.header .segm, "SEGM", 0, 9⟩, ⟨.key, "NAME", 0, 14⟩, ⟨.equals, "=", 0, 18⟩,
    ⟨.identifier, "A", 0, 19⟩, ⟨.endOfLine, "", 0, 20⟩, ⟨.endOfInput, "", 0, 20⟩,
    ⟨.identifier, "B", 1, 9⟩]

/-- The same, to be read from the word on. -/
def wordAtTheEnd : Stream := { endInTheMiddle with index := 6 }

theorem reading_ends_endInTheMiddle :
    endInTheMiddle.segments.1 = .ok [⟨[⟨"NAME", "A"⟩], [], [], []⟩] ∧
      endInTheMiddle.segments.2.segments = (.ok [], endInTheMiddle.segments.2) ∧
      wordAtTheEnd.segments.1 = .error (.unexpected ⟨.identifier, "B", 1, 9⟩
        (Deck.rejections ⟨.identifier, "B", 1, 9⟩)) ∧
      wordAtTheEnd.segments.2.segments = wordAtTheEnd.segments := by
  have hended : endInTheMiddle.segments.1 = .ok [⟨[⟨"NAME", "A"⟩], [], [], []⟩] := rfl
  have hword : wordAtTheEnd.segments.1 = .error (.unexpected ⟨.identifier, "B", 1, 9⟩
      (Deck.rejections ⟨.identifier, "B", 1, 9⟩)) := rfl
  obtain ⟨-, -, -, hok, -⟩ := reading_ends endInTheMiddle (by decide)
  obtain ⟨-, -, -, -, hunexpected⟩ := reading_ends wordAtTheEnd (by decide)
  exact ⟨hended, (hok _ hended).2, hword, hunexpected _ _ hword⟩

end Stream

end CardDeck
