import CardDeck.Proofs.Deck

/-! # Runs of the reader of decks

A reader of decks moves on with a token, or it refuses the token. `Deck.Moves` and `Deck.Refuses`
say when, and `Deck.moves_or_refuses` that there is nothing else; `Deck.reaches_or_refuses` is what
this comes to for a run.

What comes behind a token that is refused does not matter, and behind the end of a line the reader
is between statements, where a deck may end and another line may follow. So a further end of a line
changes nothing: `Segment.ofTokens_insert_endOfLine`. -/

namespace CardDeck

/-- How many tokens have been passed from the one that shows the fault on. Only the end of a line
has been passed then, where it completes a record that has the fault. -/
def RecordFault.passed : RecordFault → Nat
  | .noAttributes .. | .orphaned _ => 1
  | _ => 0

theorem RecordFault.passed_le_one (fault : RecordFault) : fault.passed ≤ 1 := by
  cases fault <;> simp [passed]

namespace Record

variable {t : Token}

/-- A token that is left unread has not been passed, and the fault is of that token. -/
theorem ValueState.refusal_spec (state : ValueState) :
    (state.refusal t).token = t ∧ (state.refusal t).passed = 0 := by
  cases state with
  | start | separator items => exact ⟨rfl, rfl⟩
  | item items =>
    rw [refusal]
    split
    · exact ⟨rfl, rfl⟩
    · exact ⟨rfl, rfl⟩

theorem AttributesState.refusal_spec (s : AttributesState) :
    (s.refusal t).token = t ∧ (s.refusal t).passed = 0 := by
  rcases s with ⟨found, _ | _ | _ | ⟨key, state⟩⟩
  · exact ⟨rfl, rfl⟩
  · exact ⟨rfl, rfl⟩
  · exact ⟨rfl, rfl⟩
  · exact state.refusal_spec

end Record

namespace Deck

/-- The token is read, and this is the deck as far as it has been read then. -/
inductive Moves : Deck → Token → Deck → Prop
  | blank {a : Assembly} {t : Token} (ht : t.kind = .endOfLine) :
      Moves ⟨a, .between⟩ t ⟨a, .between⟩
  | label {a : Assembly} {t : Token} (ht : t.kind = .label) :
      Moves ⟨a, .between⟩ t ⟨a.flush, .between⟩
  | directive {a : Assembly} {t : Token} (ht : t.kind = .directive) :
      Moves ⟨a, .between⟩ t ⟨a.flush, .directive⟩
  | ignored {a : Assembly} {t : Token} (ht : t.kind ≠ .endOfLine) (hlast : t.kind ≠ .endOfInput) :
      Moves ⟨a, .directive⟩ t ⟨a, .directive⟩
  | endOfDirective {a : Assembly} {t : Token} (ht : t.kind = .endOfLine) :
      Moves ⟨a, .directive⟩ t ⟨a, .between⟩
  | header {a : Assembly} {t : Token} {header : Header} (ht : t.kind = .header header) :
      Moves ⟨a, .between⟩ t ⟨a, .record t {}⟩
  | within {a : Assembly} {t header : Token} {state state' : Record.AttributesState}
      (ht : state.accept header t = some (.more state')) :
      Moves ⟨a, .record header state⟩ t ⟨a, .record header state'⟩
  | whole {a b : Assembly} {t header : Token} {state : Record.AttributesState}
      {attributes : Attributes} (ht : state.accept header t = some (.done (.ok attributes)))
      (hattach : a.attach header attributes = .ok b) :
      Moves ⟨a, .record header state⟩ t ⟨b, .between⟩

/-- The token has a fault: it cannot be read, or it completes a record that has the fault. -/
inductive Refuses : Deck → Token → RecordFault → Prop
  | statement {a : Assembly} {t : Token}
      (ht : t.kind ∈ [.key, .identifier, .equals, .comma, .openParen, .closeParen]) :
      Refuses ⟨a, .between⟩ t (.unexpected t (rejections t))
  | within {a : Assembly} {t header : Token} {state : Record.AttributesState}
      (ht : state.accept header t = none) : Refuses ⟨a, .record header state⟩ t (state.refusal t)
  | whole {a : Assembly} {t header : Token} {state : Record.AttributesState} {fault : RecordFault}
      (ht : state.accept header t = some (.done (.error fault))) :
      Refuses ⟨a, .record header state⟩ t fault
  | orphaned {a : Assembly} {t header : Token} {state : Record.AttributesState}
      {attributes : Attributes} {fault : RecordFault}
      (ht : state.accept header t = some (.done (.ok attributes)))
      (hattach : a.attach header attributes = .error fault) :
      Refuses ⟨a, .record header state⟩ t fault

/-- The tokens take the reader from one deck to the other. -/
inductive Reaches : Deck → List Token → Deck → Prop
  | nil {d : Deck} : Reaches d [] d
  | cons {d next d' : Deck} {t : Token} {ts : List Token} (ht : d.Moves t next)
      (hts : Reaches next ts d') : Reaches d (t :: ts) d'

variable {d next d' : Deck} {t e last : Token} {ts us vs : List Token} {fault : RecordFault}

theorem Moves.accept_eq (h : d.Moves t next) : d.accept t = some (.ok next) := by
  cases h with
  | blank ht | label ht | directive ht | endOfDirective ht | header ht => simp [accept, pass, ht]
  | ignored ht hlast => simp [accept, pass]
  | within ht => simp [accept, Record.attributesReader, ht]
  | whole ht hattach =>
    simp only [accept, Record.attributesReader, ht, hattach]
    rfl

/-- Refusing ends the reading, with the token left unread or behind it. -/
theorem Refuses.read_cons (h : d.Refuses t fault) :
    d.read last (t :: ts) = (.error fault, (t :: ts).drop fault.passed) := by
  cases h with
  | @statement a _ ht =>
    have haccept : accept ⟨a, .between⟩ t = none := by
      simp only [List.mem_cons, List.not_mem_nil, or_false] at ht
      rcases ht with ht | ht | ht | ht | ht | ht <;> simp [accept, pass, ht]
    have hlast : t.kind ≠ .endOfInput := by
      intro hlast
      rw [hlast] at ht
      simp at ht
    rw [read, haccept]
    exact Prod.ext (if_neg hlast) rfl
  | @within _ _ _ state ht =>
    simp only [read, accept, Record.attributesReader, ht, state.refusal_spec.2]
    rfl
  | whole ht =>
    simp only [read, accept, Record.attributesReader, ht]
    rw [(Record.AttributesState.eq_of_accept_done_error ht).2.2]
    rfl
  | orphaned ht hattach =>
    simp only [read, accept, Record.attributesReader, ht, hattach]
    rw [Assembly.eq_orphaned_of_attach hattach]
    rfl

/-- Only the end of the deck can be left unread without a fault. -/
theorem moves_or_refuses (d : Deck) (ht : t.kind ≠ .endOfInput) :
    (∃ next, d.Moves t next) ∨ ∃ fault, d.Refuses t fault := by
  rcases d with ⟨a, _ | _ | ⟨header, state⟩⟩
  · cases hk : t.kind with
    | endOfLine => exact .inl ⟨_, .blank hk⟩
    | endOfInput => exact absurd hk ht
    | header h => exact .inl ⟨_, .header hk⟩
    | label => exact .inl ⟨_, .label hk⟩
    | directive => exact .inl ⟨_, .directive hk⟩
    | _ => exact .inr ⟨_, .statement (by simp [hk])⟩
  · by_cases hk : t.kind = .endOfLine
    · exact .inl ⟨_, .endOfDirective hk⟩
    · exact .inl ⟨_, .ignored hk ht⟩
  · rcases haccept : state.accept header t with _ | next | fault | attributes
    · exact .inr ⟨_, .within haccept⟩
    · exact .inl ⟨_, .within haccept⟩
    · exact .inr ⟨_, .whole haccept⟩
    · cases hattach : a.attach header attributes with
      | error fault => exact .inr ⟨_, .orphaned haccept hattach⟩
      | ok b => exact .inl ⟨_, .whole haccept hattach⟩

theorem reaches_or_refuses (d : Deck) (hts : ∀ t ∈ ts, t.kind ≠ .endOfInput) :
    (∃ d', d.Reaches ts d') ∨
      ∃ us t vs d' fault, ts = us ++ t :: vs ∧ d.Reaches us d' ∧ d'.Refuses t fault := by
  induction ts generalizing d with
  | nil => exact .inl ⟨d, .nil⟩
  | cons t ts ih =>
    obtain ⟨ht, hts⟩ := List.forall_mem_cons.1 hts
    rcases d.moves_or_refuses ht with ⟨next, hmoves⟩ | ⟨fault, hrefuses⟩
    · rcases ih next hts with ⟨d', hreaches⟩ | ⟨us, u, vs, d', fault, rfl, hreaches, hrefuses⟩
      · exact .inl ⟨d', .cons hmoves hreaches⟩
      · exact .inr ⟨t :: us, u, vs, d', fault, rfl, .cons hmoves hreaches, hrefuses⟩
    · exact .inr ⟨[], t, ts, d, fault, rfl, .nil, hrefuses⟩

theorem Reaches.read_append (h : d.Reaches us d') :
    d.read last (us ++ vs) = d'.read last vs := by
  induction h with
  | nil => rfl
  | cons ht _ ih =>
    rw [List.cons_append, read, ht.accept_eq]
    exact ih

theorem Reaches.exists_moves_of_concat (h : d.Reaches (ts ++ [t]) d') :
    ∃ next, d.Reaches ts next ∧ next.Moves t d' := by
  induction ts generalizing d with
  | nil =>
    cases h with
    | cons ht hts =>
      cases hts
      exact ⟨d, .nil, ht⟩
  | cons u ts ih =>
    cases h with
    | cons hu hts =>
      obtain ⟨next, hreaches, ht⟩ := ih hts
      exact ⟨next, .cons hu hreaches, ht⟩

/-! ### The end of a line -/

/-- No value and no attribute goes on with what is no part of one. -/
theorem acceptWithin_eq_none (found : Attributes) (state : Record.AttributeState)
    (ht : t.kind ∉ [.key, .equals, .identifier, .openParen, .closeParen, .comma]) :
    Record.AttributesState.acceptWithin found state t = none := by
  simp only [List.mem_cons, List.not_mem_nil, or_false, not_or] at ht
  rcases state with _ | _ | ⟨key, _ | _ | _⟩ <;>
    simp [Record.AttributesState.acceptWithin, Record.AttributeState.accept,
      Record.ValueState.accept, ht]

/-- Behind the end of a line a statement is about to start. -/
theorem Moves.place_eq_between (h : d.Moves e next) (he : e.kind = .endOfLine) :
    next.place = .between := by
  cases h with
  | blank | label | endOfDirective | whole => rfl
  | directive ht | header ht =>
    rw [he] at ht
    cases ht
  | ignored ht => exact absurd he ht
  | @within _ _ header state _ ht =>
    rcases state with ⟨found, _ | state⟩
    · by_cases hfound : found = []
      · simp [Record.AttributesState.accept, he, hfound] at ht
      · simp [Record.AttributesState.accept, he, hfound] at ht
    · have hnone := (acceptWithin_eq_none found state (by simp [he])).symm.trans ht
      cases hnone

theorem Reaches.place_eq_between (h : d.Reaches (ts ++ [e]) d') (he : e.kind = .endOfLine) :
    d'.place = .between := by
  obtain ⟨next, -, hmoves⟩ := h.exists_moves_of_concat
  exact hmoves.place_eq_between he

/-- At the start of a deck a statement is about to start, too. -/
theorem Reaches.place_eq_between_of_getLast? (h : ({} : Deck).Reaches ts d)
    (hline : ∀ t ∈ ts.getLast?, t.kind = .endOfLine) : d.place = .between := by
  rcases List.eq_nil_or_concat ts with rfl | ⟨ts, e, rfl⟩
  · cases h
    rfl
  · rw [List.concat_eq_append] at h hline
    exact h.place_eq_between (hline e (by simp))

theorem read_nil_of_between (hplace : d.place = .between) (hlast : last.kind = .endOfInput) :
    (d.read last []).1 = .ok d.assembly.flush.closed := by
  rw [read, outcome, hplace]
  exact if_pos hlast

theorem read_endOfLine_of_between (hplace : d.place = .between) (he : e.kind = .endOfLine) :
    d.read last (e :: ts) = d.read last ts := by
  have haccept : d.accept e = some (.ok d) := by
    obtain ⟨a, place⟩ := d
    obtain rfl : place = .between := hplace
    simp [accept, pass, he]
  rw [read, haccept]

/-! ### Whole decks -/

/-- Between statements a deck may end. -/
theorem Reaches.ofTokens_eq_ok (h : ({} : Deck).Reaches ts d) (hplace : d.place = .between) :
    Segment.ofTokens ts = .ok d.assembly.flush.closed := by
  rw [Segment.ofTokens, ← List.append_nil ts, h.read_append, read_nil_of_between hplace rfl]

/-- Whatever comes behind it, a deck has the fault of the first token that is refused. -/
theorem Reaches.ofTokens_eq_error (h : ({} : Deck).Reaches us d) (ht : d.Refuses t fault) :
    Segment.ofTokens (us ++ t :: vs) = .error fault := by
  rw [Segment.ofTokens, h.read_append, ht.read_cons]

end Deck

/-- The end of a deck is told from its last token alone. -/
theorem Token.endAfter_append (ts : List Token) (hne : us ≠ []) :
    endAfter (ts ++ us) = endAfter us := by
  rw [endAfter, endAfter, List.getLast?_append, List.getLast?_eq_some_getLast hne, Option.some_or]

/-- Where a statement is about to start, at the start of the deck or behind the end of a line, the
end of a line says nothing. -/
theorem Segment.ofTokens_insert_endOfLine {ts : List Token} {e : Token} (us : List Token)
    (hts : ∀ t ∈ ts, t.kind ≠ .endOfInput) (hline : ∀ t ∈ ts.getLast?, t.kind = .endOfLine)
    (he : e.kind = .endOfLine) : ofTokens (ts ++ e :: us) = ofTokens (ts ++ us) := by
  rcases Deck.reaches_or_refuses {} hts with
    ⟨d, hreaches⟩ | ⟨front, t, behind, d, fault, rfl, hreaches, hrefuses⟩
  · have hplace := hreaches.place_eq_between_of_getLast? hline
    rw [ofTokens, ofTokens, hreaches.read_append, hreaches.read_append,
      Deck.read_endOfLine_of_between hplace he]
    by_cases hus : us = []
    · subst hus
      rw [Deck.read_nil_of_between hplace rfl, Deck.read_nil_of_between hplace rfl]
    · rw [List.append_cons, Token.endAfter_append _ hus, Token.endAfter_append _ hus]
  · rw [List.append_assoc, List.append_assoc, List.cons_append, List.cons_append,
      hreaches.ofTokens_eq_error hrefuses, hreaches.ofTokens_eq_error hrefuses]

/-- Behind the end of a line, another end of a line says nothing. -/
theorem Segment.ofTokens_concat_endOfLine {ts : List Token} {e e' : Token}
    (hts : ∀ t ∈ ts ++ [e], t.kind ≠ .endOfInput) (he : e.kind = .endOfLine)
    (he' : e'.kind = .endOfLine) : ofTokens (ts ++ [e] ++ [e']) = ofTokens (ts ++ [e]) := by
  have hline : ∀ t ∈ (ts ++ [e]).getLast?, t.kind = .endOfLine := by simpa using he
  rw [ofTokens_insert_endOfLine [] hts hline he', List.append_nil]

end CardDeck
