import CardDeck.Proofs.Deck.Run

/-! # What a directive is about

Of a directive nothing is read but where it ends. Wherever the reader stands when it comes upon one,
it either passes the whole line or refuses the word that the directive starts with
(`Deck.moves_or_refuses_directive`), so what comes behind that word on the line is never looked at:
`Segment.ofTokens_congr_operands`. -/

namespace CardDeck

variable {t s e last : Token} {ts us us' vs : List Token}

/-- No record goes on with a directive. -/
theorem Record.AttributesState.accept_directive (header : Token) (state : AttributesState)
    (hs : s.kind = .directive) : state.accept header s = none := by
  have hwithin (found : Attributes) (state : AttributeState) : acceptWithin found state s = none :=
    Deck.acceptWithin_eq_none found state (by simp [hs])
  rcases state with ⟨found, _ | state⟩
  · simp [accept, hs, hwithin]
  · exact hwithin found state

namespace Deck

/-- Wherever the reader stands, it refuses the first word of a directive, or passes over what comes
behind it. -/
theorem moves_or_refuses_directive (d : Deck) (hs : s.kind = .directive) :
    (∃ a, d.Moves s ⟨a, .directive⟩) ∨ ∃ fault, d.Refuses s fault := by
  rcases d with ⟨a, _ | _ | ⟨header, state⟩⟩
  · exact .inl ⟨_, .directive hs⟩
  · exact .inl ⟨_, .ignored (by simp [hs]) (by simp [hs])⟩
  · exact .inr ⟨_, .within (state.accept_directive header hs)⟩

/-- Whatever stands in a directive, it ends where its line does. -/
theorem reaches_of_directive (a : Assembly)
    (hus : ∀ u ∈ us, u.kind ≠ .endOfLine ∧ u.kind ≠ .endOfInput) (he : e.kind = .endOfLine) :
    Reaches ⟨a, .directive⟩ (us ++ [e]) ⟨a, .between⟩ := by
  induction us with
  | nil => exact .cons (.endOfDirective he) .nil
  | cons u us ih =>
    obtain ⟨⟨hu, hlast⟩, hus⟩ := List.forall_mem_cons.1 hus
    exact .cons (.ignored hu hlast) (ih hus)

/-- What is read from a directive on does not depend on what stands in it. -/
theorem read_congr_operands (d : Deck) (hs : s.kind = .directive) (he : e.kind = .endOfLine)
    (hus : ∀ u ∈ us, u.kind ≠ .endOfLine ∧ u.kind ≠ .endOfInput)
    (hus' : ∀ u ∈ us', u.kind ≠ .endOfLine ∧ u.kind ≠ .endOfInput) :
    (d.read last (s :: (us ++ [e] ++ vs))).1 = (d.read last (s :: (us' ++ [e] ++ vs))).1 := by
  rcases d.moves_or_refuses_directive hs with ⟨a, hmoves⟩ | ⟨fault, hrefuses⟩
  · have hline {us : List Token} (hus : ∀ u ∈ us, u.kind ≠ .endOfLine ∧ u.kind ≠ .endOfInput) :
        d.read last (s :: (us ++ [e] ++ vs)) = read last ⟨a, .between⟩ vs := by
      rw [read, hmoves.accept_eq]
      exact (reaches_of_directive a hus he).read_append
    rw [hline hus, hline hus']
  · rw [hrefuses.read_cons, hrefuses.read_cons]

/-- Where two decks come to the same from wherever the reader stands, they do so behind the same
tokens, whatever these are. -/
theorem read_append_congr (h : ∀ d : Deck, (d.read last us).1 = (d.read last vs).1) (d : Deck)
    (ts : List Token) : (d.read last (ts ++ us)).1 = (d.read last (ts ++ vs)).1 := by
  induction ts generalizing d with
  | nil => exact h d
  | cons t ts ih =>
    rw [List.cons_append, List.cons_append, read, read]
    cases d.accept t with
    | none => rfl
    | some outcome =>
      cases outcome with
      | error fault => rfl
      | ok next => exact ih next

end Deck

/-- What comes behind the first word of a directive, up to the end of the line, does not matter to
the segments, nor to the fault that there is for them. The deck may be at any place before the
directive, also in the middle of a record or of another directive. -/
theorem Segment.ofTokens_congr_operands (ts : List Token) (vs : List Token)
    (hs : s.kind = .directive) (he : e.kind = .endOfLine)
    (hus : ∀ u ∈ us, u.kind ≠ .endOfLine ∧ u.kind ≠ .endOfInput)
    (hus' : ∀ u ∈ us', u.kind ≠ .endOfLine ∧ u.kind ≠ .endOfInput) :
    ofTokens (ts ++ [s] ++ us ++ [e] ++ vs) = ofTokens (ts ++ [s] ++ us' ++ [e] ++ vs) := by
  have hend (us : List Token) :
      Token.endAfter (ts ++ [s] ++ us ++ [e] ++ vs) = Token.endAfter ([e] ++ vs) := by
    rw [List.append_assoc]
    exact Token.endAfter_append _ (List.cons_ne_nil e vs)
  have hsplit (us : List Token) :
      ts ++ [s] ++ us ++ [e] ++ vs = ts ++ s :: (us ++ [e] ++ vs) := by
    simp
  rw [ofTokens, ofTokens, hend, hend, hsplit, hsplit]
  exact Deck.read_append_congr (fun d => d.read_congr_operands hs he hus hus') {} ts

namespace Deck

/-- A directive behind other tokens, and the record of a segment behind its line. -/
def directiveBehind (front operands : List Token) : List Token :=
  front ++ [⟨.directive, "DBD", 1, 9⟩] ++ operands ++ [.endOfLine ⟨1, 80⟩] ++
    [⟨.header .segm, "SEGM", 2, 9⟩, ⟨.key, "NAME", 2, 15⟩, ⟨.equals, "=", 2, 19⟩,
      ⟨.identifier, "A", 2, 20⟩, .endOfLine ⟨2, 80⟩]

/-- The record of a segment up to the first item of a list. -/
def openList : List Token :=
  [⟨.header .segm, "SEGM", 0, 9⟩, ⟨.key, "PTR", 0, 15⟩, ⟨.equals, "=", 0, 18⟩,
    ⟨.openParen, "(", 0, 19⟩]

/-- Operands that no attributes could start with. -/
def strayOperands : List Token := [⟨.closeParen, ")", 1, 15⟩, ⟨.header .field, "FIELD", 1, 16⟩]

end Deck

/-- Between statements the directive is passed over, and in the middle of a list it is refused. -/
theorem Segment.ofTokens_congr_operands_directiveBehind :
    (ofTokens (Deck.directiveBehind [] []) = .ok [⟨[⟨"NAME", "A"⟩], [], [], []⟩] ∧
      ofTokens (Deck.directiveBehind [] Deck.strayOperands) =
        ofTokens (Deck.directiveBehind [] [])) ∧
    (∃ reason, ofTokens (Deck.directiveBehind Deck.openList []) =
        .error (.badValue ⟨.directive, "DBD", 1, 9⟩ reason)) ∧
      ofTokens (Deck.directiveBehind Deck.openList Deck.strayOperands) =
        ofTokens (Deck.directiveBehind Deck.openList []) := by
  have hcongr (front : List Token) :
      ofTokens (Deck.directiveBehind front Deck.strayOperands) =
        ofTokens (Deck.directiveBehind front []) :=
    ofTokens_congr_operands front _ rfl rfl (by decide) (by decide)
  exact ⟨⟨rfl, hcongr []⟩, ⟨_, rfl⟩, hcongr Deck.openList⟩

end CardDeck
