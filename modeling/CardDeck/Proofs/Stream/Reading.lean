import CardDeck.Proofs.Deck.Run
import CardDeck.Proofs.Stream.Loop

/-! # Streams and what they are read with

What a reader of a construct does with the rest of the tokens is told here from the next token, and
by what the stream does: it stays, or it goes on behind that token. So a construct is taken apart:
attributes are read one by one (`Stream.read_attributes_some`), a record is read by its attributes
(`Stream.read_deck_record`), and what comes before a record is read first
(`Stream.read_deck_skip`). -/

namespace CardDeck

namespace Deck

variable {a : Assembly} {d d' : Deck} {t : Token}

/-- What carries no record is read as such. -/
theorem accept_of_pass (h : d.pass t = some d') : d.accept t = some (.ok d') := by
  obtain ⟨a, _ | _ | ⟨header, state⟩⟩ := d
  · simp [accept, h]
  · simp [accept, h]
  · simp [pass] at h

/-- What carries no record does not lead into one. -/
theorem place_of_pass (h : d.pass t = some d') :
    d'.place = .between ∨ d'.place = .directive := by
  rw [pass] at h
  split at h <;> grind

/-- Only the end of the deck is no part of a directive. -/
theorem kind_of_pass_directive (h : pass ⟨a, .directive⟩ t = none) : t.kind = .endOfInput := by
  cases hk : t.kind <;> simp_all [pass]

end Deck

namespace Stream

/-- A stream is read from its end backwards. -/
@[elab_as_elim]
theorem rest_induction {motive : Stream → Prop} (s : Stream)
    (nil : ∀ s, s.rest = [] → motive s)
    (cons : ∀ s t ts, s.rest = t :: ts → motive s.advance → motive s) : motive s := by
  induction hrest : s.rest generalizing s with
  | nil => exact nil s hrest
  | cons t ts ih => exact cons s t ts hrest (ih s.advance (by simp [hrest]))

variable {s : Stream} {t header : Token} {ts : List Token}

/-! ### Readers -/

section Reader

variable {σ α : Type} {r : Reader σ α} {state state' : σ} {result : Except RecordFault α}

theorem read_reader_of_nil (h : s.rest = []) :
    s.read (r.read s.last state) = (.error (r.refusal state s.current), s) := by
  rw [current_of_rest_nil h]
  exact read_eq_self (by rw [h]; rfl)

theorem read_reader_of_none (h : r.accept state s.current = none) :
    s.read (r.read s.last state) = (.error (r.refusal state s.current), s) := by
  cases hrest : s.rest with
  | nil => exact read_reader_of_nil hrest
  | cons t ts =>
    rw [current_of_rest_cons hrest] at h ⊢
    refine read_eq_self ?_
    rw [hrest, Reader.read, h]

theorem read_reader_of_more (hrest : s.rest = t :: ts)
    (h : r.accept state t = some (.more state')) :
    s.read (r.read s.last state) = s.advance.read (r.read s.last state') := by
  refine read_eq_read_advance hrest ?_ (r.read_suffix _ _ _)
  rw [Reader.read, h]

theorem read_reader_of_done (hrest : s.rest = t :: ts)
    (h : r.accept state t = some (.done result)) :
    s.read (r.read s.last state) = (result, s.advance) := by
  rw [read_eq_read_advance (g := fun ts => (result, ts)) hrest ?_ (List.suffix_refl _)]
  · exact read_eq_self rfl
  · rw [Reader.read, h]

end Reader

/-! ### Attributes -/

section Attributes

open Record

variable {found : Attributes}

/-- Attributes are read on behind the one that has been started. -/
theorem read_attributes_some (s : Stream) (state : AttributeState) :
    s.read ((attributesReader header).read s.last ⟨found, some state⟩) =
      match s.read (attributeReader.read s.last state) with
      | (.error fault, s') => (.error fault, s')
      | (.ok a, s') => s'.read ((attributesReader header).read s.last ⟨found ++ [a], none⟩) := by
  induction s using rest_induction generalizing state with
  | nil s hrest =>
    rw [read_reader_of_nil hrest, read_reader_of_nil hrest]
    rfl
  | cons s t ts hrest ih =>
    have haccept : (attributesReader header).accept ⟨found, some state⟩ t =
        AttributesState.acceptWithin found state t := rfl
    rw [AttributesState.acceptWithin] at haccept
    cases hstep : state.accept t with
    | none =>
      rw [hstep] at haccept
      have ht := current_of_rest_cons hrest
      rw [read_reader_of_none (by rw [ht]; exact haccept),
        read_reader_of_none (r := attributeReader) (by rw [ht]; exact hstep)]
      rfl
    | some step =>
      rw [hstep] at haccept
      rcases step with state' | fault | a
      · rw [read_reader_of_more hrest haccept, read_reader_of_more (r := attributeReader) hrest hstep]
        exact ih state'
      · rw [read_reader_of_done hrest haccept, read_reader_of_done (r := attributeReader) hrest hstep]
      · rw [read_reader_of_more hrest haccept, read_reader_of_done (r := attributeReader) hrest hstep]

/-- What is neither the end of the line nor a comma starts an attribute. -/
theorem read_attributes_none (hline : s.current.kind ≠ .endOfLine)
    (hcomma : s.current.kind ≠ .comma) :
    s.read ((attributesReader header).read s.last ⟨found, none⟩) =
      s.read ((attributesReader header).read s.last ⟨found, some .key⟩) := by
  have hread : (attributesReader header).read s.last ⟨found, none⟩ s.rest =
      (attributesReader header).read s.last ⟨found, some .key⟩ s.rest := by
    cases hrest : s.rest with
    | nil => rfl
    | cons t ts =>
      rw [current_of_rest_cons hrest] at hline hcomma
      have haccept : (attributesReader header).accept ⟨found, none⟩ t =
          (attributesReader header).accept ⟨found, some .key⟩ t := by
        simp [attributesReader, AttributesState.accept]
      rw [Reader.read, Reader.read, haccept]
      rfl
  simp only [read, hread]

end Attributes

/-! ### Decks -/

section Deck

variable {a : Assembly} {d d' : Deck} {fault : RecordFault}

theorem read_deck_of_nil (h : s.rest = []) :
    s.read (Deck.read s.last d) = (d.outcome s.current, s) := by
  rw [current_of_rest_nil h]
  exact read_eq_self (by rw [h]; rfl)

theorem read_deck_of_none (h : d.accept s.current = none) :
    s.read (Deck.read s.last d) = (d.outcome s.current, s) := by
  cases hrest : s.rest with
  | nil => exact read_deck_of_nil hrest
  | cons t ts =>
    rw [current_of_rest_cons hrest] at h ⊢
    refine read_eq_self ?_
    rw [hrest, Deck.read, h]

theorem read_deck_of_ok (hrest : s.rest = t :: ts) (h : d.accept t = some (.ok d')) :
    s.read (Deck.read s.last d) = s.advance.read (Deck.read s.last d') := by
  refine read_eq_read_advance hrest ?_ (Deck.read_suffix _ _ _)
  rw [Deck.read, h]

theorem read_deck_of_error (hrest : s.rest = t :: ts) (h : d.accept t = some (.error fault)) :
    s.read (Deck.read s.last d) = (.error fault, s.advance) := by
  rw [read_eq_read_advance (g := fun ts => (.error fault, ts)) hrest ?_ (List.suffix_refl _)]
  · exact read_eq_self rfl
  · rw [Deck.read, h]

theorem read_skip_of_none (h : d.pass s.current = none) : s.read d.skip = (d.assembly, s) := by
  refine read_eq_self ?_
  cases hrest : s.rest with
  | nil => rfl
  | cons t ts =>
    rw [current_of_rest_cons hrest] at h
    rw [Deck.skip, h]

theorem read_skip_of_some (hrest : s.rest = t :: ts) (h : d.pass t = some d') :
    s.read d.skip = s.advance.read d'.skip := by
  refine read_eq_read_advance hrest ?_ (Deck.skip_suffix _ _)
  rw [Deck.skip, h]

/-- A record is read by its attributes, and the deck is read on with the record added. -/
theorem read_deck_record (s : Stream) (state : Record.AttributesState) :
    s.read (Deck.read s.last ⟨a, .record header state⟩) =
      match s.read ((Record.attributesReader header).read s.last state) with
      | (.error fault, s') => (.error fault, s')
      | (.ok attributes, s') =>
        match a.attach header attributes with
        | .error fault => (.error fault, s')
        | .ok b => s'.read (Deck.read s.last ⟨b, .between⟩) := by
  induction s using rest_induction generalizing state with
  | nil s hrest =>
    rw [read_deck_of_nil hrest, read_reader_of_nil hrest]
    rfl
  | cons s t ts hrest ih =>
    have ht := current_of_rest_cons hrest
    cases hstep : (Record.attributesReader header).accept state t with
    | none =>
      rw [read_deck_of_none (by simp [Deck.accept, ht, hstep]),
        read_reader_of_none (by rw [ht]; exact hstep)]
      rfl
    | some step =>
      rcases step with state' | fault | attributes
      · have haccept : Deck.accept ⟨a, .record header state⟩ t =
            some (.ok ⟨a, .record header state'⟩) := by simp [Deck.accept, hstep]
        rw [read_deck_of_ok hrest haccept, read_reader_of_more hrest hstep]
        exact ih state'
      · have haccept : Deck.accept ⟨a, .record header state⟩ t = some (.error fault) := by
          simp [Deck.accept, hstep]
        rw [read_deck_of_error hrest haccept, read_reader_of_done hrest hstep]
      · have haccept : Deck.accept ⟨a, .record header state⟩ t =
            some ((a.attach header attributes).map (⟨·, .between⟩)) := by
          simp [Deck.accept, hstep]
        rw [read_reader_of_done hrest hstep]
        cases hattach : a.attach header attributes with
        | error fault =>
          rw [hattach] at haccept
          simp only [hattach]
          exact read_deck_of_error hrest haccept
        | ok b =>
          rw [hattach] at haccept
          simp only [hattach]
          exact read_deck_of_ok hrest haccept

/-- Behind what comes before a record there is none of it. -/
theorem pass_skip (s : Stream) (hplace : d.place = .between ∨ d.place = .directive) :
    Deck.pass ⟨(s.read d.skip).1, .between⟩ (s.read d.skip).2.current = none := by
  induction s using rest_induction generalizing d with
  | nil s hrest =>
    have hskip : s.read d.skip = (d.assembly, s) := read_eq_self (by rw [hrest]; rfl)
    rw [hskip, current_of_rest_nil hrest]
    rfl
  | cons s t ts hrest ih =>
    cases hpass : d.pass t with
    | some d' =>
      rw [read_skip_of_some hrest hpass]
      exact ih (Deck.place_of_pass hpass)
    | none =>
      have ht := current_of_rest_cons hrest
      rw [read_skip_of_none (ht.symm ▸ hpass), ht]
      obtain ⟨a, place⟩ := d
      rcases hplace with h | h
      · obtain rfl : place = .between := h
        exact hpass
      · obtain rfl : place = .directive := h
        simp [Deck.pass, Deck.kind_of_pass_directive hpass]

/-- What comes before a record is read first. -/
theorem read_deck_skip (s : Stream) (hplace : d.place = .between ∨ d.place = .directive) :
    s.read (Deck.read s.last d) =
      (s.read d.skip).2.read (Deck.read s.last ⟨(s.read d.skip).1, .between⟩) := by
  induction s using rest_induction generalizing d with
  | nil s hrest =>
    have hskip : s.read d.skip = (d.assembly, s) := read_eq_self (by rw [hrest]; rfl)
    rw [hskip, read_deck_of_nil hrest, read_deck_of_nil hrest]
    obtain ⟨a, place⟩ := d
    rcases hplace with h | h
    · obtain rfl : place = .between := h
      rfl
    · obtain rfl : place = .directive := h
      rfl
  | cons s t ts hrest ih =>
    cases hpass : d.pass t with
    | some d' =>
      rw [read_skip_of_some hrest hpass, read_deck_of_ok hrest (Deck.accept_of_pass hpass)]
      exact ih (Deck.place_of_pass hpass)
    | none =>
      have ht := current_of_rest_cons hrest
      rw [read_skip_of_none (ht.symm ▸ hpass)]
      obtain ⟨a, place⟩ := d
      rcases hplace with h | h
      · obtain rfl : place = .between := h
        rfl
      · -- a directive goes on up to the end of the deck, and there a deck may end
        obtain rfl : place = .directive := h
        have hlast : t.kind = .endOfInput := Deck.kind_of_pass_directive hpass
        rw [read_deck_of_none (by simp [Deck.accept, ht, hpass, hlast]),
          read_deck_of_none (by simp [Deck.accept, Deck.pass, ht, hlast])]
        rfl

end Deck

end Stream

end CardDeck
