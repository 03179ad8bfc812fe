import CardDeck.Proofs.Deck.Run
import CardDeck.Proofs.LineEnds

/-! # Faults of records point at tokens

Whatever is wrong with the records of a deck, the fault points at one of its tokens, and what it
says of that token is so: `Decoder.exists_fault_of_segments_eq_error`.

A reader holds on to a token only for the header of the record that it is in (`Deck.HeaderIn`), and
every other fault is of the token at hand. The end of the deck is never at hand with a fault, since
the reader only comes to it behind the end of a line. -/

namespace CardDeck

/-- Why a token is no value, no item of a list or nothing that may follow an item. -/
inductive Record.ValueReason (t : Token) : String → Prop
  | value (ht : t.kind ∉ [.identifier, .key, .openParen]) :
      ValueReason t ("expected identifier or \x27(\x27, got " ++ t.describe)
  | empty (ht : t.kind = .closeParen) : ValueReason t "empty parenthesized list"
  | item (ht : t.kind ≠ .identifier) :
      ValueReason t ("expected identifier in list, got " ++ t.describe)
  | separator (ht : t.kind ∉ [.comma, .closeParen]) :
      ValueReason t ("expected \x27,\x27 or \x27)\x27, got " ++ t.describe)

/-- What a fault says of the token that it points at. -/
def RecordFault.Justified : RecordFault → Prop
  | .unexpected t rejections =>
    t.kind ∈ [.key, .identifier, .equals, .comma, .openParen, .closeParen] ∧
      rejections = Deck.rejections t
  | .badValue t reason => Record.ValueReason t reason
  | .badKey t => t.kind ≠ .key
  | .missingEquals t _ => t.kind ≠ .equals
  | .noAttributes t header => (∃ h, t.kind = .header h) ∧ header = t.text
  | .orphaned t => ∃ h, t.kind = .header h ∧ h ≠ .segm

/-- The fault points at the token, and what it says of it is so. -/
structure RecordFault.PointsAt (fault : RecordFault) (t : Token) : Prop where
  token_eq : fault.token = t
  justified : fault.Justified

variable {t header : Token} {fault : RecordFault}

/-! ### Records -/

namespace Record

/-- What is left unread is what its fault says it is. -/
theorem ValueState.pointsAt_refusal {state : ValueState} (h : state.accept t = none) :
    (state.refusal t).PointsAt t := by
  cases state with
  | start =>
    refine ⟨rfl, .value fun ht => ?_⟩
    simp only [List.mem_cons, List.not_mem_nil, or_false] at ht
    rcases ht with ht | ht | ht <;> simp [accept, ht] at h
  | item items =>
    rw [refusal]
    split
    · next hempty => exact ⟨rfl, .empty hempty.1⟩
    · refine ⟨rfl, .item fun ht => ?_⟩
      simp [accept, ht] at h
  | separator items =>
    refine ⟨rfl, .separator fun ht => ?_⟩
    simp only [List.mem_cons, List.not_mem_nil, or_false] at ht
    rcases ht with ht | ht <;> simp [accept, ht] at h

theorem AttributeState.pointsAt_refusal {state : AttributeState} (h : state.accept t = none) :
    (state.refusal t).PointsAt t := by
  cases state with
  | key =>
    refine ⟨rfl, fun ht => ?_⟩
    rw [accept, if_pos ht] at h
    cases h
  | equals key =>
    refine ⟨rfl, fun ht => ?_⟩
    rw [accept, if_pos ht] at h
    cases h
  | value key state =>
    rw [accept] at h
    split at h
    · next hvalue => exact ValueState.pointsAt_refusal hvalue
    · cases h
    · cases h

theorem AttributesState.pointsAt_refusal {s : AttributesState} (h : s.accept header t = none) :
    (s.refusal t).PointsAt t := by
  have hwithin {found : Attributes} {state : AttributeState}
      (h : acceptWithin found state t = none) : state.accept t = none := by
    rw [acceptWithin] at h
    split at h
    · assumption
    · cases h
    · cases h
    · cases h
  rcases s with ⟨found, _ | state⟩
  · simp only [accept] at h
    split at h
    · split at h
      · cases h
      · cases h
    · cases h
    · exact AttributeState.pointsAt_refusal (hwithin h)
  · exact AttributeState.pointsAt_refusal (hwithin h)

end Record

/-- Only a leaf record cannot be added, and it is its header that has no segment to go to. -/
theorem Assembly.pointsAt_of_attach {a : Assembly} {attributes : Attributes} {kind : Header}
    (hkind : header.kind = .header kind) (h : a.attach header attributes = .error fault) :
    fault.PointsAt header := by
  have hleaf : kind ≠ .segm := by
    rintro rfl
    simp [attach, hkind] at h
  rw [eq_orphaned_of_attach h]
  exact ⟨rfl, kind, hkind, hleaf⟩

/-! ### Decks -/

namespace Deck

variable {d next d' : Deck} {all ts : List Token}

/-- Where the reader is in a record, the header of it is among the tokens. -/
def HeaderIn (all : List Token) (d : Deck) : Prop :=
  ∀ header state, d.place = .record header state → header ∈ all ∧ ∃ h, header.kind = .header h

theorem Moves.headerIn (h : d.Moves t next) (ht : t ∈ all) (hd : d.HeaderIn all) :
    next.HeaderIn all := by
  cases h with
  | blank | label | directive | ignored | endOfDirective | whole =>
    intro header state hplace
    cases hplace
  | header hk =>
    rintro _ _ ⟨⟩
    exact ⟨ht, _, hk⟩
  | within =>
    rintro _ _ ⟨⟩
    exact hd _ _ rfl

theorem Reaches.headerIn (h : d.Reaches ts d') (hts : ∀ t ∈ ts, t ∈ all)
    (hd : d.HeaderIn all) : d'.HeaderIn all := by
  induction h with
  | nil => exact hd
  | cons hmoves _ ih =>
    obtain ⟨ht, hts⟩ := List.forall_mem_cons.1 hts
    exact ih hts (hmoves.headerIn ht hd)

/-- A fault is of the token at hand or of the header of the record. -/
theorem Refuses.pointsAt (h : d.Refuses t fault) (ht : t ∈ all) (hd : d.HeaderIn all) :
    ∃ u ∈ all, fault.PointsAt u := by
  cases h with
  | statement hk => exact ⟨t, ht, rfl, hk, rfl⟩
  | within hnone => exact ⟨t, ht, Record.AttributesState.pointsAt_refusal hnone⟩
  | @whole _ _ header _ _ hdone =>
    obtain ⟨hmem, hkind⟩ := hd _ _ rfl
    rw [(Record.AttributesState.eq_of_accept_done_error hdone).2.2]
    exact ⟨header, hmem, rfl, hkind, rfl⟩
  | @orphaned _ _ header _ _ _ _ hattach =>
    obtain ⟨hmem, kind, hkind⟩ := hd _ _ rfl
    exact ⟨header, hmem, Assembly.pointsAt_of_attach hkind hattach⟩

end Deck

/-- Where the last token is the end of a line, a fault points at a token, and not past the last. -/
theorem Segment.exists_pointsAt_of_ofTokens {ts : List Token} (hends : Reading.EndsLine ts)
    (h : ofTokens ts = .error fault) : ∃ t ∈ ts, fault.PointsAt t := by
  rcases Deck.reaches_or_refuses {} hends.kind_ne with
    ⟨d, hreaches⟩ | ⟨us, t, vs, d, fault', rfl, hreaches, hrefuses⟩
  · obtain ⟨before, p, rfl⟩ := hends.last
    rw [hreaches.ofTokens_eq_ok (hreaches.place_eq_between rfl)] at h
    cases h
  · rw [hreaches.ofTokens_eq_error hrefuses] at h
    obtain rfl := Except.error.inj h
    have hstart : ({} : Deck).HeaderIn (us ++ t :: vs) := by
      intro header state hplace
      cases hplace
    exact hrefuses.pointsAt (List.mem_append_right us List.mem_cons_self)
      (hreaches.headerIn (fun u hu => List.mem_append_left _ hu) hstart)

/-- Where a deck has tokens and its records are refused, the fault points at one of the tokens,
which is not the end of the deck, and it is noted with the place of that token. What it says of the
token is so, and a statement that starts with no header has been matched against all of them in
order. -/
theorem Decoder.exists_fault_of_segments_eq_error {d : Decoder} {text : List Char}
    {found : List Token} {fault : Fault} (htokens : d.tokens text = .ok found)
    (h : d.segments text = .error fault) :
    ∃ f : RecordFault, fault = .record f ∧ f.token ∈ found ∧ f.token.kind ≠ .endOfInput ∧
      fault.notice.line? = some f.token.position.line ∧
      fault.notice.column? = some f.token.position.column ∧ f.Justified ∧
      ∀ t rejections, f = .unexpected t rejections →
        rejections.map (·.header) = ["SEGM", "FIELD", "LCHILD", "XDFLD"] := by
  have hends := endsLine_of_tokens htokens
  rw [segments_of_tokens htokens] at h
  cases hread : Segment.ofTokens found with
  | ok segments =>
    rw [hread] at h
    cases h
  | error f =>
    rw [hread] at h
    obtain rfl := Except.error.inj h
    obtain ⟨t, ht, rfl, hjustified⟩ := Segment.exists_pointsAt_of_ofTokens hends hread
    refine ⟨f, rfl, ht, hends.kind_ne _ ht, rfl, rfl, hjustified, ?_⟩
    rintro t rejections rfl
    rw [hjustified.2]
    rfl

/-- A field behind a label, where no segment is open. -/
def Decoder.orphanedField : List Char :=
  "LABEL".toList ++ List.replicate 4 ' ' ++ "FIELD NAME=B".toList ++ List.replicate 59 ' '

theorem Decoder.exists_fault_of_segments_orphanedField :
    ∃ found f, (⟨.standard, true⟩ : Decoder).tokens orphanedField = .ok found ∧
      (⟨.standard, true⟩ : Decoder).segments orphanedField = .error (.record f) ∧
      f.token ∈ found ∧ f.Justified := by
  have hsegments : (⟨.standard, true⟩ : Decoder).segments orphanedField =
      .error (.record (.orphaned ⟨.header .field, "FIELD", 0, 9⟩)) := by
    decide +kernel
  cases htokens : (⟨.standard, true⟩ : Decoder).tokens orphanedField with
  | error fault =>
    rw [segments_of_tokens_eq_error htokens] at hsegments
    cases hsegments
  | ok found =>
    obtain ⟨f, hf, hmem, -, -, -, hjustified, -⟩ :=
      exists_fault_of_segments_eq_error htokens hsegments
    exact ⟨found, f, rfl, hsegments.trans (congrArg Except.error hf), hmem, hjustified⟩

end CardDeck
