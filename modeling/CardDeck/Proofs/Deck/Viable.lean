import Mathlib.Data.List.Induction
import CardDeck.Proofs.Deck.Run
import CardDeck.Stream

/-! # Faults come as early as they can

`Deck.Place.Completes` says which tokens complete a deck at a place of the reader, in the words of
the grammar and with leaf records anywhere. A token that is read leads from what completes the deck
before it to what completes it behind (`Deck.Moves.completes_iff`), a token that is refused starts
nothing that does (`Deck.Refuses.not_completes`), and at every place there is something that does
(`Deck.Place.exists_completes`).

So the tokens before a fault are the start of some deck, and with the token that has the fault they
are the start of none: `Stream.stopsAt_of_segments`. -/

namespace CardDeck

/-- The tokens of a deck, in which leaf records may stand anywhere. -/
def Grammar.IsSentence (ts : List Token) : Prop := ∃ items, Items ts items

namespace Token

/-- Some token of this kind. -/
def ofKind (kind : Kind) : Token := ⟨kind, "", ⟨0, 0⟩⟩

/-- None of the tokens is the end of the deck. -/
def GoOn (ts : List Token) : Prop := ∀ t ∈ ts, t.kind ≠ .endOfInput

theorem GoOn.append {us vs : List Token} (hus : GoOn us) (hvs : GoOn vs) : GoOn (us ++ vs) :=
  List.forall_mem_append.2 ⟨hus, hvs⟩

theorem goOn_map_ofKind {kinds : List Kind} (h : .endOfInput ∉ kinds) :
    GoOn (kinds.map ofKind) := by
  rintro t ht hlast
  obtain ⟨kind, hkind, rfl⟩ := List.mem_map.1 ht
  exact h (hlast ▸ hkind)

theorem goOn_endOfLine : GoOn [ofKind .endOfLine] :=
  List.forall_mem_singleton.2 Kind.noConfusion

end Token

open Grammar Token

/-! ### Records can be completed -/

namespace Record

theorem ValueState.exists_valueFrom (state : ValueState) :
    ∃ us value, GoOn us ∧ ValueFrom state us value := by
  cases state with
  | start =>
    exact ⟨[.identifier].map ofKind, _, goOn_map_ofKind (by decide), .identifier rfl⟩
  | item items =>
    exact ⟨[.identifier, .closeParen].map ofKind, _, goOn_map_ofKind (by decide),
      _, _, [], rfl, rfl, .close rfl, rfl⟩
  | separator items =>
    exact ⟨[.closeParen].map ofKind, _, goOn_map_ofKind (by decide), [], .close rfl, rfl⟩

theorem AttributeState.exists_attributeFrom (state : AttributeState) :
    ∃ us a, GoOn us ∧ AttributeFrom state us a := by
  cases state with
  | key =>
    exact ⟨[.key, .equals, .identifier].map ofKind, ⟨_, _⟩, goOn_map_ofKind (by decide),
      _, _, _, rfl, rfl, rfl, rfl, .identifier rfl⟩
  | equals key =>
    exact ⟨[.equals, .identifier].map ofKind, ⟨_, _⟩, goOn_map_ofKind (by decide),
      _, _, rfl, rfl, rfl, .identifier rfl⟩
  | value key state =>
    obtain ⟨us, value, hus, hvalue⟩ := state.exists_valueFrom
    exact ⟨us, ⟨key, value⟩, hus, rfl, hvalue⟩

theorem AttributesState.exists_attributesFrom (s : AttributesState) :
    ∃ us attributes, GoOn us ∧ AttributesFrom s us attributes := by
  rcases s with ⟨found, _ | state⟩
  · obtain ⟨us, a, hus, k, e, vs, rfl, hk, -, he, hvalue⟩ :=
      AttributeState.key.exists_attributeFrom
    refine ⟨k :: e :: vs ++ [ofKind .endOfLine], found ++ [⟨k.text, a.value⟩],
      hus.append goOn_endOfLine, k :: e :: vs,
      ofKind .endOfLine, [⟨k.text, a.value⟩], rfl, ?_, rfl, rfl, by simp⟩
    have hlist := AttributeList.cons hk he hvalue .nil
    rwa [List.append_nil] at hlist
  · obtain ⟨us, a, hus, ha⟩ := state.exists_attributeFrom
    refine ⟨us ++ [ofKind .endOfLine], found ++ [a],
      hus.append goOn_endOfLine, us, _, a, rfl, ha, [],
      ofKind .endOfLine, [], rfl, .nil, rfl, (List.append_nil _).symm, by simp⟩

end Record

namespace Deck

variable {d next d' : Deck} {t header : Token} {ts us : List Token} {fault : RecordFault}

/-- The tokens complete a deck of which so much has been read. -/
def Place.Completes : Place → List Token → Prop
  | .between, ts => IsSentence ts
  | .directive, ts => RestOfDirective True IsSentence ts
  | .record _ state, ts =>
    ∃ us vs attributes, ts = us ++ vs ∧ Record.AttributesFrom state us attributes ∧ IsSentence vs

/-- At every place the deck can be completed with the end of a line. -/
theorem Place.exists_completes (place : Place) :
    ∃ rest e, GoOn rest ∧ e.kind = .endOfLine ∧ place.Completes (rest ++ [e]) := by
  have hnil : GoOn [] := List.forall_mem_nil _
  have hlast : IsSentence [ofKind .endOfLine] := ⟨[.blank], .blank rfl .nil⟩
  cases place with
  | between => exact ⟨[], ofKind .endOfLine, hnil, rfl, hlast⟩
  | directive =>
    exact ⟨[], ofKind .endOfLine, hnil, rfl, (restOfDirective_of_endOfLine rfl).2 ⟨[], .nil⟩⟩
  | record header state =>
    obtain ⟨us, attributes, hus, hattributes⟩ := state.exists_attributesFrom
    exact ⟨us, ofKind .endOfLine, hus, rfl, us, _, attributes, rfl, hattributes, hlast⟩

theorem completes_record_cons_iff {state : Record.AttributesState} :
    (Place.record header state).Completes (t :: ts) ↔
      ∃ us vs attributes, ts = us ++ vs ∧
        Reader.Allows Record.AttributesFrom us attributes (state.accept header t) ∧
        IsSentence vs :=
  (Record.recognizes_attributes header).exists_append_cons_iff

theorem isSentence_cons_of_directive (ht : t.kind = .directive) :
    IsSentence (t :: ts) ↔ Place.directive.Completes ts := by
  constructor
  · rintro ⟨items, h⟩
    rcases (items_cons_of_directive ht).1 h with
      ⟨hts, -⟩ | ⟨us, e, vs, rfl, hus, he, behind, hbehind, -⟩
    · exact .inl ⟨hts, True.intro⟩
    · exact .inr ⟨us, e, vs, rfl, hus, he, behind, hbehind⟩
  · rintro (⟨hts, -⟩ | ⟨us, e, vs, rfl, hus, he, behind, hbehind⟩)
    · exact ⟨_, .openDirective ht hts⟩
    · exact ⟨_, .directive ht hus he hbehind⟩

theorem isSentence_cons_of_header {kind : Header} (ht : t.kind = .header kind) :
    IsSentence (t :: ts) ↔ (Place.record t {}).Completes ts := by
  constructor
  · rintro ⟨items, h⟩
    obtain ⟨us, e, vs, attributes, behind, rfl, hus, hne, he, hbehind, -⟩ :=
      (items_cons_of_header ht).1 h
    exact ⟨us ++ [e], vs, attributes, List.append_cons us e vs,
      ⟨us, e, attributes, rfl, hus, he, rfl, hne⟩, behind, hbehind⟩
  · rintro ⟨_, vs, attributes, rfl, ⟨us, e, _, rfl, hus, he, rfl, hne⟩, behind, hbehind⟩
    rw [List.append_assoc]
    exact ⟨_, .record ht hus hne he hbehind⟩

/-- What completes a deck before a token that is read is the token and what completes it behind. -/
theorem Moves.completes_iff (h : d.Moves t next) :
    d.place.Completes (t :: ts) ↔ next.place.Completes ts := by
  cases h with
  | blank ht =>
    simp only [Place.Completes, IsSentence, items_cons_of_endOfLine ht]
    exact ⟨fun ⟨_, behind, h, _⟩ => ⟨behind, h⟩, fun ⟨behind, h⟩ => ⟨_, behind, h, rfl⟩⟩
  | label ht =>
    simp only [Place.Completes, IsSentence, items_cons_of_label ht]
    exact ⟨fun ⟨_, behind, h, _⟩ => ⟨behind, h⟩, fun ⟨behind, h⟩ => ⟨_, behind, h, rfl⟩⟩
  | directive ht => exact isSentence_cons_of_directive ht
  | ignored ht => exact restOfDirective_of_ne_endOfLine ht
  | endOfDirective ht => exact restOfDirective_of_endOfLine ht
  | header ht => exact isSentence_cons_of_header ht
  | within ht =>
    rw [completes_record_cons_iff, ht]
    rfl
  | whole ht =>
    rw [completes_record_cons_iff, ht]
    constructor
    · rintro ⟨us, vs, attributes, rfl, ⟨rfl, -⟩, hvs⟩
      exact hvs
    · intro hts
      exact ⟨[], ts, _, rfl, ⟨rfl, rfl⟩, hts⟩

/-- No token with a fault starts anything that completes the deck, unless the fault is that a record
has no segment to go to. -/
theorem Refuses.not_completes (h : d.Refuses t fault) (hfault : ∀ t, fault ≠ .orphaned t) :
    ¬ d.place.Completes (t :: ts) := by
  cases h with
  | statement ht =>
    rintro ⟨items, h⟩
    exact not_items_cons (List.mem_cons_of_mem _ ht) h
  | within ht =>
    rw [completes_record_cons_iff, ht]
    rintro ⟨us, vs, attributes, rfl, hallows, -⟩
    exact hallows
  | whole ht =>
    rw [completes_record_cons_iff, ht]
    rintro ⟨us, vs, attributes, rfl, hallows, -⟩
    exact hallows
  | orphaned _ hattach => exact absurd (Assembly.eq_orphaned_of_attach hattach) (hfault _)

theorem Reaches.completes_iff (h : d.Reaches us d') :
    d.place.Completes (us ++ ts) ↔ d'.place.Completes ts := by
  induction h with
  | nil => exact Iff.rfl
  | cons ht _ ih => exact ht.completes_iff.trans ih

/-- What has been read is the start of some deck. -/
theorem Reaches.exists_isSentence (h : ({} : Deck).Reaches us d) :
    ∃ rest e, GoOn rest ∧ e.kind = .endOfLine ∧ IsSentence (us ++ (rest ++ [e])) := by
  obtain ⟨rest, e, hrest, he, hcompletes⟩ := d.place.exists_completes
  exact ⟨rest, e, hrest, he, h.completes_iff.2 hcompletes⟩

/-! ### Records without attributes -/

/-- Where no attribute has been started, nothing but a comma has been read. -/
theorem kind_of_accept_more_start {state : Record.AttributesState}
    (h : state.accept header t = some (.more {})) : t.kind = .comma ∧ state = {} := by
  have hwithin (found : Attributes) (state : Record.AttributeState) :
      Record.AttributesState.acceptWithin found state t ≠ some (.more {}) := by
    intro hmore
    rw [Record.AttributesState.acceptWithin] at hmore
    split at hmore <;> simp at hmore
  rcases state with ⟨found, _ | state⟩
  · simp only [Record.AttributesState.accept] at h
    split at h
    · split at h <;> simp at h
    · next ht => exact ⟨ht, by simpa using h⟩
    · exact absurd h (hwithin found .key)
  · exact absurd h (hwithin found state)

/-- Where no attribute has been started, there are only commas behind the header, and the header
stands behind the tokens of a deck. -/
theorem Reaches.exists_header (h : ({} : Deck).Reaches us d) (hplace : d.place = .record header {}) :
    ∃ front commas kind, us = front ++ header :: commas ∧ IsSentence front ∧
      header.kind = .header kind ∧ ∀ c ∈ commas, c.kind = .comma := by
  -- from the last token back: it is a comma as long as no attribute has been started
  induction us using List.reverseRecOn generalizing d with
  | nil =>
    cases h
    cases hplace
  | append_singleton us t ih =>
    obtain ⟨before, hbefore, hmoves⟩ := h.exists_moves_of_concat
    obtain ⟨a, place⟩ := d
    obtain rfl : place = .record header {} := hplace
    cases hmoves with
    | header ht =>
      have hfront : IsSentence (us ++ []) := hbefore.completes_iff.2 ⟨[], .nil⟩
      rw [List.append_nil] at hfront
      exact ⟨us, [], _, rfl, hfront, ht, List.forall_mem_nil _⟩
    | within ht =>
      obtain ⟨hcomma, rfl⟩ := kind_of_accept_more_start ht
      obtain ⟨front, commas, kind, rfl, hfront, hkind, hcommas⟩ := ih hbefore rfl
      refine ⟨front, commas ++ [t], kind, by simp, hfront, hkind, ?_⟩
      exact List.forall_mem_append.2 ⟨hcommas, List.forall_mem_singleton.2 hcomma⟩

/-- The commas behind the header of a record that is refused for having no attributes end with the
line, which is where it is refused. -/
theorem Refuses.exists_header {text : String} (h : d.Refuses t (.noAttributes header text))
    (hreaches : ({} : Deck).Reaches us d) :
    text = header.text ∧ t.kind = .endOfLine ∧
      ∃ front commas kind, us = front ++ header :: commas ∧ IsSentence front ∧
        header.kind = .header kind ∧ ∀ c ∈ commas, c.kind = .comma := by
  -- the fault is an index of `Refuses`, and of its constructors only `whole` has this one
  generalize hfault : RecordFault.noAttributes header text = fault at h
  cases h with
  | statement => cases hfault
  | @within _ _ _ state =>
    have hpassed := (state.refusal_spec (t := t)).2
    rw [← hfault] at hpassed
    cases hpassed
  | whole ht =>
    obtain ⟨hend, rfl, rfl⟩ := Record.AttributesState.eq_of_accept_done_error ht
    obtain ⟨rfl, rfl⟩ := RecordFault.noAttributes.inj hfault
    exact ⟨rfl, hend, hreaches.exists_header rfl⟩
  | orphaned _ hattach =>
    rw [Assembly.eq_orphaned_of_attach hattach] at hfault
    cases hfault

/-- Every fault but those of whole records is of the token that is refused. -/
theorem Refuses.token_eq (h : d.Refuses t fault) (hpassed : fault.passed = 0) :
    fault.token = t := by
  cases h with
  | statement => rfl
  | @within _ _ _ state => exact state.refusal_spec.1
  | whole ht =>
    rw [(Record.AttributesState.eq_of_accept_done_error ht).2.2] at hpassed
    cases hpassed
  | orphaned _ hattach =>
    rw [Assembly.eq_orphaned_of_attach hattach] at hpassed
    cases hpassed

end Deck

/-! ### Where a stream stops -/

namespace Stream

variable {tokens : List Token} {fault : RecordFault} {s : Stream} {p : Nat}

/-- At `p` the tokens cease to be the start of a deck, and this is what the fault shows: it is of the
token there, or of the header of a record that ends there without any attribute. -/
structure StopsAt (tokens : List Token) (fault : RecordFault) (p : Nat) : Prop where
  le_length : p ≤ tokens.length
  viable : ∃ rest e, GoOn rest ∧ e.kind = .endOfLine ∧ IsSentence (tokens.take p ++ (rest ++ [e]))
  refused : p < tokens.length → ∀ rest, ¬ IsSentence (tokens.take (p + 1) ++ rest)
  incomplete : p = tokens.length → ¬ IsSentence tokens
  token : (∀ header text, fault ≠ .noAttributes header text) →
    fault.token = tokens[p]?.getD (.endAfter tokens)
  header : ∀ header text, fault = .noAttributes header text →
    text = header.text ∧ (∃ e, tokens[p]? = some e ∧ e.kind = .endOfLine) ∧
      ∃ front commas kind, tokens.take p = front ++ header :: commas ∧ IsSentence front ∧
        header.kind = .header kind ∧ ∀ c ∈ commas, c.kind = .comma

/-- The end of the deck has a fault only in the middle of a record. -/
theorem exists_record_of_outcome {d : Deck} (h : d.outcome (.endAfter tokens) = .error fault) :
    ∃ header state, d.place = .record header state ∧ state.refusal (.endAfter tokens) = fault := by
  obtain ⟨a, place⟩ := d
  cases place with
  | between => cases h
  | directive => cases h
  | record header state => exact ⟨header, state, rfl, Except.error.inj h⟩

theorem stopsAt_length {d : Deck} {header : Token} {state : Record.AttributesState}
    (h : ({} : Deck).Reaches tokens d) (hplace : d.place = .record header state) :
    StopsAt tokens (state.refusal (.endAfter tokens)) tokens.length where
  le_length := Nat.le_refl _
  viable := by
    rw [List.take_length]
    exact h.exists_isSentence
  refused hlt := absurd hlt (Nat.lt_irrefl _)
  incomplete _ := by
    have hcompletes : IsSentence (tokens ++ []) ↔ d.place.Completes [] := h.completes_iff
    rw [List.append_nil, hplace] at hcompletes
    rw [hcompletes]
    rintro ⟨us, vs, attributes, hnil, hus, -⟩
    obtain ⟨rfl, -⟩ := List.append_eq_nil_iff.1 hnil.symm
    exact (Record.recognizes_attributes header).nil state attributes hus
  token _ := by
    rw [List.getElem?_eq_none (Nat.le_refl _)]
    exact state.refusal_spec.1
  header own text heq := by
    have hpassed := (state.refusal_spec (t := .endAfter tokens)).2
    rw [heq] at hpassed
    cases hpassed

theorem stopsAt_of_refuses {d : Deck} {us : List Token} {t : Token} (vs : List Token)
    (h : ({} : Deck).Reaches us d) (ht : d.Refuses t fault) (hfault : ∀ t, fault ≠ .orphaned t) :
    StopsAt (us ++ t :: vs) fault us.length where
  le_length := by simp
  viable := by
    rw [List.take_left]
    exact h.exists_isSentence
  refused _ rest := by
    have htake : (us ++ t :: vs).take (us.length + 1) = us ++ [t] := by
      rw [List.append_cons]
      exact List.take_left' (by simp)
    rw [htake, List.append_assoc]
    exact mt h.completes_iff.1 (ht.not_completes hfault)
  incomplete hlength := by simp at hlength
  token hne := by
    have hpassed : fault.passed = 0 := by
      cases fault with
      | noAttributes header text => exact absurd rfl (hne header text)
      | orphaned t => exact absurd rfl (hfault t)
      | _ => rfl
    rw [ht.token_eq hpassed]
    simp
  header own text heq := by
    subst heq
    obtain ⟨htext, hend, hheader⟩ := ht.exists_header h
    rw [List.take_left]
    exact ⟨htext, ⟨t, by simp, hend⟩, hheader⟩

/-- Where a stream stops for a fault, the tokens passed are the start of a deck, and with the next
one they are the start of none. If there is no next one, then more would have had to come. The fault
is of the token where the stream stops, or of the header of the record that has no attributes, and
then it stops behind the end of the line. -/
theorem stopsAt_of_segments (htokens : GoOn tokens)
    (h : (⟨tokens, 0⟩ : Stream).segments = (.error fault, s)) (hfault : ∀ t, fault ≠ .orphaned t) :
    StopsAt tokens fault (s.index - fault.passed) := by
  have hread : (Deck.read (.endAfter tokens) {} tokens).1 = .error fault := congrArg Prod.fst h
  have hindex : s.index =
      tokens.length - (Deck.read (.endAfter tokens) {} tokens).2.length := by
    have hindex := congrArg (·.2.index) h
    simpa [segments, Stream.read, rest, last, eq_comm] using hindex
  rcases Deck.reaches_or_refuses {} htokens with
    ⟨d, hreaches⟩ | ⟨us, t, vs, d, fault', rfl, hreaches, hrefuses⟩
  · have hend : Deck.read (.endAfter tokens) {} tokens = (d.outcome (.endAfter tokens), []) := by
      have happend : Deck.read (.endAfter tokens) {} (tokens ++ []) = _ := hreaches.read_append
      rwa [List.append_nil] at happend
    rw [hend] at hread hindex
    obtain ⟨header, state, hplace, rfl⟩ := exists_record_of_outcome hread
    rw [hindex, state.refusal_spec.2]
    exact stopsAt_length hreaches hplace
  · rw [hreaches.read_append, hrefuses.read_cons] at hread hindex
    obtain rfl := Except.error.inj hread
    have hlength : s.index - fault'.passed = us.length := by
      have hpassed := fault'.passed_le_one
      rw [hindex, List.length_drop, List.length_append, List.length_cons]
      omega
    rw [hlength]
    exact stopsAt_of_refuses vs hreaches hrefuses hfault

/-- A segment that has a comma for its attributes. -/
def commaForAttributes : List Token :=
  [⟨.header .segm, "SEGM", ⟨0, 9⟩⟩, ⟨.comma, ",", ⟨0, 14⟩⟩, .endOfLine ⟨0, 80⟩]

theorem stopsAt_commaForAttributes :
    (⟨commaForAttributes, 0⟩ : Stream).segments =
        (.error (.noAttributes ⟨.header .segm, "SEGM", ⟨0, 9⟩⟩ "SEGM"), ⟨commaForAttributes, 3⟩) ∧
      StopsAt commaForAttributes (.noAttributes ⟨.header .segm, "SEGM", ⟨0, 9⟩⟩ "SEGM") 2 := by
  have h : (⟨commaForAttributes, 0⟩ : Stream).segments =
      (.error (.noAttributes ⟨.header .segm, "SEGM", ⟨0, 9⟩⟩ "SEGM"), ⟨commaForAttributes, 3⟩) := rfl
  have htokens : GoOn commaForAttributes := by
    rw [GoOn]
    decide
  exact ⟨h, stopsAt_of_segments htokens h (by simp)⟩

end Stream

end CardDeck
