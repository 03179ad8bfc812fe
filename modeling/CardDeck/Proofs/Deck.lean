import CardDeck.Deck
import CardDeck.Proofs.Record

/-! # Decks are read as the grammar has them

`Assembly.Yields` says what a sequence of items makes of an assembly, and `Deck.From` what may come
behind each place of the reader of decks. `Deck.read_eq_ok_iff` is that it reads just this, and
`Segment.ofTokens_eq_ok_iff` what follows for whole decks. -/

namespace CardDeck

open Grammar

/-! ### Assemblies -/

/-- A segment with the leaf records added that stand before the next segment. -/
def Segment.extend (s : Segment) (items : List Item) : Segment :=
  { s with
    fields := s.fields ++ leaves .field items
    leftChildren := s.leftChildren ++ leaves .lchild items
    crossReferences := s.crossReferences ++ leaves .xdfld items }

namespace Segment

variable {s : Segment} {items : List Item}

@[simp] theorem extend_nil : s.extend [] = s := by
  simp [extend, leaves]

@[simp] theorem extend_blank : s.extend (.blank :: items) = s.extend items := rfl

@[simp] theorem extend_label : s.extend (.label :: items) = s.extend items := rfl

@[simp] theorem extend_directive : s.extend (.directive :: items) = s.extend items := rfl

theorem extend_of_orderlyFrom (h : OrderlyFrom false items) : s.extend items = s := by
  simp [extend, leaves_eq_nil h]

/-- The leaf records behind the next segment belong to that one. -/
@[simp] theorem extend_segment (own : Attributes) :
    s.extend (.record .segm own :: items) = s := by
  have hleaves (header : Header) : leaves header (.record .segm own :: items) = [] :=
    leaves_cons_of_isSegment rfl
  simp [extend, hleaves]

theorem extend_attributes (attributes : Attributes) :
    (⟨attributes, [], [], []⟩ : Segment).extend items = Grammar.segment attributes items := rfl

end Segment

namespace Assembly

variable {a : Assembly} {items : List Item} {segments : List Segment}

/-- The segments when these items have been added to the assembly. A leaf record that has no segment
to go to cannot be added. -/
def Yields (a : Assembly) (items : List Item) (segments : List Segment) : Prop :=
  OrderlyFrom a.current.isSome items ∧
    segments = a.closed ++ (a.current.map (·.extend items)).toList ++ Grammar.segments items

theorem yields_nil : a.Yields [] segments ↔ segments = a.flush.closed := by
  rcases a with ⟨closed, _ | s⟩
  · simp [Yields, OrderlyFrom, flush, Grammar.segments]
  · simp [Yields, OrderlyFrom, flush, Grammar.segments, Segment.extend_nil]

theorem yields_blank : a.Yields (.blank :: items) segments ↔ a.Yields items segments := by
  simp [Yields, OrderlyFrom, Item.leavesOpen, Grammar.segments, Segment.extend_blank]

/-- Where no leaf record can follow, a segment may as well be closed. -/
theorem yields_flush :
    a.flush.Yields items segments ↔
      OrderlyFrom false items ∧
        segments = a.closed ++ (a.current.map (·.extend items)).toList ++
          Grammar.segments items := by
  refine and_congr_right fun h => ?_
  rcases a with ⟨closed, _ | s⟩
  · simp [flush]
  · simp [flush, Segment.extend_of_orderlyFrom h]

theorem yields_label : a.Yields (.label :: items) segments ↔ a.flush.Yields items segments := by
  rw [yields_flush]
  simp [Yields, OrderlyFrom, Item.leavesOpen, Grammar.segments]

theorem yields_directive :
    a.Yields (.directive :: items) segments ↔ a.flush.Yields items segments := by
  rw [yields_flush]
  simp [Yields, OrderlyFrom, Item.leavesOpen, Grammar.segments]

theorem yields_segment {t : Token} {attributes : Attributes} (ht : t.kind = .header .segm) :
    a.Yields (.record .segm attributes :: items) segments ↔
      ∃ b, a.attach t attributes = .ok b ∧ b.Yields items segments := by
  simp only [attach, ht, Except.ok.injEq, exists_eq_left']
  rcases a with ⟨closed, _ | s⟩
  · simp [Yields, OrderlyFrom, Item.leavesOpen, Grammar.segments, flush, Segment.extend_attributes]
  · simp [Yields, OrderlyFrom, Item.leavesOpen, Grammar.segments, flush, Segment.extend_attributes]

theorem yields_leaf {t : Token} {header : Header} {attributes : Attributes}
    (ht : t.kind = .header header) (hleaf : header ≠ .segm) :
    a.Yields (.record header attributes :: items) segments ↔
      ∃ b, a.attach t attributes = .ok b ∧ b.Yields items segments := by
  rcases a with ⟨closed, _ | s⟩
  · have hattach : attach ⟨closed, none⟩ t attributes = .error (.orphaned t) := by
      cases header <;> simp_all [attach]
    simp [hattach, Yields, OrderlyFrom, hleaf]
  · cases header with
    | segm => exact absurd rfl hleaf
    | field =>
      simp [attach, ht, Yields, OrderlyFrom, Item.leavesOpen, Grammar.segments, Segment.extend,
        leaves_record_cons]
    | lchild =>
      simp [attach, ht, Yields, OrderlyFrom, Item.leavesOpen, Grammar.segments, Segment.extend,
        leaves_record_cons]
    | xdfld =>
      simp [attach, ht, Yields, OrderlyFrom, Item.leavesOpen, Grammar.segments, Segment.extend,
        leaves_record_cons]

theorem yields_record {t : Token} {header : Header} {attributes : Attributes}
    (ht : t.kind = .header header) :
    a.Yields (.record header attributes :: items) segments ↔
      ∃ b, a.attach t attributes = .ok b ∧ b.Yields items segments := by
  by_cases hsegm : header = .segm
  · subst hsegm
    exact yields_segment ht
  · exact yields_leaf ht hsegm

/-- A record that cannot be added has no segment to go to. -/
theorem eq_orphaned_of_attach {header : Token} {attributes : Attributes} {fault : RecordFault}
    (h : a.attach header attributes = .error fault) : fault = .orphaned header := by
  rw [attach] at h
  split at h
  · cases h
  · exact (Except.error.inj h).symm
  · cases h
  · cases h
  · cases h

end Assembly

namespace Deck

/-- What may come between statements. -/
def FromBetween (a : Assembly) (ts : List Token) (segments : List Segment) : Prop :=
  ∃ items, Items ts items ∧ a.Yields items segments

/-- What may come within a directive, the end of the deck included. -/
def FromDirective (a : Assembly) (ts : List Token) (segments : List Segment) : Prop :=
  ((∀ t ∈ ts, t.kind ≠ .endOfLine) ∧ segments = a.flush.closed) ∨
    ∃ us e vs, ts = us ++ e :: vs ∧ (∀ u ∈ us, u.kind ≠ .endOfLine) ∧ e.kind = .endOfLine ∧
      FromBetween a vs segments

/-- What may come within a record. -/
def FromRecord (a : Assembly) (header : Token) (state : Record.AttributesState) (ts : List Token)
    (segments : List Segment) : Prop :=
  ∃ us vs attributes b, ts = us ++ vs ∧ Record.AttributesFrom state us attributes ∧
    a.attach header attributes = .ok b ∧ FromBetween b vs segments

/-- What may come behind each place of the reader of decks, and the segments that it leads to. -/
def From (d : Deck) : List Token → List Segment → Prop :=
  match d.place with
  | .between => FromBetween d.assembly
  | .directive => FromDirective d.assembly
  | .record header state => FromRecord d.assembly header state

variable {d : Deck} {a : Assembly} {t last : Token} {ts : List Token} {segments : List Segment}

theorem fromDirective_of_endOfLine (ht : t.kind = .endOfLine) :
    FromDirective a (t :: ts) segments ↔ FromBetween a ts segments :=
  restOfDirective_of_endOfLine ht

theorem fromDirective_of_ne_endOfLine (ht : t.kind ≠ .endOfLine) :
    FromDirective a (t :: ts) segments ↔ FromDirective a ts segments :=
  restOfDirective_of_ne_endOfLine ht

theorem fromRecord_iff {header : Token} {state : Record.AttributesState} :
    FromRecord a header state ts segments ↔
      ∃ us vs attributes, ts = us ++ vs ∧ Record.AttributesFrom state us attributes ∧
        ∃ b, a.attach header attributes = .ok b ∧ FromBetween b vs segments := by
  simp only [FromRecord, exists_and_left]

theorem fromRecord_cons_iff {header : Token} {state : Record.AttributesState} :
    FromRecord a header state (t :: ts) segments ↔
      ∃ next, accept ⟨a, .record header state⟩ t = some (.ok next) ∧ From next ts segments := by
  rw [fromRecord_iff, (Record.recognizes_attributes header).exists_append_cons_iff]
  simp only [accept]
  rcases (Record.attributesReader header).accept state t with _ | next | fault | attributes
  · simp [Reader.Allows]
  · simp only [Option.some.injEq, Except.ok.injEq, exists_eq_left']
    exact fromRecord_iff.symm
  · simp [Reader.Allows]
  · simp only [Reader.Allows, Option.some.injEq]
    constructor
    · rintro ⟨us, vs, attributes', rfl, ⟨rfl, rfl⟩, b, hattach, hvs⟩
      exact ⟨⟨b, .between⟩, by rw [hattach]; rfl, hvs⟩
    · rintro ⟨next, hattach, hnext⟩
      cases hb : a.attach header attributes with
      | error fault =>
        rw [hb] at hattach
        cases hattach
      | ok b =>
        rw [hb] at hattach
        obtain rfl := Except.ok.inj hattach
        exact ⟨[], ts, attributes, rfl, ⟨rfl, rfl⟩, b, hb, hnext⟩

/-! ### Between statements -/

theorem fromBetween_of_endOfLine (ht : t.kind = .endOfLine) :
    FromBetween a (t :: ts) segments ↔ FromBetween a ts segments := by
  constructor
  · rintro ⟨items, h, hyields⟩
    obtain ⟨behind, hbehind, rfl⟩ := (items_cons_of_endOfLine ht).1 h
    exact ⟨behind, hbehind, Assembly.yields_blank.1 hyields⟩
  · rintro ⟨items, h, hyields⟩
    exact ⟨.blank :: items, .blank ht h, Assembly.yields_blank.2 hyields⟩

theorem fromBetween_of_label (ht : t.kind = .label) :
    FromBetween a (t :: ts) segments ↔ FromBetween a.flush ts segments := by
  constructor
  · rintro ⟨items, h, hyields⟩
    obtain ⟨behind, hbehind, rfl⟩ := (items_cons_of_label ht).1 h
    exact ⟨behind, hbehind, Assembly.yields_label.1 hyields⟩
  · rintro ⟨items, h, hyields⟩
    exact ⟨.label :: items, .label ht h, Assembly.yields_label.2 hyields⟩

theorem fromBetween_of_directive (ht : t.kind = .directive) :
    FromBetween a (t :: ts) segments ↔ FromDirective a.flush ts segments := by
  constructor
  · rintro ⟨items, h, hyields⟩
    rcases (items_cons_of_directive ht).1 h with
      ⟨hts, rfl⟩ | ⟨us, e, vs, rfl, hus, he, behind, hbehind, rfl⟩
    · exact .inl ⟨hts, Assembly.yields_nil.1 (Assembly.yields_directive.1 hyields)⟩
    · exact .inr ⟨us, e, vs, rfl, hus, he, behind, hbehind, Assembly.yields_directive.1 hyields⟩
  · rintro (⟨hts, h⟩ | ⟨us, e, vs, rfl, hus, he, items, h, hyields⟩)
    · exact ⟨[.directive], .openDirective ht hts,
        Assembly.yields_directive.2 (Assembly.yields_nil.2 h)⟩
    · exact ⟨.directive :: items, .directive ht hus he h, Assembly.yields_directive.2 hyields⟩

theorem fromBetween_of_header {header : Header} (ht : t.kind = .header header) :
    FromBetween a (t :: ts) segments ↔ FromRecord a t {} ts segments := by
  constructor
  · rintro ⟨items, h, hyields⟩
    obtain ⟨us, e, vs, attributes, behind, rfl, hus, hne, he, hbehind, rfl⟩ :=
      (items_cons_of_header ht).1 h
    obtain ⟨b, hattach, hyields⟩ := (Assembly.yields_record ht).1 hyields
    refine ⟨us ++ [e], vs, attributes, b, List.append_cons us e vs, ?_, hattach, behind, hbehind,
      hyields⟩
    exact ⟨us, e, attributes, rfl, hus, he, rfl, hne⟩
  · rintro ⟨_, vs, attributes, b, rfl, ⟨us, e, behind, rfl, hus, he, rfl, hne⟩, hattach, items, h,
      hyields⟩
    refine ⟨.record header attributes :: items, ?_,
      (Assembly.yields_record ht).2 ⟨b, hattach, hyields⟩⟩
    rw [List.append_assoc]
    exact .record ht hus hne he h

theorem fromBetween_cons_iff (ht : t.kind ≠ .endOfInput) :
    FromBetween a (t :: ts) segments ↔
      ∃ next, accept ⟨a, .between⟩ t = some (.ok next) ∧ From next ts segments := by
  cases hk : t.kind with
  | endOfLine => simpa [accept, pass, hk, From] using fromBetween_of_endOfLine hk
  | endOfInput => exact absurd hk ht
  | header header => simpa [accept, pass, hk, From] using fromBetween_of_header hk
  | label => simpa [accept, pass, hk, From] using fromBetween_of_label hk
  | directive => simpa [accept, pass, hk, From] using fromBetween_of_directive hk
  | _ =>
    have hitems : ∀ items, ¬ Items (t :: ts) items := fun items => not_items_cons (by simp [hk])
    simp [accept, pass, hk, FromBetween, hitems]

/-- Tokens may come behind a place if the first may, and the others behind the next place. -/
theorem from_cons_iff (ht : t.kind ≠ .endOfInput) :
    From d (t :: ts) segments ↔
      ∃ next, d.accept t = some (.ok next) ∧ From next ts segments := by
  rcases d with ⟨a, _ | _ | ⟨header, state⟩⟩
  · exact fromBetween_cons_iff ht
  · by_cases hend : t.kind = .endOfLine
    · have haccept : accept ⟨a, .directive⟩ t = some (.ok ⟨a, .between⟩) := by
        simp [accept, pass, hend]
      simp only [haccept, Option.some.injEq, Except.ok.injEq, exists_eq_left']
      exact fromDirective_of_endOfLine hend
    · have haccept : accept ⟨a, .directive⟩ t = some (.ok ⟨a, .directive⟩) := by
        simp [accept, pass]
      simp only [haccept, Option.some.injEq, Except.ok.injEq, exists_eq_left']
      exact fromDirective_of_ne_endOfLine hend
  · exact fromRecord_cons_iff

theorem accept_endOfInput (ht : t.kind = .endOfInput) : d.accept t = none := by
  rcases d with ⟨a, _ | _ | ⟨header, found, _ | _ | _ | ⟨key, _ | _ | _⟩⟩⟩ <;>
    simp [accept, pass, ht, Record.attributesReader, Record.AttributesState.accept,
      Record.AttributesState.acceptWithin, Record.AttributeState.accept, Record.ValueState.accept]

/-- A deck ends in the middle of what may come behind a place only where nothing more must come. -/
theorem from_nil_iff (hlast : last.kind = .endOfInput) :
    From d [] segments ↔ d.outcome last = .ok segments := by
  rcases d with ⟨a, _ | _ | ⟨header, state⟩⟩
  · simp only [From, FromBetween, outcome, if_pos hlast, Except.ok.injEq]
    constructor
    · rintro ⟨items, h, hyields⟩
      cases h
      exact (Assembly.yields_nil.1 hyields).symm
    · intro h
      exact ⟨[], .nil, Assembly.yields_nil.2 h.symm⟩
  · simp only [From, FromDirective, outcome, if_pos hlast, Except.ok.injEq]
    constructor
    · rintro (⟨-, h⟩ | ⟨us, e, vs, h, -⟩)
      · exact h.symm
      · exact absurd h.symm (List.append_ne_nil_of_right_ne_nil us (List.cons_ne_nil e vs))
    · intro h
      exact .inl ⟨by simp, h.symm⟩
  · simp only [From, FromRecord, outcome, reduceCtorEq, iff_false]
    rintro ⟨us, vs, attributes, b, h, hus, -⟩
    obtain ⟨rfl, -⟩ := List.append_eq_nil_iff.1 h.symm
    exact (Record.recognizes_attributes header).nil state attributes hus

/-- The reader of decks reads what may come behind its place, up to the end of the deck. -/
theorem read_eq_ok_iff (hlast : last.kind = .endOfInput) :
    (d.read last ts).1 = .ok segments ↔
      From d (ts.takeWhile (·.kind ≠ .endOfInput)) segments := by
  induction ts generalizing d with
  | nil => exact (from_nil_iff hlast).symm
  | cons t ts ih =>
    rw [read]
    by_cases ht : t.kind = .endOfInput
    · rw [List.takeWhile_cons_of_neg (by simp [ht]), accept_endOfInput ht]
      exact (from_nil_iff ht).symm
    · rw [List.takeWhile_cons_of_pos (by simp [ht]), from_cons_iff ht]
      cases haccept : d.accept t with
      | none =>
        have houtcome : ∀ segments, d.outcome t ≠ .ok segments := by
          rcases d with ⟨a, _ | _ | ⟨header, state⟩⟩ <;> simp [outcome, ht]
        simp [houtcome]
      | some result =>
        cases result with
        | error fault => simp
        | ok next => simpa using ih

/-- A whole deck is what may come between statements where no segment has been read. -/
theorem ofTokens_eq_ok_iff_fromBetween {tokens : List Token} :
    Segment.ofTokens tokens = .ok segments ↔
      FromBetween {} (tokens.takeWhile (·.kind ≠ .endOfInput)) segments :=
  read_eq_ok_iff rfl

end Deck

/-- Segments are read off tokens if these are, up to the end of the deck, items in which every leaf
record has a segment to go to, and then they are what the items say. -/
theorem Segment.ofTokens_eq_ok_iff {tokens : List Token} {segments : List Segment} :
    ofTokens tokens = .ok segments ↔
      ∃ items, Items (tokens.takeWhile (·.kind ≠ .endOfInput)) items ∧ Orderly items ∧
        segments = Grammar.segments items := by
  rw [Deck.ofTokens_eq_ok_iff_fromBetween]
  constructor
  · rintro ⟨items, hitems, horderly, hsegments⟩
    exact ⟨items, hitems, orderly_iff.2 horderly, hsegments⟩
  · rintro ⟨items, hitems, horderly, hsegments⟩
    exact ⟨items, hitems, orderly_iff.1 horderly, hsegments⟩

end CardDeck
