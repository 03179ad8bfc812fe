import CardDeck.Proofs.Grammar
import CardDeck.Record.Attribute

/-! # What the readers of records read

For each state of a reader there is what may come behind it, in the words of the grammar. A token
leads from one state to the next as it leads from what may come to what may come then, and by
`Reader.Recognizes.read_eq_ok_iff` that is all there is to a reader. -/

namespace CardDeck

namespace Reader

variable {σ α : Type}

/-- Whether tokens may come, with this meaning, behind a step that a reader has made. -/
def Allows (Reads : σ → List Token → α → Prop) (ts : List Token) (a : α) :
    Option (Step σ α) → Prop
  | none => False
  | some (.more state) => Reads state ts a
  | some (.done (.ok b)) => ts = [] ∧ a = b
  | some (.done (.error _)) => False

/-- What may come behind each state, with its meaning, is told by the steps of the reader. -/
structure Recognizes (r : Reader σ α) (Reads : σ → List Token → α → Prop) : Prop where
  nil : ∀ state a, ¬ Reads state [] a
  cons : ∀ state t ts a, Reads state (t :: ts) a ↔ Allows Reads ts a (r.accept state t)

/-- The first token of what may come behind a state is the one that the next step is about. -/
theorem Recognizes.exists_cons_iff {r : Reader σ α} {Reads : σ → List Token → α → Prop}
    (h : r.Recognizes Reads) {state : σ} {t : Token} {ts rest : List Token} {a : α} :
    (∃ us, t :: ts = us ++ rest ∧ Reads state us a) ↔
      ∃ us, ts = us ++ rest ∧ Allows Reads us a (r.accept state t) := by
  constructor
  · rintro ⟨_ | ⟨u, us⟩, hus, hreads⟩
    · exact absurd hreads (h.nil state a)
    · obtain ⟨rfl, rfl⟩ := List.cons.inj hus
      exact ⟨us, rfl, (h.cons state t us a).1 hreads⟩
  · rintro ⟨us, rfl, hallows⟩
    exact ⟨t :: us, rfl, (h.cons state t us a).2 hallows⟩

/-- The same, with something else to come behind. -/
theorem Recognizes.exists_append_cons_iff {r : Reader σ α} {Reads : σ → List Token → α → Prop}
    (h : r.Recognizes Reads) {state : σ} {t : Token} {ts : List Token}
    {Behind : List Token → α → Prop} :
    (∃ us vs a, t :: ts = us ++ vs ∧ Reads state us a ∧ Behind vs a) ↔
      ∃ us vs a, ts = us ++ vs ∧ Allows Reads us a (r.accept state t) ∧ Behind vs a := by
  constructor
  · rintro ⟨us, vs, a, hts, ha, hbehind⟩
    obtain ⟨us, hts, ha⟩ := h.exists_cons_iff.1 ⟨us, hts, ha⟩
    exact ⟨us, vs, a, hts, ha, hbehind⟩
  · rintro ⟨us, vs, a, hts, ha, hbehind⟩
    obtain ⟨us, hts, ha⟩ := h.exists_cons_iff.2 ⟨us, hts, ha⟩
    exact ⟨us, vs, a, hts, ha, hbehind⟩

/-- A reader takes what may come behind its state, and leaves the rest. -/
theorem Recognizes.read_eq_ok_iff {r : Reader σ α} {Reads : σ → List Token → α → Prop}
    (h : r.Recognizes Reads) {last : Token} {state : σ} {ts rest : List Token} {a : α} :
    r.read last state ts = (.ok a, rest) ↔ ∃ us, ts = us ++ rest ∧ Reads state us a := by
  induction ts generalizing state with
  | nil =>
    simp only [read, Prod.mk.injEq, reduceCtorEq, false_and, false_iff]
    rintro ⟨us, hus, hreads⟩
    obtain ⟨rfl, -⟩ := List.append_eq_nil_iff.1 hus.symm
    exact h.nil state a hreads
  | cons t ts ih =>
    rw [h.exists_cons_iff, read]
    rcases r.accept state t with _ | next | fault | b
    · simp [Allows]
    · exact ih
    · simp [Allows]
    · simp only [Allows, Prod.mk.injEq, Except.ok.injEq]
      constructor
      · rintro ⟨rfl, rfl⟩
        exact ⟨[], rfl, rfl, rfl⟩
      · rintro ⟨us, hus, rfl, rfl⟩
        exact ⟨rfl, hus⟩

end Reader

namespace Grammar

variable {t : Token} {ts : List Token}

theorem listTail_cons_iff {items : List String} :
    ListTail (t :: ts) items ↔
      (t.kind = .closeParen ∧ ts = [] ∧ items = []) ∨
        t.kind = .comma ∧ ∃ u us behind, ts = u :: us ∧ u.kind = .identifier ∧
          ListTail us behind ∧ items = u.text :: behind := by
  constructor
  · intro h
    cases h with
    | close ht => exact .inl ⟨ht, rfl, rfl⟩
    | comma hc ht h => exact .inr ⟨hc, _, _, _, rfl, ht, h, rfl⟩
  · rintro (⟨ht, rfl, rfl⟩ | ⟨hc, u, us, behind, rfl, hu, h, rfl⟩)
    · exact .close ht
    · exact .comma hc hu h

theorem value_cons_iff {value : String} :
    Value (t :: ts) value ↔
      ((t.kind = .identifier ∨ t.kind = .key) ∧ ts = [] ∧ value = t.text) ∨
        t.kind = .openParen ∧ ∃ u us behind, ts = u :: us ∧ u.kind = .identifier ∧
          ListTail us behind ∧ value = Record.ValueState.listText (u.text :: behind) := by
  constructor
  · intro h
    cases h with
    | identifier ht => exact .inl ⟨.inl ht, rfl, rfl⟩
    | key ht => exact .inl ⟨.inr ht, rfl, rfl⟩
    | list ho ht h => exact .inr ⟨ho, _, _, _, rfl, ht, h, rfl⟩
  · rintro (⟨ht | ht, rfl, rfl⟩ | ⟨ho, u, us, behind, rfl, hu, h, rfl⟩)
    · exact .identifier ht
    · exact .key ht
    · exact .list ho hu h

end Grammar

namespace Record

open Grammar

/-! ### Values -/

/-- What may come behind each state of the reader of values. -/
def ValueFrom : ValueState → List Token → String → Prop
  | .start, ts, value => Value ts value
  | .item items, ts, value => ∃ t us behind, ts = t :: us ∧ t.kind = .identifier ∧
      ListTail us behind ∧ value = ValueState.listText (items ++ t.text :: behind)
  | .separator items, ts, value => ∃ behind, ListTail ts behind ∧
      value = ValueState.listText (items ++ behind)

variable {t : Token} {ts : List Token} {items : List String} {value : String}

theorem valueFrom_item_cons_iff :
    ValueFrom (.item items) (t :: ts) value ↔
      t.kind = .identifier ∧ ValueFrom (.separator (items ++ [t.text])) ts value := by
  constructor
  · rintro ⟨u, us, behind, hcons, hu, h, rfl⟩
    obtain ⟨rfl, rfl⟩ := List.cons.inj hcons
    exact ⟨hu, behind, h, by rw [List.append_assoc, List.singleton_append]⟩
  · rintro ⟨ht, behind, h, rfl⟩
    exact ⟨t, ts, behind, rfl, ht, h, by rw [List.append_assoc, List.singleton_append]⟩

theorem valueFrom_separator_cons_iff :
    ValueFrom (.separator items) (t :: ts) value ↔
      (t.kind = .closeParen ∧ ts = [] ∧ value = ValueState.listText items) ∨
        t.kind = .comma ∧ ValueFrom (.item items) ts value := by
  constructor
  · rintro ⟨items', htail, rfl⟩
    rcases listTail_cons_iff.1 htail with ⟨ht, rfl, rfl⟩ | ⟨ht, u, us, behind, rfl, hu, h, rfl⟩
    · exact .inl ⟨ht, rfl, by rw [List.append_nil]⟩
    · exact .inr ⟨ht, u, us, behind, rfl, hu, h, rfl⟩
  · rintro (⟨ht, rfl, rfl⟩ | ⟨ht, u, us, behind, rfl, hu, h, rfl⟩)
    · exact ⟨[], .close ht, by rw [List.append_nil]⟩
    · exact ⟨u.text :: behind, .comma ht hu h, rfl⟩

theorem recognizes_value : valueReader.Recognizes ValueFrom where
  nil state value := by
    cases state with
    | start =>
      intro h
      cases h
    | item items =>
      rintro ⟨t, us, behind, h, -⟩
      cases h
    | separator items =>
      rintro ⟨behind, h, -⟩
      cases h
  cons state t ts value := by
    cases state with
    | start =>
      simp only [ValueFrom, value_cons_iff, valueReader, ValueState.accept]
      split <;> simp_all [Reader.Allows, ValueFrom]
    | item items =>
      rw [valueFrom_item_cons_iff]
      simp only [valueReader, ValueState.accept]
      split <;> simp_all [Reader.Allows]
    | separator items =>
      rw [valueFrom_separator_cons_iff]
      simp only [valueReader, ValueState.accept]
      split <;> simp_all [Reader.Allows]

/-- The reader of values reads values. -/
theorem valueReader_read_eq_ok_iff {last : Token} {rest : List Token} :
    valueReader.read last .start ts = (.ok value, rest) ↔ ∃ us, ts = us ++ rest ∧ Value us value :=
  recognizes_value.read_eq_ok_iff

/-! ### Attributes -/

/-- What may come behind each state of the reader of one attribute. -/
def AttributeFrom : AttributeState → List Token → Attribute → Prop
  | .key, ts, a => ∃ k e us, ts = k :: e :: us ∧ k.kind = .key ∧ a.key = k.text ∧
      e.kind = .equals ∧ Value us a.value
  | .equals key, ts, a => ∃ e us, ts = e :: us ∧ a.key = key ∧ e.kind = .equals ∧ Value us a.value
  | .value key state, ts, a => a.key = key ∧ ValueFrom state ts a.value

variable {key : String} {a : Attribute}

theorem attributeFrom_key_cons_iff :
    AttributeFrom .key (t :: ts) a ↔ t.kind = .key ∧ AttributeFrom (.equals t.text) ts a := by
  constructor
  · rintro ⟨k, e, us, hcons, hk, hkey, he, h⟩
    obtain ⟨rfl, rfl⟩ := List.cons.inj hcons
    exact ⟨hk, e, us, rfl, hkey, he, h⟩
  · rintro ⟨hk, e, us, rfl, hkey, he, h⟩
    exact ⟨t, e, us, rfl, hk, hkey, he, h⟩

theorem attributeFrom_equals_cons_iff :
    AttributeFrom (.equals key) (t :: ts) a ↔
      t.kind = .equals ∧ AttributeFrom (.value key .start) ts a := by
  constructor
  · rintro ⟨e, us, hcons, hkey, he, h⟩
    obtain ⟨rfl, rfl⟩ := List.cons.inj hcons
    exact ⟨he, hkey, h⟩
  · rintro ⟨he, hkey, h⟩
    exact ⟨t, ts, rfl, hkey, he, h⟩

theorem recognizes_attribute : attributeReader.Recognizes AttributeFrom where
  nil state a := by
    cases state with
    | key =>
      rintro ⟨k, e, us, h, -⟩
      cases h
    | equals key =>
      rintro ⟨e, us, h, -⟩
      cases h
    | value key state =>
      rintro ⟨-, h⟩
      exact recognizes_value.nil state _ h
  cons state t ts a := by
    cases state with
    | key =>
      rw [attributeFrom_key_cons_iff]
      simp only [attributeReader, AttributeState.accept]
      split <;> simp_all [Reader.Allows]
    | equals key =>
      rw [attributeFrom_equals_cons_iff]
      simp only [attributeReader, AttributeState.accept]
      split <;> simp_all [Reader.Allows]
    | value key state =>
      have hvalue := recognizes_value.cons state t ts a.value
      simp only [AttributeFrom, hvalue, attributeReader, AttributeState.accept]
      change _ ∧ Reader.Allows ValueFrom ts a.value (state.accept t) ↔ _
      rcases state.accept t with _ | next | fault | value
      · simp [Reader.Allows]
      · rfl
      · simp [Reader.Allows, Except.map]
      · simp only [Reader.Allows, Except.map]
        constructor
        · rintro ⟨rfl, rfl, rfl⟩
          exact ⟨rfl, rfl⟩
        · rintro ⟨rfl, rfl⟩
          exact ⟨rfl, rfl, rfl⟩

/-! ### The attributes of a record -/

/-- Attributes behind those that have been found, and the end of their statement. A record has
attributes. -/
def AttributesEnd (found : Attributes) (ts : List Token) (attributes : Attributes) : Prop :=
  ∃ us e behind, ts = us ++ [e] ∧ AttributeList us behind ∧ e.kind = .endOfLine ∧
    attributes = found ++ behind ∧ attributes ≠ []

/-- What may come behind an attribute that has been started. -/
def AttributesWithin (found : Attributes) (state : AttributeState) (ts : List Token)
    (attributes : Attributes) : Prop :=
  ∃ us vs a, ts = us ++ vs ∧ AttributeFrom state us a ∧ AttributesEnd (found ++ [a]) vs attributes

/-- What may come behind each state of the reader of the attributes of a record. -/
def AttributesFrom (s : AttributesState) : List Token → Attributes → Prop :=
  match s.current with
  | none => AttributesEnd s.found
  | some state => AttributesWithin s.found state

variable {found attributes : Attributes}

theorem attributesWithin_cons_iff {state : AttributeState} :
    AttributesWithin found state (t :: ts) attributes ↔
      Reader.Allows AttributesFrom ts attributes (AttributesState.acceptWithin found state t) := by
  have hcons : AttributesWithin found state (t :: ts) attributes ↔
      ∃ us vs a, ts = us ++ vs ∧ Reader.Allows AttributeFrom us a (state.accept t) ∧
        AttributesEnd (found ++ [a]) vs attributes := recognizes_attribute.exists_append_cons_iff
  rw [hcons, AttributesState.acceptWithin]
  rcases state.accept t with _ | next | fault | b
  · simp [Reader.Allows]
  · rfl
  · simp [Reader.Allows]
  · constructor
    · rintro ⟨us, vs, a, rfl, ⟨rfl, rfl⟩, hend⟩
      exact hend
    · intro hend
      exact ⟨[], ts, b, rfl, ⟨rfl, rfl⟩, hend⟩

theorem attributesEnd_cons_iff :
    AttributesEnd found (t :: ts) attributes ↔
      (t.kind = .endOfLine ∧ ts = [] ∧ found ≠ [] ∧ attributes = found) ∨
        (t.kind = .comma ∧ AttributesEnd found ts attributes) ∨
          AttributesWithin found .key (t :: ts) attributes := by
  constructor
  · rintro ⟨us, e, behind, hts, hlist, he, rfl, hne⟩
    cases hlist with
    | nil =>
      obtain ⟨rfl, rfl⟩ := List.cons.inj hts
      rw [List.append_nil] at hne ⊢
      exact .inl ⟨he, rfl, hne, rfl⟩
    | comma hc hlist =>
      obtain ⟨rfl, rfl⟩ := List.cons.inj hts
      exact .inr (.inl ⟨hc, _, e, behind, rfl, hlist, he, rfl, hne⟩)
    | @cons k eq us vs value behind hk heq hvalue hlist =>
      refine .inr (.inr ⟨k :: eq :: us, vs ++ [e], ⟨k.text, value⟩, ?_, ?_, ?_⟩)
      · simpa using hts
      · exact ⟨k, eq, us, rfl, hk, rfl, heq, hvalue⟩
      · exact ⟨vs, e, behind, rfl, hlist, he, List.append_cons found _ behind, hne⟩
  · rintro (⟨he, rfl, hne, rfl⟩ | ⟨hc, us, e, behind, rfl, hlist, he, rfl, hne⟩ |
      ⟨us, vs, a, hts, ⟨k, eq, us, rfl, hk, hkey, heq, hvalue⟩, ws, e, behind, rfl, hlist, he, rfl,
        hne⟩)
    · exact ⟨[], t, [], rfl, .nil, he, (List.append_nil attributes).symm, hne⟩
    · exact ⟨t :: us, e, behind, rfl, .comma hc hlist, he, rfl, hne⟩
    · refine ⟨k :: eq :: (us ++ ws), e, ⟨k.text, a.value⟩ :: behind, ?_, ?_, he, ?_, hne⟩
      · simpa using hts
      · exact .cons hk heq hvalue hlist
      · rw [← hkey, ← List.append_cons]

theorem recognizes_attributes (header : Token) :
    (attributesReader header).Recognizes AttributesFrom where
  nil s attributes := by
    rcases s with ⟨found, _ | state⟩
    · rintro ⟨us, e, behind, h, -⟩
      exact List.append_ne_nil_of_right_ne_nil us (List.cons_ne_nil e []) h.symm
    · rintro ⟨us, vs, a, h, ha, -⟩
      obtain ⟨rfl, -⟩ := List.append_eq_nil_iff.1 h.symm
      exact recognizes_attribute.nil state a ha
  cons s t ts attributes := by
    rcases s with ⟨found, _ | state⟩
    · change AttributesEnd found (t :: ts) attributes ↔ _
      rw [attributesEnd_cons_iff, attributesWithin_cons_iff]
      simp only [attributesReader, AttributesState.accept]
      have hkey (h : t.kind ≠ .key) : AttributesState.acceptWithin found .key t = none := by
        simp only [AttributesState.acceptWithin, AttributeState.accept, if_neg h]
      split
      · next ht =>
        rw [hkey (by simp [ht])]
        by_cases hfound : found = []
        · simp [Reader.Allows, hfound, ht]
        · simp [Reader.Allows, hfound, ht]
      · next ht =>
        rw [hkey (by simp [ht])]
        simp [Reader.Allows, AttributesFrom, ht]
      · next hend hcomma =>
        rw [or_iff_right fun h => hend h.1, or_iff_right fun h => hcomma h.1]
    · exact attributesWithin_cons_iff

/-- The reader of the attributes of a record reads attributes and the end of their statement. -/
theorem attributesReader_read_eq_ok_iff {header last : Token} {rest : List Token} :
    (attributesReader header).read last {} ts = (.ok attributes, rest) ↔
      ∃ us e, ts = us ++ e :: rest ∧ AttributeList us attributes ∧ e.kind = .endOfLine ∧
        attributes ≠ [] := by
  rw [(recognizes_attributes header).read_eq_ok_iff]
  constructor
  · rintro ⟨vs, rfl, us, e, behind, rfl, hlist, he, rfl, hne⟩
    exact ⟨us, e, List.append_assoc us [e] rest, hlist, he, hne⟩
  · rintro ⟨us, e, rfl, hlist, he, hne⟩
    exact ⟨us ++ [e], (List.append_assoc us [e] rest).symm, us, e, attributes, rfl, hlist, he, rfl,
      hne⟩

/-! ### Faults of a whole -/

variable {header : Token} {fault : RecordFault}

/-- A value that has been read to its end has no fault. -/
theorem ValueState.exists_of_accept_done {state : ValueState} {result : Except RecordFault String}
    (h : state.accept t = some (.done result)) : ∃ value, result = .ok value := by
  cases state with
  | start =>
    rw [accept] at h
    split at h
    · cases h
      exact ⟨_, rfl⟩
    · cases h
      exact ⟨_, rfl⟩
    · cases h
    · cases h
  | item items =>
    rw [accept] at h
    split at h
    · cases h
    · cases h
  | separator items =>
    rw [accept] at h
    split at h
    · cases h
      exact ⟨_, rfl⟩
    · cases h
    · cases h

theorem AttributeState.exists_of_accept_done {state : AttributeState}
    {result : Except RecordFault Attribute} (h : state.accept t = some (.done result)) :
    ∃ a, result = .ok a := by
  cases state with
  | key =>
    rw [accept] at h
    split at h
    · cases h
    · cases h
  | equals key =>
    rw [accept] at h
    split at h
    · cases h
    · cases h
  | value key state =>
    rw [accept] at h
    split at h
    · cases h
    · cases h
    · next hdone =>
      obtain ⟨value, rfl⟩ := ValueState.exists_of_accept_done hdone
      cases h
      exact ⟨_, rfl⟩

/-- Attributes that have been read to their end have a fault only if there are none: the end of the
statement has come before any attribute. -/
theorem AttributesState.eq_of_accept_done_error {s : AttributesState}
    (h : s.accept header t = some (.done (.error fault))) :
    t.kind = .endOfLine ∧ s = {} ∧ fault = .noAttributes header header.text := by
  have hwithin (found : Attributes) (state : AttributeState) :
      acceptWithin found state t ≠ some (.done (.error fault)) := by
    intro hfault
    rw [acceptWithin] at hfault
    split at hfault
    · cases hfault
    · cases hfault
    · cases hfault
    · next hdone =>
      obtain ⟨a, ha⟩ := AttributeState.exists_of_accept_done hdone
      cases ha
  rcases s with ⟨found, _ | state⟩
  · simp only [accept] at h
    split at h
    · next ht =>
      split at h
      · next hfound =>
        subst hfound
        cases h
        exact ⟨ht, rfl, rfl⟩
      · cases h
    · cases h
    · exact absurd h (hwithin found .key)
  · exact absurd h (hwithin found state)

end Record

end CardDeck
