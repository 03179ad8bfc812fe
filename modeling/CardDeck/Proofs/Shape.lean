import CardDeck.Proofs.Deck
import CardDeck.Proofs.Text
import CardDeck.Proofs.Words

/-! # What values are read from

A value is read from a word or from a list of words, and is kept as a text. `Shape` is what the
tokens say before they become that text, and `Attribute.StandsIn` ties an attribute to the tokens
that it is read from.

No word holds a parenthesis or a comma, so the text of a value tells its shape: `Shape.text_inj`.
This and what words there are in a deck come to `Decoder.isWritableSegment_of_segments`. -/

namespace CardDeck

open Grammar Writing

/-- A word, or a list of words in parentheses. -/
inductive Shape where
  | word (text : String)
  | list (items : List String)
deriving DecidableEq, Repr

namespace Shape

/-- The text that is kept of a value. -/
def text : Shape → String
  | .word text => text
  | .list items => Record.ValueState.listText items

/-- The words are words that can be read, and a list has some. -/
inductive IsLexable : Shape → Prop
  | word {text : String} (h : Writing.IsLexable text) : IsLexable (.word text)
  | list {items : List String} (hne : items ≠ []) (h : ∀ item ∈ items, Writing.IsLexable item) :
      IsLexable (.list items)

/-- The tokens are a value of this shape. -/
inductive Spans : Shape → List Token → Prop
  | word {t : Token} (ht : t.kind = .identifier ∨ t.kind = .key) : Spans (.word t.text) [t]
  | list {o t : Token} {ts : List Token} {items : List String} (ho : o.kind = .openParen)
      (ht : t.kind = .identifier) (h : ListTail ts items) :
      Spans (.list (t.text :: items)) (o :: t :: ts)

/-! ### The text of a value tells its shape -/

theorem toList_listText (items : List String) :
    (Record.ValueState.listText items).toList =
      '(' :: ([','].intercalate (items.map String.toList) ++ [')']) := by
  simp [Record.ValueState.listText]

/-- A list is taken apart at its commas. -/
theorem listText_inj {a b : List String} (ha : a ≠ []) (hb : b ≠ [])
    (ha' : ∀ item ∈ a, Writing.IsLexable item) (hb' : ∀ item ∈ b, Writing.IsLexable item)
    (h : Record.ValueState.listText a = Record.ValueState.listText b) : a = b := by
  have hcomma {items : List String} (hitems : ∀ item ∈ items, Writing.IsLexable item) :
      ∀ item ∈ items, ',' ∉ item.toList := by
    intro item hitem hmem
    have hdelimiter := (hitems item hitem).inWord _ hmem
    cases hdelimiter
  have hlists := congrArg String.toList h
  rw [toList_listText, toList_listText] at hlists
  have hinner := List.append_cancel_right (List.cons.inj hlists).2
  exact Text.intercalate_inj ha hb (hcomma ha') (hcomma hb') hinner

/-- No word starts as a list does. -/
theorem text_ne_listText {word : String} (h : Writing.IsLexable word) (items : List String) :
    word ≠ Record.ValueState.listText items := by
  rintro rfl
  have hdelimiter := h.inWord '(' (by rw [toList_listText]; exact List.mem_cons_self)
  cases hdelimiter

theorem text_inj {a b : Shape} (ha : a.IsLexable) (hb : b.IsLexable) (h : a.text = b.text) :
    a = b := by
  cases ha with
  | word ha =>
    cases hb with
    | word => exact congrArg Shape.word h
    | list => exact absurd h (text_ne_listText ha _)
  | list hne ha =>
    cases hb with
    | word hb => exact absurd h.symm (text_ne_listText hb _)
    | list hne' hb => exact congrArg Shape.list (listText_inj hne hne' ha hb h)

/-! ### Values of a deck -/

variable {v : Vocabulary} {shape : Shape} {found us : List Token}

theorem exists_spans_of_value {value : String} (h : Value us value) :
    ∃ shape : Shape, shape.Spans us ∧ value = shape.text := by
  cases h with
  | identifier ht => exact ⟨_, .word (.inl ht), rfl⟩
  | key ht => exact ⟨_, .word (.inr ht), rfl⟩
  | list ho ht h => exact ⟨_, .list ho ht h, rfl⟩

theorem exists_of_mem_listTail {items : List String} (h : ListTail us items) :
    ∀ item ∈ items, ∃ t ∈ us, t.kind = .identifier ∧ t.text = item := by
  induction h with
  | close => exact List.forall_mem_nil _
  | @comma c t ts items _ ht _ ih =>
    refine List.forall_mem_cons.2 ⟨⟨t, by simp, ht, rfl⟩, fun item hitem => ?_⟩
    obtain ⟨u, hu, hspec⟩ := ih item hitem
    exact ⟨u, by simp [hu], hspec⟩

/-- What is read as a value could be written as one. -/
theorem Spans.isValue (h : shape.Spans us) (hus : ∀ t ∈ us, t.IsRead v ∧ t.isStray = false) :
    IsValue v shape.text ∧ shape.IsLexable := by
  cases h with
  | @word t ht =>
    obtain ⟨hread, hstray⟩ := hus t (List.mem_singleton_self t)
    rcases ht with ht | ht
    · have hitem := hread.isItem hstray ht
      exact ⟨.word hitem.toIsLexable hitem.not_header fun h => absurd h hitem.not_directive,
        .word hitem.toIsLexable⟩
    · have hkey := hread.isKey hstray ht
      exact ⟨.word hkey.toIsLexable hkey.not_header fun _ => hkey.mem_keys, .word hkey.toIsLexable⟩
  | @list o t ts items ho ht h =>
    have hitems : ∀ item ∈ t.text :: items, IsItem v item := by
      have hread (u : Token) (hu : u ∈ o :: t :: ts) (hk : u.kind = .identifier) :
          IsItem v u.text := (hus u hu).1.isItem (hus u hu).2 hk
      refine List.forall_mem_cons.2 ⟨hread t (by simp) ht, fun item hitem => ?_⟩
      obtain ⟨u, hu, hk, rfl⟩ := exists_of_mem_listTail h item hitem
      exact hread u (by simp [hu]) hk
    exact ⟨.list (List.cons_ne_nil _ _) hitems,
      .list (List.cons_ne_nil _ _) fun item hitem => (hitems item hitem).toIsLexable⟩

end Shape

/-- Among the tokens there are those of the attribute: its key, an equals sign and a value of this
shape. -/
def Attribute.StandsIn (a : Attribute) (shape : Shape) (found : List Token) : Prop :=
  ∃ k e us, k :: e :: us <:+: found ∧ k.kind = .key ∧ k.text = a.key ∧ e.kind = .equals ∧
    shape.Spans us ∧ shape.text = a.value

namespace Attribute.StandsIn

variable {v : Vocabulary} {a b : Attribute} {shape shape' : Shape} {found found' us : List Token}

theorem of_infix (h : a.StandsIn shape us) (hus : us <:+: found) : a.StandsIn shape found := by
  obtain ⟨k, e, vs, hvs, hspec⟩ := h
  exact ⟨k, e, vs, hvs.trans hus, hspec⟩

theorem text_eq (h : a.StandsIn shape found) : shape.text = a.value := by
  obtain ⟨k, e, us, -, -, -, -, -, hvalue⟩ := h
  exact hvalue

theorem isLexable (h : a.StandsIn shape found)
    (hfound : ∀ t ∈ found, t.IsRead v ∧ t.isStray = false) : shape.IsLexable := by
  obtain ⟨k, e, us, hus, -, -, -, hspans, -⟩ := h
  exact (hspans.isValue fun t ht => hfound t (hus.subset (by simp [ht]))).2

/-- An attribute that is read could be written. -/
theorem isKey_and_isValue (h : a.StandsIn shape found)
    (hfound : ∀ t ∈ found, t.IsRead v ∧ t.isStray = false) : IsKey v a.key ∧ IsValue v a.value := by
  obtain ⟨k, e, us, hus, hk, hkey, -, hspans, hvalue⟩ := h
  obtain ⟨hread, hstray⟩ := hfound k (hus.subset List.mem_cons_self)
  rw [← hkey, ← hvalue]
  exact ⟨hread.isKey hstray hk, (hspans.isValue fun t ht => hfound t (hus.subset (by simp [ht]))).1⟩

end Attribute.StandsIn

/-! ### Segments -/

/-- The attributes of the segment itself and of each of its leaf records. -/
def Segment.records (s : Segment) : List Attributes :=
  s.attributes :: (s.fields ++ s.leftChildren ++ s.crossReferences)

namespace Grammar

variable {ts : List Token} {items : List Item} {attributes : Attributes} {header : Header}

theorem AttributeList.exists_standsIn (h : AttributeList ts attributes) :
    ∀ a ∈ attributes, ∃ shape, a.StandsIn shape ts := by
  induction h with
  | nil => exact List.forall_mem_nil _
  | comma _ _ ih =>
    intro a ha
    obtain ⟨shape, hshape⟩ := ih a ha
    exact ⟨shape, hshape.of_infix (List.suffix_cons _ _).isInfix⟩
  | @cons k e us ts value attributes hk he hvalue _ ih =>
    refine List.forall_mem_cons.2 ⟨?_, fun a ha => ?_⟩
    · obtain ⟨shape, hspans, rfl⟩ := Shape.exists_spans_of_value hvalue
      exact ⟨shape, k, e, us, (List.prefix_append (k :: e :: us) ts).isInfix, hk, rfl, he, hspans,
        rfl⟩
    · obtain ⟨shape, hshape⟩ := ih a ha
      exact ⟨shape, hshape.of_infix (List.suffix_append (k :: e :: us) ts).isInfix⟩

theorem Items.exists_attributeList (h : Items ts items) (hmem : .record header attributes ∈ items) :
    attributes ≠ [] ∧ ∃ us, us <:+: ts ∧ AttributeList us attributes := by
  induction h with
  | nil => cases hmem
  | @blank t ts items _ _ ih | @label t ts items _ _ ih =>
    obtain ⟨hne, us, hus, hlist⟩ := ih (by simpa using hmem)
    exact ⟨hne, us, hus.trans (List.suffix_cons t ts).isInfix, hlist⟩
  | @directive t e vs ts items _ _ _ _ ih =>
    obtain ⟨hne, us, hus, hlist⟩ := ih (by simpa using hmem)
    refine ⟨hne, us, hus.trans ?_, hlist⟩
    exact ⟨t :: (vs ++ [e]), [], by simp⟩
  | openDirective => simp at hmem
  | @record t e vs ts leaf own items _ hvs hne _ _ ih =>
    rcases List.mem_cons.1 hmem with heq | hmem
    · obtain ⟨-, rfl⟩ := Item.record.inj heq
      exact ⟨hne, vs, ⟨[t], e :: ts, by simp⟩, hvs⟩
    · obtain ⟨hne, us, hus, hlist⟩ := ih hmem
      exact ⟨hne, us, hus.trans ⟨t :: (vs ++ [e]), [], by simp⟩, hlist⟩

theorem mem_of_mem_leaves (h : attributes ∈ leaves header items) :
    .record header attributes ∈ items := by
  obtain ⟨item, hitem, hsome⟩ := List.mem_filterMap.1 h
  have hmem := (List.takeWhile_sublist _).subset hitem
  cases item with
  | record leaf own =>
    simp only [Option.ite_none_right_eq_some, Option.some.injEq] at hsome
    obtain ⟨rfl, rfl⟩ := hsome
    exact hmem
  | _ => cases hsome

/-- The attributes of a segment and of its leaf records are those of records. -/
theorem exists_record_of_mem_segments {s : Segment} (hs : s ∈ segments items)
    (h : attributes ∈ s.records) :
    ∃ header, .record header attributes ∈ items := by
  induction items with
  | nil => cases hs
  | cons item items ih =>
    have hbehind (hs : s ∈ segments items) : ∃ header, .record header attributes ∈ item :: items := by
      obtain ⟨header, hmem⟩ := ih hs
      exact ⟨header, List.mem_cons_of_mem item hmem⟩
    cases item with
    | record leaf own =>
      by_cases hleaf : leaf = .segm
      · subst hleaf
        rcases List.mem_cons.1 hs with rfl | hs
        · simp only [Segment.records, segment, List.mem_cons, List.mem_append] at h
          rcases h with rfl | (h | h) | h
          · exact ⟨.segm, List.mem_cons_self⟩
          · exact ⟨.field, List.mem_cons_of_mem _ (mem_of_mem_leaves h)⟩
          · exact ⟨.lchild, List.mem_cons_of_mem _ (mem_of_mem_leaves h)⟩
          · exact ⟨.xdfld, List.mem_cons_of_mem _ (mem_of_mem_leaves h)⟩
        · exact hbehind hs
      · rw [segments_record_cons hleaf] at hs
        exact hbehind hs
    | _ => exact hbehind hs

end Grammar

/-- The attributes of every record that is read off the words of a deck could be written. -/
theorem Segment.isWritable_of_ofTokens {v : Vocabulary} {found : List Token}
    {segments : List Segment} (hfound : ∀ t ∈ found, t.IsRead v ∧ t.isStray = false)
    (h : ofTokens found = .ok segments) :
    ∀ s ∈ segments, ∀ attributes ∈ s.records, IsWritable v attributes := by
  obtain ⟨items, hitems, -, hsegments⟩ := Deck.ofTokens_eq_ok_iff_fromBetween.1 h
  obtain rfl : segments = Grammar.segments items := hsegments
  intro s hs attributes hattributes
  obtain ⟨header, hmem⟩ := exists_record_of_mem_segments hs hattributes
  obtain ⟨hne, us, hus, hlist⟩ := hitems.exists_attributeList hmem
  refine ⟨hne, fun a ha => ?_⟩
  obtain ⟨shape, hshape⟩ := hlist.exists_standsIn a ha
  exact (hshape.of_infix (hus.trans (List.takeWhile_prefix _).isInfix)).isKey_and_isValue hfound

/-- Whatever is decoded could be written: every record has attributes, every key is a key of the
vocabulary, and every value is a word or a list of words. Each attribute stands among the tokens of
the deck, and its value tells from which shape it was read, whichever decks the values that are
compared come from. -/
theorem Decoder.isWritableSegment_of_segments {d : Decoder} {text : List Char}
    {segments : List Segment} (h : d.segments text = .ok segments) :
    (∀ s ∈ segments, IsWritableSegment d.vocabulary s) ∧
      ∃ found, d.tokens text = .ok found ∧
        (∀ s ∈ segments, ∀ attributes ∈ s.records, ∀ a ∈ attributes,
          ∃ shape, a.StandsIn shape found) ∧
        ∀ (d' : Decoder) (text' : List Char) (found' : List Token), d'.tokens text' = .ok found' →
          ∀ (a b : Attribute) (shape shape' : Shape), a.StandsIn shape found →
            b.StandsIn shape' found' → a.value = b.value → shape = shape' := by
  cases htokens : d.tokens text with
  | error fault =>
    rw [segments_of_tokens_eq_error htokens] at h
    cases h
  | ok found =>
    have hread := isRead_of_tokens htokens
    rw [segments_of_tokens htokens] at h
    cases hrecords : Segment.ofTokens found with
    | error fault =>
      rw [hrecords] at h
      cases h
    | ok segments =>
      rw [hrecords] at h
      obtain rfl := Except.ok.inj h
      obtain ⟨items, hitems, -, rfl⟩ := Segment.ofTokens_eq_ok_iff.1 hrecords
      have hstands (s : Segment) (hs : s ∈ Grammar.segments items) (attributes : Attributes)
          (hattributes : attributes ∈ s.records) :
          attributes ≠ [] ∧ ∀ a ∈ attributes, ∃ shape, a.StandsIn shape found := by
        obtain ⟨header, hmem⟩ := exists_record_of_mem_segments hs hattributes
        obtain ⟨hne, us, hus, hlist⟩ := hitems.exists_attributeList hmem
        refine ⟨hne, fun a ha => ?_⟩
        obtain ⟨shape, hshape⟩ := hlist.exists_standsIn a ha
        exact ⟨shape, hshape.of_infix (hus.trans (List.takeWhile_prefix _).isInfix)⟩
      refine ⟨fun s hs => List.forall_mem_cons.1 fun attributes hattributes => ?_, found, rfl,
        fun s hs attributes hattributes => (hstands s hs attributes hattributes).2, ?_⟩
      · obtain ⟨hne, hshapes⟩ := hstands s hs attributes hattributes
        refine ⟨hne, fun a ha => ?_⟩
        obtain ⟨shape, hshape⟩ := hshapes a ha
        exact hshape.isKey_and_isValue hread
      · intro d' text' found' htokens' a b shape shape' ha hb hvalue
        have htexts : shape.text = shape'.text := by
          rw [ha.text_eq, hb.text_eq, hvalue]
        exact Shape.text_inj (ha.isLexable hread) (hb.isLexable (isRead_of_tokens htokens')) htexts

/-- A segment that has a word and a list of words for its values. -/
def Decoder.wordAndList : List Char :=
  List.replicate 9 ' ' ++ "SEGM NAME=A,PTR=(TWIN,LPARNT)".toList ++ List.replicate 34 ' ' ++
    "00000010".toList

theorem Decoder.isWritableSegment_wordAndList :
    ({} : Decoder).segments wordAndList =
        .ok [⟨[⟨"NAME", "A"⟩, ⟨"PTR", "(TWIN,LPARNT)"⟩], [], [], []⟩] ∧
      IsWritableSegment .standard ⟨[⟨"NAME", "A"⟩, ⟨"PTR", "(TWIN,LPARNT)"⟩], [], [], []⟩ := by
  have h : ({} : Decoder).segments wordAndList =
      .ok [⟨[⟨"NAME", "A"⟩, ⟨"PTR", "(TWIN,LPARNT)"⟩], [], [], []⟩] := by
    decide +kernel
  exact ⟨h, (isWritableSegment_of_segments h).1 _ (List.mem_singleton_self _)⟩

end CardDeck
