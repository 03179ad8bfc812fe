import CardDeck.Segment
import CardDeck.Token

/-! # The grammar of decks

What a deck is as a sequence of tokens, without regard to how one is read. Each construct relates
the tokens of a piece of a deck to what the piece says, and `Grammar.segments` is what a deck says
as a whole.

The grammar alone lets a leaf record stand anywhere. `Grammar.Orderly` is the condition that every
leaf record has a segment to go to. -/

namespace CardDeck.Grammar

/-- What follows the first item of a list, with the items behind it. -/
inductive ListTail : List Token → List String → Prop
  | close {t : Token} (h : t.kind = .closeParen) : ListTail [t] []
  | comma {c t : Token} {ts : List Token} {items : List String} (hc : c.kind = .comma)
      (ht : t.kind = .identifier) (h : ListTail ts items) :
      ListTail (c :: t :: ts) (t.text :: items)

/-- A value is a word or a list of words. -/
inductive Value : List Token → String → Prop
  | identifier {t : Token} (h : t.kind = .identifier) : Value [t] t.text
  | key {t : Token} (h : t.kind = .key) : Value [t] t.text
  | list {o t : Token} {ts : List Token} {items : List String} (ho : o.kind = .openParen)
      (ht : t.kind = .identifier) (h : ListTail ts items) :
      Value (o :: t :: ts) ("(" ++ ",".intercalate (t.text :: items) ++ ")")

/-- Attributes, with commas anywhere between them. -/
inductive AttributeList : List Token → Attributes → Prop
  | nil : AttributeList [] []
  | comma {c : Token} {ts : List Token} {attributes : Attributes} (hc : c.kind = .comma)
      (h : AttributeList ts attributes) : AttributeList (c :: ts) attributes
  | cons {k e : Token} {us ts : List Token} {value : String} {attributes : Attributes}
      (hk : k.kind = .key) (he : e.kind = .equals) (hvalue : Value us value)
      (h : AttributeList ts attributes) :
      AttributeList (k :: e :: (us ++ ts)) (⟨k.text, value⟩ :: attributes)

/-- What a deck is a sequence of. -/
inductive Item where
  | blank
  | label
  | directive
  | record (header : Header) (attributes : Attributes)
deriving DecidableEq, Repr

/-- A deck. Only a directive at the end of it may lack the end of its line. -/
inductive Items : List Token → List Item → Prop
  | nil : Items [] []
  | blank {t : Token} {ts : List Token} {items : List Item} (ht : t.kind = .endOfLine)
      (h : Items ts items) : Items (t :: ts) (.blank :: items)
  | label {t : Token} {ts : List Token} {items : List Item} (ht : t.kind = .label)
      (h : Items ts items) : Items (t :: ts) (.label :: items)
  | directive {t e : Token} {us ts : List Token} {items : List Item} (ht : t.kind = .directive)
      (hus : ∀ u ∈ us, u.kind ≠ .endOfLine) (he : e.kind = .endOfLine) (h : Items ts items) :
      Items (t :: (us ++ e :: ts)) (.directive :: items)
  | openDirective {t : Token} {us : List Token} (ht : t.kind = .directive)
      (hus : ∀ u ∈ us, u.kind ≠ .endOfLine) : Items (t :: us) [.directive]
  | record {t e : Token} {us ts : List Token} {header : Header} {attributes : Attributes}
      {items : List Item} (ht : t.kind = .header header) (hus : AttributeList us attributes)
      (hne : attributes ≠ []) (he : e.kind = .endOfLine) (h : Items ts items) :
      Items (t :: (us ++ e :: ts)) (.record header attributes :: items)

/-! ### How a deck starts -/

/-- The rest of a directive: the end of the deck, where `Last` says what that comes to, or the end
of the line with what comes behind it. -/
def RestOfDirective (Last : Prop) (Behind : List Token → Prop) (ts : List Token) : Prop :=
  ((∀ t ∈ ts, t.kind ≠ .endOfLine) ∧ Last) ∨
    ∃ us e vs, ts = us ++ e :: vs ∧ (∀ u ∈ us, u.kind ≠ .endOfLine) ∧ e.kind = .endOfLine ∧
      Behind vs

section Start

variable {t : Token} {ts : List Token} {items : List Item} {Last : Prop}
  {Behind : List Token → Prop}

theorem restOfDirective_of_endOfLine (ht : t.kind = .endOfLine) :
    RestOfDirective Last Behind (t :: ts) ↔ Behind ts := by
  constructor
  · rintro (⟨hts, -⟩ | ⟨_ | ⟨u, us⟩, e, vs, h, hus, he, hbehind⟩)
    · exact absurd ht (hts t List.mem_cons_self)
    · obtain ⟨-, rfl⟩ := List.cons.inj h
      exact hbehind
    · obtain ⟨rfl, -⟩ := List.cons.inj h
      exact absurd ht (hus t List.mem_cons_self)
  · intro h
    exact .inr ⟨[], t, ts, rfl, by simp, ht, h⟩

theorem restOfDirective_of_ne_endOfLine (ht : t.kind ≠ .endOfLine) :
    RestOfDirective Last Behind (t :: ts) ↔ RestOfDirective Last Behind ts := by
  constructor
  · rintro (⟨hts, h⟩ | ⟨_ | ⟨u, us⟩, e, vs, h, hus, he, hbehind⟩)
    · exact .inl ⟨(List.forall_mem_cons.1 hts).2, h⟩
    · obtain ⟨rfl, -⟩ := List.cons.inj h
      exact absurd he ht
    · obtain ⟨rfl, rfl⟩ := List.cons.inj h
      exact .inr ⟨us, e, vs, rfl, (List.forall_mem_cons.1 hus).2, he, hbehind⟩
  · rintro (⟨hts, h⟩ | ⟨us, e, vs, rfl, hus, he, hbehind⟩)
    · exact .inl ⟨List.forall_mem_cons.2 ⟨ht, hts⟩, h⟩
    · exact .inr ⟨t :: us, e, vs, rfl, List.forall_mem_cons.2 ⟨ht, hus⟩, he, hbehind⟩

theorem items_cons_of_endOfLine (ht : t.kind = .endOfLine) :
    Items (t :: ts) items ↔ ∃ behind, Items ts behind ∧ items = .blank :: behind := by
  constructor
  · intro h
    cases h with
    | blank _ h => exact ⟨_, h, rfl⟩
    | _ => simp_all
  · rintro ⟨behind, h, rfl⟩
    exact .blank ht h

theorem items_cons_of_label (ht : t.kind = .label) :
    Items (t :: ts) items ↔ ∃ behind, Items ts behind ∧ items = .label :: behind := by
  constructor
  · intro h
    cases h with
    | label _ h => exact ⟨_, h, rfl⟩
    | _ => simp_all
  · rintro ⟨behind, h, rfl⟩
    exact .label ht h

theorem items_cons_of_directive (ht : t.kind = .directive) :
    Items (t :: ts) items ↔
      RestOfDirective (items = [.directive])
        (fun vs => ∃ behind, Items vs behind ∧ items = .directive :: behind) ts := by
  constructor
  · intro h
    cases h with
    | directive _ hus he h => exact .inr ⟨_, _, _, rfl, hus, he, _, h, rfl⟩
    | openDirective _ hus => exact .inl ⟨hus, rfl⟩
    | _ => simp_all
  · rintro (⟨hts, rfl⟩ | ⟨us, e, vs, rfl, hus, he, behind, h, rfl⟩)
    · exact .openDirective ht hts
    · exact .directive ht hus he h

theorem items_cons_of_header {header : Header} (ht : t.kind = .header header) :
    Items (t :: ts) items ↔
      ∃ us e vs attributes behind, ts = us ++ e :: vs ∧ AttributeList us attributes ∧
        attributes ≠ [] ∧ e.kind = .endOfLine ∧ Items vs behind ∧
        items = .record header attributes :: behind := by
  constructor
  · intro h
    cases h with
    | @record _ e us vs leaf attributes behind hleaf hus hne he h =>
      obtain rfl : leaf = header := by simpa [ht] using hleaf.symm
      exact ⟨us, e, vs, attributes, behind, rfl, hus, hne, he, h, rfl⟩
    | _ => simp_all
  · rintro ⟨us, e, vs, attributes, behind, rfl, hus, hne, he, h, rfl⟩
    exact .record ht hus hne he h

/-- A deck starts with no other token. -/
theorem not_items_cons
    (ht : t.kind ∈ [.endOfInput, .key, .identifier, .equals, .comma, .openParen, .closeParen]) :
    ¬ Items (t :: ts) items := by
  intro h
  cases h <;> simp_all

end Start

/-! ### What a deck says -/

/-- Whether the item is the record of a segment. -/
def Item.isSegment : Item → Bool
  | .record .segm _ => true
  | _ => false

/-- The attributes of the leaf records of one kind up to the next segment. -/
def leaves (header : Header) (items : List Item) : List Attributes :=
  (items.takeWhile (!·.isSegment)).filterMap fun
    | .record h attributes => if h = header then some attributes else none
    | _ => none

/-- A segment with the leaf records that follow it. -/
def segment (attributes : Attributes) (items : List Item) : Segment where
  attributes := attributes
  fields := leaves .field items
  leftChildren := leaves .lchild items
  crossReferences := leaves .xdfld items

/-- The segments of a deck, in order. -/
def segments : List Item → List Segment
  | [] => []
  | .record .segm attributes :: items => segment attributes items :: segments items
  | _ :: items => segments items

/-- Every leaf record comes behind a segment with no label and no directive in between. -/
def Orderly (items : List Item) : Prop :=
  ∀ before header attributes behind,
    items = before ++ .record header attributes :: behind → header ≠ .segm →
      ∃ front own between, before = front ++ .record .segm own :: between ∧
        .label ∉ between ∧ .directive ∉ between

/-! ### Open segments -/

/-- Whether a segment is open behind an item, where `opened` says whether there is one before. -/
def Item.leavesOpen (opened : Bool) : Item → Bool
  | .blank => opened
  | .label | .directive => false
  | .record .segm _ => true
  | .record _ _ => opened

/-- Whether every leaf record has a segment to go to, where `opened` says whether there is one at
the start. -/
def OrderlyFrom (opened : Bool) : List Item → Prop
  | [] => True
  | item :: items =>
    (∀ header attributes, item = .record header attributes → header ≠ .segm → opened) ∧
      OrderlyFrom (item.leavesOpen opened) items

variable {opened : Bool} {item : Item} {items before : List Item}

/-- A segment is open if the last one has neither a label nor a directive behind it. -/
theorem foldl_leavesOpen_iff :
    before.foldl Item.leavesOpen opened ↔
      (∃ front own between, before = front ++ .record .segm own :: between ∧
        .label ∉ between ∧ .directive ∉ between) ∨
      opened ∧ .label ∉ before ∧ .directive ∉ before := by
  induction before generalizing opened with
  | nil => simp
  | cons item before ih =>
    have hcons : (∃ front own between,
        item :: before = front ++ .record .segm own :: between ∧
          .label ∉ between ∧ .directive ∉ between) ↔
        (∃ own, item = .record .segm own ∧ .label ∉ before ∧ .directive ∉ before) ∨
          ∃ front own between, before = front ++ .record .segm own :: between ∧
            .label ∉ between ∧ .directive ∉ between := by
      constructor
      · rintro ⟨_ | ⟨_, front⟩, own, between, h, hclean⟩
        · obtain ⟨rfl, rfl⟩ := List.cons.inj h
          exact .inl ⟨own, rfl, hclean⟩
        · obtain ⟨rfl, rfl⟩ := List.cons.inj h
          exact .inr ⟨front, own, between, rfl, hclean⟩
      · rintro (⟨own, rfl, hclean⟩ | ⟨front, own, between, rfl, hclean⟩)
        · exact ⟨[], own, before, rfl, hclean⟩
        · exact ⟨item :: front, own, between, rfl, hclean⟩
    rw [List.foldl_cons, ih, hcons]
    cases item with
    | blank => simp [Item.leavesOpen]
    | label => simp [Item.leavesOpen, or_comm]
    | directive => simp [Item.leavesOpen, or_comm]
    | record header attributes =>
      cases header with
      | segm =>
        simp only [Item.leavesOpen, Item.record.injEq, true_and, exists_eq_left', reduceCtorEq,
          List.mem_cons, false_or]
        constructor
        · rintro (h | h)
          · exact .inl (.inr h)
          · exact .inl (.inl h)
        · rintro ((h | h) | ⟨-, h⟩)
          · exact .inr h
          · exact .inl h
          · exact .inr h
      | _ => simp [Item.leavesOpen]

theorem orderlyFrom_iff :
    OrderlyFrom opened items ↔
      ∀ before header attributes behind,
        items = before ++ .record header attributes :: behind → header ≠ .segm →
          before.foldl Item.leavesOpen opened := by
  induction items generalizing opened with
  | nil => simp [OrderlyFrom]
  | cons item items ih =>
    rw [OrderlyFrom, ih]
    constructor
    · rintro ⟨hitem, hitems⟩ (_ | ⟨_, before⟩) header attributes behind h hne
      · exact hitem header attributes (List.cons.inj h).1 hne
      · obtain ⟨rfl, hbehind⟩ := List.cons.inj h
        exact hitems before header attributes behind hbehind hne
    · intro h
      constructor
      · rintro header attributes rfl hne
        exact h [] header attributes items rfl hne
      · rintro before header attributes behind rfl hne
        exact h (item :: before) header attributes behind rfl hne

theorem orderly_iff : Orderly items ↔ OrderlyFrom false items := by
  simp [orderlyFrom_iff, foldl_leavesOpen_iff, Orderly]

theorem leaves_cons_of_isSegment {header : Header} (h : item.isSegment) :
    leaves header (item :: items) = [] := by
  rw [leaves, List.takeWhile_cons_of_neg (by simp [h]), List.filterMap_nil]

theorem leaves_record_cons {header leaf : Header} (h : leaf ≠ .segm) (attributes : Attributes) :
    leaves header (.record leaf attributes :: items) =
      if leaf = header then attributes :: leaves header items else leaves header items := by
  have hleaf : (Item.record leaf attributes).isSegment = false := by
    cases leaf with
    | segm => exact absurd rfl h
    | _ => rfl
  rw [leaves, List.takeWhile_cons_of_pos (by simp [hleaf]), List.filterMap_cons]
  split <;> simp_all [leaves]

theorem segments_record_cons {leaf : Header} (h : leaf ≠ .segm) (attributes : Attributes) :
    segments (.record leaf attributes :: items) = segments items := by
  cases leaf with
  | segm => exact absurd rfl h
  | _ => rfl

/-- A leaf record leaves a segment open if there was one. -/
theorem leavesOpen_record {leaf : Header} (h : leaf ≠ .segm) (attributes : Attributes) :
    (Item.record leaf attributes).leavesOpen opened = opened := by
  cases leaf with
  | segm => exact absurd rfl h
  | _ => rfl

/-- Where no segment is open, there is no leaf record before the next one. -/
theorem leaves_eq_nil {header : Header} (h : OrderlyFrom false items) :
    leaves header items = [] := by
  induction items with
  | nil => rfl
  | cons item items ih =>
    obtain ⟨hitem, hitems⟩ := h
    cases item with
    | record leaf attributes =>
      by_cases hsegm : leaf = .segm
      · exact leaves_cons_of_isSegment (hsegm ▸ rfl)
      · exact absurd (hitem leaf attributes rfl hsegm) Bool.false_ne_true
    | _ => exact ih hitems

end CardDeck.Grammar
