import CardDeck.Proofs.Card
import CardDeck.Proofs.Layout
import CardDeck.Segment

/-! # Writing decks

How segments are put on cards. Each record is a statement: its header stands in a column of its own,
the first attribute behind it on the same card, and every other attribute on a card that goes on
with the statement. Where an attribute stands on its card is free, as far as there is room for it,
and so is what numbers the card.

`Writing.Arranges` is the order of the records, `Writing.Fit` the room on the cards, and
`Card.ofText_text` says that the cards can be told apart. -/

namespace CardDeck.Writing

/-! ### What can be written -/

/-- A word that is read as it is written. -/
structure IsLexable (word : String) : Prop where
  ne_nil : word.toList ≠ []
  inWord : ∀ c ∈ word.toList, isDelimiter c = false
  head : word.toList.head? ≠ some Card.marker

instance (word : String) : Decidable (IsLexable word) :=
  -- over the characters of the word, and not over all characters
  decidable_of_iff (word.toList ≠ [] ∧ word.toList.all (!isDelimiter ·) ∧
      word.toList.head? ≠ some Card.marker)
    ⟨fun ⟨hne, hword, hhead⟩ => ⟨hne, by simpa using hword, hhead⟩,
      fun h => ⟨h.ne_nil, by simpa using h.inWord, h.head⟩⟩

/-- A key is a word of the vocabulary that opens no record. -/
structure IsKey (v : Vocabulary) (word : String) : Prop extends IsLexable word where
  mem_keys : word ∈ v.keys
  not_header : word ∉ Header.all.map Header.word

instance (v : Vocabulary) (word : String) : Decidable (IsKey v word) :=
  decidable_of_iff (IsLexable word ∧ word ∈ v.keys ∧ word ∉ Header.all.map Header.word)
    ⟨fun ⟨hword, hkey, hheader⟩ => ⟨hword, hkey, hheader⟩,
      fun h => ⟨h.toIsLexable, h.mem_keys, h.not_header⟩⟩

/-- An item of a list is a word that means nothing else. -/
structure IsItem (v : Vocabulary) (word : String) : Prop extends IsLexable word where
  not_mem_keys : word ∉ v.keys
  not_header : word ∉ Header.all.map Header.word
  not_directive : word ∉ Vocabulary.directives

instance (v : Vocabulary) (word : String) : Decidable (IsItem v word) :=
  decidable_of_iff (IsLexable word ∧ word ∉ v.keys ∧ word ∉ Header.all.map Header.word ∧
      word ∉ Vocabulary.directives)
    ⟨fun ⟨hword, hkey, hheader, hdirective⟩ => ⟨hword, hkey, hheader, hdirective⟩,
      fun h => ⟨h.toIsLexable, h.not_mem_keys, h.not_header, h.not_directive⟩⟩

/-- A value is a word that starts neither a record nor a directive, or a list. -/
inductive IsValue (v : Vocabulary) : String → Prop
  | word {word : String} (hword : IsLexable word) (hheader : word ∉ Header.all.map Header.word)
      (hdirective : word ∈ Vocabulary.directives → word ∈ v.keys) : IsValue v word
  | list {items : List String} (hne : items ≠ []) (hitems : ∀ item ∈ items, IsItem v item) :
      IsValue v ("(" ++ ",".intercalate items ++ ")")

/-- Attributes that a record can be written with. -/
def IsWritable (v : Vocabulary) (attributes : Attributes) : Prop :=
  attributes ≠ [] ∧ ∀ a ∈ attributes, IsKey v a.key ∧ IsValue v a.value

/-- A segment that can be written, with its leaf records. -/
def IsWritableSegment (v : Vocabulary) (s : Segment) : Prop :=
  IsWritable v s.attributes ∧
    ∀ attributes ∈ s.fields ++ s.leftChildren ++ s.crossReferences, IsWritable v attributes

/-! ### Records and their order -/

/-- An attribute, the column in which it starts, and what numbers its card. -/
structure Entry extends Attribute where
  column : Nat
  sequence : List Char
deriving DecidableEq, Repr

/-- A record as it is written. -/
structure Record where
  header : Header
  entries : List Entry
deriving DecidableEq, Repr

def Record.attributes (r : Record) : Attributes := r.entries.map (·.toAttribute)

/-- The attributes of the records of one kind. -/
def attributesOf (header : Header) (records : List Record) : List Attributes :=
  (records.filter (·.header = header)).map (·.attributes)

theorem attributesOf_cons (header : Header) (r : Record) (records : List Record) :
    attributesOf header (r :: records) =
      if r.header = header then r.attributes :: attributesOf header records
      else attributesOf header records := by
  rw [attributesOf, List.filter_cons]
  simp only [decide_eq_true_eq]
  split <;> rfl

/-- Each segment comes before its leaf records, which keep their order only among those of one
kind. -/
inductive Arranges : List Segment → List Record → Prop
  | nil : Arranges [] []
  | cons {s : Segment} {own : Record} {leaves records : List Record} {segments : List Segment}
      (hown : own.header = .segm) (hattributes : own.attributes = s.attributes)
      (hleaves : ∀ r ∈ leaves, r.header ≠ .segm) (hfields : attributesOf .field leaves = s.fields)
      (hleftChildren : attributesOf .lchild leaves = s.leftChildren)
      (hcrossReferences : attributesOf .xdfld leaves = s.crossReferences)
      (h : Arranges segments records) : Arranges (s :: segments) (own :: (leaves ++ records))

/-! ### Cards -/

/-- Where a record starts. -/
def headerColumn : Nat := 9

/-- The columns of a card that hold its text. -/
def room (isContinued : Bool) : Nat :=
  if isContinued then Card.markerColumn else Card.sequenceColumn

/-- A card with this text. -/
def card (isContinued : Bool) (text sequence : List Char) : Card :=
  text.rightpad (room isContinued) ' ' ++ (if isContinued then [Card.marker] else []) ++ sequence

/-- The text of a card up to an attribute, which comes behind `lead`. -/
def Entry.body (e : Entry) (lead : List Char) : List Char :=
  lead.rightpad e.column ' ' ++ e.toAttribute.text.toList

/-- The cards of a statement. The first attribute comes behind `lead`, and all but the last have a
comma behind them. -/
def cards (lead : List Char) : List Entry → List Card
  | [] => []
  | [e] => [card false (e.body lead) e.sequence]
  | e :: entries => card true (e.body lead ++ [',']) e.sequence :: cards [] entries

/-- What a record has before its attributes. -/
def Record.lead (r : Record) : List Char :=
  List.replicate headerColumn ' ' ++ r.header.word.toList

def Record.cards (r : Record) : List Card := Writing.cards r.lead r.entries

/-- The text of a deck; a newline behind the last card is optional. -/
def text (terminated : Bool) : List Card → List Char
  | [] => []
  | [card] => card ++ if terminated then ['\n'] else []
  | card :: cards => card ++ '\n' :: text terminated cards

theorem cards_cons_cons (lead : List Char) (e next : Entry) (entries : List Entry) :
    cards lead (e :: next :: entries) =
      card true (e.body lead ++ [',']) e.sequence :: cards [] (next :: entries) := rfl

theorem text_cons_cons (terminated : Bool) (card next : Card) (cards : List Card) :
    text terminated (card :: next :: cards) = card ++ '\n' :: text terminated (next :: cards) := rfl

/-! ### Room -/

/-- An attribute starts behind a blank, not before the column of resumption. -/
structure Entry.Fits (e : Entry) (lead : List Char) : Prop where
  resume_le : Card.resumeColumn ≤ e.column
  lead_lt : lead.length < e.column
  length_sequence : e.sequence.length = Card.width - Card.sequenceColumn
  newline : '\n' ∉ e.sequence

instance (e : Entry) (lead : List Char) : Decidable (e.Fits lead) :=
  decidable_of_iff (Card.resumeColumn ≤ e.column ∧ lead.length < e.column ∧
      e.sequence.length = Card.width - Card.sequenceColumn ∧ '\n' ∉ e.sequence)
    ⟨fun ⟨hresume, hlead, hlength, hnewline⟩ => ⟨hresume, hlead, hlength, hnewline⟩,
      fun h => ⟨h.resume_le, h.lead_lt, h.length_sequence, h.newline⟩⟩

/-- There is room for the attributes, and the last card does not look like a continued one. -/
def Fit (lead : List Char) : List Entry → Prop
  | [] => True
  | [e] => e.Fits lead ∧ (e.body lead).length ≤ Card.sequenceColumn ∧
      (e.body lead)[Card.markerColumn]? ≠ some Card.marker
  | e :: entries => e.Fits lead ∧ (e.body lead).length < Card.markerColumn ∧ Fit [] entries

instance decidableFit : ∀ (lead : List Char) (entries : List Entry), Decidable (Fit lead entries)
  | _, [] => inferInstanceAs (Decidable True)
  | _, [_] => inferInstanceAs (Decidable (_ ∧ _ ∧ _))
  | _, _ :: next :: entries =>
    have := decidableFit [] (next :: entries)
    inferInstanceAs (Decidable (_ ∧ _ ∧ _))

variable {isContinued : Bool} {body sequence : List Char}

theorem length_rightpad_room (hroom : body.length ≤ room isContinued) :
    (body.rightpad (room isContinued) ' ').length = room isContinued := by
  rw [List.rightpad, List.length_append, List.length_replicate]
  omega

theorem length_card (hroom : body.length ≤ room isContinued)
    (hsequence : sequence.length = Card.width - Card.sequenceColumn) :
    (card isContinued body sequence).length = Card.width := by
  rw [card, List.length_append, List.length_append, length_rightpad_room hroom, hsequence]
  cases isContinued <;> rfl

theorem isContinued_card_true (hroom : body.length ≤ room true) :
    (card true body sequence).isContinued := by
  rw [Card.isContinued_iff, card, List.append_assoc]
  change (body.rightpad (room true) ' ' ++ _)[room true]? = _
  rw [List.getElem?_append_right (length_rightpad_room hroom).le, length_rightpad_room hroom]
  rfl

theorem isContinued_card_false (hroom : body.length ≤ room false)
    (hmarker : body[Card.markerColumn]? ≠ some Card.marker) :
    (card false body sequence).isContinued = false := by
  have hlt : Card.markerColumn < (body.rightpad (room false) ' ').length := by
    rw [length_rightpad_room hroom]
    decide
  rw [← Bool.not_eq_true, Card.isContinued_iff, card, List.append_assoc,
    List.getElem?_append_left hlt, List.rightpad]
  rcases Nat.lt_or_ge Card.markerColumn body.length with h | h
  · rwa [List.getElem?_append_left h]
  · rw [List.getElem?_append_right h, List.getElem?_replicate]
    split <;> decide

theorem payload_card (hroom : body.length ≤ room isContinued)
    (hcontinued : (card isContinued body sequence).isContinued = isContinued) :
    (card isContinued body sequence).payload 0 = body.rightpad (room isContinued) ' ' := by
  rw [Card.payload_zero, hcontinued]
  change (card isContinued body sequence).take (room isContinued) = _
  rw [card, List.append_assoc, List.take_append_of_le_length (length_rightpad_room hroom).ge,
    List.take_of_length_le (length_rightpad_room hroom).le]

theorem newline_not_mem_rightpad {n : Nat} (hbody : '\n' ∉ body) :
    '\n' ∉ body.rightpad n ' ' := by
  simp [List.rightpad, hbody]

theorem newline_not_mem_card (hbody : '\n' ∉ body) (hsequence : '\n' ∉ sequence) :
    '\n' ∉ card isContinued body sequence := by
  rw [card, List.mem_append, List.mem_append, not_or, not_or]
  refine ⟨⟨newline_not_mem_rightpad hbody, ?_⟩, hsequence⟩
  cases isContinued <;> decide

/-! ### Lines -/

theorem IsLexable.newline {word : String} (h : IsLexable word) : '\n' ∉ word.toList := by
  intro hmem
  have hdelimiter := isDelimiter_newline
  rw [h.inWord _ hmem] at hdelimiter
  cases hdelimiter

/-- What a list has behind its first item. -/
def listTail (items : List String) : List Char :=
  (items.flatMap fun item => ',' :: item.toList) ++ [')']

theorem listTail_cons (item : String) (items : List String) :
    listTail (item :: items) = ',' :: (item.toList ++ listTail items) := by
  rw [listTail, List.flatMap_cons, List.cons_append, List.cons_append, List.append_assoc, listTail]

theorem toList_list (item : String) (items : List String) :
    ("(" ++ ",".intercalate (item :: items) ++ ")").toList =
      '(' :: (item.toList ++ listTail items) := by
  have hitems : (",".intercalate (item :: items)).toList =
      item.toList ++ items.flatMap fun item => ',' :: item.toList := by
    induction items generalizing item with
    | nil => simp
    | cons next items ih =>
      rw [String.intercalate_cons_cons, String.toList_append, String.toList_append, ih,
        List.flatMap_cons]
      simp
  rw [String.toList_append, String.toList_append, hitems, listTail]
  simp

theorem toList_text (a : Attribute) : a.text.toList = a.key.toList ++ '=' :: a.value.toList := by
  simp [Attribute.text]

/-- What a value holds besides the characters of words makes it a list. -/
theorem IsValue.mem_of_isDelimiter {v : Vocabulary} {value : String} {c : Char}
    (h : IsValue v value) (hc : c ∈ value.toList) (hd : isDelimiter c) : c ∈ ['(', ',', ')'] := by
  cases h with
  | word hword =>
    rw [hword.inWord c hc] at hd
    cases hd
  | @list items hne hitems =>
    obtain ⟨item, items, rfl⟩ := List.exists_cons_of_ne_nil hne
    have hword : ∀ word ∈ item :: items, c ∉ word.toList := by
      intro word hword hmem
      rw [(hitems word hword).inWord c hmem] at hd
      cases hd
    obtain ⟨hitem, hitems⟩ := List.forall_mem_cons.1 hword
    have hmem : c = '(' ∨ c ∈ item.toList ∨ (∃ word ∈ items, c = ',' ∨ c ∈ word.toList) ∨
        c = ')' := by
      rw [toList_list, listTail] at hc
      simpa using hc
    rcases hmem with rfl | hmem | ⟨word, hword, rfl | hmem⟩ | rfl
    · decide
    · exact absurd hmem hitem
    · decide
    · exact absurd hmem (hitems word hword)
    · decide

theorem IsValue.newline {v : Vocabulary} {value : String} (h : IsValue v value) :
    '\n' ∉ value.toList := fun hmem =>
  absurd (h.mem_of_isDelimiter hmem isDelimiter_newline) (by decide)

/-- A written card is a line of full width. -/
theorem length_and_newline_of_mem_cards {v : Vocabulary} {lead : List Char} {entries : List Entry}
    (hlead : '\n' ∉ lead) (hfit : Fit lead entries)
    (hwritable : ∀ e ∈ entries, IsKey v e.key ∧ IsValue v e.value) :
    ∀ card ∈ cards lead entries, card.length = Card.width ∧ '\n' ∉ card := by
  induction entries generalizing lead with
  | nil => simp [cards]
  | cons e entries ih =>
    obtain ⟨⟨hkey, hvalue⟩, hwritable⟩ := List.forall_mem_cons.1 hwritable
    have hbody : '\n' ∉ e.body lead := by
      rw [Entry.body, toList_text, List.mem_append, List.mem_append, List.mem_cons, not_or, not_or,
        not_or]
      exact ⟨newline_not_mem_rightpad hlead, hkey.newline, by decide, hvalue.newline⟩
    cases entries with
    | nil =>
      obtain ⟨hfits, hroom, -⟩ := hfit
      rw [cards, List.forall_mem_singleton]
      exact ⟨length_card hroom hfits.length_sequence, newline_not_mem_card hbody hfits.newline⟩
    | cons next entries =>
      obtain ⟨hfits, hroom, hfit⟩ := hfit
      have hroom : (e.body lead ++ [',']).length ≤ room true := by
        rw [List.length_append]
        exact hroom
      have hcomma : '\n' ∉ e.body lead ++ [','] := by simp [hbody]
      rw [cards_cons_cons, List.forall_mem_cons]
      refine ⟨⟨length_card hroom hfits.length_sequence,
        newline_not_mem_card hcomma hfits.newline⟩, ?_⟩
      exact ih (List.not_mem_nil) hfit hwritable

/-- The cards of a deck can be told apart. -/
theorem ofText_text {terminated : Bool} {cards : List Card}
    (hnewline : ∀ card ∈ cards, '\n' ∉ card) (hne : ∀ card ∈ cards, card ≠ []) :
    Card.ofText (text terminated cards) = cards := by
  induction cards with
  | nil => rfl
  | cons card cards ih =>
    obtain ⟨hcard, hcards⟩ := List.forall_mem_cons.1 hnewline
    have ih := ih hcards (List.forall_mem_cons.1 hne).2
    cases cards with
    | nil =>
      cases terminated with
      | true => exact Card.ofText_card_newline hcard []
      | false =>
        rw [text, if_neg Bool.false_ne_true, List.append_nil]
        exact Card.ofText_card hcard (hne card List.mem_cons_self)
    | cons next cards => rw [text_cons_cons, Card.ofText_card_newline hcard, ih]

/-- A deck ends as it does behind its first card. -/
theorem getLast?_append_newline (card : Card) {deck : List Char} (hne : deck ≠ []) :
    (card ++ '\n' :: deck).getLast? = deck.getLast? := by
  obtain ⟨c, rest, rfl⟩ := List.exists_cons_of_ne_nil hne
  simp [List.getLast?_cons]

/-- Whether a newline ends the last card can be told from the deck. -/
theorem getLast?_text {terminated : Bool} {cards : List Card} (hcards : cards ≠ [])
    (hnewline : ∀ card ∈ cards, '\n' ∉ card) (hne : ∀ card ∈ cards, card ≠ []) :
    (text terminated cards).getLast? = some '\n' ↔ terminated := by
  induction cards with
  | nil => exact absurd rfl hcards
  | cons card cards ih =>
    obtain ⟨hcard, hnewline⟩ := List.forall_mem_cons.1 hnewline
    have hne := (List.forall_mem_cons.1 hne).2
    cases cards with
    | nil =>
      cases terminated with
      | true => simp [text]
      | false =>
        rw [text, if_neg Bool.false_ne_true, List.append_nil]
        exact iff_of_false (fun h => hcard (List.mem_of_getLast? h)) Bool.false_ne_true
    | cons next cards =>
      have hrest : text terminated (next :: cards) ≠ [] := by
        intro hnil
        have hcut := @ofText_text terminated _ hnewline hne
        rw [hnil] at hcut
        cases hcut
      rw [text_cons_cons, getLast?_append_newline card hrest]
      exact ih (List.cons_ne_nil next cards) hnewline hne

/-- A deck is its cards and, if there are any, whether a newline ends the last one. -/
theorem text_ofText (deck : List Char) :
    text (deck.getLast? = some '\n') (Card.ofText deck) = deck := by
  induction deck using Card.text_induction with
  | nil => rfl
  | card card hnewline hne =>
    have hlast : card.getLast? ≠ some '\n' := fun h => hnewline (List.mem_of_getLast? h)
    rw [Card.ofText_card hnewline hne, text, if_neg (by simpa using hlast), List.append_nil]
  | newline card deck hnewline ih =>
    rw [Card.ofText_card_newline hnewline]
    cases hcards : Card.ofText deck with
    | nil =>
      obtain rfl := Card.ofText_eq_nil_iff.1 hcards
      rw [text, if_pos (by simp)]
    | cons next cards =>
      have hne : deck ≠ [] := by
        rintro rfl
        cases hcards
      rw [hcards] at ih
      rw [text_cons_cons, getLast?_append_newline card hne, ih]

end CardDeck.Writing
