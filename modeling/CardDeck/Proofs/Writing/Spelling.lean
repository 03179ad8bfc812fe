import CardDeck.Proofs.Grammar
import CardDeck.Proofs.Reading
import CardDeck.Proofs.Writing

/-! # Spelling

`Layout.Spells` says which tokens a piece of text is read as, whatever comes behind it. Words and
marks are put together to values and to attributes: `Writing.exists_attribute`. -/

namespace CardDeck

namespace Layout

variable {v : Vocabulary} {p : Position}

/-- A piece of text is read as these tokens wherever a word ends behind it. -/
def Spells (v : Vocabulary) (p : Position) (cs : List Char) (ts : List Token) : Prop :=
  ∀ rest : List Char, (∀ c ∈ rest.head?, isDelimiter c) →
    tokens v (row p (cs ++ rest)) = ts ++ tokens v (row (p.shift cs.length) rest)

theorem isDelimiter_of_mem_head?_cons {c : Char} (h : isDelimiter c) (cs : List Char) :
    ∀ d ∈ (c :: cs).head?, isDelimiter d := by
  rintro d ⟨⟩
  exact h

theorem spells_nil : Spells v p [] [] := by
  intro rest _
  simp

theorem Spells.append {a b : List Char} {ts us : List Token} (ha : Spells v p a ts)
    (hb : Spells v (p.shift a.length) b us) (h : ∀ c ∈ b.head?, isDelimiter c) :
    Spells v p (a ++ b) (ts ++ us) := by
  intro rest hrest
  have hhead : ∀ c ∈ (b ++ rest).head?, isDelimiter c := by
    cases b with
    | nil => exact hrest
    | cons c b => exact h
  rw [List.append_assoc, ha (b ++ rest) hhead, hb rest hrest, List.append_assoc, List.length_append,
    Position.shift_shift, Int.natCast_add]

theorem spells_word {w : List Char} (hne : w ≠ []) (hw : ∀ c ∈ w, isDelimiter c = false) :
    Spells v p w [v.word w p] := by
  intro rest hrest
  obtain ⟨c, cs, rfl⟩ := List.exists_cons_of_ne_nil hne
  obtain ⟨hc, hcs⟩ := List.forall_mem_cons.1 hw
  have hrun : ∀ d ∈ cs, !isDelimiter d := by simpa using hcs
  have htake : (cs ++ rest).takeWhile (!isDelimiter ·) = cs := by
    rw [List.takeWhile_append_of_pos hrun]
    cases rest with
    | nil => simp
    | cons d rest => simp [hrest d rfl]
  have hdrop : (cs ++ rest).dropWhile (!isDelimiter ·) = rest := by
    rw [List.dropWhile_append_of_pos hrun]
    cases rest with
    | nil => rfl
    | cons d rest => simp [hrest d rfl]
  rw [List.cons_append, row, tokens_word (x := ⟨c, p⟩) hc, row_takeWhile_inWord, chars_row, htake,
    row_dropWhile_inWord, htake, hdrop, Position.shift_shift, List.length_cons, Int.natCast_add,
    Int.add_comm]
  rfl

/-- What comes behind a mark does not matter to it. -/
theorem Spells.mark_cons {c : Char} {kind : Token.Kind} {cs : List Char} {ts : List Token}
    (h : Spells v (p.shift 1) cs ts) (hc : punctuation? c = some kind) :
    Spells v p (c :: cs) (⟨kind, c.toString, p⟩ :: ts) := by
  intro rest hrest
  rw [List.cons_append, row, tokens_mark (x := ⟨c, p⟩) hc, h rest hrest, Position.shift_shift,
    List.length_cons, Int.natCast_add, Int.add_comm]
  rfl

theorem Spells.blank_cons {cs : List Char} {ts : List Token} (h : Spells v (p.shift 1) cs ts) :
    Spells v p (' ' :: cs) ts := by
  intro rest hrest
  have hblank : Text.isBlank ' ' := by decide
  rw [List.cons_append, row, tokens_blank (x := ⟨' ', p⟩) hblank, h rest hrest,
    Position.shift_shift, List.length_cons, Int.natCast_add, Int.add_comm]
  rfl

theorem Spells.blanks_append {n : Nat} {cs : List Char} {ts : List Token}
    (h : Spells v (p.shift n) cs ts) : Spells v p (List.replicate n ' ' ++ cs) ts := by
  induction n generalizing p with
  | zero =>
    rw [Int.natCast_zero, Position.shift_zero] at h
    exact h
  | succ n ih =>
    refine blank_cons (ih ?_)
    rwa [Position.shift_shift, Int.add_comm, ← Int.natCast_one, ← Int.natCast_add]

end Layout

theorem Header.ofWord?_eq_none_iff {word : String} :
    ofWord? word = none ↔ word ∉ all.map Header.word := by
  simp [ofWord?, List.find?_eq_none]

theorem Vocabulary.classify_eq_key_iff {v : Vocabulary} {word : String} {column : Int} :
    v.classify word column = .key ↔ word ∉ Header.all.map Header.word ∧ word ∈ v.keys := by
  rw [← Header.ofWord?_eq_none_iff, classify]
  split
  · next h => simp [h]
  · next h =>
    by_cases hkey : word ∈ v.keys
    · simp [h, hkey]
    · rw [if_neg hkey]
      split
      · simp [hkey]
      · split <;> simp [hkey]

/-- An identifier is a word that neither the lists nor the columns make anything else. -/
theorem Vocabulary.classify_eq_identifier_iff {v : Vocabulary} {word : String} {column : Int} :
    v.classify word column = .identifier ↔
      word ∉ Header.all.map Header.word ∧ word ∉ v.keys ∧ word ∉ directives ∧
        column ≠ Card.labelColumn ∧ column ≠ Card.directiveColumn := by
  rw [← Header.ofWord?_eq_none_iff, classify]
  split
  · next h => simp [h]
  · next h =>
    by_cases hkey : word ∈ v.keys
    · simp [hkey]
    · by_cases hlabel : column = Card.labelColumn
      · simp [hkey, hlabel]
      · by_cases hdirective : column = Card.directiveColumn ∨ word ∈ directives
        · rw [if_neg hkey, if_neg hlabel, if_pos hdirective]
          simp only [reduceCtorEq, false_iff]
          rintro ⟨-, -, hnot, -, hcolumn⟩
          exact hdirective.elim hcolumn hnot
        · rw [if_neg hkey, if_neg hlabel, if_neg hdirective]
          obtain ⟨hcolumn, hnot⟩ := not_or.1 hdirective
          exact ⟨fun _ => ⟨h, hkey, hnot, hlabel, hcolumn⟩, fun _ => rfl⟩

namespace Writing

open Grammar Layout

variable {v : Vocabulary} {p : Position} {word : String}

/-! ### Words -/

theorem IsLexable.spells (h : IsLexable word) : Spells v p word.toList [v.word word.toList p] :=
  spells_word h.ne_nil h.inWord

theorem IsLexable.isStray_word (h : IsLexable word) :
    (v.word word.toList p).isStray = false := by
  simpa [Token.isStray] using h.head

theorem IsKey.kind_word (h : IsKey v word) : (v.word word.toList p).kind = .key := by
  rw [Vocabulary.word, String.ofList_toList]
  exact Vocabulary.classify_eq_key_iff.2 ⟨h.not_header, h.mem_keys⟩

/-- Behind the columns of labels and directives, a word that is not listed is an identifier. -/
theorem kind_word_of_not_mem (hheader : word ∉ Header.all.map Header.word)
    (hkey : word ∉ v.keys) (hdirective : word ∉ Vocabulary.directives)
    (hp : Card.directiveColumn < p.column) :
    (v.word word.toList p).kind = .identifier := by
  have hcolumn : p.column ≠ Card.directiveColumn := by omega
  have hlabel : p.column ≠ Card.labelColumn := by
    have := Card.labelColumn_lt_directiveColumn
    omega
  rw [Vocabulary.word, String.ofList_toList]
  exact Vocabulary.classify_eq_identifier_iff.2 ⟨hheader, hkey, hdirective, hlabel, hcolumn⟩

theorem IsItem.kind_word (h : IsItem v word) (hp : Card.directiveColumn < p.column) :
    (v.word word.toList p).kind = .identifier :=
  kind_word_of_not_mem h.not_header h.not_mem_keys h.not_directive hp

/-- Behind the columns of labels and directives, a word that is no header is a value. -/
theorem value_word (hheader : word ∉ Header.all.map Header.word)
    (hdirective : word ∈ Vocabulary.directives → word ∈ v.keys)
    (hp : Card.directiveColumn < p.column) : Value [v.word word.toList p] word := by
  have htext : (v.word word.toList p).text = word := by simp
  by_cases hkey : word ∈ v.keys
  · have hkind : (v.word word.toList p).kind = .key := by
      rw [Vocabulary.word, String.ofList_toList]
      exact Vocabulary.classify_eq_key_iff.2 ⟨hheader, hkey⟩
    have hvalue := Value.key hkind
    rwa [htext] at hvalue
  · have hnot : word ∉ Vocabulary.directives := fun h => hkey (hdirective h)
    have hvalue := Value.identifier (kind_word_of_not_mem hheader hkey hnot hp)
    rwa [htext] at hvalue

/-! ### Values -/

/-- Behind a mark comes an item of a list, and behind the item what `htail` says. -/
theorem exists_item {c : Char} {kind : Token.Kind} {item : String} {items : List String}
    (hc : punctuation? c = some kind) (hitem : IsItem v item)
    (hp : Card.directiveColumn < p.column)
    (htail : ∀ p : Position, Card.directiveColumn < p.column →
      ∃ ts, Spells v p (listTail items) ts ∧ ListTail ts items ∧ ∀ t ∈ ts, t.isStray = false) :
    ∃ t ts, Spells v p (c :: (item.toList ++ listTail items))
        (⟨kind, c.toString, p⟩ :: t :: ts) ∧
      t.kind = .identifier ∧ t.text = item ∧ ListTail ts items ∧
        ∀ u ∈ ⟨kind, c.toString, p⟩ :: t :: ts, u.isStray = false := by
  have hcolumn : Card.directiveColumn < (p.shift 1).column := by
    rw [Position.column_shift]
    omega
  have hbehind : Card.directiveColumn < ((p.shift 1).shift item.toList.length).column := by
    rw [Position.column_shift]
    omega
  have hhead : ∀ c ∈ (listTail items).head?, isDelimiter c := by
    cases items with
    | nil => exact isDelimiter_of_mem_head?_cons (by decide) []
    | cons item items =>
      rw [listTail_cons]
      exact isDelimiter_of_mem_head?_cons (by decide) _
  obtain ⟨ts, hspells, hts, hstray⟩ := htail _ hbehind
  refine ⟨_, ts, (hitem.spells.append hspells hhead).mark_cons hc, hitem.kind_word hcolumn, ?_, hts,
    ?_⟩
  · simp
  · exact List.forall_mem_cons.2 ⟨isStray_mark hc p,
      List.forall_mem_cons.2 ⟨hitem.isStray_word, hstray⟩⟩

theorem exists_listTail {items : List String} (h : ∀ item ∈ items, IsItem v item)
    (hp : Card.directiveColumn < p.column) :
    ∃ ts, Spells v p (listTail items) ts ∧ ListTail ts items ∧ ∀ t ∈ ts, t.isStray = false := by
  induction items generalizing p with
  | nil =>
    refine ⟨[⟨.closeParen, ')'.toString, p⟩], spells_nil.mark_cons rfl, .close rfl, ?_⟩
    exact List.forall_mem_singleton.2 (isStray_mark rfl p)
  | cons item items ih =>
    obtain ⟨hitem, hitems⟩ := List.forall_mem_cons.1 h
    obtain ⟨t, ts, hspells, hkind, rfl, htail, hstray⟩ :=
      exists_item (c := ',') rfl hitem hp fun _ hp => ih hitems hp
    refine ⟨_, ?_, .comma rfl hkind htail, hstray⟩
    rw [listTail_cons]
    exact hspells

theorem exists_value {value : String} (h : IsValue v value)
    (hp : Card.directiveColumn < p.column) :
    ∃ ts, Spells v p value.toList ts ∧ Value ts value ∧ ∀ t ∈ ts, t.isStray = false := by
  cases h with
  | word hword hheader hdirective =>
    refine ⟨_, hword.spells, value_word hheader hdirective hp, ?_⟩
    exact List.forall_mem_singleton.2 hword.isStray_word
  | @list items hne hitems =>
    obtain ⟨item, items, rfl⟩ := List.exists_cons_of_ne_nil hne
    obtain ⟨hitem, hitems⟩ := List.forall_mem_cons.1 hitems
    obtain ⟨t, ts, hspells, hkind, rfl, htail, hstray⟩ :=
      exists_item (c := '(') rfl hitem hp fun _ hp => exists_listTail hitems hp
    refine ⟨_, ?_, .list rfl hkind htail, hstray⟩
    rw [toList_list]
    exact hspells

/-- An attribute can be put before other attributes. -/
theorem exists_attribute {a : Attribute} (hkey : IsKey v a.key) (hvalue : IsValue v a.value)
    (hp : Card.directiveColumn < p.column) :
    ∃ ts, Spells v p a.text.toList ts ∧
      (∀ us attributes, AttributeList us attributes →
        AttributeList (ts ++ us) (a :: attributes)) ∧
      ∀ t ∈ ts, t.isStray = false := by
  have hcolumn : Card.directiveColumn < ((p.shift a.key.toList.length).shift 1).column := by
    rw [Position.column_shift, Position.column_shift]
    omega
  obtain ⟨ts, hspells, hts, hstray⟩ := exists_value hvalue hcolumn
  have hspelled := hkey.spells.append (hspells.mark_cons (c := '=') rfl)
    (isDelimiter_of_mem_head?_cons (by decide) _)
  rw [← toList_text] at hspelled
  refine ⟨_, hspelled, ?_, ?_⟩
  · intro us attributes hus
    have htext : (v.word a.key.toList p).text = a.key := by simp
    have hlist := AttributeList.cons (e := ⟨.equals, '='.toString, p.shift a.key.toList.length⟩)
      (hkey.kind_word (p := p)) rfl hts hus
    rw [htext] at hlist
    exact hlist
  · exact List.forall_mem_cons.2 ⟨hkey.isStray_word,
      List.forall_mem_cons.2 ⟨isStray_mark rfl _, hstray⟩⟩

end Writing

end CardDeck
