import CardDeck.Proofs.Agreement
import CardDeck.Proofs.Writing.Spelling

/-! # Reading what has been written

Card by card and record by record, written decks are read as the items that they stand for. The two
ways of reading come to the same since nothing is written before the column of resumption. -/

namespace CardDeck.Writing

open Grammar Layout

variable {v : Vocabulary} {p : Position}

/-! ### Cards -/

/-- A card is read as what is written on it, whatever fills it up and numbers it. -/
theorem ofText_payload_card {isContinued : Bool} {body sequence : List Char}
    (hroom : body.length ≤ room isContinued)
    (hcontinued : (card isContinued body sequence).isContinued = isContinued) :
    Reading.ofText v p ((card isContinued body sequence).payload 0) = tokens v (row p body) := by
  rw [payload_card hroom hcontinued, Reading.ofText_eq_tokens, List.rightpad, row_append,
    tokens_append_blanks _ fun x hx => isBlank_of_mem_row_replicate hx]

/-- What stands on a card is read as it is spelled. -/
theorem ofText_payload_card_of_spells {isContinued : Bool} {body sequence : List Char}
    {ts : List Token} (hspells : Spells v p body ts) (hroom : body.length ≤ room isContinued)
    (hcontinued : (card isContinued body sequence).isContinued = isContinued) :
    Reading.ofText v p ((card isContinued body sequence).payload 0) = ts := by
  have hbody := hspells [] (by simp)
  rw [List.append_nil] at hbody
  rw [ofText_payload_card hroom hcontinued, hbody]
  exact List.append_nil ts

/-- A card is indented if nothing is written on it before the column of resumption. -/
theorem isIndented_card {isContinued : Bool} {column : Nat} (h : Card.resumeColumn ≤ column)
    (behind sequence : List Char) :
    (card isContinued (List.replicate column ' ' ++ behind) sequence).isIndented := by
  have hle : Card.resumeColumn ≤ (List.replicate column ' ').length := by
    rw [List.length_replicate]
    exact h
  rw [Card.isIndented, card, List.rightpad]
  simp only [List.append_assoc]
  rw [List.take_append_of_le_length hle, List.all_eq_true]
  intro c hc
  rw [List.eq_of_mem_replicate (List.mem_of_mem_take hc)]
  decide

/-- Where nothing comes before it, an attribute is written behind blanks. -/
theorem Entry.body_nil (e : Entry) :
    e.body [] = List.replicate e.column ' ' ++ e.toAttribute.text.toList := rfl

theorem Entry.exists_spells {e : Entry} {lead : List Char} {line : Nat} {ts : List Token}
    (hlead : Spells v ⟨line, 0⟩ lead ts) (hfits : e.Fits lead) (hkey : IsKey v e.key)
    (hvalue : IsValue v e.value) :
    ∃ us, Spells v ⟨line, 0⟩ (e.body lead) (ts ++ us) ∧
      (∀ vs attributes, AttributeList vs attributes →
        AttributeList (us ++ vs) (e.toAttribute :: attributes)) ∧
      ∀ t ∈ us, t.isStray = false := by
  have hlt := hfits.lead_lt
  have hcolumn : Card.directiveColumn <
      ((Position.shift ⟨line, 0⟩ lead.length).shift (e.column - lead.length : Nat)).column := by
    have hle := hfits.resume_le
    have hbefore := Card.directiveColumn_lt_resumeColumn
    simp only [Position.column_shift]
    omega
  obtain ⟨us, hspells, hlist, hstray⟩ := exists_attribute hkey hvalue hcolumn
  refine ⟨us, ?_, hlist, hstray⟩
  rw [Entry.body, List.rightpad, List.append_assoc]
  refine hlead.append hspells.blanks_append ?_
  obtain ⟨n, hn⟩ : ∃ n, e.column - lead.length = n + 1 := ⟨e.column - lead.length - 1, by omega⟩
  rw [hn, List.replicate_succ, List.cons_append]
  exact isDelimiter_of_mem_head?_cons (by decide) _

/-- The cards of a statement are read as what comes before its attributes, these with the commas
between them, and the end of the last card. -/
theorem exists_ofCards {d : Decoder} {entries : List Entry} (hne : entries ≠ [])
    {lead : List Char} (hfit : Fit lead entries)
    (hwritable : ∀ e ∈ entries, IsKey d.vocabulary e.key ∧ IsValue d.vocabulary e.value)
    {line : Nat} {continuing : Bool} (hcontinuing : continuing → lead = []) {ts : List Token}
    (hlead : Spells d.vocabulary ⟨line, 0⟩ lead ts) (rest : List Card) :
    ∃ us p, Reading.ofCards d line continuing (cards lead entries ++ rest) =
        ts ++ (us ++ .endOfLine p :: Reading.ofCards d (line + entries.length) false rest) ∧
      AttributeList us (entries.map (·.toAttribute)) ∧ ∀ t ∈ us, t.isStray = false := by
  induction entries generalizing lead line continuing ts with
  | nil => exact absurd rfl hne
  | cons e entries ih =>
    obtain ⟨⟨hkey, hvalue⟩, hwritable⟩ := List.forall_mem_cons.1 hwritable
    cases entries with
    | nil =>
      obtain ⟨hfits, hroom, hmarker⟩ := hfit
      obtain ⟨us, hspells, hlist, hstray⟩ := e.exists_spells hlead hfits hkey hvalue
      have hindented : continuing → (card false (e.body lead) e.sequence).isIndented := by
        intro h
        obtain rfl := hcontinuing h
        exact isIndented_card hfits.resume_le _ e.sequence
      have hroom : (e.body lead).length ≤ room false := hroom
      have hcontinued := @isContinued_card_false (e.body lead) e.sequence hroom hmarker
      refine ⟨us ++ [], ⟨line, Card.width⟩, ?_, hlist [] [] .nil, by simpa using hstray⟩
      rw [cards, List.singleton_append, Reading.ofCards_cons_of_isIndented d rest hindented,
        ofText_payload_card_of_spells hspells hroom hcontinued, hcontinued,
        if_neg Bool.false_ne_true]
      simp
    | cons next entries =>
      obtain ⟨hfits, hroom, hfit⟩ := hfit
      obtain ⟨us, hspells, hlist, hstray⟩ := e.exists_spells hlead hfits hkey hvalue
      have hindented :
          continuing → (card true (e.body lead ++ [',']) e.sequence).isIndented := by
        intro h
        obtain rfl := hcontinuing h
        rw [e.body_nil, List.append_assoc]
        exact isIndented_card hfits.resume_le _ e.sequence
      have hroom : (e.body lead ++ [',']).length ≤ room true := by
        rw [List.length_append]
        exact hroom
      have hcontinued := @isContinued_card_true (e.body lead ++ [',']) e.sequence hroom
      obtain ⟨comma, hkind, hnotStray, hcomma⟩ : ∃ comma : Token, comma.kind = .comma ∧
          comma.isStray = false ∧
            Spells d.vocabulary ⟨line, 0⟩ (e.body lead ++ [',']) (ts ++ us ++ [comma]) :=
        ⟨_, rfl, isStray_mark rfl _, hspells.append (spells_nil.mark_cons rfl)
          (isDelimiter_of_mem_head?_cons (by decide) [])⟩
      obtain ⟨vs, p, hread, hlist', hstray'⟩ := @ih (List.cons_ne_nil next entries) [] hfit
        hwritable (line + 1) true (fun _ => rfl) [] spells_nil
      have hline : line + 1 + (next :: entries).length = line + (e :: next :: entries).length := by
        rw [List.length_cons (a := e), Nat.add_assoc, Nat.add_comm 1]
      refine ⟨us ++ comma :: vs, p, ?_, hlist _ _ (.comma hkind hlist'), ?_⟩
      · rw [cards_cons_cons, List.cons_append, Reading.ofCards_cons_of_isIndented d _ hindented,
          ofText_payload_card_of_spells hcomma hroom hcontinued, hcontinued, if_pos rfl, hread,
          hline]
        simp
      · exact List.forall_mem_append.2 ⟨hstray, List.forall_mem_cons.2 ⟨hnotStray, hstray'⟩⟩

/-! ### Records -/

/-- A record that can be written on its cards. -/
structure Record.IsWritten (v : Vocabulary) (r : Record) : Prop where
  writable : IsWritable v r.attributes
  fit : Fit r.lead r.entries

def Record.item (r : Record) : Item := .record r.header r.attributes

theorem Record.IsWritten.entries_ne_nil {r : Record} (h : r.IsWritten v) : r.entries ≠ [] :=
  fun hnil => h.writable.1 (List.map_eq_nil_iff.2 hnil)

theorem Record.IsWritten.entries {r : Record} (h : r.IsWritten v) :
    ∀ e ∈ r.entries, IsKey v e.key ∧ IsValue v e.value :=
  fun e he => h.writable.2 e.toAttribute (List.mem_map_of_mem he)

theorem isLexable_word (header : Header) : IsLexable header.word := by
  cases header <;> decide

theorem Record.newline_not_mem_lead (r : Record) : '\n' ∉ r.lead := by
  simpa [lead] using (isLexable_word r.header).newline

theorem Record.IsWritten.exists_ofCards {d : Decoder} {r : Record} (h : r.IsWritten d.vocabulary)
    (line : Nat) (rest : List Card) :
    ∃ t us p, Reading.ofCards d line false (r.cards ++ rest) =
        t :: (us ++ .endOfLine p :: Reading.ofCards d (line + r.entries.length) false rest) ∧
      t.kind = .header r.header ∧ AttributeList us r.attributes ∧
        ∀ u ∈ t :: us, u.isStray = false := by
  have hheader := isLexable_word r.header
  obtain ⟨us, p, hread, hlist, hstray⟩ := Writing.exists_ofCards h.entries_ne_nil h.fit h.entries
    (fun hcontinuing => absurd hcontinuing Bool.false_ne_true)
    (hheader.spells (v := d.vocabulary)).blanks_append rest
  refine ⟨_, us, p, hread, ?_, hlist, List.forall_mem_cons.2 ⟨hheader.isStray_word, hstray⟩⟩
  simp [Vocabulary.word]

/-- The cards of records are read as the items that they stand for. -/
theorem items_ofCards {d : Decoder} {records : List Record}
    (h : ∀ r ∈ records, r.IsWritten d.vocabulary) (line : Nat) {ts : List Token} {items : List Item}
    (hts : Items ts items) :
    Items (Reading.ofCards d line false (records.flatMap Record.cards) ++ ts)
      (records.map Record.item ++ items) := by
  induction records generalizing line with
  | nil => exact hts
  | cons r records ih =>
    obtain ⟨hr, hrecords⟩ := List.forall_mem_cons.1 h
    obtain ⟨t, us, p, hread, hheader, hlist, -⟩ :=
      hr.exists_ofCards line (records.flatMap Record.cards)
    rw [List.flatMap_cons, hread, List.cons_append, List.append_assoc]
    exact .record hheader hlist hr.writable.1 rfl (ih hrecords _)

theorem isStray_of_mem_ofCards {d : Decoder} {records : List Record}
    (h : ∀ r ∈ records, r.IsWritten d.vocabulary) {line : Nat} :
    ∀ t ∈ Reading.ofCards d line false (records.flatMap Record.cards), t.isStray = false := by
  induction records generalizing line with
  | nil => simp
  | cons r records ih =>
    obtain ⟨hr, hrecords⟩ := List.forall_mem_cons.1 h
    obtain ⟨t, us, p, hread, -, -, hstray⟩ :=
      hr.exists_ofCards line (records.flatMap Record.cards)
    rw [List.flatMap_cons, hread, ← List.cons_append, List.forall_mem_append]
    exact ⟨hstray, List.forall_mem_cons.2 ⟨Token.isStray_endOfLine p, ih hrecords⟩⟩

/-! ### Decks -/

/-- A deck that has been written on cards of full width is read as these cards, with an empty line
behind them if it ends in a newline or there are none. -/
theorem tokens_text_eq_checked {d : Decoder} {terminated : Bool} {cards : List Card}
    (hcards : ∀ card ∈ cards, card.length = Card.width ∧ '\n' ∉ card)
    (hopen : Reading.isLeftOpen false cards = false) :
    d.tokens (text terminated cards) = Reading.checked (Reading.ofCards d 0 false cards ++
      if cards = [] ∨ terminated then [.endOfLine ⟨cards.length, 0⟩] else []) := by
  have hnewline : ∀ card ∈ cards, '\n' ∉ card := fun card hcard => (hcards card hcard).2
  have hne : ∀ card ∈ cards, card ≠ [] := by
    rintro card hcard rfl
    exact absurd (hcards [] hcard).1 (by decide)
  have hcut := @ofText_text terminated _ hnewline hne
  have hend : (text terminated cards = [] ∨ (text terminated cards).getLast? = some '\n') ↔
      cards = [] ∨ terminated := by
    by_cases hnil : cards = []
    · subst hnil
      exact iff_of_true (.inl rfl) (.inl rfl)
    · rw [getLast?_text hnil hnewline hne, ← Card.ofText_eq_nil_iff, hcut]
  rw [Decoder.tokens_eq_checked, Decoder.reading, hcut]
  · simp only [hend]
  · rw [hcut]
    exact fun card hcard => (hcards card hcard).1
  · rw [hcut]
    exact hopen

/-- No statement is left open behind the cards of one. -/
theorem isLeftOpen_cards_append {lead : List Char} {entries : List Entry} (hne : entries ≠ [])
    (hfit : Fit lead entries) (before : Bool) (rest : List Card) :
    Reading.isLeftOpen before (cards lead entries ++ rest) = Reading.isLeftOpen false rest := by
  induction entries generalizing lead before with
  | nil => exact absurd rfl hne
  | cons e entries ih =>
    cases entries with
    | nil =>
      obtain ⟨-, hroom, hmarker⟩ := hfit
      rw [cards, List.singleton_append, Reading.isLeftOpen_cons,
        isContinued_card_false hroom hmarker]
    | cons next entries =>
      rw [cards_cons_cons, List.cons_append, Reading.isLeftOpen_cons]
      exact ih (List.cons_ne_nil next entries) hfit.2.2 _

theorem isLeftOpen_records {v : Vocabulary} {records : List Record}
    (h : ∀ r ∈ records, r.IsWritten v) :
    Reading.isLeftOpen false (records.flatMap Record.cards) = false := by
  induction records with
  | nil => rfl
  | cons r records ih =>
    obtain ⟨hr, hrecords⟩ := List.forall_mem_cons.1 h
    rw [List.flatMap_cons, Record.cards, isLeftOpen_cards_append hr.entries_ne_nil hr.fit,
      ih hrecords]

/-- A deck comes apart into the cards that it has been written on, and is read as the items that
they stand for, with a blank line behind them if it ends in a newline. -/
theorem tokens_text {d : Decoder} {records : List Record}
    (h : ∀ r ∈ records, r.IsWritten d.vocabulary) (terminated : Bool) :
    ∃ ts items, d.tokens (text terminated (records.flatMap Record.cards)) = .ok ts ∧
      (∀ t ∈ ts, t.kind ≠ .endOfInput) ∧ Items ts (records.map Record.item ++ items) ∧
        (items = [] ∨ items = [.blank]) := by
  have hcards : ∀ card ∈ records.flatMap Record.cards, card.length = Card.width ∧ '\n' ∉ card := by
    intro card hcard
    obtain ⟨r, hr, hcard⟩ := List.mem_flatMap.1 hcard
    exact length_and_newline_of_mem_cards r.newline_not_mem_lead (h r hr).fit (h r hr).entries card
      hcard
  have htokens := @tokens_text_eq_checked d terminated _ hcards (isLeftOpen_records h)
  have hstray := @isStray_of_mem_ofCards d records h 0
  refine ⟨_, if records.flatMap Record.cards = [] ∨ terminated then [.blank] else [],
    htokens.trans (Reading.checked_eq_ok_iff.2 ⟨List.forall_mem_append.2 ⟨hstray, ?_⟩, rfl⟩),
    List.forall_mem_append.2
      ⟨fun t ht => (Reading.isRead_of_mem_ofCards ht).kind_ne_endOfInput, ?_⟩, ?_, ?_⟩
  · split
    · exact List.forall_mem_singleton.2 (Token.isStray_endOfLine _)
    · exact List.forall_mem_nil _
  · split
    · exact List.forall_mem_singleton.2 Token.Kind.noConfusion
    · exact List.forall_mem_nil _
  · split
    · exact items_ofCards h 0 (.blank rfl .nil)
    · exact items_ofCards h 0 .nil
  · split
    · exact .inr rfl
    · exact .inl rfl

end CardDeck.Writing
