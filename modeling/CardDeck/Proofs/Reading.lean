import CardDeck.Decoder
import CardDeck.Proofs.Layout

/-! # The reading of cards

What the cards of a deck say, card by card and column by column, without a cursor and without
joining anything. A word is a run of characters that neither a blank nor a mark interrupts, and
that no further such character stands before.

`Reading.ofText_eq_tokens` ties this to the words and marks of a layout. A word that starts with a
marker is astray, and `Reading.checked` refuses the first one. -/

namespace CardDeck

namespace Reading

/-- The token that starts at offset `i` of a text whose first character stands at `p`: a mark, or
the whole run of word characters from there on, unless the run has started before. -/
def tokenAt? (v : Vocabulary) (p : Position) (text : List Char) (i : Nat) : Option Token :=
  text[i]?.bind fun c =>
    if Text.isBlank c then none
    else match punctuation? c with
      | some kind => some ⟨kind, c.toString, p.shift i⟩
      | none =>
        if 0 < i ∧ text[i - 1]?.any (!isDelimiter ·) then none
        else some (v.word ((text.drop i).takeWhile (!isDelimiter ·)) (p.shift i))

/-- The words and marks of a text whose first character stands at `p`. -/
def ofText (v : Vocabulary) (p : Position) (text : List Char) : List Token :=
  (List.range text.length).filterMap (tokenAt? v p text)

/-- The tokens of the cards from `line` on, where `continuing` says whether the card before them
is continued. A continued card has no end of its own. Where cards are joined to statements,
reading goes on in the column of resumption. -/
def ofCards (d : Decoder) (line : Nat) (continuing : Bool) : List Card → List Token
  | [] => []
  | card :: cards =>
    let first := if continuing && !d.raw then Card.resumeColumn else 0
    ofText d.vocabulary ⟨line, first⟩ (card.payload first) ++
      (if card.isContinued then [] else [.endOfLine ⟨line, Card.width⟩]) ++
        ofCards d (line + 1) card.isContinued cards

end Reading

/-- The tokens of a deck: those of its cards, and an empty line behind a newline or where there is
no card at all. -/
def Decoder.reading (d : Decoder) (text : List Char) : List Token :=
  let cards := Card.ofText text
  Reading.ofCards d 0 false cards ++
    if text = [] ∨ text.getLast? = some '\n' then [.endOfLine ⟨cards.length, 0⟩] else []

theorem Decoder.reading_of_newline {d : Decoder} {text : List Char}
    (h : text.getLast? = some '\n') :
    d.reading text = Reading.ofCards d 0 false (Card.ofText text) ++
      [.endOfLine ⟨(Card.ofText text).length, 0⟩] := by
  rw [reading, if_pos (.inr h)]

theorem Decoder.reading_of_ne_newline {d : Decoder} {text : List Char} (hne : text ≠ [])
    (h : text.getLast? ≠ some '\n') :
    d.reading text = Reading.ofCards d 0 false (Card.ofText text) := by
  rw [reading, if_neg (not_or.2 ⟨hne, h⟩), List.append_nil]

/-- What holds of the tokens of the cards holds of those of the deck if it holds of an empty line
behind the cards. -/
theorem Decoder.forall_mem_reading {d : Decoder} {text : List Char} {P : Token → Prop}
    (hcards : ∀ t ∈ Reading.ofCards d 0 false (Card.ofText text), P t)
    (hend : P (.endOfLine ⟨(Card.ofText text).length, 0⟩)) : ∀ t ∈ d.reading text, P t := by
  refine List.forall_mem_append.2 ⟨hcards, fun t ht => ?_⟩
  split at ht
  · rw [List.mem_singleton.1 ht]
    exact hend
  · cases ht

namespace Reading

/-- Whether a statement is left unfinished behind the cards; `before` says so of no cards. -/
def isLeftOpen (before : Bool) (cards : List Card) : Bool :=
  (cards.getLast?.map Card.isContinued).getD before

@[simp] theorem isLeftOpen_nil (before : Bool) : isLeftOpen before [] = before := rfl

@[simp] theorem isLeftOpen_cons (before : Bool) (card : Card) (cards : List Card) :
    isLeftOpen before (card :: cards) = isLeftOpen card.isContinued cards := by
  cases cards with
  | nil => rfl
  | cons next cards => simp [isLeftOpen, List.getLast?_cons]

theorem isLeftOpen_of_ne_nil {cards : List Card} (h : cards ≠ []) (a b : Bool) :
    isLeftOpen a cards = isLeftOpen b cards := by
  rw [isLeftOpen, isLeftOpen, List.getLast?_eq_some_getLast h]
  rfl

theorem isLeftOpen_append (before : Bool) (a b : List Card) :
    isLeftOpen before (a ++ b) = isLeftOpen (isLeftOpen before a) b := by
  induction a generalizing before with
  | nil => rfl
  | cons card a ih => rw [List.cons_append, isLeftOpen_cons, isLeftOpen_cons, ih]

@[simp] theorem ofCards_nil (d : Decoder) (line : Nat) (continuing : Bool) :
    ofCards d line continuing [] = [] := rfl

/-- Where statements are joined, a continued statement goes on in the column of resumption. -/
theorem ofCards_joined_cons (v : Vocabulary) (line : Nat) (continuing : Bool) (card : Card)
    (cards : List Card) :
    ofCards ⟨v, false⟩ line continuing (card :: cards) =
      ofText v ⟨line, if continuing then Card.resumeColumn else 0⟩
          (card.payload (if continuing then Card.resumeColumn else 0)) ++
        (if card.isContinued then [] else [.endOfLine ⟨line, Card.width⟩]) ++
          ofCards ⟨v, false⟩ (line + 1) card.isContinued cards := by
  cases continuing <;> rfl

/-- Where cards are read as they stand, every card is read from its first column. -/
theorem ofCards_raw_cons (v : Vocabulary) (line : Nat) (continuing : Bool) (card : Card)
    (cards : List Card) :
    ofCards ⟨v, true⟩ line continuing (card :: cards) =
      ofText v ⟨line, 0⟩ (card.payload 0) ++
        (if card.isContinued then [] else [.endOfLine ⟨line, Card.width⟩]) ++
          ofCards ⟨v, true⟩ (line + 1) card.isContinued cards := by
  cases continuing <;> rfl

theorem ofCards_append (d : Decoder) (line : Nat) (continuing : Bool) (a b : List Card) :
    ofCards d line continuing (a ++ b) =
      ofCards d line continuing a ++ ofCards d (line + a.length) (isLeftOpen continuing a) b := by
  induction a generalizing line continuing with
  | nil => rfl
  | cons card a ih =>
    have hline : line + 1 + a.length = line + (card :: a).length := by
      rw [List.length_cons, Nat.add_right_comm, Nat.add_assoc]
    rw [List.cons_append, ofCards, ofCards, ih, isLeftOpen_cons, hline, List.append_assoc _ _
      (ofCards d (line + (card :: a).length) _ b)]

/-! ### Offsets and layouts -/

/-- What starts at an offset depends on the text before it only through its last character. -/
theorem tokenAt?_append (v : Vocabulary) (p : Position) (a : List Char) (c : Char)
    (cs : List Char) :
    tokenAt? v p (a ++ c :: cs) a.length =
      Layout.tokenAt? v (a.getLast?.any (!isDelimiter ·)) ⟨c, p.shift a.length⟩
        (Layout.row ((p.shift a.length).shift 1) cs) := by
  have hbefore : (0 < a.length ∧ (a ++ c :: cs)[a.length - 1]?.any (!isDelimiter ·) = true) ↔
      a.getLast?.any (!isDelimiter ·) = true := by
    rcases List.eq_nil_or_concat a with rfl | ⟨a, b, rfl⟩
    · simp
    · simp
  rw [tokenAt?, List.getElem?_append_right (Nat.le_refl _), Nat.sub_self, List.getElem?_cons_zero,
    Option.bind_some]
  simp only [Layout.tokenAt?, hbefore, List.drop_left]
  split
  · rfl
  · next hb =>
    cases hk : punctuation? c with
    | some kind => rfl
    | none =>
      have hc : isDelimiter c = false := by simpa [isDelimiter, hk] using hb
      rw [List.takeWhile_cons_of_pos (by simp [hc]), Layout.row_takeWhile_inWord, Layout.chars_row]

theorem filterMap_tokenAt?_append (v : Vocabulary) (p : Position) (a cs : List Char) :
    (List.range' a.length cs.length).filterMap (tokenAt? v p (a ++ cs)) =
      Layout.tokensAfter v (a.getLast?.any (!isDelimiter ·))
        (Layout.row (p.shift a.length) cs) := by
  induction cs generalizing a with
  | nil => rfl
  | cons c cs ih =>
    have hrest := ih (a ++ [c])
    rw [List.append_assoc, List.length_append, List.getLast?_concat, Int.natCast_add,
      ← Position.shift_shift] at hrest
    rw [List.length_cons, List.range'_succ, List.filterMap_cons, tokenAt?_append, Layout.row,
      Layout.tokensAfter]
    cases Layout.tokenAt? v (a.getLast?.any (!isDelimiter ·)) ⟨c, p.shift a.length⟩
        (Layout.row ((p.shift a.length).shift 1) cs) with
    | none => exact hrest
    | some t => exact congrArg (t :: ·) hrest

/-- The words and marks of a text, offset by offset, are those of its layout. -/
theorem ofText_eq_tokens (v : Vocabulary) (p : Position) (text : List Char) :
    ofText v p text = Layout.tokens v (Layout.row p text) := by
  have h := filterMap_tokenAt?_append v p [] text
  rw [List.length_nil, ← List.range_eq_range'] at h
  simpa [ofText, Layout.tokens] using h

end Reading

/-! ### What is read -/

/-- Whatever is read off a deck is the end of a line, a mark or a word. -/
inductive Token.IsRead (v : Vocabulary) : Token → Prop
  | endOfLine (p : Position) : IsRead v (.endOfLine p)
  | mark {c : Char} {kind : Kind} (hk : punctuation? c = some kind) (p : Position) :
      IsRead v ⟨kind, c.toString, p⟩
  | word {text : List Char} (hne : text ≠ []) (hword : ∀ c ∈ text, isDelimiter c = false)
      (p : Position) : IsRead v (v.word text p)

theorem Token.IsRead.kind_ne_endOfInput {v : Vocabulary} {t : Token} (h : t.IsRead v) :
    t.kind ≠ .endOfInput := by
  cases h with
  | endOfLine => exact Kind.noConfusion
  | @mark c kind hk =>
    rintro rfl
    exact punctuation?_ne_endOfInput c hk
  | word => exact v.classify_ne_endOfInput _ _

namespace Reading

theorem isRead_of_mem_ofText {v : Vocabulary} {p : Position} {text : List Char} {t : Token}
    (h : t ∈ ofText v p text) : t.IsRead v := by
  obtain ⟨i, -, ht⟩ := List.mem_filterMap.1 h
  obtain ⟨c, hc, ht⟩ := Option.bind_eq_some_iff.1 ht
  split at ht
  · cases ht
  · next hblank =>
    split at ht
    · next hk =>
      obtain rfl := Option.some.inj ht
      exact .mark hk _
    · next hk =>
      split at ht
      · cases ht
      · obtain rfl := Option.some.inj ht
        have hd : isDelimiter c = false := by simpa [isDelimiter, hk] using hblank
        obtain ⟨hlt, rfl⟩ := List.getElem?_eq_some_iff.1 hc
        refine .word ?_ (fun d hd => by simpa using List.mem_takeWhile_imp hd) _
        rw [List.drop_eq_getElem_cons hlt, List.takeWhile_cons_of_pos (by simp [hd])]
        exact List.cons_ne_nil _ _

theorem isRead_of_mem_ofCards {d : Decoder} {line : Nat} {continuing : Bool} {cards : List Card}
    {t : Token} (h : t ∈ ofCards d line continuing cards) : t.IsRead d.vocabulary := by
  induction cards generalizing line continuing with
  | nil => cases h
  | cons card cards ih =>
    rw [ofCards, List.mem_append, List.mem_append] at h
    rcases h with (h | h) | h
    · exact isRead_of_mem_ofText h
    · split at h
      · cases h
      · rw [List.mem_singleton.1 h]
        exact .endOfLine _
    · exact ih h

end Reading

/-! ### Words astray -/

/-- A word that starts with a marker. -/
def Token.isStray (t : Token) : Bool := t.text.toList.head? = some Card.marker

@[simp] theorem Token.isStray_endOfLine (p : Position) : (Token.endOfLine p).isStray = false := by
  simp [isStray, endOfLine]

theorem Vocabulary.isStray_word (v : Vocabulary) (c : Char) (cs : List Char) (p : Position) :
    (v.word (c :: cs) p).isStray = decide (c = Card.marker) := by
  simp [Token.isStray]

theorem isStray_mark {c : Char} {kind : Token.Kind} (h : punctuation? c = some kind)
    (p : Position) : Token.isStray ⟨kind, c.toString, p⟩ = false := by
  have hc : c ≠ Card.marker := by
    rintro rfl
    cases h
  simp [Token.isStray, hc]

namespace Reading

/-- The tokens, unless one of them is a word that starts with a marker. -/
def checked (tokens : List Token) : Except CardFault (List Token) :=
  match tokens.find? (·.isStray) with
  | none => .ok tokens
  | some t => .error (.strayMarker t.position)

@[simp] theorem checked_nil : checked [] = .ok [] := rfl

theorem checked_cons_of_isStray {t : Token} (h : t.isStray) (tokens : List Token) :
    checked (t :: tokens) = .error (.strayMarker t.position) := by
  simp [checked, h]

theorem checked_cons {t : Token} (h : t.isStray = false) (tokens : List Token) :
    checked (t :: tokens) = (t :: ·) <$> checked tokens := by
  simp only [checked, List.find?_cons, h]
  cases tokens.find? (·.isStray) <;> rfl

theorem checked_append (a b : List Token) :
    checked (a ++ b) = do return (← checked a) ++ (← checked b) := by
  induction a with
  | nil =>
    rw [List.nil_append, checked_nil]
    cases checked b <;> rfl
  | cons t a ih =>
    cases h : t.isStray with
    | true =>
      rw [List.cons_append, checked_cons_of_isStray h, checked_cons_of_isStray h]
      rfl
    | false =>
      rw [List.cons_append, checked_cons h, checked_cons h, ih]
      cases checked a with
      | error fault => rfl
      | ok a => cases checked b <;> rfl

theorem checked_eq_ok_iff {a b : List Token} :
    checked a = .ok b ↔ (∀ t ∈ a, t.isStray = false) ∧ b = a := by
  rw [checked]
  split
  · next h =>
    have hall : ∀ t ∈ a, t.isStray = false := by simpa using h
    exact ⟨fun hb => ⟨hall, (Except.ok.inj hb).symm⟩, fun hb => congrArg Except.ok hb.2.symm⟩
  · next t h =>
    have ht := List.find?_some h
    simp only [reduceCtorEq, false_iff, not_and]
    intro hall
    rw [hall t (List.mem_of_find?_eq_some h)] at ht
    cases ht

theorem exists_of_checked_eq_error {tokens : List Token} {fault : CardFault}
    (h : checked tokens = .error fault) : ∃ p, fault = .strayMarker p := by
  rw [checked] at h
  split at h
  · cases h
  · exact ⟨_, (Except.error.inj h).symm⟩

end Reading

end CardDeck
