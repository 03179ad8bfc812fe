import CardDeck.Proofs.Agreement
import CardDeck.Proofs.Cursor.Step

/-! # How far words reach

A cursor looks at the column of every character, so no word that it reads gets to the columns that
number the cards. In a statement only the column where a word starts is looked at, and the word goes
on as long as its characters do. What keeps it in its place is that cards are cut before they are
joined.

`Token.inPayload_of_tokens` says so of a text, of the statements of cards, and of statements with
any text and spans. `Statement.tokensOfList_uncutStatement` is a word that goes too far. -/

namespace CardDeck

/-- The token ends before the columns that number the cards. -/
structure Token.InPayload (t : Token) : Prop where
  start : t.position.column < Card.sequenceColumn
  stop : t.position.column + t.text.length ≤ Card.sequenceColumn

variable {v : Vocabulary} {t : Token} {found : List Token}

/-- A mark takes one column. -/
theorem Token.inPayload_mark {p : Position} (kind : Token.Kind) (c : Char)
    (hp : p.column < Card.sequenceColumn) : Token.InPayload ⟨kind, c.toString, p⟩ where
  start := hp
  stop := by
    have hlength : c.toString.length = 1 := by simp
    simp only [hlength]
    omega

theorem Token.inPayload_word {p : Position} {text : List Char}
    (hp : p.column < Card.sequenceColumn) (hstop : p.column + text.length ≤ Card.sequenceColumn) :
    (v.word text p).InPayload where
  start := hp
  stop := by
    rw [Vocabulary.text_word, Vocabulary.position_word, String.length_ofList]
    exact hstop

theorem Token.mem_of_mem_append_endOfLine {p : Position} (ht : t ∈ found ++ [.endOfLine p])
    (hkind : t.kind ≠ .endOfLine) : t ∈ found := by
  rcases List.mem_append.1 ht with ht | ht
  · exact ht
  · rw [List.mem_singleton.1 ht] at hkind
    exact absurd rfl hkind

/-! ### Texts -/

namespace Cursor

variable {cur next : Cursor} {token : Option Token}

theorem length_wordPart_le {column : Int} (h : column ≤ Card.sequenceColumn) (cs : List Char) :
    column + (wordPart column cs).length ≤ Card.sequenceColumn := by
  induction cs generalizing column with
  | nil => simpa [wordPart] using h
  | cons c cs ih =>
    rw [wordPart]
    split
    · simpa using h
    · next hgo =>
      simp only [Bool.or_eq_true, decide_eq_true_eq, not_or, Int.not_le] at hgo
      have hrest := @ih (column + 1) hgo.1.2
      rw [List.length_cons]
      omega

/-- What is found in a round is in the payload, unless it is the end of a line. -/
theorem Moves.inPayload (h : Moves v cur token next) :
    ∀ t ∈ token.toList, t.kind ≠ .endOfLine → t.InPayload := by
  intro t ht hkind
  cases h with
  | newline =>
    rw [List.mem_singleton.1 ht] at hkind
    exact absurd rfl hkind
  | skip => cases ht
  | mark hc hk hp =>
    rw [List.mem_singleton.1 ht]
    exact Token.inPayload_mark _ _ hp
  | @word c w rest index p hd hm hp hw =>
    rw [List.mem_singleton.1 ht]
    have hrest := length_wordPart_le (Int.add_one_le_of_lt hp) (w ++ rest)
    rw [hw] at hrest
    refine Token.inPayload_word hp ?_
    rw [List.length_cons]
    omega
  | marker => cases ht

theorem inPayload_of_tokensFrom (h : tokensFrom v cur [] = .ok found) :
    ∀ t ∈ found, t.kind ≠ .endOfLine → t.InPayload := by
  induction cur using round_induction v generalizing found with
  | nil index p =>
    rw [tokensFrom_nil] at h
    split at h
    · rw [← Except.ok.inj h, List.forall_mem_singleton]
      exact fun hkind => absurd rfl hkind
    · cases h
  | refuses cur fault hrefuses =>
    rw [hrefuses.tokensFrom_eq] at h
    cases h
  | moves cur token next hmoves ih =>
    obtain ⟨behind, hnext, rfl⟩ := hmoves.exists_of_tokensFrom_eq_ok h
    exact List.forall_mem_append.2 ⟨hmoves.inPayload, ih hnext⟩

end Cursor

/-! ### Results of several steps -/

section Results

variable {α β ε : Type} {x : Except ε α}

theorem exists_of_bind_eq_ok {f : α → Except ε β} {b : β} (h : x >>= f = .ok b) :
    ∃ a, x = .ok a ∧ f a = .ok b := by
  cases x with
  | error e => cases h
  | ok a => exact ⟨a, rfl, h⟩

theorem exists_of_map_eq_ok {f : α → β} {b : β} (h : f <$> x = .ok b) :
    ∃ a, x = .ok a ∧ b = f a := by
  cases x with
  | error e => cases h
  | ok a => exact ⟨a, rfl, (Except.ok.inj h).symm⟩

theorem exists_of_mem_mapM {f : α → Except ε β} {as : List α} {bs : List β}
    (h : as.mapM f = .ok bs) : ∀ b ∈ bs, ∃ a ∈ as, f a = .ok b := by
  induction as generalizing bs with
  | nil =>
    rw [List.mapM_nil] at h
    rw [← Except.ok.inj h]
    exact List.forall_mem_nil _
  | cons a as ih =>
    rw [List.mapM_cons] at h
    obtain ⟨b, hb, h⟩ := exists_of_bind_eq_ok h
    obtain ⟨bs', hbs, h⟩ := exists_of_bind_eq_ok h
    rw [← Except.ok.inj h]
    refine List.forall_mem_cons.2 ⟨⟨a, List.mem_cons_self, hb⟩, fun c hc => ?_⟩
    obtain ⟨a', ha', hc⟩ := ih hbs c hc
    exact ⟨a', List.mem_cons_of_mem a ha', hc⟩

end Results

/-! ### Statements -/

namespace Statement

variable {s : Statement} {i offset : Nat} {c : Char} {cs rest : List Char}

/-- The run of word characters from an offset on. A mark or a blank has none. -/
def runAt (s : Statement) (i : Nat) : List Char := (s.text.drop i).takeWhile (!isDelimiter ·)

/-- The token is read off the text at offset `i`, which stands before the columns that number the
cards. A word takes the whole run of word characters, and a mark takes itself. -/
structure Starts (s : Statement) (i : Nat) (t : Token) : Prop where
  position : s.position? i = some t.position
  start : t.position.column < Card.sequenceColumn
  text : t.text.toList <+: s.text.drop i
  length : t.text.length = max 1 (s.runAt i).length

/-- A token stays in the payload just where the run that it starts with does. -/
theorem Starts.inPayload_iff (h : s.Starts i t) :
    t.InPayload ↔ t.position.column + (s.runAt i).length ≤ Card.sequenceColumn := by
  have hstart := h.start
  have hlength := h.length
  refine ⟨fun hin => ?_, fun hrun => ⟨hstart, ?_⟩⟩
  · have hstop := hin.stop
    omega
  · omega

theorem starts_mark {kind : Token.Kind} {p : Position} (hrest : s.text.drop i = c :: cs)
    (hposition : s.position? i = some p) (hp : p.column < Card.sequenceColumn)
    (hk : punctuation? c = some kind) : s.Starts i ⟨kind, c.toString, p⟩ where
  position := hposition
  start := hp
  text := by
    rw [hrest]
    simp
  length := by
    have hd : isDelimiter c := isDelimiter_of_punctuation? hk
    rw [runAt, hrest, List.takeWhile_cons_of_neg (by simp [hd])]
    simp

theorem starts_word {p : Position} (hrest : s.text.drop i = c :: cs)
    (hposition : s.position? i = some p) (hp : p.column < Card.sequenceColumn)
    (hd : isDelimiter c = false) :
    s.Starts i (v.word (c :: cs.takeWhile (!isDelimiter ·)) p) where
  position := hposition
  start := hp
  text := by
    rw [hrest, Vocabulary.text_word, String.toList_ofList, List.prefix_cons_inj]
    exact List.takeWhile_prefix _
  length := by
    rw [runAt, hrest, List.takeWhile_cons_of_pos (by simp [hd]), Vocabulary.text_word,
      String.length_ofList, List.length_cons]
    omega

/-- Every token of the rest of a text starts somewhere in it. -/
theorem exists_starts_of_tokensFrom (hrest : s.text.drop offset = rest)
    (h : tokensFrom v s offset rest = .ok found) : ∀ t ∈ found, ∃ i, s.Starts i t := by
  have hdrop {offset : Nat} {rest : List Char} (n : Nat) (hrest : s.text.drop offset = rest) :
      s.text.drop (offset + n) = rest.drop n := by
    rw [← hrest, List.drop_drop]
  fun_induction tokensFrom v s offset rest generalizing found with
  | case1 offset =>
    rw [← Except.ok.inj h]
    exact List.forall_mem_nil _
  | case2 offset c cs hblank ih => exact ih (hdrop 1 hrest) h
  | case3 offset c cs hblank hnone => cases h
  | case4 offset c cs hblank p hposition hp ih => exact ih (hdrop 1 hrest) h
  | case5 offset cs p hposition hp hblank => cases h
  | case6 offset c cs hblank p hposition hp hmarker kind hk ih =>
    obtain ⟨behind, hbehind, rfl⟩ := exists_of_map_eq_ok h
    have hmark := starts_mark hrest hposition (Int.not_le.1 hp) hk
    exact List.forall_mem_cons.2 ⟨⟨offset, hmark⟩, ih (hdrop 1 hrest) hbehind⟩
  | case7 offset c cs hblank p hposition hp hmarker hk word =>
    rename_i ih
    obtain ⟨behind, hbehind, rfl⟩ := exists_of_map_eq_ok h
    -- reading goes on behind the whole word, wherever that ends
    have hd : isDelimiter c = false := by simp [isDelimiter, hblank, hk]
    have hword := @starts_word v s offset c cs p hrest hposition (Int.not_le.1 hp) hd
    have hcut : word ++ cs.dropWhile (!isDelimiter ·) = c :: cs :=
      congrArg (c :: ·) List.takeWhile_append_dropWhile
    have hnext : s.text.drop (offset + word.length) = cs.dropWhile (!isDelimiter ·) := by
      rw [hdrop _ hrest, ← hcut, List.drop_left]
    exact List.forall_mem_cons.2 ⟨⟨offset, hword⟩, ih hnext hbehind⟩

/-- What a statement is read to, besides the end of its last card, starts in its text. -/
theorem exists_starts_of_tokens (h : tokens v s = .ok found) (ht : t ∈ found)
    (hkind : t.kind ≠ .endOfLine) : ∃ i, s.Starts i t := by
  obtain ⟨words, hwords, h⟩ := exists_of_bind_eq_ok h
  split at h
  · cases h
  · rw [← Except.ok.inj h] at ht
    have hmem := Token.mem_of_mem_append_endOfLine ht hkind
    exact exists_starts_of_tokensFrom List.drop_zero hwords t hmem

theorem exists_starts_of_tokensOfList {statements : List Statement} {terminated : Bool}
    (h : tokensOfList v statements terminated = .ok found) (ht : t ∈ found)
    (hkind : t.kind ≠ .endOfLine) : ∃ s ∈ statements, ∃ i, s.Starts i t := by
  obtain ⟨groups, hgroups, h⟩ := exists_of_bind_eq_ok h
  have hmem : t ∈ groups.flatten := by
    change (if _ then _ else _) = _ at h
    split at h
    · rw [← Except.ok.inj h] at ht
      exact Token.mem_of_mem_append_endOfLine ht hkind
    · rw [← Except.ok.inj h] at ht
      exact ht
  obtain ⟨group, hgroup, ht⟩ := List.mem_flatten.1 hmem
  obtain ⟨s, hs, hread⟩ := exists_of_mem_mapM hgroups group hgroup
  exact ⟨s, hs, exists_starts_of_tokens hread ht hkind⟩

end Statement

/-! ### Cards -/

namespace Reading

theorem inPayload_of_mem_ofText {p : Position} {text : List Char}
    (hend : p.column + text.length ≤ Card.sequenceColumn) (h : t ∈ ofText v p text) :
    t.InPayload := by
  obtain ⟨i, hi, hp, htext⟩ := exists_prefix_of_mem_ofText h
  have hlength := htext.length_le
  rw [List.length_drop, String.length_toList] at hlength
  constructor
  · rw [hp, Position.column_shift]
    omega
  · rw [hp, Position.column_shift]
    omega

theorem inPayload_of_mem_payload {line column : Nat} {card : Card}
    (hcolumn : column ≤ Card.sequenceColumn)
    (h : t ∈ ofText v ⟨line, column⟩ (card.payload column)) : t.InPayload := by
  refine inPayload_of_mem_ofText ?_ h
  have hend := (Card.payloadEnd_mem card.isContinued).2
  rw [Card.payload, List.length_drop, List.length_take]
  simp only
  omega

theorem inPayload_of_mem_ofCards {d : Decoder} {line : Nat} {continuing : Bool}
    {cards : List Card} (h : t ∈ ofCards d line continuing cards) (hkind : t.kind ≠ .endOfLine) :
    t.InPayload := by
  induction cards generalizing line continuing with
  | nil => cases h
  | cons card cards ih =>
    rw [ofCards, List.mem_append, List.mem_append] at h
    rcases h with (h | h) | h
    · refine inPayload_of_mem_payload ?_ h
      split
      · decide
      · exact Nat.zero_le _
    · split at h
      · cases h
      · rw [List.mem_singleton.1 h] at hkind
        exact absurd rfl hkind
    · exact ih h

end Reading

/-- Statements that are joined from cards are read to what the cards say. -/
theorem Statement.inPayload_of_ofCards {cards : List Card} {statements : List Statement}
    {terminated : Bool} (hjoin : ofCards cards = .ok statements)
    (h : tokensOfList v statements terminated = .ok found) (ht : t ∈ found)
    (hkind : t.kind ≠ .endOfLine) : t.InPayload := by
  have hopen : Reading.isLeftOpen false cards = false := by
    rw [← Bool.not_eq_true]
    intro hopen
    rw [ofCards, @join_of_isLeftOpen 0 none cards hopen] at hjoin
    cases hjoin
  obtain ⟨joined, hjoined, hread, -⟩ := @exists_join_eq_ok v 0 none cards [] .none hopen
  obtain rfl : joined = statements := Except.ok.inj (hjoined.symm.trans hjoin)
  rw [tokensOfList_eq_checked hread] at h
  obtain ⟨-, rfl⟩ := Reading.checked_eq_ok_iff.1 h
  rcases List.mem_append.1 ht with ht | ht
  · exact Reading.inPayload_of_mem_ofCards ht hkind
  · split at ht
    · rw [List.mem_singleton.1 ht] at hkind
      exact absurd rfl hkind
    · cases ht

/-! ### All three -/

/-- Whatever is read off a text, or off the statements that cards are joined to, ends before the
columns that number the cards. Of other statements only this is sure, that a token starts before
them: it gets there if the run of word characters that it starts with does. -/
theorem Token.inPayload_of_tokens (v : Vocabulary) :
    (∀ text found, Cursor.tokens v text = .ok found →
      ∀ t ∈ found, t.kind ≠ .endOfLine → t.InPayload) ∧
    (∀ cards statements terminated found, Statement.ofCards cards = .ok statements →
      Statement.tokensOfList v statements terminated = .ok found →
        ∀ t ∈ found, t.kind ≠ .endOfLine → t.InPayload) ∧
    ∀ statements terminated found, Statement.tokensOfList v statements terminated = .ok found →
      ∀ t ∈ found, t.kind ≠ .endOfLine → ∃ s ∈ statements, ∃ i, s.Starts i t ∧
        (t.InPayload ↔ t.position.column + (s.runAt i).length ≤ Card.sequenceColumn) := by
  refine ⟨fun text found h => Cursor.inPayload_of_tokensFrom h, ?_, ?_⟩
  · intro cards statements terminated found hjoin h t ht hkind
    exact Statement.inPayload_of_ofCards hjoin h ht hkind
  · intro statements terminated found h t ht hkind
    obtain ⟨s, hs, i, hstarts⟩ := Statement.exists_starts_of_tokensOfList h ht hkind
    exact ⟨s, hs, i, hstarts, hstarts.inPayload_iff⟩

/-- A card with a word that stands on both sides of the border. -/
def Card.crossedCard : Card :=
  List.replicate 68 ' ' ++ "ABCDEFGH".toList ++ List.replicate 4 ' '

namespace Statement

/-- The statement of a card that is not cut at the columns that number the cards. -/
def uncutStatement : Statement := ⟨Text.trimEnd Card.crossedCard, [⟨0, 0, 0⟩], some 0⟩

/-- The word starts before the columns that number the cards and goes on into them. -/
theorem tokensOfList_uncutStatement :
    (uncutStatement.spans.Pairwise (·.offset ≤ ·.offset) ∧
      uncutStatement.spans.head?.map (·.offset) = some 0 ∧
      ∀ span ∈ uncutStatement.spans, 0 ≤ span.position.column) ∧
    tokensOfList .standard [uncutStatement] true =
      .ok [⟨.identifier, "ABCDEFGH", ⟨0, 68⟩⟩, .endOfLine ⟨0, 80⟩, .endOfLine ⟨1, 0⟩] ∧
    ¬ Token.InPayload ⟨.identifier, "ABCDEFGH", ⟨0, 68⟩⟩ := by
  refine ⟨⟨List.pairwise_singleton _ _, rfl, ?_⟩, by decide +kernel, fun h => ?_⟩
  · exact List.forall_mem_singleton.2 (Int.le_refl 0)
  · exact absurd h.stop (by decide)

end Statement

/-- A cursor and the cards keep the word before the border, and the uncut statement does not. -/
theorem Token.inPayload_of_tokens_crossedCard :
    (Cursor.tokens .standard Card.crossedCard =
        .ok [⟨.identifier, "ABCD", ⟨0, 68⟩⟩, .endOfLine ⟨0, 80⟩] ∧
      Token.InPayload ⟨.identifier, "ABCD", ⟨0, 68⟩⟩) ∧
    (∃ statements, Statement.ofCards [Card.crossedCard] = .ok statements ∧
      Statement.tokensOfList .standard statements false =
        .ok [⟨.identifier, "ABCD", ⟨0, 68⟩⟩, .endOfLine ⟨0, 80⟩] ∧
      Token.InPayload ⟨.identifier, "ABCD", ⟨0, 68⟩⟩) ∧
    ∃ i, Statement.uncutStatement.Starts i ⟨.identifier, "ABCDEFGH", ⟨0, 68⟩⟩ ∧
      ¬ (68 + (Statement.uncutStatement.runAt i).length : Int) ≤ Card.sequenceColumn := by
  obtain ⟨htext, hcards, hstatements⟩ := inPayload_of_tokens .standard
  have hread : Cursor.tokens .standard Card.crossedCard =
      .ok [⟨.identifier, "ABCD", ⟨0, 68⟩⟩, .endOfLine ⟨0, 80⟩] := by decide +kernel
  have hjoin : Statement.ofCards [Card.crossedCard] =
      .ok [⟨Card.crossedCard.take 72, [⟨0, 0, 0⟩], some 0⟩] := by decide +kernel
  have hjoined : Statement.tokensOfList .standard
      [⟨Card.crossedCard.take 72, [⟨0, 0, 0⟩], some 0⟩] false =
        .ok [⟨.identifier, "ABCD", ⟨0, 68⟩⟩, .endOfLine ⟨0, 80⟩] := by decide +kernel
  refine ⟨⟨hread, htext _ _ hread _ List.mem_cons_self Kind.noConfusion⟩,
    ⟨_, hjoin, hjoined, hcards _ _ _ _ hjoin hjoined _ List.mem_cons_self Kind.noConfusion⟩, ?_⟩
  have huncut : Statement.tokensOfList .standard [Statement.uncutStatement] true =
      .ok [⟨.identifier, "ABCDEFGH", ⟨0, 68⟩⟩, .endOfLine ⟨0, 80⟩, .endOfLine ⟨1, 0⟩] := by
    decide +kernel
  obtain ⟨s, hs, i, hstarts, hiff⟩ :=
    hstatements _ _ _ huncut _ List.mem_cons_self Kind.noConfusion
  obtain rfl := List.mem_singleton.1 hs
  exact ⟨i, hstarts, fun hle => absurd (hiff.2 hle).stop (by decide)⟩

end CardDeck
