import CardDeck.Proofs.Card
import CardDeck.Proofs.Reading
import CardDeck.Proofs.Statement.Position

/-! # The layout of a statement

Every character of a joined statement stands on some card. `Statement.IsLaid` says that the spans
trace a text to a given layout; it holds of the statement of one card, each further card keeps it,
and a statement that is laid out has the words and marks of its layout. -/

namespace CardDeck

namespace Layout

/-- Nothing but blanks stands in the columns that number the cards. -/
def OnPayload (l : Layout) : Prop :=
  ∀ x ∈ l, Text.isBlank x.char ∨ x.position.column < Card.sequenceColumn

theorem OnPayload.append {a b : Layout} (ha : a.OnPayload) (hb : b.OnPayload) :
    OnPayload (a ++ b) := by
  intro x hx
  rcases List.mem_append.1 hx with hx | hx
  · exact ha x hx
  · exact hb x hx

theorem OnPayload.of_subset {a b : Layout} (h : b.OnPayload) (hab : a ⊆ b) : a.OnPayload :=
  fun _ hx => h _ (hab hx)

/-- A layout and a blank behind it, unless there is nothing to keep apart. -/
def spaced (l : Layout) (gap : Position) : Layout := if l = [] then [] else l ++ [⟨' ', gap⟩]

theorem chars_spaced (l : Layout) (gap : Position) :
    (l.spaced gap).chars = if l.chars = [] then [] else l.chars ++ [' '] := by
  cases l with
  | nil => rfl
  | cons x l => simp [spaced]

theorem tokens_spaced_append {v : Vocabulary} {l b : Layout} (gap : Position) :
    tokens v (l.spaced gap ++ b) = tokens v l ++ tokens v b := by
  cases l with
  | nil => rfl
  | cons x l =>
    rw [spaced, if_neg (List.cons_ne_nil x l), List.append_assoc, List.singleton_append,
      tokens_append_blank (x :: l) (show Text.isBlank ' ' by decide)]

theorem length_le_spaced (l : Layout) (gap : Position) :
    List.length l ≤ List.length (l.spaced gap) := by
  cases l with
  | nil => exact Nat.le_refl _
  | cons x l => simp [spaced]

theorem OnPayload.spaced {l : Layout} (h : l.OnPayload) (gap : Position) :
    (l.spaced gap).OnPayload := by
  cases l with
  | nil => exact h
  | cons x l =>
    refine h.append fun y hy => .inl ?_
    rw [List.mem_singleton.1 hy]
    rfl

theorem onPayload_row {p : Position} {cs : List Char}
    (h : p.column + cs.length ≤ Card.sequenceColumn) : (row p cs).OnPayload := by
  intro x hx
  obtain ⟨i, hi, hp⟩ := exists_getElem?_of_mem_row hx
  have hlt : i < cs.length := (List.getElem?_eq_some_iff.1 hi).1
  right
  rw [hp, Position.column_shift]
  omega

end Layout

namespace Statement

/-- From `offset` on, the characters stand where the layout has them. -/
def Traces (s : Statement) (offset : Nat) : Layout → Prop
  | [] => True
  | x :: l => s.position? offset = some x.position ∧ s.Traces (offset + 1) l

theorem traces_append {s : Statement} {offset : Nat} {a b : Layout} :
    s.Traces offset (a ++ b) ↔ s.Traces offset a ∧ s.Traces (offset + a.length) b := by
  induction a generalizing offset with
  | nil => exact ⟨fun h => ⟨True.intro, h⟩, fun h => h.2⟩
  | cons x a ih =>
    rw [List.cons_append, Traces, Traces, ih, and_assoc, List.length_cons, Nat.add_comm a.length,
      Nat.add_assoc]

/-- Whatever leaves the positions before the end of a layout alone leaves the layout alone. -/
theorem Traces.congr {s t : Statement} {offset : Nat} {l : Layout} (h : s.Traces offset l)
    (heq : ∀ i, offset ≤ i → i < offset + l.length → t.position? i = s.position? i) :
    t.Traces offset l := by
  induction l generalizing offset with
  | nil => exact True.intro
  | cons x l ih =>
    rw [List.length_cons] at heq
    refine ⟨(heq offset (Nat.le_refl _) (by omega)).trans h.1, ih h.2 fun i hle hlt => ?_⟩
    exact heq i (by omega) (by omega)

theorem traces_row {s : Statement} {offset : Nat} {p : Position} (cs : List Char)
    (h : ∀ i : Nat, offset ≤ i → s.position? i = some (p.shift (i - offset))) :
    s.Traces offset (Layout.row p cs) := by
  induction cs generalizing offset p with
  | nil => exact True.intro
  | cons c cs ih =>
    refine ⟨?_, ih fun i hi => ?_⟩
    · rw [h offset (Nat.le_refl _), Int.sub_self, Position.shift_zero]
    · rw [h i (by omega), Position.shift_shift]
      congr 2
      omega

/-- Reading a text whose layout is known takes the words and marks of the layout, up to the first
word astray. -/
theorem tokensFrom_eq_checked {v : Vocabulary} {s : Statement} {offset : Nat} {l : Layout}
    (ht : s.Traces offset l) (hp : l.OnPayload) :
    tokensFrom v s offset l.chars = Reading.checked (l.tokens v) := by
  induction hn : l.length using Nat.strongRecOn generalizing l offset with
  | ind n ih =>
    cases l with
    | nil =>
      rw [Layout.chars_nil, tokensFrom.eq_def]
      rfl
    | cons x l =>
      have hp' : Layout.OnPayload l := hp.of_subset (List.subset_cons_self x l)
      rw [List.length_cons] at hn
      rw [Layout.chars_cons, tokensFrom.eq_def]
      simp only [ht.1]
      split
      · next hb => rw [Layout.tokens_blank hb, ih _ (by omega) ht.2 hp' rfl]
      · next hb =>
        have hcolumn : ¬ (Card.sequenceColumn : Int) ≤ x.position.column := by
          rcases hp x List.mem_cons_self with h | h
          · exact absurd h hb
          · omega
        rw [if_neg hcolumn]
        split
        · next hm =>
          have hd : isDelimiter x.char = false := by rw [hm]; decide
          rw [Layout.tokens_word hd,
            Reading.checked_cons_of_isStray (by simp [Vocabulary.isStray_word, hm])]
          rfl
        · next hm =>
          split
          · next kind hk =>
            rw [Layout.tokens_mark hk, Reading.checked_cons (isStray_mark hk _),
              ih _ (by omega) ht.2 hp' rfl]
          · next hk =>
            have hd : isDelimiter x.char = false := by simp [isDelimiter, hb, hk]
            have hsplit := l.takeWhile_append_dropWhile (p := Cell.inWord)
            have hrest : s.Traces (offset + 1 + (l.takeWhile Cell.inWord).length)
                (l.dropWhile Cell.inWord) := (traces_append.1 (hsplit.symm ▸ ht.2)).2
            have hlength := congrArg List.length hsplit
            rw [List.length_append] at hlength
            have hmore := ih _ (by omega) hrest (hp'.of_subset (List.dropWhile_subset _)) rfl
            rw [Nat.add_assoc, Nat.add_comm 1] at hmore
            rw [Layout.tokens_word hd, Reading.checked_cons (by simp [Vocabulary.isStray_word, hm]),
              ← Layout.chars_takeWhile_inWord, ← Layout.chars_dropWhile_inWord, List.length_cons,
              Layout.length_chars, hmore]

/-! ### Joining keeps a layout -/

/-- The spans of a statement trace its text to the layout `l`. -/
structure IsLaid (s : Statement) (l : Layout) : Prop where
  text : s.text = l.chars
  sorted : s.spans.Pairwise (·.offset ≤ ·.offset)
  first : ∃ span ∈ s.spans, span.offset = 0
  within : ∀ span ∈ s.spans, span.offset ≤ s.text.length
  traces : s.Traces 0 l
  onPayload : l.OnPayload

/-- The layout of a card that continues none. -/
def startLayout (line : Nat) (card : Card) : Layout :=
  Layout.row ⟨line, 0⟩ (Text.trimEnd (card.payload 0))

/-- The layout with a further card; a blank that keeps its words from those before it counts as
standing at `gap`. -/
def resumeLayout (l : Layout) (gap : Position) (line : Nat) (card : Card) : Layout :=
  let piece := card.payload Card.resumeColumn
  let body := Text.trimStart piece
  if body = [] then l
  else
    l.spaced gap ++
      Layout.row ⟨line, Card.resumeColumn + (piece.length - body.length : Nat)⟩
        (Text.trimEnd body)

theorem onPayload_payload (line column : Nat) (card : Card) :
    (Layout.row ⟨line, column⟩ (card.payload column)).OnPayload := by
  rcases Nat.lt_or_ge column Card.sequenceColumn with h | h
  · refine Layout.onPayload_row ?_
    rw [Card.payload, List.length_drop, List.length_take]
    have hend := (Card.payloadEnd_mem card.isContinued).2
    simp only
    omega
  · have hnil : card.payload column = [] := by
      rw [Card.payload, List.drop_eq_nil_iff, List.length_take]
      have hend := (Card.payloadEnd_mem card.isContinued).2
      omega
    rw [hnil]
    exact fun x hx => absurd hx List.not_mem_nil

/-- The span of the first card traces whatever text comes from column 0 on. -/
theorem traces_start (line : Nat) (card : Card) (cs : List Char) :
    (start line card).Traces 0 (Layout.row ⟨line, 0⟩ cs) := by
  have hspans : (start line card).spans = [] ++ [⟨0, line, 0⟩] := rfl
  refine traces_row _ fun i _ => ?_
  rw [position?_append_of_le hspans (List.forall_mem_nil _) (Int.natCast_nonneg i)]
  rfl

theorem isLaid_start (line : Nat) (card : Card) :
    (start line card).IsLaid (startLayout line card) where
  text := (Layout.chars_row _ _).symm
  sorted := List.pairwise_singleton _ _
  first := ⟨_, List.mem_singleton_self _, rfl⟩
  within := by
    intro span hspan
    rw [List.mem_singleton.1 hspan]
    exact Int.natCast_nonneg _
  traces := traces_start line card _
  onPayload := by
    obtain ⟨blanks, -, heq⟩ := Layout.row_trimEnd ⟨line, 0⟩ (card.payload 0)
    refine (onPayload_payload line 0 card).of_subset ?_
    exact heq ▸ List.subset_append_left _ _

/-- The blank behind a statement is on some card, too. -/
theorem IsLaid.exists_traces_spaced {s : Statement} {l : Layout} (h : s.IsLaid l) :
    ∃ gap, s.Traces 0 (l.spaced gap) := by
  obtain ⟨gap, hgap⟩ : ∃ gap, s.position? l.length = some gap := by
    obtain ⟨span, hspan, -⟩ := h.first
    rw [position?, ← Option.isSome_iff_exists, Option.isSome_map, Option.isSome_iff_ne_none]
    exact mt span?_eq_none_iff.1 (List.ne_nil_of_mem hspan)
  refine ⟨gap, ?_⟩
  cases l with
  | nil => exact True.intro
  | cons x l =>
    refine traces_append.2 ⟨h.traces, ?_, True.intro⟩
    rw [Nat.zero_add]
    exact hgap

/-- No span starts behind the blank that is set before a further piece. -/
theorem IsLaid.offset_le_spaced {s : Statement} {l : Layout} (h : s.IsLaid l) (gap : Position) :
    ∀ span ∈ s.spans, span.offset ≤ ((l.spaced gap).length : Int) := by
  intro span hspan
  have hle := h.within span hspan
  rw [h.text, Layout.length_chars] at hle
  exact Int.le_trans hle (Int.ofNat_le.2 (l.length_le_spaced gap))

/-- A further span traces what comes behind its offset, and leaves what comes before it alone. -/
theorem IsLaid.traces_append_row {s t : Statement} {l : Layout} {gap p : Position}
    (h : s.IsLaid l) (hgap : s.Traces 0 (l.spaced gap))
    (ht : t.spans = s.spans ++ [⟨(l.spaced gap).length, p⟩]) (cs : List Char) :
    t.Traces 0 (l.spaced gap ++ Layout.row p cs) := by
  have hwithin := h.offset_le_spaced gap
  have hfirst : ∀ i : Nat, ∃ span ∈ s.spans, span.offset ≤ (i : Int) := by
    intro i
    obtain ⟨span, hspan, hzero⟩ := h.first
    exact ⟨span, hspan, hzero ▸ Int.natCast_nonneg i⟩
  refine traces_append.2 ⟨hgap.congr fun i _ hi => ?_, traces_row _ fun i hi => ?_⟩
  · exact position?_append_of_lt ht h.sorted (hfirst i) (by simp only; omega)
  · rw [position?_append_of_le ht hwithin (by simp only; omega), Nat.zero_add]

/-- The layout with a further card counts the blank before it as standing where the statement has
it. -/
theorem IsLaid.resume_of_traces {s : Statement} {l : Layout} {gap : Position} (h : s.IsLaid l)
    (hgap : s.Traces 0 (l.spaced gap)) (line : Nat) (card : Card) :
    (s.resume line card).IsLaid (resumeLayout l gap line card) := by
  unfold Statement.resume resumeLayout
  by_cases hbody : Text.trimStart (card.payload Card.resumeColumn) = []
  · simp only [hbody, if_true]
    exact ⟨h.text, h.sorted, h.first, h.within, h.traces.congr fun _ _ _ => rfl, h.onPayload⟩
  · simp only [hbody, if_false]
    have htext : (if s.text = [] then [] else s.text ++ [' ']) = (l.spaced gap).chars := by
      rw [h.text, Layout.chars_spaced]
    have hwithin := h.offset_le_spaced gap
    rw [htext, Layout.length_chars]
    refine ⟨?_, ?_, ?_, ?_, ?_, ?_⟩
    · rw [Layout.chars_append, Layout.chars_row]
    · rw [List.pairwise_append]
      refine ⟨h.sorted, List.pairwise_singleton _ _, fun span hspan new hnew => ?_⟩
      rw [List.mem_singleton.1 hnew]
      exact hwithin span hspan
    · obtain ⟨span, hspan, hzero⟩ := h.first
      exact ⟨span, List.mem_append_left _ hspan, hzero⟩
    · intro span hspan
      rw [List.length_append, Layout.length_chars]
      rcases List.mem_append.1 hspan with hspan | hspan
      · have := hwithin span hspan
        omega
      · rw [List.mem_singleton.1 hspan]
        simp only
        omega
    · exact h.traces_append_row hgap rfl _
    · refine (h.onPayload.spaced gap).append ?_
      exact (onPayload_payload line Card.resumeColumn card).of_subset
        (Layout.row_trim_subset ⟨line, Card.resumeColumn⟩ (card.payload Card.resumeColumn))

theorem IsLaid.resume {s : Statement} {l : Layout} (h : s.IsLaid l) (line : Nat) (card : Card) :
    ∃ gap, (s.resume line card).IsLaid (resumeLayout l gap line card) := by
  obtain ⟨gap, hgap⟩ := h.exists_traces_spaced
  exact ⟨gap, h.resume_of_traces hgap line card⟩

theorem tokens_startLayout (v : Vocabulary) (line : Nat) (card : Card) :
    (startLayout line card).tokens v = Layout.tokens v (Layout.row ⟨line, 0⟩ (card.payload 0)) :=
  Layout.tokens_row_trimEnd _ _

/-- A further card adds the words and marks of its part of the statement. -/
theorem tokens_resumeLayout (v : Vocabulary) (l : Layout) (gap : Position) (line : Nat)
    (card : Card) :
    (resumeLayout l gap line card).tokens v =
      l.tokens v ++ Layout.tokens v
        (Layout.row ⟨line, Card.resumeColumn⟩ (card.payload Card.resumeColumn)) := by
  rw [← Layout.tokens_row_trimStart, resumeLayout]
  split
  · next h => rw [h, Layout.row, Layout.tokens_nil, List.append_nil]
  · rw [Layout.tokens_spaced_append, Layout.tokens_row_trimEnd]
    rfl

end Statement

end CardDeck
