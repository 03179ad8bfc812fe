import Mathlib.Data.List.TakeWhile
import CardDeck.Vocabulary

/-! # Laid-out text

Text that keeps for every character the place where it stands. Words and marks are read off a
layout without regard to how it was put together: from one card, or from the pieces of a joined
statement. `Layout.tokens_append` says that a layout may be cut before any blank or mark, and
`Layout.tokens_append_blank` that blanks between two pieces keep them apart. -/

namespace CardDeck

/-- A character and the place where it stands. -/
structure Cell where
  char : Char
  position : Position
deriving DecidableEq, Repr

namespace Cell

/-- Whether the character can be part of a word. -/
def inWord (x : Cell) : Bool := !isDelimiter x.char

end Cell

/-- Characters in the order of reading, each with its place. -/
abbrev Layout := List Cell

theorem isDelimiter_of_isBlank {c : Char} (h : Text.isBlank c) : isDelimiter c := by
  simp [isDelimiter, h]

theorem isDelimiter_newline : isDelimiter '\n' := by decide

theorem isDelimiter_of_punctuation? {c : Char} {kind : Token.Kind}
    (h : punctuation? c = some kind) : isDelimiter c := by
  simp [isDelimiter, h]

/-- A delimiter is a blank or a mark. -/
theorem exists_punctuation?_of_isDelimiter {c : Char} (h : isDelimiter c)
    (hblank : ¬ Text.isBlank c) : ∃ kind, punctuation? c = some kind :=
  Option.isSome_iff_exists.1 (by simpa [isDelimiter, hblank] using h)

/-- No mark is a blank. -/
theorem not_isBlank_of_punctuation? {c : Char} {kind : Token.Kind}
    (h : punctuation? c = some kind) : Text.isBlank c = false := by
  unfold punctuation? at h
  split at h
  · decide
  · decide
  · decide
  · decide
  · cases h

theorem punctuation?_ne_endOfInput (c : Char) : punctuation? c ≠ some .endOfInput := by
  unfold punctuation?
  split <;> simp

theorem Vocabulary.classify_ne_endOfInput (v : Vocabulary) (word : String) (column : Int) :
    v.classify word column ≠ .endOfInput := by
  unfold classify
  split
  · simp
  · split
    · simp
    · split
      · simp
      · split <;> simp

namespace Layout

/-- The text of a layout. -/
def chars (l : Layout) : List Char := l.map (·.char)

/-- A text on one card; its first character stands at `p`. -/
def row (p : Position) : List Char → Layout
  | [] => []
  | c :: cs => ⟨c, p⟩ :: row (p.shift 1) cs

@[simp] theorem chars_nil : chars [] = [] := rfl

@[simp] theorem chars_cons (x : Cell) (l : Layout) : chars (x :: l) = x.char :: chars l := rfl

@[simp] theorem chars_append (a b : Layout) : chars (a ++ b) = chars a ++ chars b :=
  List.map_append

@[simp] theorem length_chars (l : Layout) : (chars l).length = l.length := List.length_map _

@[simp] theorem chars_row (p : Position) (cs : List Char) : (row p cs).chars = cs := by
  induction cs generalizing p with
  | nil => rfl
  | cons c cs ih => exact congrArg (c :: ·) (ih (p.shift 1))

theorem row_append (p : Position) (a b : List Char) :
    row p (a ++ b) = row p a ++ row (p.shift a.length) b := by
  induction a generalizing p with
  | nil => simp [row]
  | cons c a ih =>
    rw [List.cons_append, row, ih, Position.shift_shift, row, List.cons_append, List.length_cons,
      Int.natCast_add, Int.add_comm]
    rfl

theorem row_takeWhile_inWord (p : Position) (cs : List Char) :
    (row p cs).takeWhile Cell.inWord = row p (cs.takeWhile (!isDelimiter ·)) := by
  induction cs generalizing p with
  | nil => rfl
  | cons c cs ih =>
    by_cases h : isDelimiter c
    · simp [row, Cell.inWord, h]
    · simp [row, Cell.inWord, h, ih]

theorem row_dropWhile_inWord (p : Position) (cs : List Char) :
    (row p cs).dropWhile Cell.inWord =
      row (p.shift (cs.takeWhile (!isDelimiter ·)).length) (cs.dropWhile (!isDelimiter ·)) := by
  have hcut := (row p cs).takeWhile_append_dropWhile (p := Cell.inWord)
  have hrow : row p cs = row p (cs.takeWhile (!isDelimiter ·)) ++
      row (p.shift (cs.takeWhile (!isDelimiter ·)).length) (cs.dropWhile (!isDelimiter ·)) := by
    rw [← row_append, List.takeWhile_append_dropWhile]
  rw [row_takeWhile_inWord] at hcut
  exact List.append_cancel_left (hcut.trans hrow)

theorem chars_takeWhile_inWord (l : Layout) :
    chars (l.takeWhile Cell.inWord) = (chars l).takeWhile (!isDelimiter ·) := by
  rw [chars, chars, List.takeWhile_map]
  rfl

theorem chars_dropWhile_inWord (l : Layout) :
    chars (l.dropWhile Cell.inWord) = (chars l).dropWhile (!isDelimiter ·) := by
  rw [chars, chars, List.dropWhile_map]
  rfl

/-! ### Words and marks -/

/-- The token that starts at `x`, with `l` behind it: a mark, or a word up to the next character
that no word holds. Behind a word character no word starts. -/
def tokenAt? (v : Vocabulary) (inside : Bool) (x : Cell) (l : Layout) : Option Token :=
  if Text.isBlank x.char then none
  else match punctuation? x.char with
    | some kind => some ⟨kind, x.char.toString, x.position⟩
    | none =>
      if inside then none
      else some (v.word (x.char :: chars (l.takeWhile Cell.inWord)) x.position)

/-- The tokens that start in a layout, which comes behind a word character if `inside`. -/
def tokensAfter (v : Vocabulary) (inside : Bool) : Layout → List Token
  | [] => []
  | x :: l => (tokenAt? v inside x l).toList ++ tokensAfter v x.inWord l

/-- The words and marks of a layout. -/
def tokens (v : Vocabulary) (l : Layout) : List Token := tokensAfter v false l

variable {v : Vocabulary} {inside : Bool} {x : Cell} {l : Layout}

@[simp] theorem tokens_nil : tokens v [] = [] := rfl

theorem tokensAfter_blank (h : Text.isBlank x.char) :
    tokensAfter v inside (x :: l) = tokens v l := by
  simp [tokensAfter, tokens, tokenAt?, h, Cell.inWord, isDelimiter_of_isBlank h]

theorem tokens_blank (h : Text.isBlank x.char) : tokens v (x :: l) = tokens v l :=
  tokensAfter_blank h

theorem tokensAfter_mark {kind : Token.Kind} (h : punctuation? x.char = some kind) :
    tokensAfter v inside (x :: l) = ⟨kind, x.char.toString, x.position⟩ :: tokens v l := by
  simp [tokensAfter, tokens, tokenAt?, h, Cell.inWord, isDelimiter_of_punctuation? h,
    not_isBlank_of_punctuation? h]

theorem tokens_mark {kind : Token.Kind} (h : punctuation? x.char = some kind) :
    tokens v (x :: l) = ⟨kind, x.char.toString, x.position⟩ :: tokens v l :=
  tokensAfter_mark h

/-- Where no word goes on, it does not matter what comes before. -/
theorem tokensAfter_of_isDelimiter (h : isDelimiter x.char) :
    tokensAfter v inside (x :: l) = tokens v (x :: l) := by
  by_cases hb : Text.isBlank x.char
  · rw [tokensAfter_blank hb, tokens_blank hb]
  · obtain ⟨kind, hk⟩ := exists_punctuation?_of_isDelimiter h hb
    rw [tokensAfter_mark hk, tokens_mark hk]

/-- The rest of a word starts no token. -/
theorem tokensAfter_true (l : Layout) :
    tokensAfter v true l = tokens v (l.dropWhile Cell.inWord) := by
  induction l with
  | nil => rfl
  | cons x l ih =>
    by_cases h : isDelimiter x.char
    · have hx : x.inWord = false := by simp [Cell.inWord, h]
      rw [List.dropWhile_cons_of_neg (by simp [hx]), tokensAfter_of_isDelimiter h]
    · have hx : x.inWord = true := by simp [Cell.inWord, h]
      have hb : Text.isBlank x.char = false ∧ punctuation? x.char = none := by
        simpa [isDelimiter] using h
      simp [tokensAfter, tokenAt?, hb, hx, ih]

theorem tokens_word (h : isDelimiter x.char = false) :
    tokens v (x :: l) =
      v.word (x.char :: chars (l.takeWhile Cell.inWord)) x.position ::
        tokens v (l.dropWhile Cell.inWord) := by
  have hb : Text.isBlank x.char = false ∧ punctuation? x.char = none := by
    simpa [isDelimiter] using h
  rw [← tokensAfter_true]
  simp [tokens, tokensAfter, tokenAt?, hb, Cell.inWord, h]

/-! ### Cutting a layout -/

/-- A layout may be cut before a character that no word holds. -/
theorem tokensAfter_append {b : Layout} (a : Layout) (h : isDelimiter x.char) :
    tokensAfter v inside (a ++ x :: b) = tokensAfter v inside a ++ tokens v (x :: b) := by
  induction a generalizing inside with
  | nil =>
    rw [List.nil_append, tokensAfter_of_isDelimiter h]
    rfl
  | cons y a ih =>
    have hx : x.inWord = false := by simp [Cell.inWord, h]
    have hrun : (a ++ x :: b).takeWhile Cell.inWord = a.takeWhile Cell.inWord := by
      rw [List.takeWhile_append]
      split
      · next hall =>
        rw [List.takeWhile_cons_of_neg (by simp [hx]), List.append_nil,
          (List.takeWhile_prefix _).eq_of_length hall]
      · rfl
    rw [List.cons_append, tokensAfter, ih, tokensAfter, List.append_assoc]
    simp only [tokenAt?, hrun]

theorem tokens_append {b : Layout} (a : Layout) (h : isDelimiter x.char) :
    tokens v (a ++ x :: b) = tokens v a ++ tokens v (x :: b) :=
  tokensAfter_append a h

theorem tokens_append_blank {b : Layout} (a : Layout) (h : Text.isBlank x.char) :
    tokens v (a ++ x :: b) = tokens v a ++ tokens v b := by
  rw [tokens_append a (isDelimiter_of_isBlank h), tokens_blank h]

theorem tokens_cons_of_isDelimiter (h : isDelimiter x.char) :
    tokens v (x :: l) = tokens v [x] ++ tokens v l := by
  by_cases hb : Text.isBlank x.char
  · rw [tokens_blank hb, tokens_blank hb]
    rfl
  · obtain ⟨kind, hk⟩ := exists_punctuation?_of_isDelimiter h hb
    rw [tokens_mark hk, tokens_mark hk]
    rfl

/-- A layout may be cut wherever no word goes on. -/
theorem tokens_append_of_cut {a b : Layout}
    (h : a.chars.getLast?.all isDelimiter ∨ b.chars.head?.all isDelimiter) :
    tokens v (a ++ b) = tokens v a ++ tokens v b := by
  rcases h with h | h
  · rcases List.eq_nil_or_concat a with rfl | ⟨a, x, rfl⟩
    · rfl
    · have hx : isDelimiter x.char := by simpa using h
      rw [List.concat_eq_append, List.append_assoc, List.singleton_append, tokens_append a hx,
        tokens_append a hx, tokens_cons_of_isDelimiter hx, List.append_assoc]
  · cases b with
    | nil => rw [List.append_nil, tokens_nil, List.append_nil]
    | cons x b => exact tokens_append a (by simpa using h)

theorem tokens_blanks_append {a b : Layout} (h : ∀ x ∈ a, Text.isBlank x.char) :
    tokens v (a ++ b) = tokens v b := by
  induction a with
  | nil => rfl
  | cons x a ih =>
    rw [List.cons_append, tokens_blank (h x List.mem_cons_self)]
    exact ih fun y hy => h y (List.mem_cons_of_mem x hy)

theorem tokens_append_blanks {b : Layout} (a : Layout) (h : ∀ x ∈ b, Text.isBlank x.char) :
    tokens v (a ++ b) = tokens v a := by
  cases b with
  | nil => rw [List.append_nil]
  | cons x b =>
    have hb : tokens v (b ++ []) = tokens v [] :=
      tokens_blanks_append fun y hy => h y (List.mem_cons_of_mem x hy)
    rw [tokens_append_blank a (h x List.mem_cons_self), ← List.append_nil b, hb, tokens_nil,
      List.append_nil]

/-- Where there is anything but blanks, a token starts there, whatever comes behind. -/
theorem exists_mem_tokens_append {a : Layout} (b : Layout)
    (h : ∃ x ∈ a, Text.isBlank x.char = false) :
    ∃ t ∈ tokens v (a ++ b), ∃ x ∈ a, t.position = x.position := by
  induction a with
  | nil =>
    obtain ⟨x, hx, -⟩ := h
    cases hx
  | cons y a ih =>
    cases hb : Text.isBlank y.char with
    | true =>
      obtain ⟨x, hx, hword⟩ := h
      rcases List.mem_cons.1 hx with rfl | hx
      · rw [hb] at hword
        cases hword
      · obtain ⟨t, ht, z, hz, hp⟩ := ih ⟨x, hx, hword⟩
        rw [List.cons_append, tokens_blank hb]
        exact ⟨t, ht, z, List.mem_cons_of_mem y hz, hp⟩
    | false =>
      rw [List.cons_append]
      cases hk : punctuation? y.char with
      | some kind =>
        rw [tokens_mark hk]
        exact ⟨_, List.mem_cons_self, y, List.mem_cons_self, rfl⟩
      | none =>
        rw [tokens_word (by simp [isDelimiter, hb, hk])]
        exact ⟨_, List.mem_cons_self, y, List.mem_cons_self, rfl⟩

/-- A character of a row stands as far behind the first as it comes behind it. -/
theorem exists_getElem?_of_mem_row {p : Position} {cs : List Char} (h : x ∈ row p cs) :
    ∃ i : Nat, cs[i]? = some x.char ∧ x.position = p.shift i := by
  induction cs generalizing p with
  | nil => cases h
  | cons c cs ih =>
    rcases List.mem_cons.1 h with rfl | h
    · exact ⟨0, rfl, (Position.shift_zero p).symm⟩
    · obtain ⟨i, hi, hp⟩ := ih h
      refine ⟨i + 1, hi, ?_⟩
      rw [hp, Position.shift_shift, Int.add_comm, Int.natCast_add]
      rfl

theorem mem_chars_of_mem_row {p : Position} {cs : List Char} (h : x ∈ row p cs) :
    x.char ∈ cs := by
  obtain ⟨i, hi, -⟩ := exists_getElem?_of_mem_row h
  exact List.mem_of_getElem? hi

theorem isBlank_of_mem_row_replicate {p : Position} {n : Nat}
    (h : x ∈ row p (List.replicate n ' ')) : Text.isBlank x.char := by
  rw [List.eq_of_mem_replicate (mem_chars_of_mem_row h)]
  decide

/-- Trimming the end of a text takes nothing but blanks off it. -/
theorem exists_trimEnd_append (cs : List Char) :
    ∃ blanks : List Char, (∀ c ∈ blanks, Text.isBlank c) ∧ Text.trimEnd cs ++ blanks = cs := by
  induction cs with
  | nil => exact ⟨[], by simp, rfl⟩
  | cons c cs ih =>
    obtain ⟨blanks, hblank, heq⟩ := ih
    rw [Text.trimEnd]
    split
    · next hnil =>
      rw [hnil, List.nil_append] at heq
      subst heq
      split
      · next hc => exact ⟨c :: blanks, by simpa [hc] using hblank, rfl⟩
      · exact ⟨blanks, hblank, rfl⟩
    · exact ⟨blanks, hblank, congrArg (c :: ·) heq⟩

theorem row_trimEnd (p : Position) (cs : List Char) :
    ∃ blanks, (∀ x ∈ blanks, Text.isBlank x.char) ∧
      row p cs = row p (Text.trimEnd cs) ++ blanks := by
  obtain ⟨blanks, hblank, heq⟩ := exists_trimEnd_append cs
  refine ⟨row (p.shift (Text.trimEnd cs).length) blanks,
    fun x hx => hblank _ (mem_chars_of_mem_row hx), ?_⟩
  rw [← row_append, heq]

/-- Trimming the start of a text moves its place along. -/
theorem row_trimStart (p : Position) (cs : List Char) :
    ∃ blanks, (∀ x ∈ blanks, Text.isBlank x.char) ∧
      row p cs =
        blanks ++ row (p.shift (cs.length - (Text.trimStart cs).length : Nat))
          (Text.trimStart cs) := by
  have heq := Text.takeWhile_append_trimStart cs
  have hlength : cs.length - (Text.trimStart cs).length = (cs.takeWhile Text.isBlank).length := by
    have := congrArg List.length heq
    rw [List.length_append] at this
    omega
  refine ⟨row p (cs.takeWhile Text.isBlank),
    fun x hx => List.mem_takeWhile_imp (mem_chars_of_mem_row hx), ?_⟩
  rw [hlength, ← row_append, heq]

/-- A text trimmed at both ends stands where it stood. -/
theorem row_trim_subset (p : Position) (cs : List Char) :
    row (p.shift (cs.length - (Text.trimStart cs).length : Nat))
      (Text.trimEnd (Text.trimStart cs)) ⊆ row p cs := by
  obtain ⟨before, -, hstart⟩ := row_trimStart p cs
  obtain ⟨behind, -, hend⟩ :=
    row_trimEnd (p.shift (cs.length - (Text.trimStart cs).length : Nat)) (Text.trimStart cs)
  rw [hstart, hend]
  exact List.subset_append_of_subset_right before (List.subset_append_left _ behind)

theorem tokens_row_trimEnd (p : Position) (cs : List Char) :
    tokens v (row p (Text.trimEnd cs)) = tokens v (row p cs) := by
  obtain ⟨blanks, hblank, heq⟩ := row_trimEnd p cs
  rw [heq, tokens_append_blanks _ hblank]

theorem tokens_row_trimStart (p : Position) (cs : List Char) :
    tokens v (row (p.shift (cs.length - (Text.trimStart cs).length : Nat)) (Text.trimStart cs)) =
      tokens v (row p cs) := by
  obtain ⟨blanks, hblank, heq⟩ := row_trimStart p cs
  rw [heq, tokens_blanks_append hblank]

end Layout

end CardDeck
