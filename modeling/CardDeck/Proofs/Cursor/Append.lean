import Mathlib.Data.List.Basic
import CardDeck.Proofs.Cursor.Step
import CardDeck.Proofs.Layout

/-! # Text behind text

A cursor that has more text behind what it reads goes the same rounds, as long as no word goes on
there and no marker jumps over the seam. `Cursor.exists_tokensFrom_append` is what this comes to
behind a newline: the cursor starts on the second text as on the first card of a deck.
`Cursor.addsLine_tokensFrom` is what a newline adds at the end, which is an empty line and no fault.

Nothing is asked of the cards here. A marker may jump over the end of a line that is too short, so
lines are counted as the cursor counts them. -/

namespace CardDeck

/-- The second outcome is the first, with an empty line behind its last line. -/
inductive Reading.AddsLine : Except CardFault (List Token) → Except CardFault (List Token) → Prop
  | error (fault : CardFault) : AddsLine (.error fault) (.error fault)
  | ok (found : List Token) (p : Position) :
      AddsLine (.ok (found ++ [.endOfLine p]))
        (.ok (found ++ [.endOfLine p] ++ [.endOfLine ⟨p.line + 1, 0⟩]))

/-- What is found first does not change what is found last. -/
theorem Reading.AddsLine.map_append {a b : Except CardFault (List Token)} (h : AddsLine a b)
    (before : List Token) : AddsLine (a.map (before ++ ·)) (b.map (before ++ ·)) := by
  cases h with
  | error fault => exact .error fault
  | ok found p =>
    simp only [Except.map, ← List.append_assoc]
    exact .ok (before ++ found) p

namespace Cursor

variable {v : Vocabulary} {cur next : Cursor} {token : Option Token} {fault : CardFault}
  {text : List Char}

/-- The cursor with more text behind what it has left. -/
def append (cur : Cursor) (text : List Char) : Cursor := { cur with rest := cur.rest ++ text }

/-! ### Rounds -/

/-- A word does not go on in a text behind, where either of the two keeps it from that. -/
theorem wordPart_append_of_cut {a b : List Char} {column : Int}
    (h : (∃ c ∈ a, isDelimiter c) ∨ b.head?.all isDelimiter) :
    wordPart column (a ++ b) = wordPart column a := by
  induction a generalizing column with
  | nil =>
    rcases h with ⟨c, hc, -⟩ | h
    · cases hc
    · cases b with
      | nil => rfl
      | cons c b =>
        have hd : isDelimiter c := by simpa using h
        simp [wordPart, hd]
  | cons c a ih =>
    rw [List.cons_append, wordPart, wordPart]
    split
    · rfl
    · next hgo =>
      have hd : isDelimiter c = false := by
        simp only [Bool.or_eq_true, not_or, Bool.not_eq_true] at hgo
        exact hgo.1.1
      apply congrArg (c :: ·)
      apply ih
      refine h.imp_left ?_
      rintro ⟨d, hmem, hdelimiter⟩
      rcases List.mem_cons.1 hmem with rfl | hmem
      · rw [hd] at hdelimiter
        cases hdelimiter
      · exact ⟨d, hmem, hdelimiter⟩

/-- Where no word goes on behind the text, a cursor moves as it does without more text. -/
theorem Moves.append (h : Moves v cur token next)
    (hcut : cur.rest.getLast?.all isDelimiter ∨ text.head?.all isDelimiter) :
    Moves v (cur.append text) token (next.append text) := by
  cases h with
  | newline hp => exact .newline hp
  | skip hc h => exact .skip hc h
  | mark hc hk hp => exact .mark hc hk hp
  | @word c w rest index p hd hm hp hw =>
    have hdelimiter : (∃ d ∈ w ++ rest, isDelimiter d) ∨ text.head?.all isDelimiter := by
      refine hcut.imp_left fun hlast => ?_
      cases hbehind : w ++ rest with
      | nil => simp [hbehind, hd] at hlast
      | cons d ds =>
        rw [hbehind, List.getLast?_cons_cons, List.getLast?_eq_some_getLast (List.cons_ne_nil d ds),
          Option.all_some] at hlast
        exact ⟨_, List.getLast_mem (List.cons_ne_nil d ds), hlast⟩
    have hword : wordPart (p.column + 1) (w ++ (rest ++ text)) = w := by
      rw [← List.append_assoc, wordPart_append_of_cut hdelimiter, hw]
    have hrest : (c :: (w ++ rest)) ++ text = c :: (w ++ (rest ++ text)) := by
      rw [List.cons_append, List.append_assoc]
    rw [Cursor.append, Cursor.append, hrest]
    exact .word hd hm hp hword
  | @marker jumped rest index p hp hlength hne =>
    have hrest : (Card.marker :: (jumped ++ '\n' :: rest)) ++ text =
        Card.marker :: (jumped ++ '\n' :: (rest ++ text)) := by
      simp
    rw [Cursor.append, Cursor.append, hrest]
    exact .marker hp hlength (List.append_ne_nil_of_left_ne_nil hne text)

/-- Behind a text that no newline ends, a newline mends nothing. -/
theorem Refuses.append_newline (h : Refuses cur fault)
    (hlast : cur.rest.getLast? ≠ some '\n') : Refuses (cur.append ['\n']) fault := by
  cases h with
  | lineEnd hp => exact .lineEnd hp
  | stray hp => exact .stray hp
  | @short rest index p hp hlength =>
    rcases Nat.lt_or_ge (rest ++ ['\n']).length Card.markerSpan with hshort | hlong
    · exact .short hp hshort
    · rw [List.length_append, List.length_singleton] at hlong
      exact .lastLine hp (Nat.le_antisymm hlength hlong)
  | @lastLine jumped => exact absurd (List.getLast?_concat (l := Card.marker :: jumped)) hlast
  | @noLineEnd jumped rest c index p hp hlength hc =>
    have hrest : (Card.marker :: (jumped ++ c :: rest)) ++ ['\n'] =
        Card.marker :: (jumped ++ c :: (rest ++ ['\n'])) := by
      simp
    rw [Cursor.append, hrest]
    exact .noLineEnd hp hlength hc

/-- As long as there is text left, it ends as it ended before. -/
theorem Moves.getLast?_rest (h : Moves v cur token next) (hne : next.rest ≠ []) :
    next.rest.getLast? = cur.rest.getLast? := by
  obtain ⟨passed, -, hrest, -⟩ := h.exists_rest_eq
  rw [hrest, List.getLast?_append_of_ne_nil passed hne]

/-- Only the end of a line takes a cursor to the end of a text that a newline ends. -/
theorem Moves.endOfLine_of_rest_nil (h : Moves v cur token next)
    (hlast : cur.rest.getLast? = some '\n') (hnil : next.rest = []) :
    ∃ p, token = some (.endOfLine p) ∧ next.position = ⟨p.line + 1, 0⟩ := by
  cases h with
  | @newline rest index p => exact ⟨p, rfl, rfl⟩
  | @skip c rest index p hc =>
    obtain rfl : rest = [] := hnil
    exact absurd (Option.some.inj hlast) hc
  | @mark c kind rest index p hc =>
    obtain rfl : rest = [] := hnil
    exact absurd (Option.some.inj hlast) hc
  | @word c w rest index p hd hm hp hw =>
    obtain rfl : rest = [] := hnil
    rw [List.append_nil] at hw hlast
    have hdelimiter : isDelimiter '\n' = false := by
      rcases List.mem_cons.1 (List.mem_of_getLast? hlast) with rfl | hmem
      · exact hd
      · exact isDelimiter_of_mem_wordPart (hw.symm ▸ hmem)
    rw [isDelimiter_newline] at hdelimiter
    cases hdelimiter
  | marker _ _ hne => exact absurd hnil hne

/-! ### Text behind a newline -/

/-- A text that ends in a newline ends in a line and an empty one, and a cursor that gets through it
reads what comes behind it from the first column of a line. -/
theorem exists_tokensFrom_append {found : List Token} (h : tokensFrom v cur [] = .ok found)
    (hlast : cur.rest.getLast? = some '\n') :
    ∃ before p index line, found = before ++ [.endOfLine p] ++ [.endOfLine ⟨line, 0⟩] ∧
      ∀ text, tokensFrom v (cur.append text) [] =
        (tokensFrom v ⟨text, index, ⟨line, 0⟩⟩ []).map (before ++ [.endOfLine p] ++ ·) := by
  induction cur using round_induction v generalizing found with
  | nil index p => cases hlast
  | refuses cur fault hrefuses =>
    rw [hrefuses.tokensFrom_eq] at h
    cases h
  | moves cur token next hmoves ih =>
    have hcut (text : List Char) :
        cur.rest.getLast?.all isDelimiter ∨ text.head?.all isDelimiter := by
      rw [hlast]
      exact .inl isDelimiter_newline
    have happend (text : List Char) := (hmoves.append (hcut text)).tokensFrom_eq
    obtain ⟨found, hnext, rfl⟩ := hmoves.exists_of_tokensFrom_eq_ok h
    by_cases hnil : next.rest = []
    · obtain ⟨p, rfl, hp⟩ := hmoves.endOfLine_of_rest_nil hlast hnil
      obtain ⟨rest, index, _⟩ := next
      obtain rfl : rest = [] := hnil
      obtain rfl := hp
      rw [tokensFrom_nil, if_pos (.inl rfl)] at hnext
      rw [← Except.ok.inj hnext]
      exact ⟨[], p, index, p.line + 1, rfl, happend⟩
    · obtain ⟨before, p, index, line, rfl, hbehind⟩ :=
        ih hnext ((hmoves.getLast?_rest hnil).trans hlast)
      refine ⟨token.toList ++ before, p, index, line, ?_, fun text => ?_⟩
      · simp
      · rw [happend, hbehind]
        cases tokensFrom v ⟨text, index, ⟨line, 0⟩⟩ [] <;> simp [Except.map]

/-! ### A newline at the end -/

/-- A cursor in a text that no newline ends, with something on its line where there is no text
left. -/
structure InLine (cur : Cursor) : Prop where
  column : 0 ≤ cur.position.column
  last : cur.rest.getLast? ≠ some '\n'
  nil : cur.rest = [] → cur.position.column ≠ 0

theorem Moves.inLine (h : Moves v cur token next) (hcur : cur.InLine) : next.InLine := by
  have hlast : next.rest.getLast? ≠ some '\n' := by
    by_cases hnil : next.rest = []
    · rw [hnil]
      exact nofun
    · rw [h.getLast?_rest hnil]
      exact hcur.last
  have hcolumn := hcur.column
  cases h with
  | newline =>
    refine ⟨Int.le_refl 0, hlast, ?_⟩
    rintro rfl
    exact absurd rfl hcur.last
  | skip | mark | word =>
    refine ⟨?_, hlast, fun _ => ?_⟩
    · simp only [Position.column_shift, List.length_cons] at hcolumn ⊢
      omega
    · simp only [Position.column_shift, List.length_cons] at hcolumn ⊢
      omega
  | marker _ _ hne => exact ⟨Int.le_refl 0, hlast, fun hnil => absurd hnil hne⟩

/-- Whatever comes of a text that no newline ends, a newline behind it adds an empty line and
changes nothing else. -/
theorem addsLine_tokensFrom (hcur : cur.InLine) :
    Reading.AddsLine (tokensFrom v cur []) (tokensFrom v (cur.append ['\n']) []) := by
  induction cur using round_induction v with
  | nil index p =>
    have hcolumn : p.column ≠ 0 := hcur.nil rfl
    change Reading.AddsLine _ (tokensFrom v ⟨['\n'], index, p⟩ [])
    have hempty : tokensFrom v ⟨[], index + 1, ⟨p.line + 1, 0⟩⟩ [] =
        .ok [.endOfLine ⟨p.line + 1, 0⟩] := by
      rw [tokensFrom_nil, if_pos (.inl rfl)]
    rw [tokensFrom_nil, tokensFrom_newline, hempty]
    by_cases hp : p.column = Card.width
    · rw [if_pos (.inr hp), if_pos hp]
      exact .ok [] p
    · rw [if_neg (not_or.2 ⟨hcolumn, hp⟩), if_neg hp]
      exact .error _
  | refuses cur fault hrefuses =>
    rw [hrefuses.tokensFrom_eq, (hrefuses.append_newline hcur.last).tokensFrom_eq]
    exact .error fault
  | moves cur token next hmoves ih =>
    have happend : Moves v (cur.append ['\n']) token (next.append ['\n']) :=
      hmoves.append (.inr isDelimiter_newline)
    rw [hmoves.tokensFrom_eq, happend.tokensFrom_eq]
    exact (ih (hmoves.inLine hcur)).map_append token.toList

end Cursor

end CardDeck
