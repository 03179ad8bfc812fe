import CardDeck.Proofs.Relocation
import CardDeck.Proofs.Writing.Reading

/-! # Statements on several cards

Where a statement is broken over cards does not matter, as long as no word is broken and nothing
that could be a label or a directive comes to stand in another column:
`Decoder.readsAlike_of_breaks`. What a deck says is compared apart from where it says it, so that
pieces may stand in other columns than the whole, with `Layout.contents` for a text and
`Token.content` for a token. -/

namespace CardDeck

/-! ### What a text says -/

/-- Behind the columns of labels and directives the column of a word does not matter. -/
theorem Vocabulary.classify_congr (v : Vocabulary) (word : String) {column other : Int}
    (h : column = other ∨ Card.directiveColumn < column ∧ Card.directiveColumn < other) :
    v.classify word column = v.classify word other := by
  rcases h with rfl | ⟨hcolumn, hother⟩
  · rfl
  · have hbehind {column : Int} (h : Card.directiveColumn < column) :
        column ≠ Card.labelColumn ∧ column ≠ Card.directiveColumn := by
      have := Card.labelColumn_lt_directiveColumn
      omega
    simp only [classify, hbehind hcolumn, hbehind hother]

namespace Layout

variable {v : Vocabulary}

theorem content_tokenAt? {inside : Bool} {c : Char} {p q : Position} (cs : List Char)
    (h : p.column = q.column ∨
      Card.directiveColumn < p.column ∧ Card.directiveColumn < q.column) :
    (tokenAt? v inside ⟨c, p⟩ (row (p.shift 1) cs)).map Token.content =
      (tokenAt? v inside ⟨c, q⟩ (row (q.shift 1) cs)).map Token.content := by
  simp only [tokenAt?, row_takeWhile_inWord, chars_row]
  split
  · rfl
  · split
    · rfl
    · split
      · rfl
      · exact congrArg some (Prod.ext (v.classify_congr _ h) rfl)

theorem content_tokensAfter {inside : Bool} {p q : Position} (cs : List Char)
    (h : p.column = q.column ∨
      Card.directiveColumn < p.column ∧ Card.directiveColumn < q.column) :
    (tokensAfter v inside (row p cs)).map Token.content =
      (tokensAfter v inside (row q cs)).map Token.content := by
  induction cs generalizing inside p q with
  | nil => rfl
  | cons c cs ih =>
    have hshift : (p.shift 1).column = (q.shift 1).column ∨
        Card.directiveColumn < (p.shift 1).column ∧ Card.directiveColumn < (q.shift 1).column := by
      rw [Position.column_shift, Position.column_shift]
      omega
    have hfirst := @content_tokenAt? v inside c p q cs h
    rw [row, row, tokensAfter, tokensAfter, List.map_append, List.map_append, ← Option.toList_map,
      ← Option.toList_map, hfirst]
    exact congrArg _ (ih hshift)

/-- What the words and marks of a text say, if the text starts in this column. -/
def contents (v : Vocabulary) (column : Int) (cs : List Char) : List (Token.Kind × String) :=
  (tokens v (row ⟨0, column⟩ cs)).map Token.content

theorem content_tokens_row (p : Position) (cs : List Char) :
    (tokens v (row p cs)).map Token.content = contents v p.column cs :=
  content_tokensAfter cs (.inl rfl)

theorem contents_congr {column other : Int} (cs : List Char)
    (hcolumn : Card.directiveColumn < column) (hother : Card.directiveColumn < other) :
    contents v column cs = contents v other cs :=
  content_tokensAfter cs (.inr ⟨hcolumn, hother⟩)

theorem contents_append {a b : List Char} (column : Int)
    (h : a.getLast?.all isDelimiter ∨ b.head?.all isDelimiter) :
    contents v column (a ++ b) = contents v column a ++ contents v (column + a.length) b := by
  rw [contents, row_append, tokens_append_of_cut (by rwa [chars_row, chars_row]), List.map_append,
    content_tokens_row, content_tokens_row]
  rfl

end Layout

/-! ### Pieces -/

namespace Writing

/-- A piece of a statement, the column in which it starts on its card, and what numbers the
card. -/
structure Piece where
  text : List Char
  column : Nat
  sequence : List Char
deriving DecidableEq, Repr

/-- What stands on the card of a piece before the columns of the marker and of the numbers. -/
def Piece.body (p : Piece) : List Char := List.replicate p.column ' ' ++ p.text

/-- There is room for a piece before the column of the marker, and for its numbers behind. -/
structure Piece.Fits (p : Piece) : Prop where
  room : p.column + p.text.length ≤ Card.markerColumn
  newline : '\n' ∉ p.text
  length_sequence : p.sequence.length = Card.width - Card.sequenceColumn
  newline_sequence : '\n' ∉ p.sequence

instance (p : Piece) : Decidable p.Fits :=
  decidable_of_iff (p.column + p.text.length ≤ Card.markerColumn ∧ '\n' ∉ p.text ∧
      p.sequence.length = Card.width - Card.sequenceColumn ∧ '\n' ∉ p.sequence)
    ⟨fun ⟨hroom, hnewline, hlength, hsequence⟩ => ⟨hroom, hnewline, hlength, hsequence⟩,
      fun h => ⟨h.room, h.newline, h.length_sequence, h.newline_sequence⟩⟩

/-- The text that has been cut into pieces. -/
def joined (pieces : List Piece) : List Char := pieces.flatMap (·.text)

/-- A statement may be cut behind the columns of labels and directives, if no word is cut. -/
structure IsCut (before behind : List Char) : Prop where
  column : Card.directiveColumn < before.length
  word : before.getLast?.all isDelimiter ∨ behind.head?.all isDelimiter

instance (before behind : List Char) : Decidable (IsCut before behind) :=
  decidable_of_iff (Card.directiveColumn < before.length ∧
      (before.getLast?.all isDelimiter ∨ behind.head?.all isDelimiter))
    ⟨fun ⟨hcolumn, hword⟩ => ⟨hcolumn, hword⟩, fun h => ⟨h.column, h.word⟩⟩

/-- Pieces that a statement is cut into behind `before`, none of them before the column of
resumption. -/
def Continues (before : List Char) : List Piece → Prop
  | [] => True
  | p :: pieces => IsCut before (joined (p :: pieces)) ∧ Card.resumeColumn ≤ p.column ∧
      Continues (before ++ p.text) pieces

instance decidableContinues : ∀ before pieces, Decidable (Continues before pieces)
  | _, [] => inferInstanceAs (Decidable True)
  | before, p :: pieces =>
    have := decidableContinues (before ++ p.text) pieces
    inferInstanceAs (Decidable (_ ∧ _ ∧ _))

/-- A statement whose first piece stands where it stands in the whole, while the others may stand
anywhere on their cards from the column of resumption on. -/
structure Breaks (text : List Char) (first : Piece) (pieces : List Piece) : Prop where
  text_eq : joined (first :: pieces) = text
  column : first.column = 0
  continues : Continues first.text pieces
  fits : ∀ p ∈ first :: pieces, p.Fits

/-- The cards of a statement, one for each of its pieces. -/
def brokenCards : List Piece → List Card
  | [] => []
  | [p] => [card false p.body p.sequence]
  | p :: pieces => card true p.body p.sequence :: brokenCards pieces

theorem brokenCards_cons_cons (p next : Piece) (pieces : List Piece) :
    brokenCards (p :: next :: pieces) =
      card true p.body p.sequence :: brokenCards (next :: pieces) := rfl

variable {v : Vocabulary} {p : Piece} {pieces : List Piece} {before : List Char}

/-! ### The cards of the pieces -/

namespace Piece

theorem length_body (p : Piece) : p.body.length = p.column + p.text.length := by
  rw [body, List.length_append, List.length_replicate]

theorem Fits.body_le (h : p.Fits) (isContinued : Bool) :
    p.body.length ≤ Writing.room isContinued := by
  rw [length_body]
  exact h.room.trans (Card.payloadEnd_mem isContinued).1

/-- The marker stands on the card of a piece if and only if it has been set. -/
theorem Fits.isContinued_card (h : p.Fits) (isContinued : Bool) :
    (card isContinued p.body p.sequence).isContinued = isContinued := by
  cases isContinued with
  | true => exact isContinued_card_true (h.body_le true)
  | false =>
    refine isContinued_card_false (h.body_le false) ?_
    rw [List.getElem?_eq_none (by rw [length_body]; exact h.room)]
    exact nofun

theorem Fits.length_and_newline_card (h : p.Fits) (isContinued : Bool) :
    (card isContinued p.body p.sequence).length = Card.width ∧
      '\n' ∉ card isContinued p.body p.sequence := by
  refine ⟨length_card (h.body_le isContinued) h.length_sequence,
    newline_not_mem_card ?_ h.newline_sequence⟩
  rw [body, List.mem_append, not_or]
  refine ⟨fun hmem => ?_, h.newline⟩
  exact absurd (List.eq_of_mem_replicate hmem) (by decide)

/-- What the words and marks of a piece say. -/
def contents (v : Vocabulary) (p : Piece) : List (Token.Kind × String) :=
  Layout.contents v p.column p.text

/-- What is read off the card of a piece is what the piece says. -/
theorem Fits.content_card (h : p.Fits) (isContinued : Bool) (line : Nat) :
    (Reading.ofText v ⟨line, 0⟩ ((card isContinued p.body p.sequence).payload 0)).map
      Token.content = p.contents v := by
  have hblank : ∀ x ∈ Layout.row ⟨line, 0⟩ (List.replicate p.column ' '),
      Text.isBlank x.char := fun x hx => Layout.isBlank_of_mem_row_replicate hx
  rw [ofText_payload_card (h.body_le isContinued) (h.isContinued_card isContinued), body,
    Layout.row_append, Layout.tokens_blanks_append hblank, Layout.content_tokens_row,
    List.length_replicate, Position.column_shift, Int.zero_add, contents]

end Piece

theorem length_and_newline_of_mem_brokenCards (hfits : ∀ p ∈ pieces, p.Fits) :
    ∀ card ∈ brokenCards pieces, card.length = Card.width ∧ '\n' ∉ card := by
  induction pieces with
  | nil => simp [brokenCards]
  | cons p pieces ih =>
    obtain ⟨hp, hpieces⟩ := List.forall_mem_cons.1 hfits
    cases pieces with
    | nil =>
      rw [brokenCards, List.forall_mem_singleton]
      exact hp.length_and_newline_card false
    | cons next pieces =>
      rw [brokenCards_cons_cons, List.forall_mem_cons]
      exact ⟨hp.length_and_newline_card true, ih hpieces⟩

/-- The last card of a statement is not continued. -/
theorem isLeftOpen_brokenCards (hfits : ∀ q ∈ p :: pieces, q.Fits) (continuing : Bool) :
    Reading.isLeftOpen continuing (brokenCards (p :: pieces)) = false := by
  induction pieces generalizing p continuing with
  | nil =>
    rw [brokenCards, Reading.isLeftOpen_cons, Reading.isLeftOpen_nil]
    exact (hfits p List.mem_cons_self).isContinued_card false
  | cons next pieces ih =>
    rw [brokenCards_cons_cons, Reading.isLeftOpen_cons]
    exact ih (List.forall_mem_cons.1 hfits).2 _

/-- The cards say what the pieces say, and then that the statement ends. -/
theorem content_ofCards {d : Decoder} {line : Nat} {continuing : Bool}
    (hfits : ∀ q ∈ p :: pieces, q.Fits) (hfirst : continuing → Card.resumeColumn ≤ p.column)
    (hrest : ∀ q ∈ pieces, Card.resumeColumn ≤ q.column) :
    (Reading.ofCards d line continuing (brokenCards (p :: pieces))).map Token.content =
      (p :: pieces).flatMap (Piece.contents d.vocabulary) ++ [(.endOfLine, "")] := by
  induction pieces generalizing p line continuing with
  | nil =>
    have hp := hfits p List.mem_cons_self
    have hindented : continuing → (card false p.body p.sequence).isIndented := fun h =>
      isIndented_card (hfirst h) p.text p.sequence
    rw [brokenCards, Reading.ofCards_cons_of_isIndented d [] hindented, hp.isContinued_card false,
      if_neg Bool.false_ne_true, Reading.ofCards_nil, List.append_nil, List.map_append,
      hp.content_card]
    simp [Token.content, Token.endOfLine]
  | cons next pieces ih =>
    obtain ⟨hp, hpieces⟩ := List.forall_mem_cons.1 hfits
    obtain ⟨hnext, hrest⟩ := List.forall_mem_cons.1 hrest
    have hindented : continuing → (card true p.body p.sequence).isIndented := fun h =>
      isIndented_card (hfirst h) p.text p.sequence
    rw [brokenCards_cons_cons, Reading.ofCards_cons_of_isIndented d _ hindented,
      hp.isContinued_card true, if_pos rfl, List.append_nil, List.map_append, hp.content_card,
      ih hpieces (fun _ => hnext) hrest, ← List.append_assoc]
    rfl

/-! ### The text of the pieces -/

theorem Continues.resume_le (h : Continues before pieces) :
    ∀ p ∈ pieces, Card.resumeColumn ≤ p.column := by
  induction pieces generalizing before with
  | nil => simp
  | cons p pieces ih =>
    obtain ⟨-, hp, hpieces⟩ := h
    exact List.forall_mem_cons.2 ⟨hp, ih hpieces⟩

/-- Cut into pieces, a text says what it said. -/
theorem Continues.contents_append (h : Continues before pieces) :
    Layout.contents v 0 (before ++ joined pieces) =
      Layout.contents v 0 before ++ pieces.flatMap (Piece.contents v) := by
  induction pieces generalizing before with
  | nil => simp [joined]
  | cons p pieces ih =>
    obtain ⟨hcut, hp, hpieces⟩ := h
    have hword : before.getLast?.all isDelimiter ∨ p.text.head?.all isDelimiter := by
      refine hcut.word.imp_right fun hhead => ?_
      cases htext : p.text with
      | nil => rfl
      | cons c cs => simpa [joined, htext] using hhead
    have hcolumn : (Card.directiveColumn : Int) < p.column := by
      have hlt := Card.directiveColumn_lt_resumeColumn
      omega
    have hbefore : (Card.directiveColumn : Int) < 0 + before.length := by
      have hlt := hcut.column
      omega
    rw [joined, List.flatMap_cons, ← List.append_assoc]
    change Layout.contents v 0 (before ++ p.text ++ joined pieces) = _
    rw [ih hpieces, Layout.contents_append 0 hword, Layout.contents_congr p.text hbefore hcolumn,
      List.flatMap_cons, List.append_assoc, Piece.contents]

/-- However a statement is broken, its tokens say the same. -/
theorem Breaks.exists_tokens {d : Decoder} {text : List Char} {first : Piece}
    (h : Breaks text first pieces) (terminated : Bool) :
    ∃ ts, d.tokens (Writing.text terminated (brokenCards (first :: pieces))) =
        Reading.checked ts ∧
      ts.map Token.content = Layout.contents d.vocabulary 0 text ++
        (.endOfLine, "") :: if terminated then [(.endOfLine, "")] else [] := by
  have hnil : brokenCards (first :: pieces) ≠ [] := by
    cases pieces with
    | nil => exact List.cons_ne_nil _ _
    | cons next pieces => exact List.cons_ne_nil _ _
  have hpieces : (first :: pieces).flatMap (Piece.contents d.vocabulary) =
      Layout.contents d.vocabulary 0 text := by
    rw [← h.text_eq, List.flatMap_cons, Piece.contents, h.column]
    exact h.continues.contents_append.symm
  have hread := @content_ofCards first pieces d 0 false h.fits (by simp) h.continues.resume_le
  refine ⟨_, tokens_text_eq_checked (length_and_newline_of_mem_brokenCards h.fits)
    (isLeftOpen_brokenCards h.fits false), ?_⟩
  rw [List.map_append, hread, hpieces, List.append_assoc]
  simp only [hnil, false_or]
  cases terminated <;> rfl

end Writing

/-! ### Decks -/

/-- Tokens that say the same are refused alike. -/
theorem Reading.checked_congr {ts us : List Token}
    (h : ts.map Token.content = us.map Token.content) :
    (∃ p q, checked ts = .error (.strayMarker p) ∧ checked us = .error (.strayMarker q)) ∨
      (checked ts = .ok ts ∧ checked us = .ok us) := by
  have hfind (ts : List Token) : (ts.find? (·.isStray)).map Token.content =
      (ts.map Token.content).find? fun (_, text) => text.toList.head? = some Card.marker := by
    rw [List.find?_map]
    rfl
  have hstray := hfind ts
  rw [h, ← hfind us] at hstray
  rw [checked, checked]
  cases hts : ts.find? (·.isStray) with
  | none =>
    rw [hts, Option.map_none, eq_comm, Option.map_eq_none_iff] at hstray
    rw [hstray]
    exact .inr ⟨rfl, rfl⟩
  | some t =>
    rw [hts, Option.map_some, eq_comm, Option.map_eq_some_iff] at hstray
    obtain ⟨u, hus, -⟩ := hstray
    rw [hus]
    exact .inl ⟨_, _, rfl, rfl⟩

namespace Decoder

/-- Decks that come to the same but for places: both are refused for a word astray, or their tokens
say the same, and then both have the same segments or both are refused for the same fault. -/
inductive ReadsAlike (d : Decoder) (deck other : List Char) : Prop
  | stray {p q : Position} (hdeck : d.tokens deck = .error (.strayMarker p))
      (hother : d.tokens other = .error (.strayMarker q))
  | segments {ts us : List Token} {segments : List Segment} (hdeck : d.tokens deck = .ok ts)
      (hother : d.tokens other = .ok us) (hsame : ts.map Token.content = us.map Token.content)
      (hsegments : d.segments deck = .ok segments) (hsegments' : d.segments other = .ok segments)
  | fault {ts us : List Token} {fault fault' : RecordFault} (hdeck : d.tokens deck = .ok ts)
      (hother : d.tokens other = .ok us) (hsame : ts.map Token.content = us.map Token.content)
      (hfault : d.segments deck = .error (.record fault))
      (hfault' : d.segments other = .error (.record fault'))
      (hunplaced : fault.unplaced = fault'.unplaced)

variable {d : Decoder} {deck other : List Char} {ts us : List Token}

theorem readsAlike_of_checked (hdeck : d.tokens deck = Reading.checked ts)
    (hother : d.tokens other = Reading.checked us)
    (hsame : ts.map Token.content = us.map Token.content) : d.ReadsAlike deck other := by
  rcases Reading.checked_congr hsame with ⟨p, q, hts, hus⟩ | ⟨hts, hus⟩
  · exact .stray (hdeck.trans hts) (hother.trans hus)
  · have hread := Segment.ofTokens_congr hsame
    have hsegments := segments_of_tokens (hdeck.trans hts)
    have hsegments' := segments_of_tokens (hother.trans hus)
    generalize Segment.ofTokens ts = found at hread hsegments
    generalize Segment.ofTokens us = found' at hread hsegments'
    rcases found with fault | found
    · rcases found' with fault' | found'
      · exact .fault (hdeck.trans hts) (hother.trans hus) hsame hsegments hsegments'
          (Except.error.inj hread)
      · cases hread
    · rcases found' with fault' | found'
      · cases hread
      · obtain rfl := Except.ok.inj hread
        exact .segments (hdeck.trans hts) (hother.trans hus) hsame hsegments hsegments'

/-- A statement that fits on one card is read as it is read there when it is broken over several:
the same tokens, though at other places, and the same segments. -/
theorem readsAlike_of_breaks (d : Decoder) (terminated : Bool) {text sequence : List Char}
    {first : Writing.Piece} {pieces : List Writing.Piece}
    (hbreaks : Writing.Breaks text first pieces)
    (hwhole : (⟨text, 0, sequence⟩ : Writing.Piece).Fits) :
    d.ReadsAlike (Writing.text terminated (Writing.brokenCards (first :: pieces)))
      (Writing.text terminated [Writing.card false text sequence]) := by
  have htrivial : Writing.Breaks text ⟨text, 0, sequence⟩ [] :=
    ⟨List.append_nil text, rfl, trivial, List.forall_mem_singleton.2 hwhole⟩
  obtain ⟨ts, hts, hcontent⟩ := @Writing.Breaks.exists_tokens pieces d text first hbreaks terminated
  obtain ⟨us, hus, hcontent'⟩ :=
    @Writing.Breaks.exists_tokens [] d text ⟨text, 0, sequence⟩ htrivial terminated
  exact readsAlike_of_checked hts hus (hcontent.trans hcontent'.symm)

end Decoder

namespace Writing

/-- A segment on one card. -/
def segmentText : List Char := List.replicate 9 ' ' ++ "SEGM NAME=A, BYTES=5".toList

def segmentStart : Piece :=
  ⟨List.replicate 9 ' ' ++ "SEGM NAME=".toList, 0, "00000010".toList⟩

/-- The rest of the segment on three cards, one of which is blank. -/
def segmentRest : List Piece :=
  [⟨"A,".toList, 20, "00000020".toList⟩, ⟨" ".toList, 14, "00000030".toList⟩,
   ⟨"BYTES=5".toList, 30, "00000040".toList⟩]

end Writing

theorem Decoder.readsAlike_of_breaks_segmentText :
    Writing.Breaks Writing.segmentText Writing.segmentStart Writing.segmentRest ∧
      (⟨Writing.segmentText, 0, List.replicate 8 '0'⟩ : Writing.Piece).Fits ∧
      (⟨.standard, false⟩ : Decoder).ReadsAlike
        (Writing.text true (Writing.brokenCards (Writing.segmentStart :: Writing.segmentRest)))
        (Writing.text true [Writing.card false Writing.segmentText (List.replicate 8 '0')]) := by
  have hbreaks : Writing.Breaks Writing.segmentText Writing.segmentStart Writing.segmentRest :=
    ⟨by decide +kernel, rfl, by decide +kernel, by decide +kernel⟩
  have hwhole : (⟨Writing.segmentText, 0, List.replicate 8 '0'⟩ : Writing.Piece).Fits := by
    decide +kernel
  exact ⟨hbreaks, hwhole, readsAlike_of_breaks ⟨.standard, false⟩ true hbreaks hwhole⟩

end CardDeck
