import CardDeck.Proofs.Statement.Reading

/-! # What is wrong with a deck

Said of the cards alone, without joining them and without reading tokens off them: a card of some
other width, a last card that is continued, a word that starts with a marker. Where the cards are
joined, `Defect.joined?` is what a decoder finds, in this order, and
`Decoder.tokens_joined_eq_defect` that it finds nothing else. -/

namespace CardDeck

namespace Defect

/-- The first card that has not the width of cards. -/
def width? (cards : List Card) : Option CardFault :=
  (cards.zipIdx.find? (·.1.length ≠ Card.width)).map fun (card, line) => .width line card.length

/-- The last card, if it is continued. -/
def unfinished? (cards : List Card) : Option CardFault :=
  if Reading.isLeftOpen false cards then some (.unfinished (cards.length - 1)) else none

/-- Whether a word that starts with a marker starts at offset `i` of a text: the marker comes first
in the text, or behind a character that no word holds. -/
def isStrayAt (text : List Char) (i : Nat) : Bool :=
  text[i]? = some Card.marker && (i = 0 || text[i - 1]?.any isDelimiter)

/-- The places of such words in a text whose first character stands at `p`. -/
def straysOfText (p : Position) (text : List Char) : List Position :=
  (List.range text.length).filterMap fun i => if isStrayAt text i then some (p.shift i) else none

/-- The places of such words on the cards from `line` on, where `continuing` says whether the card
before them is continued. -/
def strays (raw : Bool) (line : Nat) (continuing : Bool) : List Card → List Position
  | [] => []
  | card :: cards =>
    let first := if continuing && !raw then Card.resumeColumn else 0
    straysOfText ⟨line, first⟩ (card.payload first) ++
      strays raw (line + 1) card.isContinued cards

/-- What is wrong with a deck whose cards are to be joined. The width of the cards comes first, and
the words on them last. -/
def joined? (cards : List Card) : Option CardFault :=
  (width? cards).or <| (unfinished? cards).or <|
    (strays false 0 false cards).head?.map .strayMarker

end Defect

/-! ### The width of the cards -/

theorem Card.checkWidths_eq_find? (line : Nat) (cards : List Card) :
    checkWidths line cards =
      match (cards.zipIdx line).find? (·.1.length ≠ width) with
      | none => .ok ()
      | some (card, i) => .error (.width i card.length) := by
  induction cards generalizing line with
  | nil => rfl
  | cons card cards ih =>
    rw [checkWidths, List.zipIdx_cons, List.find?_cons]
    by_cases h : card.length = width
    · simp [h, ih]
    · simp [h]

/-! ### Words that start with a marker -/

namespace Defect

/-- A token stands where its text does, and is astray if a marker stands there. -/
theorem isStray_of_tokenAt?_eq_some {v : Vocabulary} {p : Position} {text : List Char} {i : Nat}
    {t : Token} (h : Reading.tokenAt? v p text i = some t) :
    t.position = p.shift i ∧ t.isStray = decide (text[i]? = some Card.marker) := by
  obtain ⟨c, hc, h⟩ := Option.bind_eq_some_iff.1 h
  rw [hc]
  split at h
  · cases h
  · next hblank =>
    split at h
    · next kind hkind =>
      obtain rfl := Option.some.inj h
      have hne : c ≠ Card.marker := by
        rintro rfl
        cases hkind
      exact ⟨rfl, by simpa [hne] using isStray_mark hkind (p.shift i)⟩
    · next hmark =>
      split at h
      · cases h
      · obtain rfl := Option.some.inj h
        obtain ⟨hlt, hget⟩ := List.getElem?_eq_some_iff.1 hc
        have hword : isDelimiter c = false := by simp [isDelimiter, hblank, hmark]
        rw [List.drop_eq_getElem_cons hlt, hget, List.takeWhile_cons_of_pos (by simp [hword])]
        exact ⟨rfl, by simp [Vocabulary.isStray_word]⟩

/-- Where a marker stands, a token starts unless a word goes on there. -/
theorem isSome_tokenAt?_of_marker {v : Vocabulary} {p : Position} {text : List Char} {i : Nat}
    (h : text[i]? = some Card.marker) :
    (Reading.tokenAt? v p text i).isSome = isStrayAt text i := by
  obtain ⟨hlt, -⟩ := List.getElem?_eq_some_iff.1 h
  have hblank : Text.isBlank Card.marker = false := by decide
  have hmark : punctuation? Card.marker = none := rfl
  rw [Reading.tokenAt?, isStrayAt, h, Option.bind_some, hblank, if_neg Bool.false_ne_true, hmark]
  rcases Nat.eq_zero_or_pos i with rfl | hi
  · simp
  · have hbefore : i - 1 < text.length := by omega
    rw [List.getElem?_eq_getElem hbefore]
    cases hbetween : isDelimiter text[i - 1] <;> simp [hi, Nat.ne_of_gt hi, hbetween]

/-- The token that starts at an offset is astray if a word with a marker in front starts there. -/
theorem filter_tokenAt? (v : Vocabulary) (p : Position) (text : List Char) (i : Nat) :
    ((Reading.tokenAt? v p text i).filter Token.isStray).map Token.position =
      if isStrayAt text i then some (p.shift i) else none := by
  by_cases hmarker : text[i]? = some Card.marker
  · rw [← isSome_tokenAt?_of_marker (v := v) (p := p) hmarker]
    cases ht : Reading.tokenAt? v p text i with
    | none => rfl
    | some t =>
      obtain ⟨hposition, hstray⟩ := isStray_of_tokenAt?_eq_some ht
      rw [Option.filter_some_pos (by simp [hstray, hmarker]), Option.map_some, hposition]
      rfl
  · have hnone : isStrayAt text i = false := by simp [isStrayAt, hmarker]
    rw [hnone]
    cases ht : Reading.tokenAt? v p text i with
    | none => rfl
    | some t =>
      obtain ⟨-, hstray⟩ := isStray_of_tokenAt?_eq_some ht
      simp [hstray, hmarker]

theorem filter_ofText (v : Vocabulary) (p : Position) (text : List Char) :
    ((Reading.ofText v p text).filter Token.isStray).map Token.position =
      straysOfText p text := by
  rw [Reading.ofText, List.filter_filterMap, List.map_filterMap, straysOfText]
  simp only [filter_tokenAt?]

theorem filter_ofCards (d : Decoder) (line : Nat) (continuing : Bool) (cards : List Card) :
    ((Reading.ofCards d line continuing cards).filter Token.isStray).map Token.position =
      strays d.raw line continuing cards := by
  induction cards generalizing line continuing with
  | nil => rfl
  | cons card cards ih =>
    have hend : List.filter Token.isStray
        (if card.isContinued then [] else [.endOfLine ⟨line, Card.width⟩]) = [] := by
      split <;> simp
    rw [Reading.ofCards, List.filter_append, List.filter_append, hend, List.append_nil,
      List.map_append, filter_ofText, ih]
    rfl

theorem filter_reading (d : Decoder) (text : List Char) :
    ((d.reading text).filter Token.isStray).map Token.position =
      strays d.raw 0 false (Card.ofText text) := by
  have hend : List.filter Token.isStray (if text = [] ∨ text.getLast? = some '\n' then
      [.endOfLine ⟨(Card.ofText text).length, 0⟩] else []) = [] := by
    split <;> simp
  rw [Decoder.reading, List.filter_append, hend, List.append_nil, filter_ofCards]

theorem joined?_ne_untraceable (cards : List Card) : joined? cards ≠ some .untraceable := by
  intro h
  simp only [joined?, Option.or_eq_some_iff] at h
  rcases h with h | ⟨-, h | ⟨-, h⟩⟩
  · obtain ⟨_, -, h⟩ := Option.map_eq_some_iff.1 h
    cases h
  · rw [unfinished?] at h
    split at h <;> cases h
  · obtain ⟨_, -, h⟩ := Option.map_eq_some_iff.1 h
    cases h

/-- Checking tokens comes to the first place where a word starts with a marker. -/
theorem checked_eq_head? (tokens : List Token) :
    Reading.checked tokens =
      match ((tokens.filter Token.isStray).map Token.position).head? with
      | none => .ok tokens
      | some p => .error (.strayMarker p) := by
  rw [List.head?_map, List.head?_filter, Reading.checked]
  cases tokens.find? Token.isStray <;> rfl

end Defect

namespace Decoder

theorem tokens_joined_eq (v : Vocabulary) (text : List Char) :
    (⟨v, false⟩ : Decoder).tokens text =
      match Defect.joined? (Card.ofText text) with
      | some fault => .error fault
      | none => .ok ((⟨v, false⟩ : Decoder).reading text) := by
  have hcheck := Card.checkWidths_eq_find? 0 (Card.ofText text)
  rw [Defect.joined?, Defect.width?]
  cases hfind : (Card.ofText text).zipIdx.find? (·.1.length ≠ Card.width) with
  | some narrow =>
    rw [hfind] at hcheck
    rw [tokens, if_neg Bool.false_ne_true, Statement.ofText, hcheck]
    rfl
  | none =>
    rw [hfind] at hcheck
    rw [tokens_joined v (Card.checkWidths_eq_ok_iff.1 hcheck), Defect.unfinished?]
    cases Reading.isLeftOpen false (Card.ofText text) with
    | true => rfl
    | false =>
      rw [if_neg Bool.false_ne_true, if_neg Bool.false_ne_true, Defect.checked_eq_head?,
        Defect.filter_reading]
      cases (Defect.strays false 0 false (Card.ofText text)).head? <;> rfl

/-- Every defect of joined cards has a place in them. -/
theorem tokens_joined_ne_untraceable (v : Vocabulary) (text : List Char) :
    (⟨v, false⟩ : Decoder).tokens text ≠ .error .untraceable := by
  rw [tokens_joined_eq]
  cases hdefect : Defect.joined? (Card.ofText text) with
  | none =>
    intro h
    cases h
  | some fault =>
    intro h
    obtain rfl := Except.error.inj h
    exact Defect.joined?_ne_untraceable _ hdefect

/-- Where the cards are joined, a deck is refused for what is wrong with it, and for nothing else;
if nothing is wrong, its tokens are its reading. -/
theorem tokens_joined_eq_defect (v : Vocabulary) (text : List Char) :
    (⟨v, false⟩ : Decoder).tokens text =
        (match Defect.joined? (Card.ofText text) with
        | some fault => .error fault
        | none => .ok ((⟨v, false⟩ : Decoder).reading text)) ∧
      (⟨v, false⟩ : Decoder).tokens text ≠ .error .untraceable :=
  ⟨tokens_joined_eq v text, tokens_joined_ne_untraceable v text⟩

end Decoder

end CardDeck
