import CardDeck.Listing.Text
import CardDeck.Proofs.Concatenation
import CardDeck.Proofs.Shape

/-! # Listings lose nothing

A listing is a text for people, with one record or token to a line and blanks to keep the columns.
What it shows can be read off it all the same, since no word holds a blank, no key an equals sign
and no number a colon: `Decoder.eq_of_listing_eq`.

Of tokens and segments that no deck has this is not so: a blank at the end of a text is lost, and a
blank within it looks like the end of a column. -/

namespace CardDeck

open Grammar Writing

/-! ### Tokens -/

theorem mem_repr {n : Int} {c : Char} (h : c ∈ n.repr.toList) : c = '-' ∨ c.isDigit := by
  have hdigits {m : Nat} (hc : c ∈ m.repr.toList) : c.isDigit := by
    rw [Nat.toList_repr] at hc
    exact Nat.isDigit_of_mem_toDigits (by decide) (by decide) hc
  rw [Int.repr_eq_if] at h
  split at h
  · exact .inr (hdigits h)
  · rw [String.toList_append] at h
    rcases List.mem_append.1 h with h | h
    · exact .inl (by simpa using h)
    · exact .inr (hdigits h)

/-- A number can be read off its digits, and the sign of it is no digit. -/
theorem eq_of_repr_eq {m n : Int} (h : m.repr.toList = n.repr.toList) : m = n := by
  have hdigits {a b : Nat} (hab : a.repr.toList = b.repr.toList) : a = b := by
    rw [Nat.toList_repr, Nat.toList_repr] at hab
    rw [← Nat.ofDigitChars_ten_toDigits (n := a), hab, Nat.ofDigitChars_ten_toDigits]
  have hsign {a : Nat} : '-' ∉ a.repr.toList := by
    intro hmem
    rw [Nat.toList_repr] at hmem
    exact absurd (Nat.isDigit_of_mem_toDigits (by decide) (by decide) hmem) (by decide)
  rw [Int.repr_eq_if, Int.repr_eq_if] at h
  split at h <;> split at h
  · have heq := hdigits h
    omega
  · exact absurd (by rw [h]; simp) (@hsign m.toNat)
  · exact absurd (by rw [← h]; simp) (@hsign n.toNat)
  · rw [String.toList_append, String.toList_append] at h
    have heq := hdigits (List.append_cancel_left h)
    omega

theorem isBlank_of_mem_repr {n : Int} : ∀ c ∈ n.repr.toList, Text.isBlank c = false := by
  intro c hc
  rcases mem_repr hc with rfl | hdigit
  · decide
  · have hrange : 48 ≤ c.toNat ∧ c.toNat ≤ 57 := by
      simpa [Char.isDigit, UInt32.le_iff_toNat_le] using hdigit
    simp only [Text.isBlank, Bool.or_eq_false_iff, Bool.and_eq_false_iff, decide_eq_false_iff_not,
      beq_eq_false_iff_ne]
    omega

theorem colon_not_mem_repr (n : Int) : ':' ∉ n.repr.toList := by
  intro hmem
  rcases mem_repr hmem with h | h
  · exact absurd h (by decide)
  · exact absurd h (by decide)

/-- Line and column as listings show them. -/
def Position.shown (p : Position) : List Char := p.line.repr.toList ++ ':' :: p.column.repr.toList

theorem Position.isWord_shown (p : Position) : Text.IsWord p.shown where
  ne_nil := List.append_ne_nil_of_right_ne_nil _ (List.cons_ne_nil _ _)
  not_isBlank := by
    rw [shown, List.forall_mem_append, List.forall_mem_cons]
    exact ⟨isBlank_of_mem_repr, by decide, isBlank_of_mem_repr⟩

theorem Position.shown_inj {p q : Position} (h : p.shown = q.shown) : p = q := by
  obtain ⟨hline, -, hcolumn⟩ :=
    (List.append_cons_inj_of_notMem (colon_not_mem_repr _) (colon_not_mem_repr _)).1 h
  obtain ⟨line, column⟩ := p
  obtain rfl : line = q.line := eq_of_repr_eq hline
  obtain rfl : column = q.column := eq_of_repr_eq hcolumn
  rfl

namespace Token

theorem Kind.ofName?_name (k : Kind) : Kind.ofName? k.name = some k := by
  rcases k with _ | _ | ⟨_ | _ | _ | _⟩ | _ | _ | _ | _ | _ | _ | _ | _ <;> decide

theorem Kind.name_inj {k l : Kind} (h : k.name = l.name) : k = l :=
  Option.some.inj ((ofName?_name k).symm.trans (h ▸ ofName?_name l))

theorem Kind.isWord_name (k : Kind) : Text.IsWord k.name.toList := by
  have hname : k.name.toList ≠ [] ∧ k.name.toList.all (!Text.isBlank ·) := by
    rcases k with _ | _ | ⟨_ | _ | _ | _⟩ | _ | _ | _ | _ | _ | _ | _ | _ <;> decide
  exact ⟨hname.1, by simpa using hname.2⟩

variable {t u : Token} {v : Vocabulary}

/-- The columns of a line, with the blanks that end it. -/
def columns (t : Token) : List Char :=
  (t.position.line.repr.toList.leftpad 4 ' ' ++ ':' ::
    t.position.column.repr.toList.rightpad 3 ' ') ++ ' ' ::
      (t.kind.name.toList.rightpad 9 ' ' ++ ' ' :: t.text.toList)

theorem toList_listing (t : Token) : t.listing.toList = Text.trimEnd t.columns := by
  simp [listing, columns]

/-- The words of a line are what stands in its columns. -/
theorem words_listing (t : Token) :
    Text.words t.listing.toList =
      t.position.shown :: t.kind.name.toList :: Text.words t.text.toList := by
  have hblank : Text.isBlank ' ' := by decide
  have hplace : Text.words (t.position.line.repr.toList.leftpad 4 ' ' ++ ':' ::
      t.position.column.repr.toList.rightpad 3 ' ') = [t.position.shown] := by
    -- the colon keeps line and column together as one word
    rw [Text.words_leftpad_append_rightpad]
    exact t.position.isWord_shown.words_eq
  rw [toList_listing, Text.words_trimEnd, columns, Text.words_append_cons hblank,
    Text.words_append_cons hblank, hplace, Text.words_rightpad, t.kind.isWord_name.words_eq]
  rfl

theorem listing_inj (ht : ∀ c ∈ t.text.toList, Text.isBlank c = false)
    (hu : ∀ c ∈ u.text.toList, Text.isBlank c = false) (h : t.listing = u.listing) : t = u := by
  have hwords := congrArg (fun s : String => Text.words s.toList) h
  simp only [words_listing] at hwords
  obtain ⟨hposition, hwords⟩ := List.cons.inj hwords
  obtain ⟨hkind, hwords⟩ := List.cons.inj hwords
  have htext := congrArg List.flatten hwords
  rw [Text.flatten_words ht, Text.flatten_words hu] at htext
  obtain ⟨kind, text, position⟩ := t
  obtain rfl : kind = u.kind := Kind.name_inj (String.toList_inj.1 hkind)
  obtain rfl : text = u.text := String.toList_inj.1 htext
  obtain rfl : position = u.position := Position.shown_inj hposition
  rfl

/-- A blank at the end of a text is lost. -/
example : listing ⟨.identifier, "A ", ⟨0, 9⟩⟩ = listing ⟨.identifier, "A", ⟨0, 9⟩⟩ := by decide

theorem newline_not_mem_listing (ht : ∀ c ∈ t.text.toList, Text.isBlank c = false) :
    '\n' ∉ t.listing.toList := by
  obtain ⟨blanks, -, htrim⟩ := Layout.exists_trimEnd_append t.columns
  rw [toList_listing]
  intro hmem
  have hcolumns : '\n' ∈ t.columns := htrim ▸ List.mem_append_left blanks hmem
  simp [columns, List.leftpad, List.rightpad, Text.newline_not_mem isBlank_of_mem_repr,
    Text.newline_not_mem t.kind.isWord_name.not_isBlank, Text.newline_not_mem ht] at hcolumns

/-- No token of a deck holds a blank. -/
theorem IsRead.not_isBlank (h : t.IsRead v) : ∀ c ∈ t.text.toList, Text.isBlank c = false := by
  cases h with
  | endOfLine p => exact List.forall_mem_nil _
  | @mark c kind hk p =>
    have htoList : c.toString.toList = [c] := by simp
    rw [htoList, List.forall_mem_singleton]
    exact not_isBlank_of_punctuation? hk
  | @word text hne hword p =>
    rw [Vocabulary.text_word, String.toList_ofList]
    intro c hc
    have hd := hword c hc
    simp only [isDelimiter, Bool.or_eq_false_iff] at hd
    exact hd.1

end Token

/-- The lines of a listing can be told apart. -/
theorem Listing.lines_inj {as bs : List String} (has : as ≠ []) (hbs : bs ≠ [])
    (hna : ∀ a ∈ as, '\n' ∉ a.toList) (hnb : ∀ b ∈ bs, '\n' ∉ b.toList)
    (h : "\n".intercalate as = "\n".intercalate bs) : as = bs := by
  have hlists := congrArg String.toList h
  rw [String.toList_intercalate, String.toList_intercalate] at hlists
  exact Text.intercalate_inj has hbs hna hnb hlists

theorem Listing.ofTokens_inj {v v' : Vocabulary} {found found' : List Token} (hne : found ≠ [])
    (hne' : found' ≠ []) (hread : ∀ t ∈ found, t.IsRead v) (hread' : ∀ t ∈ found', t.IsRead v')
    (h : ofTokens found = ofTokens found') : found = found' := by
  have hlines {v : Vocabulary} {found : List Token} (hread : ∀ t ∈ found, t.IsRead v) :
      ∀ line ∈ found.map (·.listing), '\n' ∉ line.toList :=
    List.forall_mem_map.2 fun t ht => Token.newline_not_mem_listing (hread t ht).not_isBlank
  have hlistings := lines_inj (mt List.map_eq_nil_iff.1 hne) (mt List.map_eq_nil_iff.1 hne')
    (hlines hread) (hlines hread') h
  exact eq_of_map_eq (fun t u => Token.listing_inj) (fun t ht => (hread t ht).not_isBlank)
    (fun t ht => (hread' t ht).not_isBlank) hlistings

/-! ### Segments -/

/-- What a line has before the attributes of a record. -/
def Header.lead : Header → String
  | .segm => "Got SEGM "
  | .field => "    FIELD  "
  | .lchild => "    LCHILD "
  | .xdfld => "    XDFLD  "

/-- The lines of two kinds of records differ in their first characters. -/
theorem Header.lead_append_inj {h h' : Header} {a b : List Char}
    (heq : h.lead.toList ++ a = h'.lead.toList ++ b) : h = h' ∧ a = b := by
  have hlead (h : Header) (a : List Char) :
      (h.lead.toList ++ a).take 5 = h.lead.toList.take 5 :=
    List.take_append_of_le_length (by cases h <;> decide)
  have htake : h.lead.toList.take 5 = h'.lead.toList.take 5 := by
    rw [← hlead h a, heq, hlead]
  obtain rfl : h = h' := by
    revert htake
    cases h <;> cases h' <;> decide
  exact ⟨rfl, List.append_cancel_left heq⟩

namespace Writing

variable {v v' : Vocabulary} {a b : Attribute} {c : Char} {attributes attributes' : Attributes}

/-- The characters of an attribute are those of words, and what belongs to a list or comes between
key and value. -/
theorem not_mem_text (hkey : IsKey v a.key) (hvalue : IsValue v a.value) (hd : isDelimiter c)
    (hc : c ∉ ['=', '(', ',', ')']) : c ∉ a.text.toList := by
  rw [toList_text, List.mem_append, List.mem_cons]
  rintro (hmem | rfl | hmem)
  · rw [hkey.inWord c hmem] at hd
    cases hd
  · simp at hc
  · exact hc (List.mem_cons_of_mem _ (hvalue.mem_of_isDelimiter hmem hd))

theorem text_inj (hkey : IsKey v a.key) (hvalue : IsValue v a.value) (h : a.text = b.text) :
    a = b := by
  have hequals : isDelimiter '=' := by decide
  have hinKey : '=' ∉ a.key.toList := by
    intro hmem
    rw [hkey.inWord _ hmem] at hequals
    cases hequals
  have hinValue : '=' ∉ a.value.toList := fun hmem =>
    absurd (hvalue.mem_of_isDelimiter hmem hequals) (by decide)
  have htexts := congrArg String.toList h
  rw [toList_text, toList_text, List.append_cons_inj_of_notMem hinKey hinValue] at htexts
  obtain ⟨key, value⟩ := a
  obtain rfl : key = b.key := String.toList_inj.1 htexts.1
  obtain rfl : value = b.value := String.toList_inj.1 htexts.2.2
  rfl

theorem not_mem_listing (h : IsWritable v attributes) (hd : isDelimiter c)
    (hc : c ∉ [' ', '=', '(', ',', ')']) : c ∉ (Attribute.listing attributes).toList := by
  rw [List.mem_cons, not_or] at hc
  rw [Attribute.listing, String.toList_intercalate, List.map_map]
  refine Text.not_mem_intercalate hc.1 (List.forall_mem_map.2 fun a ha => ?_)
  obtain ⟨hkey, hvalue⟩ := h.2 a ha
  exact not_mem_text hkey hvalue hd hc.2

/-- Attributes that stand side by side can be told apart. -/
theorem listing_inj (h : IsWritable v attributes) (h' : IsWritable v' attributes')
    (heq : Attribute.listing attributes = Attribute.listing attributes') :
    attributes = attributes' := by
  have hblank {v : Vocabulary} {attributes : Attributes} (h : IsWritable v attributes) :
      ∀ text ∈ attributes.map (·.text), ' ' ∉ text.toList :=
    List.forall_mem_map.2 fun a ha =>
      not_mem_text (h.2 a ha).1 (h.2 a ha).2 (by decide) (by decide)
  have hlists := congrArg String.toList heq
  rw [Attribute.listing, Attribute.listing, String.toList_intercalate,
    String.toList_intercalate] at hlists
  have htexts := Text.intercalate_inj (mt List.map_eq_nil_iff.1 h.1) (mt List.map_eq_nil_iff.1 h'.1)
    (hblank h) (hblank h') hlists
  exact eq_of_map_eq (fun a b ha hb => text_inj ha.1 ha.2) h.2 h'.2 htexts

end Writing

namespace Listing

/-- A record on one line. -/
def line (row : Header × Attributes) : String := row.1.lead ++ Attribute.listing row.2

theorem line_inj {v v' : Vocabulary} {a b : Header × Attributes} (ha : IsWritable v a.2)
    (hb : IsWritable v' b.2) (h : line a = line b) : a = b := by
  have hlists := congrArg String.toList h
  rw [line, line, String.toList_append, String.toList_append] at hlists
  obtain ⟨hheader, hattributes⟩ := Header.lead_append_inj hlists
  exact Prod.ext hheader (listing_inj ha hb (String.toList_inj.1 hattributes))

theorem newline_not_mem_line {v : Vocabulary} {row : Header × Attributes}
    (h : IsWritable v row.2) : '\n' ∉ (line row).toList := by
  rw [line, String.toList_append, List.mem_append, not_or]
  refine ⟨?_, not_mem_listing h isDelimiter_newline (by decide)⟩
  cases row.1 <;> decide

end Listing

namespace Segment

/-- The records that a segment is listed with, each with its kind. -/
def rows (s : Segment) : List (Header × Attributes) :=
  (.segm, s.attributes) :: (s.fields.map (Header.field, ·) ++
    s.leftChildren.map (Header.lchild, ·) ++ s.crossReferences.map (Header.xdfld, ·))

theorem listing_eq (s : Segment) : s.listing = s.rows.map Listing.line := by
  simp [listing, rows, Listing.line, Header.lead, Function.comp_def]

theorem mem_records_of_mem_rows {s : Segment} {row : Header × Attributes} (h : row ∈ s.rows) :
    row.2 ∈ s.records := by
  simp only [rows, List.mem_cons, List.mem_append, List.mem_map] at h
  rcases h with rfl | (⟨attributes, h, rfl⟩ | ⟨attributes, h, rfl⟩) | ⟨attributes, h, rfl⟩
  · exact List.mem_cons_self
  · simp [records, h]
  · simp [records, h]
  · simp [records, h]

end Segment

namespace Grammar

variable {header leaf : Header} {items : List Item}

theorem leaves_map_append (h : leaf ≠ .segm) (l : List Attributes) :
    leaves header (l.map (Item.record leaf) ++ items) =
      (if leaf = header then l else []) ++ leaves header items := by
  induction l with
  | nil => simp
  | cons attributes l ih =>
    rw [List.map_cons, List.cons_append, leaves_record_cons h, ih]
    split
    · rfl
    · rfl

theorem segments_map_append (h : leaf ≠ .segm) (l : List Attributes) :
    segments (l.map (Item.record leaf) ++ items) = segments items := by
  induction l with
  | nil => rfl
  | cons attributes l ih => rw [List.map_cons, List.cons_append, segments_record_cons h, ih]

/-- The rows of segments, as the records of a deck, say what the segments are. -/
theorem segments_rows (l : List Segment) :
    (∀ header, leaves header ((l.flatMap (·.rows)).map fun row => .record row.1 row.2) = []) ∧
      segments ((l.flatMap (·.rows)).map fun row => .record row.1 row.2) = l := by
  induction l with
  | nil => exact ⟨fun _ => rfl, rfl⟩
  | cons s l ih =>
    -- the next segment comes first in the rows behind, so no leaf record there is one of `s`
    obtain ⟨hleaves, hsegments⟩ := ih
    have hrows : ((s :: l).flatMap (·.rows)).map (fun row => Item.record row.1 row.2) =
        .record .segm s.attributes :: (s.fields.map (Item.record .field) ++
          (s.leftChildren.map (Item.record .lchild) ++
            (s.crossReferences.map (Item.record .xdfld) ++
              (l.flatMap (·.rows)).map fun row => Item.record row.1 row.2))) := by
      simp [Segment.rows, Function.comp_def]
    rw [hrows]
    refine ⟨fun header => leaves_cons_of_isSegment rfl, ?_⟩
    simp [segments, segment, leaves_map_append, segments_map_append, hleaves, hsegments]

end Grammar

namespace Listing

/-- The number of segments, and a row to a line. -/
theorem ofSegments_eq (segments : List Segment) :
    ofSegments segments = "\n".intercalate
      (s!"Parsed {segments.length} segments" :: (segments.flatMap (·.rows)).map line) := by
  have hlistings : segments.flatMap (·.listing) = (segments.flatMap (·.rows)).map line := by
    rw [List.map_flatMap]
    exact congrArg (segments.flatMap ·) (funext Segment.listing_eq)
  rw [ofSegments, hlistings]

theorem newline_not_mem_count (n : Nat) : '\n' ∉ s!"Parsed {n} segments".toList := by
  have hcount : '\n' ∉ (toString n).toList := Text.newline_not_mem (@isBlank_of_mem_repr n)
  rw [String.toList_append, String.toList_append, List.mem_append, List.mem_append, not_or, not_or]
  exact ⟨⟨by decide, hcount⟩, by decide⟩

theorem ofSegments_inj {v v' : Vocabulary} {segments segments' : List Segment}
    (h : ∀ s ∈ segments, ∀ attributes ∈ s.records, IsWritable v attributes)
    (h' : ∀ s ∈ segments', ∀ attributes ∈ s.records, IsWritable v' attributes)
    (heq : ofSegments segments = ofSegments segments') : segments = segments' := by
  have hrows {v : Vocabulary} {segments : List Segment}
      (h : ∀ s ∈ segments, ∀ attributes ∈ s.records, IsWritable v attributes) :
      ∀ row ∈ segments.flatMap (·.rows), IsWritable v row.2 := by
    intro row hrow
    obtain ⟨s, hs, hrow⟩ := List.mem_flatMap.1 hrow
    exact h s hs _ (Segment.mem_records_of_mem_rows hrow)
  have hlines {v : Vocabulary} {rows : List (Header × Attributes)}
      (h : ∀ row ∈ rows, IsWritable v row.2) : ∀ l ∈ rows.map line, '\n' ∉ l.toList :=
    List.forall_mem_map.2 fun row hrow => newline_not_mem_line (h row hrow)
  rw [ofSegments_eq, ofSegments_eq] at heq
  have hlists := lines_inj (List.cons_ne_nil _ _) (List.cons_ne_nil _ _)
    (List.forall_mem_cons.2 ⟨newline_not_mem_count _, hlines (hrows h)⟩)
    (List.forall_mem_cons.2 ⟨newline_not_mem_count _, hlines (hrows h')⟩) heq
  have hsame : segments.flatMap (·.rows) = segments'.flatMap (·.rows) :=
    eq_of_map_eq (fun a b => line_inj) (hrows h) (hrows h') (List.cons.inj hlists).2
  rw [← (segments_rows segments).2, hsame, (segments_rows segments').2]

end Listing

/-- Decks that have the same listing have the same segments, and the same tokens if the listings are
of these, in whatever way each deck is read. -/
theorem Decoder.eq_of_listing_eq (d d' : Decoder) (text text' : List Char) :
    (∀ segments segments', d.segments text = .ok segments → d'.segments text' = .ok segments' →
      Listing.ofSegments segments = Listing.ofSegments segments' → segments = segments') ∧
    ∀ found found', d.tokens text = .ok found → d'.tokens text' = .ok found' →
      Listing.ofTokens found = Listing.ofTokens found' → found = found' := by
  constructor
  · intro segments segments' h h' heq
    obtain ⟨found, hfound, hread⟩ := exists_tokens_of_segments h
    obtain ⟨found', hfound', hread'⟩ := exists_tokens_of_segments h'
    exact Listing.ofSegments_inj
      (Segment.isWritable_of_ofTokens (isRead_of_tokens hfound) hread)
      (Segment.isWritable_of_ofTokens (isRead_of_tokens hfound') hread') heq
  · intro found found' h h' heq
    have hread {d : Decoder} {text : List Char} {found : List Token}
        (h : d.tokens text = .ok found) : found ≠ [] ∧ ∀ t ∈ found, t.IsRead d.vocabulary := by
      obtain ⟨before, p, rfl⟩ := (endsLine_of_tokens h).last
      exact ⟨List.append_ne_nil_of_right_ne_nil _ (List.cons_ne_nil _ _),
        fun t ht => (isRead_of_tokens h t ht).1⟩
    exact Listing.ofTokens_inj (hread h).1 (hread h').1 (hread h).2 (hread h').2 heq

/-- A card with a label and nothing else. -/
def Decoder.labelCard : List Char := 'A' :: List.replicate 79 ' '

/-- Two ways to read a deck that come to the same. -/
theorem Decoder.eq_of_listing_eq_wordAndList :
    (∃ segments segments', ({} : Decoder).segments wordAndList = .ok segments ∧
      (⟨.standard, true⟩ : Decoder).segments (wordAndList ++ ['\n']) = .ok segments' ∧
      Listing.ofSegments segments = "Parsed 1 segments\nGot SEGM NAME=A PTR=(TWIN,LPARNT)" ∧
      segments = segments') ∧
    ∃ found found', ({} : Decoder).tokens labelCard = .ok found ∧
      (⟨.standard, true⟩ : Decoder).tokens labelCard = .ok found' ∧
      Listing.ofTokens found = "   0:0   LABEL     A\n   0:80  EOL" ∧ found = found' := by
  have hsegments : ({} : Decoder).segments wordAndList =
      .ok [⟨[⟨"NAME", "A"⟩, ⟨"PTR", "(TWIN,LPARNT)"⟩], [], [], []⟩] := by decide +kernel
  have hsegments' : (⟨.standard, true⟩ : Decoder).segments (wordAndList ++ ['\n']) =
      .ok [⟨[⟨"NAME", "A"⟩, ⟨"PTR", "(TWIN,LPARNT)"⟩], [], [], []⟩] := by decide +kernel
  have htokens : ({} : Decoder).tokens labelCard =
      .ok [⟨.label, "A", ⟨0, 0⟩⟩, .endOfLine ⟨0, 80⟩] := by decide +kernel
  have htokens' : (⟨.standard, true⟩ : Decoder).tokens labelCard =
      .ok [⟨.label, "A", ⟨0, 0⟩⟩, .endOfLine ⟨0, 80⟩] := by decide +kernel
  obtain ⟨hinj, -⟩ := eq_of_listing_eq {} ⟨.standard, true⟩ wordAndList (wordAndList ++ ['\n'])
  obtain ⟨-, hinj'⟩ := eq_of_listing_eq {} ⟨.standard, true⟩ labelCard labelCard
  exact ⟨⟨_, _, hsegments, hsegments', by decide +kernel, hinj _ _ hsegments hsegments' rfl⟩,
    ⟨_, _, htokens, htokens', by decide +kernel, hinj' _ _ htokens htokens' rfl⟩⟩

end CardDeck
