import CardDeck.Proofs.Stream.Reading

/-! # The loops by which a stream is read

Each construct of a deck is read by an automaton. Here it is read by a loop over the stream: lines,
what comes before a record, the items of a list, the attributes of a record, and the records of a
deck. The loops compute what the automata do: `Stream.skipLoop_computes` and its like. -/

namespace CardDeck

namespace Stream

/-! ### The loops -/

/-- The place where a line ends: at its end, or at the end of the deck. -/
def passLine (s : Stream) : Stream :=
  { s with index := s.index +
      (s.rest.takeWhile fun t => t.kind ≠ .endOfLine ∧ t.kind ≠ .endOfInput).length }

/-- Pass a token of a line. -/
def lineLoop : Loop Unit Unit where
  round _ s :=
    if s.current.kind = .endOfLine ∨ s.current.kind = .endOfInput then (.inl (), s)
    else (.inr (), s.advance)

/-- Pass a line with its end. -/
def passDirective (s : Stream) : Stream :=
  let line := s.passLine
  if line.current.kind = .endOfLine then line.advance else line

/-- Pass a directive with its line, a label or the end of a line. -/
def skipLoop : Loop Assembly Assembly where
  round a s :=
    match s.current.kind with
    | .directive => (.inr a.flush, s.passDirective)
    | .label => (.inr a.flush, s.advance)
    | .endOfLine => (.inr a, s.advance)
    | _ => (.inl a, s)

/-- Read an item of a list and the mark behind it. -/
def itemsLoop : Loop (List String) (Except RecordFault String) where
  round items s :=
    if s.current.kind ≠ .identifier then
      (.inl (.error (Record.ValueState.refusal (.item items) s.current)), s)
    else
      let items := items ++ [s.current.text]
      let s := s.advance
      match s.current.kind with
      | .closeParen => (.inl (.ok (Record.ValueState.listText items)), s.advance)
      | .comma => (.inr items, s.advance)
      | _ => (.inl (.error (Record.ValueState.refusal (.separator items) s.current)), s)

/-- Read an attribute of a record or pass a comma, or end the record with its line. -/
def attributesLoop (header : Token) : Loop Attributes (Except RecordFault Attributes) where
  round found s :=
    if s.current.kind = .endOfLine then
      (.inl (if found = [] then .error (.noAttributes header header.text) else .ok found),
        s.advance)
    else if s.current.kind = .comma then (.inr found, s.advance)
    else
      match s.oneAttribute with
      | (.error fault, s) => (.inl (.error fault), s)
      | (.ok a, s) => (.inr (found ++ [a]), s)

/-- Match a record against headers one after another, up to the first that it has. -/
def matchRecord (s : Stream) :
    List Header → Except RecordFault (List Rejection ⊕ (Token × Attributes)) × Stream
  | [] => (.ok (.inl []), s)
  | h :: hs =>
    match s.attempt (.header h) with
    | (.error fault, s) => (.error fault, s)
    | (.ok (.record header attributes), s) => (.ok (.inr (header, attributes)), s)
    | (.ok (.mismatch why), s) =>
      match s.matchRecord hs with
      | (.ok (.inl rejections), s) => (.ok (.inl (⟨h.word, why⟩ :: rejections)), s)
      | other => other

/-- Pass what comes before a record, and read the record. -/
def segmentsLoop : Loop Assembly (Except RecordFault (List Segment)) where
  round a s :=
    let (a, s) := s.skip a
    match s.matchRecord Header.all with
    | (.error fault, s) => (.inl (.error fault), s)
    | (.ok (.inr (header, attributes)), s) =>
      match a.attach header attributes with
      | .error fault => (.inl (.error fault), s)
      | .ok b => (.inr b, s)
    | (.ok (.inl rejections), s) =>
      (.inl (if s.current.kind = .endOfInput then .ok a.flush.closed
        else .error (.unexpected s.current rejections)), s)

variable {s : Stream} {a : Assembly}

/-! ### Lines -/

theorem passLine_of_end (h : s.current.kind = .endOfLine ∨ s.current.kind = .endOfInput) :
    s.passLine = s := by
  cases hrest : s.rest with
  | nil => simp [passLine, hrest]
  | cons t ts =>
    rw [current_of_rest_cons hrest] at h
    rcases h with h | h <;> simp [passLine, hrest, h]

theorem passLine_of_ne (h : s.current.kind ≠ .endOfLine) (hlast : s.current.kind ≠ .endOfInput) :
    s.passLine = s.advance.passLine := by
  obtain ⟨ts, hrest⟩ := rest_ne_nil_of_kind hlast
  have hadvance : s.advance.rest = ts := by simp [hrest]
  rw [passLine, passLine, hadvance, hrest, List.takeWhile_cons_of_pos (by simp [h, hlast]),
    List.length_cons]
  exact congrArg (Stream.mk s.tokens) (Nat.succ_add_eq_add_succ _ _).symm

theorem onward_passLine (hs : s.index ≤ s.tokens.length) : s.Onward s.passLine := by
  refine ⟨rfl, Nat.le_add_right _ _, ?_⟩
  have hle := (s.rest.takeWhile_prefix
    fun t => t.kind ≠ .endOfLine ∧ t.kind ≠ .endOfInput).length_le
  have hlength : s.rest.length = s.tokens.length - s.index := List.length_drop
  simp only [passLine]
  omega

theorem lineLoop_computes : lineLoop.Computes fun _ s => ((), s.passLine) := by
  intro _ s hs
  by_cases hend : s.current.kind = .endOfLine ∨ s.current.kind = .endOfInput
  · exact .leave (if_pos hend) (onward_self hs) (by rw [passLine_of_end hend])
  · obtain ⟨hline, hlast⟩ := not_or.1 hend
    obtain ⟨ts, hrest⟩ := rest_ne_nil_of_kind hlast
    exact .more () (if_neg hend) (onward_advance hrest) (Nat.lt_succ_self _)
      (by rw [passLine_of_ne hline hlast])

/-! ### What comes before a record -/

theorem passDirective_of_endOfLine (h : s.current.kind = .endOfLine) :
    s.passDirective = s.advance := by
  rw [passDirective, passLine_of_end (.inl h), if_pos h]

theorem passDirective_of_endOfInput (h : s.current.kind = .endOfInput) : s.passDirective = s := by
  rw [passDirective, passLine_of_end (.inr h), if_neg (by simp [h])]

theorem passDirective_of_ne (h : s.current.kind ≠ .endOfLine)
    (hlast : s.current.kind ≠ .endOfInput) : s.passDirective = s.advance.passDirective := by
  rw [passDirective, passLine_of_ne h hlast]
  rfl

theorem onward_passDirective (hs : s.index ≤ s.tokens.length) : s.Onward s.passDirective := by
  have hline := onward_passLine hs
  rw [passDirective]
  split
  · next hend =>
    obtain ⟨ts, hrest⟩ := rest_ne_nil_of_kind (s := s.passLine) (by simp [hend])
    exact hline.trans (onward_advance hrest)
  · exact hline

/-- What comes behind a directive is what comes behind its line. -/
theorem read_skip_directive (s : Stream) :
    s.read (Deck.skip ⟨a, .directive⟩) = s.passDirective.skip a := by
  induction s using rest_induction with
  | nil s hrest =>
    have hlast : s.current.kind = .endOfInput := by
      rw [current_of_rest_nil hrest]
      rfl
    rw [passDirective_of_endOfInput hlast, skip, read_skip_of_none (by simp [Deck.pass, hlast]),
      read_skip_of_none (by simp [Deck.pass, hlast])]
  | cons s t ts hrest ih =>
    have ht := current_of_rest_cons hrest
    by_cases hline : t.kind = .endOfLine
    · rw [passDirective_of_endOfLine (ht ▸ hline),
        read_skip_of_some hrest (by simp only [Deck.pass, hline]; rfl)]
      rfl
    by_cases hlast : t.kind = .endOfInput
    · rw [passDirective_of_endOfInput (ht ▸ hlast), skip,
        read_skip_of_none (by simp [Deck.pass, ht, hlast]),
        read_skip_of_none (by simp [Deck.pass, ht, hlast])]
    · have hpass : Deck.pass ⟨a, .directive⟩ t = some ⟨a, .directive⟩ := by
        cases hk : t.kind <;> simp_all [Deck.pass]
      rw [passDirective_of_ne (ht ▸ hline) (ht ▸ hlast), read_skip_of_some hrest hpass, ih]

theorem skipLoop_computes : skipLoop.Computes fun a s => s.skip a := by
  intro a s hs
  cases hk : s.current.kind with
  | directive =>
    obtain ⟨ts, hrest⟩ := rest_ne_nil_of_kind (s := s) (by simp [hk])
    have hline : s.passDirective = s.advance.passDirective :=
      passDirective_of_ne (by simp [hk]) (by simp [hk])
    have hadvance := onward_advance hrest
    have honward := onward_passDirective (s := s.advance) hadvance.le_length
    refine .more a.flush (by simp only [skipLoop, hk]) (onward_passDirective hs) ?_ ?_
    · rw [hline]
      exact honward.le
    · rw [hline, ← read_skip_directive]
      exact read_skip_of_some hrest (by simp [Deck.pass, hk])
  | label =>
    obtain ⟨ts, hrest⟩ := rest_ne_nil_of_kind (s := s) (by simp [hk])
    exact .more a.flush (by simp only [skipLoop, hk]) (onward_advance hrest) (Nat.lt_succ_self _)
      (read_skip_of_some hrest (by simp [Deck.pass, hk]))
  | endOfLine =>
    obtain ⟨ts, hrest⟩ := rest_ne_nil_of_kind (s := s) (by simp [hk])
    exact .more a (by simp only [skipLoop, hk]) (onward_advance hrest) (Nat.lt_succ_self _)
      (read_skip_of_some hrest (by simp [Deck.pass, hk]))
  | _ =>
    exact .leave (by simp only [skipLoop, hk]) (onward_self hs)
      (read_skip_of_none (by simp [Deck.pass, hk]))

/-! ### Values and attributes -/

theorem itemsLoop_computes :
    itemsLoop.Computes fun items s => s.read (Record.valueReader.read s.last (.item items)) := by
  intro items s hs
  by_cases hk : s.current.kind = .identifier
  · obtain ⟨ts, hrest⟩ := rest_ne_nil_of_kind (s := s) (by simp [hk])
    have hread : s.read (Record.valueReader.read s.last (.item items)) =
        s.advance.read (Record.valueReader.read s.last (.separator (items ++ [s.current.text]))) :=
      read_reader_of_more hrest (by simp [Record.valueReader, Record.ValueState.accept, hk])
    have hadvance := onward_advance hrest
    cases hmark : s.advance.current.kind with
    | closeParen =>
      obtain ⟨us, hrest'⟩ := rest_ne_nil_of_kind (s := s.advance) (by simp [hmark])
      refine .leave (by simp only [itemsLoop, hk, hmark]; rfl)
        (hadvance.trans (onward_advance hrest')) ?_
      exact hread.trans (read_reader_of_done hrest'
        (by simp [Record.valueReader, Record.ValueState.accept, hmark]))
    | comma =>
      obtain ⟨us, hrest'⟩ := rest_ne_nil_of_kind (s := s.advance) (by simp [hmark])
      have honward := onward_advance hrest'
      refine .more _ (by simp only [itemsLoop, hk, hmark]; rfl) (hadvance.trans honward)
        (Nat.lt_succ_of_le hadvance.le) ?_
      exact hread.trans (read_reader_of_more hrest'
        (by simp [Record.valueReader, Record.ValueState.accept, hmark]))
    | _ =>
      refine .leave (by simp only [itemsLoop, hk, hmark]; rfl) hadvance ?_
      exact hread.trans (read_reader_of_none
        (by simp [Record.valueReader, Record.ValueState.accept, hmark]))
  · exact .leave (if_pos hk) (onward_self hs) (read_reader_of_none
      (by simp [Record.valueReader, Record.ValueState.accept]))

/-- A value is told by the kind of its first token, and a list goes on behind its parenthesis. -/
theorem value_eq (s : Stream) : s.value =
    match s.current.kind with
    | .identifier | .key => (.ok s.current.text, s.advance)
    | .openParen => s.advance.items
    | _ => (.error (Record.ValueState.refusal .start s.current), s) := by
  cases hk : s.current.kind with
  | identifier | key =>
    obtain ⟨ts, hrest⟩ := rest_ne_nil_of_kind (s := s) (by simp [hk])
    exact read_reader_of_done hrest (by simp [Record.valueReader, Record.ValueState.accept, hk])
  | openParen =>
    obtain ⟨ts, hrest⟩ := rest_ne_nil_of_kind (s := s) (by simp [hk])
    exact read_reader_of_more hrest (by simp [Record.valueReader, Record.ValueState.accept, hk])
  | _ => exact read_reader_of_none (by simp [Record.valueReader, Record.ValueState.accept, hk])

/-- Behind its equals sign an attribute is read by its value. -/
theorem read_attribute_value (s : Stream) (key : String) (state : Record.ValueState) :
    s.read (Record.attributeReader.read s.last (.value key state)) =
      ((s.read (Record.valueReader.read s.last state)).1.map (⟨key, ·⟩),
        (s.read (Record.valueReader.read s.last state)).2) := by
  induction s using rest_induction generalizing state with
  | nil s hrest =>
    rw [read_reader_of_nil hrest, read_reader_of_nil hrest]
    rfl
  | cons s t ts hrest ih =>
    have haccept : Record.attributeReader.accept (.value key state) t =
        Record.AttributeState.accept (.value key state) t := rfl
    rw [Record.AttributeState.accept] at haccept
    cases hstep : state.accept t with
    | none =>
      rw [hstep] at haccept
      have ht := current_of_rest_cons hrest
      rw [read_reader_of_none (by rw [ht]; exact haccept),
        read_reader_of_none (r := Record.valueReader) (by rw [ht]; exact hstep)]
      rfl
    | some step =>
      rw [hstep] at haccept
      cases step with
      | more state' =>
        rw [read_reader_of_more hrest haccept,
          read_reader_of_more (r := Record.valueReader) hrest hstep]
        exact ih state'
      | done result =>
        rw [read_reader_of_done hrest haccept,
          read_reader_of_done (r := Record.valueReader) hrest hstep]

/-- An attribute is a key, an equals sign behind it, and a value behind that. -/
theorem oneAttribute_eq (s : Stream) : s.oneAttribute =
    if s.current.kind ≠ .key then (.error (.badKey s.current), s)
    else if s.advance.current.kind ≠ .equals then
      (.error (.missingEquals s.advance.current s.current.text), s.advance)
    else (s.advance.advance.value.1.map (⟨s.current.text, ·⟩), s.advance.advance.value.2) := by
  by_cases hk : s.current.kind = .key
  · obtain ⟨ts, hrest⟩ := rest_ne_nil_of_kind (s := s) (by simp [hk])
    have hkey : s.oneAttribute =
        s.advance.read (Record.attributeReader.read s.last (.equals s.current.text)) :=
      read_reader_of_more hrest (if_pos hk)
    rw [hkey, if_neg (not_not_intro hk)]
    by_cases hequals : s.advance.current.kind = .equals
    · obtain ⟨us, hrest'⟩ := rest_ne_nil_of_kind (s := s.advance) (by simp [hequals])
      rw [if_neg (not_not_intro hequals)]
      exact (read_reader_of_more hrest' (if_pos hequals)).trans (read_attribute_value _ _ _)
    · rw [if_pos hequals]
      exact read_reader_of_none (if_neg hequals)
  · rw [if_pos hk]
    exact read_reader_of_none (if_neg hk)

theorem onward_value (hs : s.index ≤ s.tokens.length) : s.Onward s.value.2 := by
  rw [value_eq]
  split
  · next hk =>
    obtain ⟨ts, hrest⟩ := rest_ne_nil_of_kind (s := s) (by simp [hk])
    exact onward_advance hrest
  · next hk =>
    obtain ⟨ts, hrest⟩ := rest_ne_nil_of_kind (s := s) (by simp [hk])
    exact onward_advance hrest
  · next hk =>
    obtain ⟨ts, hrest⟩ := rest_ne_nil_of_kind (s := s) (by simp [hk])
    have hadvance := onward_advance hrest
    exact hadvance.trans (itemsLoop_computes.onward [] hadvance.le_length)
  · exact onward_self hs

/-- A key and an equals sign are passed on the way to the value. -/
theorem onward_advance_advance (hk : s.current.kind = .key)
    (hequals : s.advance.current.kind = .equals) : s.Onward s.advance.advance := by
  obtain ⟨ts, hrest⟩ := rest_ne_nil_of_kind (s := s) (by simp [hk])
  obtain ⟨us, hrest'⟩ := rest_ne_nil_of_kind (s := s.advance) (by simp [hequals])
  exact (onward_advance hrest).trans (onward_advance hrest')

theorem onward_oneAttribute (hs : s.index ≤ s.tokens.length) : s.Onward s.oneAttribute.2 := by
  rw [oneAttribute_eq]
  by_cases hk : s.current.kind = .key
  · rw [if_neg (not_not_intro hk)]
    by_cases hequals : s.advance.current.kind = .equals
    · have hadvance := onward_advance_advance hk hequals
      rw [if_neg (not_not_intro hequals)]
      exact hadvance.trans (onward_value hadvance.le_length)
    · obtain ⟨ts, hrest⟩ := rest_ne_nil_of_kind (s := s) (by simp [hk])
      rw [if_pos hequals]
      exact onward_advance hrest
  · rw [if_pos hk]
    exact onward_self hs

/-- An attribute has a token at least. -/
theorem lt_index_of_oneAttribute {s' : Stream} {x : Attribute} (h : s.oneAttribute = (.ok x, s')) :
    s.index < s'.index := by
  rw [oneAttribute_eq] at h
  split at h
  · cases h
  next hk =>
  split at h
  · cases h
  next hequals =>
  have hadvance := onward_advance_advance (Decidable.not_not.1 hk) (Decidable.not_not.1 hequals)
  have hvalue := onward_value hadvance.le_length
  rw [(Prod.mk.inj h).2] at hvalue
  exact Nat.lt_of_succ_lt hvalue.le

theorem attributesLoop_computes (header : Token) :
    (attributesLoop header).Computes fun found s =>
      s.read ((Record.attributesReader header).read s.last ⟨found, none⟩) := by
  intro found s hs
  by_cases hline : s.current.kind = .endOfLine
  · obtain ⟨ts, hrest⟩ := rest_ne_nil_of_kind (s := s) (by simp [hline])
    refine .leave (if_pos hline) (onward_advance hrest) (read_reader_of_done hrest ?_)
    simp only [Record.attributesReader, Record.AttributesState.accept, hline]
    split
    · rfl
    · rfl
  by_cases hcomma : s.current.kind = .comma
  · obtain ⟨ts, hrest⟩ := rest_ne_nil_of_kind (s := s) (by simp [hcomma])
    refine .more found (by simp only [attributesLoop, if_neg hline, if_pos hcomma])
      (onward_advance hrest) (Nat.lt_succ_self _) (read_reader_of_more hrest ?_)
    simp only [Record.attributesReader, Record.AttributesState.accept, hcomma]
  · have hread : s.read ((Record.attributesReader header).read s.last ⟨found, none⟩) =
        match s.oneAttribute with
        | (.error fault, s') => (.error fault, s')
        | (.ok x, s') =>
          s'.read ((Record.attributesReader header).read s.last ⟨found ++ [x], none⟩) :=
      (read_attributes_none hline hcomma).trans (read_attributes_some s .key)
    have honward := onward_oneAttribute hs
    rcases hone : s.oneAttribute with ⟨fault | x, s'⟩
    · rw [hone] at hread honward
      exact .leave (by simp only [attributesLoop, if_neg hline, if_neg hcomma, hone]) honward hread
    · rw [hone] at hread honward
      refine .more (found ++ [x])
        (by simp only [attributesLoop, if_neg hline, if_neg hcomma, hone]) honward
        (lt_index_of_oneAttribute hone) ?_
      rw [honward.last_eq]
      exact hread

/-! ### Records -/

/-- Where the statement starts with none of the headers, each of them is said not to be there. -/
theorem matchRecord_of_mismatch {hs : List Header} (h : ∀ h ∈ hs, s.current.kind ≠ .header h) :
    s.matchRecord hs =
      (.ok (.inl (hs.map fun h => ⟨h.word, Deck.mismatch (.header h) s.current⟩)), s) := by
  induction hs with
  | nil => rfl
  | cons h' hs ih =>
    obtain ⟨hne, hs⟩ := List.forall_mem_cons.1 h
    have hattempt : s.attempt (.header h') =
        (.ok (.mismatch (Deck.mismatch (.header h') s.current)), s) := if_pos hne
    rw [matchRecord, hattempt]
    simp only [ih hs, List.map_cons]

/-- Where it starts with one of them, its attributes are read. -/
theorem matchRecord_of_header {hs : List Header} {h : Header} (hk : s.current.kind = .header h)
    (hmem : h ∈ hs) :
    s.matchRecord hs =
      ((s.advance.attributes s.current).1.map fun attributes => .inr (s.current, attributes),
        (s.advance.attributes s.current).2) := by
  induction hs with
  | nil => cases hmem
  | cons h' hs ih =>
    by_cases heq : h' = h
    · subst heq
      rw [matchRecord, attempt]
      simp only [hk, ne_eq, not_true_eq_false, if_false]
      rcases s.advance.attributes s.current with ⟨fault | attributes, s'⟩
      · rfl
      · rfl
    · have hne : s.current.kind ≠ .header h' := by simp [hk, Ne.symm heq]
      have hattempt : s.attempt (.header h') =
          (.ok (.mismatch (Deck.mismatch (.header h') s.current)), s) := if_pos hne
      rw [matchRecord, hattempt]
      simp only [ih (List.mem_of_ne_of_mem (Ne.symm heq) hmem)]
      rcases s.advance.attributes s.current with ⟨fault | attributes, s'⟩
      · rfl
      · rfl

/-- A record is read by its attributes, which come behind its header. -/
theorem read_deck_of_header {h : Header} (hk : s.current.kind = .header h) :
    s.read (Deck.read s.last ⟨a, .between⟩) =
      match s.advance.attributes s.current with
      | (.error fault, s') => (.error fault, s')
      | (.ok attributes, s') =>
        match a.attach s.current attributes with
        | .error fault => (.error fault, s')
        | .ok b => s'.read (Deck.read s.last ⟨b, .between⟩) := by
  obtain ⟨ts, hrest⟩ := rest_ne_nil_of_kind (s := s) (by simp [hk])
  have haccept : Deck.accept ⟨a, .between⟩ s.current =
      some (.ok ⟨a, .record s.current {}⟩) := by simp [Deck.accept, Deck.pass, hk]
  exact (read_deck_of_ok hrest haccept).trans (read_deck_record s.advance {})

/-- What is no record, and comes before none, is not read. -/
theorem read_deck_of_pass_none (hpass : Deck.pass ⟨a, .between⟩ s.current = none)
    (hk : ∀ h, s.current.kind ≠ .header h) :
    s.read (Deck.read s.last ⟨a, .between⟩) =
      (if s.current.kind = .endOfInput then .ok a.flush.closed
        else .error (.unexpected s.current (Deck.rejections s.current)), s) := by
  refine read_deck_of_none ?_
  simp only [Deck.accept, hpass]

theorem segmentsLoop_computes :
    segmentsLoop.Computes fun a s => s.read (Deck.read s.last ⟨a, .between⟩) := by
  intro a s hs
  obtain ⟨b, r, hskipped⟩ : ∃ b r, s.skip a = (b, r) := ⟨_, _, rfl⟩
  have hskip : s.Onward r := by
    have honward := skipLoop_computes.onward a hs
    rwa [hskipped] at honward
  have hread : s.read (Deck.read s.last ⟨a, .between⟩) =
      (s.skip a).2.read (Deck.read s.last ⟨(s.skip a).1, .between⟩) :=
    read_deck_skip s (.inl rfl)
  have hpass : Deck.pass ⟨(s.skip a).1, .between⟩ (s.skip a).2.current = none :=
    pass_skip s (.inl rfl)
  simp only [hskipped] at hread hpass
  by_cases hheader : ∃ h, r.current.kind = .header h
  · obtain ⟨h, hk⟩ := hheader
    obtain ⟨ts, hrest⟩ := rest_ne_nil_of_kind (s := r) (by simp [hk])
    have hmatch := matchRecord_of_header hk h.mem_all
    have hrecord := read_deck_of_header (a := b) hk
    rw [hskip.last_eq] at hrecord
    have hadvance := onward_advance hrest
    have honward : r.advance.Onward (r.advance.attributes r.current).2 :=
      (attributesLoop_computes r.current).onward [] hadvance.le_length
    obtain ⟨result, r', hfound⟩ : ∃ result r', r.advance.attributes r.current = (result, r') :=
      ⟨_, _, rfl⟩
    rw [hfound] at hrecord honward hmatch
    have hbehind : s.Onward r' := hskip.trans (hadvance.trans honward)
    cases result with
    | error fault =>
      refine .leave ?_ hbehind (hread.trans hrecord)
      simp only [segmentsLoop, hskipped, hmatch, Except.map]
    | ok attributes =>
      cases hattach : b.attach r.current attributes with
      | error fault =>
        simp only [hattach] at hrecord
        refine .leave ?_ hbehind (hread.trans hrecord)
        simp only [segmentsLoop, hskipped, hmatch, Except.map, hattach]
      | ok c =>
        simp only [hattach] at hrecord
        refine .more c ?_ hbehind (Nat.lt_of_le_of_lt hskip.le honward.le) ?_
        · simp only [segmentsLoop, hskipped, hmatch, Except.map, hattach]
        · rw [hbehind.last_eq]
          exact hread.trans hrecord
  · have hk : ∀ h, r.current.kind ≠ .header h := fun h hk => hheader ⟨h, hk⟩
    have hnone := read_deck_of_pass_none hpass hk
    rw [hskip.last_eq] at hnone
    refine .leave ?_ hskip (hread.trans hnone)
    simp only [segmentsLoop, hskipped, matchRecord_of_mismatch fun h _ => hk h]
    rfl

end Stream

end CardDeck
