import CardDeck.Deck

/-! # Tokens at other places

No reader looks at where a token stands. Moved tokens are read as what they were read as before they
were moved, and a fault that is found in them is the one that was found, at a token that has moved:
`Segment.ofTokens_map_moved`, and `Segment.ofTokens_moved` for what is seen of the fault. So tokens
that say the same at other places come to the same, but for the place of a fault:
`Segment.ofTokens_congr`. -/

namespace CardDeck

/-! ### Moving tokens and faults -/

/-- The token at another place. -/
def Token.moved (f : Position → Position) (t : Token) : Token := { t with position := f t.position }

/-- The fault, at a token that has been moved. -/
def RecordFault.moved (f : Position → Position) : RecordFault → RecordFault
  | .unexpected t rejections => .unexpected (t.moved f) rejections
  | .badValue t reason => .badValue (t.moved f) reason
  | .badKey t => .badKey (t.moved f)
  | .missingEquals t key => .missingEquals (t.moved f) key
  | .noAttributes t header => .noAttributes (t.moved f) header
  | .orphaned t => .orphaned (t.moved f)

/-- What a fault says does not depend on where its token stands. -/
theorem RecordFault.message_moved (f : Position → Position) (fault : RecordFault) :
    (fault.moved f).message = fault.message := by
  cases fault <;> rfl

theorem RecordFault.token_moved (f : Position → Position) (fault : RecordFault) :
    (fault.moved f).token = fault.token.moved f := by
  cases fault <;> rfl

theorem RecordFault.notice_moved (f : Position → Position) (fault : RecordFault) :
    (fault.moved f).notice = .ofPosition fault.message (f fault.token.position) := by
  rw [notice, message_moved, token_moved]
  rfl

/-- The fault of cards that have been moved. A line goes where its first column goes. -/
def CardFault.moved (f : Position → Position) : CardFault → CardFault
  | .width line length => .width (f ⟨line, 0⟩).line length
  | .unfinished line => .unfinished (f ⟨line, 0⟩).line
  | .strayMarker p => .strayMarker (f p)
  | .noLineEnd p => .noLineEnd (f p)
  | .lineEnd p => .lineEnd (f p)
  | .untraceable => .untraceable

/-- The fault of a deck whose cards have been moved. -/
def Fault.moved (f : Position → Position) : Fault → Fault
  | .card fault => .card (fault.moved f)
  | .record fault => .record (fault.moved f)

/-- The step that a reader makes at a token that has been moved. -/
def Step.moved {σ α : Type} (f : Position → Position) : Step σ α → Step σ α
  | .more state => .more state
  | .done result => .done (result.mapError (·.moved f))

variable {f : Position → Position} {t : Token}

@[simp] theorem Token.kind_moved : (t.moved f).kind = t.kind := rfl

/-! ### Readers -/

/-- The second reader does with moved tokens what the first does with tokens. -/
structure Reader.Relocates {σ α : Type} (r r' : Reader σ α) (f : Position → Position) : Prop where
  accept : ∀ state t, r'.accept state (t.moved f) = (r.accept state t).map (Step.moved f)
  refusal : ∀ state t, r'.refusal state (t.moved f) = (r.refusal state t).moved f

namespace Record

theorem relocates_value : valueReader.Relocates valueReader f where
  accept state t := by
    cases state with
    | start =>
      simp only [valueReader, ValueState.accept, Token.kind_moved]
      split <;> rfl
    | item items =>
      simp only [valueReader, ValueState.accept, Token.kind_moved]
      split <;> rfl
    | separator items =>
      simp only [valueReader, ValueState.accept, Token.kind_moved]
      split <;> rfl
  refusal state t := by
    cases state with
    | start => rfl
    | item items =>
      change (if t.kind = .closeParen ∧ items = [] then _ else _) =
        RecordFault.moved f (if t.kind = .closeParen ∧ items = [] then _ else _)
      split <;> rfl
    | separator items => rfl

theorem relocates_attribute : attributeReader.Relocates attributeReader f where
  accept state t := by
    cases state with
    | key =>
      change (if t.kind = .key then _ else _) =
        Option.map (Step.moved f) (if t.kind = .key then _ else _)
      split <;> rfl
    | equals key =>
      change (if t.kind = .equals then _ else _) =
        Option.map (Step.moved f) (if t.kind = .equals then _ else _)
      split <;> rfl
    | value key state =>
      have hvalue : state.accept (t.moved f) = (state.accept t).map (Step.moved f) :=
        relocates_value.accept state t
      simp only [attributeReader, AttributeState.accept, hvalue]
      rcases state.accept t with _ | next | fault | value <;> rfl
  refusal state t := by
    cases state with
    | key => rfl
    | equals key => rfl
    | value key state => exact relocates_value.refusal state t

theorem acceptWithin_moved (found : Attributes) (state : AttributeState) (t : Token) :
    AttributesState.acceptWithin found state (t.moved f) =
      (AttributesState.acceptWithin found state t).map (Step.moved f) := by
  have hattribute : state.accept (t.moved f) = (state.accept t).map (Step.moved f) :=
    relocates_attribute.accept state t
  rw [AttributesState.acceptWithin, AttributesState.acceptWithin, hattribute]
  rcases state.accept t with _ | next | fault | a <;> rfl

/-- The fault of a record without attributes is at its header, which has been moved as well. -/
theorem relocates_attributes (header : Token) :
    (attributesReader header).Relocates (attributesReader (header.moved f)) f where
  accept s t := by
    rcases s with ⟨found, _ | state⟩
    · simp only [attributesReader, AttributesState.accept, Token.kind_moved]
      split
      · split <;> rfl
      · rfl
      · exact acceptWithin_moved found .key t
    · exact acceptWithin_moved found state t
  refusal s t := relocates_attribute.refusal (s.current.getD .key) t

end Record

/-! ### Decks -/

theorem Assembly.attach_moved (a : Assembly) (header : Token) (attributes : Attributes) :
    a.attach (header.moved f) attributes = (a.attach header attributes).mapError (·.moved f) := by
  simp only [attach, Token.kind_moved]
  split <;> rfl

namespace Deck

/-- The place in a deck whose tokens have been moved. -/
def Place.moved (f : Position → Position) : Place → Place
  | .between => .between
  | .directive => .directive
  | .record header state => .record (header.moved f) state

/-- The deck whose tokens have been moved, as far as it has been read. -/
def moved (f : Position → Position) (d : Deck) : Deck := ⟨d.assembly, d.place.moved f⟩

variable {d : Deck}

theorem pass_moved : (d.moved f).pass (t.moved f) = (d.pass t).map (moved f) := by
  rcases d with ⟨a, place⟩
  cases place with
  | between | directive =>
    simp only [pass, moved, Place.moved, Token.kind_moved]
    split <;> rfl
  | record header state => rfl

theorem accept_moved :
    (d.moved f).accept (t.moved f) =
      (d.accept t).map fun outcome => (outcome.map (moved f)).mapError (·.moved f) := by
  have hpass := @pass_moved f t d
  rcases d with ⟨a, place⟩
  cases place with
  | between | directive =>
    obtain ⟨kind, text, p⟩ := t
    simp only [accept, hpass]
    cases pass _ ⟨kind, text, p⟩ with
    | none => cases kind <;> rfl
    | some d => rfl
  | record header state =>
    have haccept := (@Record.relocates_attributes f header).accept state t
    simp only [accept, moved, Place.moved, haccept]
    rcases (Record.attributesReader header).accept state t with _ | next | fault | attributes
    · rfl
    · rfl
    · rfl
    · have hdone : Step.moved f (.done (.ok attributes) : Step Record.AttributesState Attributes) =
          .done (.ok attributes) := rfl
      simp only [Option.map_some, hdone, Assembly.attach_moved]
      cases a.attach header attributes <;> rfl

/-- Where nothing more is read, a deck ends as it ended, or is refused as it was. -/
theorem outcome_moved :
    (d.moved f).outcome (t.moved f) = (d.outcome t).mapError (·.moved f) := by
  rcases d with ⟨a, place⟩
  cases place with
  | between | directive =>
    change (if t.kind = .endOfInput then _ else _) =
      Except.mapError (RecordFault.moved f) (if t.kind = .endOfInput then _ else _)
    split <;> rfl
  | record header state =>
    exact congrArg Except.error ((Record.relocates_attributes header).refusal state t)

/-- What is read off moved tokens, and which of them are left. -/
theorem read_moved (last : Token) (ts : List Token) :
    read (last.moved f) (d.moved f) (ts.map (·.moved f)) =
      ((d.read last ts).1.mapError (·.moved f), (d.read last ts).2.map (·.moved f)) := by
  induction ts generalizing d with
  | nil =>
    rw [List.map_nil, read, outcome_moved]
    rfl
  | cons t ts ih =>
    rw [List.map_cons, read, read, accept_moved]
    rcases d.accept t with _ | fault | d
    · rw [Option.map_none, outcome_moved]
      rfl
    · rfl
    · exact ih

end Deck

theorem Token.endAfter_map_moved {ts : List Token} (hne : ts ≠ []) :
    endAfter (ts.map (·.moved f)) = (endAfter ts).moved f := by
  rw [endAfter, endAfter, List.getLast?_map, List.getLast?_eq_some_getLast hne]
  rfl

theorem Segment.ofTokens_map_moved (ts : List Token) :
    ofTokens (ts.map (·.moved f)) = (ofTokens ts).mapError (·.moved f) := by
  cases ts with
  | nil => rfl
  | cons t ts =>
    rw [ofTokens, Token.endAfter_map_moved (List.cons_ne_nil t ts)]
    exact congrArg Prod.fst (@Deck.read_moved f {} (.endAfter (t :: ts)) (t :: ts))

/-! ### What is left of a fault -/

/-- What can be wrong with a record, whatever token shows it. -/
inductive RecordFault.Kind where
  | unexpected
  | badValue
  | badKey
  | missingEquals
  | noAttributes
  | orphaned
deriving DecidableEq, Repr

namespace RecordFault

def kind : RecordFault → Kind
  | .unexpected .. => .unexpected
  | .badValue .. => .badValue
  | .badKey _ => .badKey
  | .missingEquals .. => .missingEquals
  | .noAttributes .. => .noAttributes
  | .orphaned _ => .orphaned

/-- The headers that the token has been matched against, with what kept it from each of them. -/
def rejections : RecordFault → List Rejection
  | .unexpected _ rejections => rejections
  | _ => []

/-- The second fault is the first, found at a token that has been moved. It says the same for the
same reasons, and what it points at is what the first pointed at, where that has gone. -/
structure IsMoved (f : Position → Position) (fault fault' : RecordFault) : Prop where
  kind_eq : fault'.kind = fault.kind
  rejections_eq : fault'.rejections = fault.rejections
  token_eq : fault'.token = fault.token.moved f
  notice_eq : ∃ message p,
    fault.notice = .ofPosition message p ∧ fault'.notice = .ofPosition message (f p)

theorem isMoved_moved (f : Position → Position) (fault : RecordFault) :
    fault.IsMoved f (fault.moved f) where
  kind_eq := by cases fault <;> rfl
  rejections_eq := by cases fault <;> rfl
  token_eq := fault.token_moved f
  notice_eq := ⟨fault.message, fault.token.position, rfl, fault.notice_moved f⟩

end RecordFault

/-- Wherever tokens are moved, they are read as the segments that they were read as, or refused for
the fault that they were refused for, and its place goes where its token goes. The end of the deck,
which no token stands for, goes where the last token goes. -/
theorem Segment.ofTokens_moved (f : Position → Position) (ts : List Token) :
    match ofTokens ts with
    | .ok segments => ofTokens (ts.map (·.moved f)) = .ok segments
    | .error fault =>
      ∃ fault', ofTokens (ts.map (·.moved f)) = .error fault' ∧ fault.IsMoved f fault' := by
  have hmoved := @ofTokens_map_moved f ts
  cases hread : ofTokens ts with
  | ok segments =>
    rw [hread] at hmoved
    exact hmoved
  | error fault =>
    rw [hread] at hmoved
    exact ⟨fault.moved f, hmoved, fault.isMoved_moved f⟩

/-! ### Tokens that say the same -/

/-- What a token says, wherever it stands. -/
def Token.content (t : Token) : Kind × String := (t.kind, t.text)

/-- What a fault is, wherever it is found. -/
def RecordFault.unplaced : RecordFault → RecordFault := moved fun _ => ⟨0, 0⟩

/-- Tokens that say the same are read as the same segments, or refused for the same fault. -/
theorem Segment.ofTokens_congr {ts us : List Token}
    (h : ts.map Token.content = us.map Token.content) :
    (ofTokens ts).mapError RecordFault.unplaced = (ofTokens us).mapError RecordFault.unplaced := by
  have hmoved (ts : List Token) : ts.map (·.moved fun _ => ⟨0, 0⟩) =
      (ts.map Token.content).map fun (kind, text) => ⟨kind, text, 0, 0⟩ := by
    rw [List.map_map]
    rfl
  have hmap := congrArg (List.map fun (kind, text) => (⟨kind, text, 0, 0⟩ : Token)) h
  rw [← hmoved, ← hmoved] at hmap
  have hread := congrArg ofTokens hmap
  rwa [ofTokens_map_moved, ofTokens_map_moved] at hread

end CardDeck
