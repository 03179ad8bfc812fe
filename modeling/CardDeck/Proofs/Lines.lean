import CardDeck.Proofs.Cursor.Step
import CardDeck.Proofs.Reading
import CardDeck.Proofs.Relocation

/-! # Decks further down

Cards say the same on whatever line they begin, since only columns tell words apart. A cursor that
starts further down finds the same tokens further down, or the same fault:
`Cursor.tokensFrom_down`. The same holds of the reading of cards: `Reading.ofCards_down`. -/

namespace CardDeck

/-- The place `n` lines further down. -/
def Position.down (n : Int) (p : Position) : Position := ⟨p.line + n, p.column⟩

@[simp] theorem Position.column_down (n : Int) (p : Position) :
    (p.down n).column = p.column := rfl

/-- The start of the next line is that much further down, too. -/
theorem Position.down_next (n : Int) (p : Position) :
    (⟨p.line + 1, 0⟩ : Position).down n = ⟨(p.down n).line + 1, 0⟩ := by
  simp only [down, Int.add_right_comm]

/-- The fault of cards that begin `n` lines further down. -/
abbrev CardFault.down (n : Int) : CardFault → CardFault := moved (Position.down n)

/-- The token `n` lines further down. -/
abbrev Token.down (n : Int) : Token → Token := moved (Position.down n)

theorem Token.map_down_zero (ts : List Token) : ts.map (down 0) = ts := by
  have hzero : down 0 = id := by
    funext ⟨kind, text, line, column⟩
    exact congrArg (fun line => (⟨kind, text, line, column⟩ : Token)) (Int.add_zero line)
  rw [hzero, List.map_id]

namespace Reading

/-- What comes of cards that begin `n` lines further down. -/
def down (n : Int) : Except CardFault (List Token) → Except CardFault (List Token)
  | .error fault => .error (fault.down n)
  | .ok found => .ok (found.map (Token.down n))

theorem down_map_append (n : Int) (before : List Token)
    (outcome : Except CardFault (List Token)) :
    down n (outcome.map (before ++ ·)) =
      (down n outcome).map (before.map (Token.down n) ++ ·) := by
  cases outcome with
  | error fault => rfl
  | ok found => exact congrArg Except.ok List.map_append

/-! ### The reading of cards -/

theorem tokenAt?_down (v : Vocabulary) (n : Int) (p : Position) (text : List Char) (i : Nat) :
    tokenAt? v (p.down n) text i = (tokenAt? v p text i).map (Token.down n) := by
  unfold tokenAt?
  cases text[i]? with
  | none => rfl
  | some c =>
    simp only [Option.bind_some]
    split
    · rfl
    · split
      · rfl
      · split
        · rfl
        · rfl

theorem ofText_down (v : Vocabulary) (n : Int) (p : Position) (text : List Char) :
    ofText v (p.down n) text = (ofText v p text).map (Token.down n) := by
  have hoffset : tokenAt? v (p.down n) text =
      fun i => (tokenAt? v p text i).map (Token.down n) := by
    funext i
    exact tokenAt?_down v n p text i
  rw [ofText, ofText, hoffset, List.map_filterMap]

theorem ofCards_down (d : Decoder) (n : Nat) (line : Nat) (continuing : Bool)
    (cards : List Card) :
    ofCards d (line + n) continuing cards =
      (ofCards d line continuing cards).map (Token.down n) := by
  induction cards generalizing line continuing with
  | nil => rfl
  | cons card cards ih =>
    have hplace (column : Int) :
        (⟨(line + n : Nat), column⟩ : Position) = (⟨line, column⟩ : Position).down n := rfl
    rw [ofCards, ofCards, hplace, hplace, ofText_down, Nat.add_right_comm, ih, List.map_append,
      List.map_append]
    congr 2
    split
    · rfl
    · rfl

end Reading

/-! ### The run of a cursor -/

namespace Cursor

variable {v : Vocabulary} {cur next : Cursor} {token : Option Token} {fault : CardFault}

theorem Moves.down (h : Moves v cur token next) (n index : Int) :
    ∃ index', Moves v ⟨cur.rest, index, cur.position.down n⟩ (token.map (Token.down n))
      ⟨next.rest, index', next.position.down n⟩ := by
  cases h with
  | newline hp =>
    refine ⟨index + 1, ?_⟩
    rw [Position.down_next]
    exact .newline hp
  | skip hc h => exact ⟨_, .skip hc h⟩
  | mark hc hk hp => exact ⟨_, .mark hc hk hp⟩
  | word hd hm hp hw => exact ⟨_, .word hd hm hp hw⟩
  | marker hp hlength hne =>
    refine ⟨index + Card.markerSpan + 1, ?_⟩
    rw [Position.down_next]
    exact .marker hp hlength hne

theorem Refuses.down (h : Refuses cur fault) (n index : Int) :
    Refuses ⟨cur.rest, index, cur.position.down n⟩ (fault.down n) := by
  cases h with
  | lineEnd hp => exact .lineEnd hp
  | stray hp => exact .stray hp
  | short hp hlength => exact .short hp hlength
  | lastLine hp hlength => exact .lastLine hp hlength
  | noLineEnd hp hlength hc => exact .noLineEnd hp hlength hc

/-- How many characters a cursor has passed before does not matter, and on which line it starts only
to where it finds things. -/
theorem tokensFrom_down (n index : Int) :
    tokensFrom v ⟨cur.rest, index, cur.position.down n⟩ [] =
      Reading.down n (tokensFrom v cur []) := by
  induction cur using round_induction v generalizing index with
  | nil index' p =>
    rw [tokensFrom_nil, tokensFrom_nil, Position.column_down]
    split
    · rfl
    · rfl
  | refuses cur fault hrefuses =>
    rw [hrefuses.tokensFrom_eq, (hrefuses.down n index).tokensFrom_eq]
    rfl
  | moves cur token next hmoves ih =>
    obtain ⟨index', hdown⟩ := hmoves.down n index
    rw [hmoves.tokensFrom_eq, hdown.tokensFrom_eq, ih, Reading.down_map_append]
    cases token with
    | none => rfl
    | some t => rfl

end Cursor

end CardDeck
