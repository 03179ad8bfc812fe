import CardDeck.Fault

/-! # Readers

The grammar of records is regular, so each of its constructs is read by an automaton over tokens.
A reader looks at one token at a time: it reads the token and moves on, or it refuses the token
and leaves it unread. -/

namespace CardDeck

/-- What has come of a token that was read. -/
inductive Step (σ α : Type) where
  /-- The construct is not complete. -/
  | more (state : σ)
  /-- The construct ends here; reading its last token may show a fault of the whole. -/
  | done (result : Except RecordFault α)

/-- An automaton with states `σ` that reads a construct of meaning `α`. -/
structure Reader (σ α : Type) where
  /-- Read a token, or leave it unread. -/
  accept : σ → Token → Option (Step σ α)
  /-- What is wrong with a token that is left unread. -/
  refusal : σ → Token → RecordFault

namespace Reader

variable {σ α : Type}

/-- Read a construct off a list of tokens, and say which tokens are left. Past the last token the
reader sees `last`, which no reader accepts. -/
def read (r : Reader σ α) (last : Token) (state : σ) :
    List Token → Except RecordFault α × List Token
  | [] => (.error (r.refusal state last), [])
  | t :: ts =>
    match r.accept state t with
    | none => (.error (r.refusal state t), t :: ts)
    | some (.more state) => r.read last state ts
    | some (.done result) => (result, ts)

theorem read_suffix (r : Reader σ α) (last : Token) (state : σ) (tokens : List Token) :
    (r.read last state tokens).2 <:+ tokens := by
  induction tokens generalizing state with
  | nil => simp [read]
  | cons t ts ih =>
    simp only [read]
    split
    · exact List.suffix_refl _
    · exact (ih _).trans (List.suffix_cons t ts)
    · exact List.suffix_cons t ts

end Reader

end CardDeck
