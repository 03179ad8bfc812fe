import CardDeck.Assembly
import CardDeck.Record.Attribute

/-! # Reading segments from tokens

A deck is a sequence of records, with directives, labels and empty lines between them. -/

namespace CardDeck

/-- What a reader of decks is in the middle of. -/
inductive Deck.Place where
  /-- Nothing: a statement is about to start. -/
  | between
  /-- A directive, of which nothing matters but where it ends. -/
  | directive
  /-- The attributes of a record. -/
  | record (header : Token) (state : Record.AttributesState)
deriving DecidableEq, Repr

/-- A deck as far as it has been read. -/
structure Deck where
  assembly : Assembly := {}
  place : Deck.Place := .between
deriving DecidableEq, Repr

namespace Deck

/-- Read a token that carries no record, or leave it unread. -/
def pass (d : Deck) (t : Token) : Option Deck :=
  match d.place, t.kind with
  | .between, .directive => some ⟨d.assembly.flush, .directive⟩
  | .between, .label => some ⟨d.assembly.flush, .between⟩
  | .between, .endOfLine => some d
  | .directive, .endOfLine => some ⟨d.assembly, .between⟩
  | .directive, .endOfInput => none
  | .directive, _ => some d
  | _, _ => none

/-- Read a token, or leave it unread. -/
def accept (d : Deck) (t : Token) : Option (Except RecordFault Deck) :=
  match d.place with
  | .record header state =>
    match (Record.attributesReader header).accept state t with
    | none => none
    | some (.more state) => some (.ok ⟨d.assembly, .record header state⟩)
    | some (.done (.error fault)) => some (.error fault)
    | some (.done (.ok attributes)) =>
      some ((d.assembly.attach header attributes).map (⟨·, .between⟩))
  | _ =>
    match d.pass t, t.kind with
    | some d, _ => some (.ok d)
    | none, .header _ => some (.ok ⟨d.assembly, .record t {}⟩)
    | none, _ => none

/-- Why a statement that starts with `t` is no record that starts with `kind`. -/
def mismatch (kind : Token.Kind) (t : Token) : String :=
  "expected " ++ kind.symbol ++ ", got " ++ t.describe

/-- The headers, each with the reason why `t` is not it. -/
def rejections (t : Token) : List Rejection :=
  Header.all.map fun h => ⟨h.word, mismatch (.header h) t⟩

/-- The outcome at a token that is left unread: a deck may end between its statements, and within
a directive. -/
def outcome (d : Deck) (t : Token) : Except RecordFault (List Segment) :=
  match d.place with
  | .record header state => .error ((Record.attributesReader header).refusal state t)
  | _ =>
    if t.kind = .endOfInput then .ok d.assembly.flush.closed
    else .error (.unexpected t (rejections t))

/-- Read the segments off a list of tokens, and say which tokens are left. Past the last token
the reader sees `last`. -/
def read (last : Token) (d : Deck) :
    List Token → Except RecordFault (List Segment) × List Token
  | [] => (d.outcome last, [])
  | t :: ts =>
    match d.accept t with
    | none => (d.outcome t, t :: ts)
    | some (.ok d) => d.read last ts
    | some (.error fault) => (.error fault, ts)

theorem read_suffix (last : Token) (d : Deck) (tokens : List Token) :
    (d.read last tokens).2 <:+ tokens := by
  induction tokens generalizing d with
  | nil => exact List.suffix_refl _
  | cons t ts ih =>
    rw [read]
    split
    · exact List.suffix_refl _
    · exact (ih _).trans (List.suffix_cons t ts)
    · exact List.suffix_cons t ts

/-- Read what comes before the next record, and say which tokens are left. -/
def skip (d : Deck) : List Token → Assembly × List Token
  | [] => (d.assembly, [])
  | t :: ts =>
    match d.pass t with
    | none => (d.assembly, t :: ts)
    | some d => d.skip ts

theorem skip_suffix (d : Deck) (tokens : List Token) : (d.skip tokens).2 <:+ tokens := by
  induction tokens generalizing d with
  | nil => exact List.suffix_refl _
  | cons t ts ih =>
    rw [skip]
    split
    · exact List.suffix_refl _
    · exact (ih _).trans (List.suffix_cons t ts)

end Deck

/-- What a reader sees past the last of these tokens: the end of the deck, at the place of the
last token. -/
def Token.endAfter (tokens : List Token) : Token :=
  .endOfInput ((tokens.getLast?.map (·.position)).getD ⟨0, 0⟩)

/-- The segments of a deck that has these tokens. -/
def Segment.ofTokens (tokens : List Token) : Except RecordFault (List Segment) :=
  (Deck.read (.endAfter tokens) {} tokens).1

end CardDeck
