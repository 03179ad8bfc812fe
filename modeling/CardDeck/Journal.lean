import CardDeck.Decoder

/-! # The journal

What a decoder reports on its way: each stage says what it has done once it is done, and reading
segments also says which statements it skips and which segments it closes. A fault ends the
journal. -/

namespace CardDeck

namespace Journal

inductive Level where
  | debug
  | info
  | error
deriving DecidableEq, Repr

def Level.name : Level → String
  | .debug => "DEBUG"
  | .info => "INFO"
  | .error => "ERROR"

/-- One line of a journal and the stage that it comes from. -/
structure Entry where
  level : Level
  stage : String
  message : String
deriving DecidableEq, Repr

/-- An entry as a line. -/
def Entry.text (e : Entry) : String := e.level.name ++ " " ++ e.stage ++ ": " ++ e.message

/-! ### The stages -/

/-- Checking the width of cards. -/
def widths (message : String) : Entry := ⟨.debug, "dbd_parser.passes.record_length", message⟩

/-- Joining cards to statements. -/
def joining (message : String) : Entry :=
  ⟨.debug, "dbd_parser.passes.line_continuation", message⟩

/-- Decoding as a whole. -/
def decoding (level : Level) (message : String) : Entry :=
  ⟨level, "dbd_parser.pipeline.decode", message⟩

/-- Finding tokens. -/
def lexing (message : String) : Entry := ⟨.debug, "dbd_parser.parser.lexer", message⟩

/-- Reading records. -/
def records (message : String) : Entry := ⟨.debug, "dbd_parser.parser.record_parser", message⟩

end Journal

open Journal

namespace Assembly

/-- What closing the open segment reports. -/
def closing (a : Assembly) : List Entry :=
  a.current.toList.map fun s => records ("Closing segment " ++ s.name?.getD "None")

end Assembly

namespace Deck

/-- What reading a token reports. -/
def report (d : Deck) (t : Token) : List Entry :=
  match d.place with
  | .between =>
    match t.kind with
    | .directive =>
      d.assembly.closing ++ [records s!"Skipping {t.text} line {t.position.line}"]
    | .label => d.assembly.closing
    | _ => []
  | .directive => []
  | .record header state =>
    match header.kind, (Record.attributesReader header).accept state t with
    | .header .segm, some (.done (.ok _)) => d.assembly.closing
    | _, _ => []

/-- What stopping at a token that is left unread reports. -/
def reportOutcome (d : Deck) : List Entry :=
  match d.place with
  | .record .. => []
  | _ => d.assembly.closing

/-- What reading segments reports, after the entries of the tokens before. -/
def journalFrom (d : Deck) (earlier : Array Entry) : List Token → Array Entry
  | [] => earlier ++ d.reportOutcome
  | t :: ts =>
    match d.accept t with
    | none => earlier ++ d.reportOutcome
    | some (.ok next) => next.journalFrom (earlier ++ d.report t) ts
    | some (.error _) => earlier

end Deck

namespace Decoder

/-- The entries of finding the tokens of a text. -/
def tokensJournal (d : Decoder) (text : List Char) : List Entry :=
  let found (source : List Token → String) : List Entry :=
    match d.tokens text with
    | .ok tokens => [lexing (s!"Lexed {tokens.length} tokens from " ++ source tokens)]
    | .error _ => []
  if d.raw then
    found fun tokens =>
      let last := (tokens.getLast?.map (·.position.line)).getD 0
      s!"{last + 1} lines"
  else
    let cards := Card.ofText text
    match Card.checkWidths 0 cards with
    | .error _ => []
    | .ok () =>
      widths s!"Validated {cards.length} records" ::
        match Statement.ofCards cards with
        | .error _ => []
        | .ok statements =>
          [joining s!"Collapsed {cards.length} records into {statements.length} logical lines",
            decoding .debug s!"{cards.length} records, {statements.length} logical lines"] ++
          found fun _ => "logical lines"

/-- The entries of decoding a text. -/
def journal (d : Decoder) (text : List Char) : List Entry :=
  d.tokensJournal text ++
    match d.tokens text with
    | .error _ => []
    | .ok tokens =>
      (Deck.journalFrom {} #[] tokens).toList ++
        match Segment.ofTokens tokens with
        | .error _ => []
        | .ok segments =>
          [records s!"Parsed {segments.length} segments",
            decoding .info s!"Decoded {segments.length} segments"]

end Decoder

end CardDeck
