import CardDeck.Command.Arguments
import CardDeck.Disk
import CardDeck.Journal
import CardDeck.Listing.Json
import CardDeck.Listing.Text

/-! # The command

Decode the deck in a file and write it out. Nothing is written before the whole deck has been
decoded, so a command that fails leaves every file as it was. What is printed to explain the usage
is left to the program. -/

namespace CardDeck.Command

open Journal

/-- What a deck comes to, before it is put anywhere: a text to write, or none, and what to say
about it. -/
structure Report where
  messages : List String
  text? : Option String
deriving DecidableEq, Repr

/-- What a command takes from the host that it runs on: the conventions of the argument reader, and
the lines that trace a fault through the program. -/
structure Host where
  conventions : Conventions := .early
  trace : Options → List Char → Fault → List String := fun _ _ _ => []

/-- A host with a current argument reader. -/
def Host.current : Host := { conventions := .current }

namespace Options

def decoder (o : Options) : Decoder := { raw := o.raw }

/-- The text to write for a deck. -/
def render (o : Options) (deck : List Char) : Except Fault String :=
  match o.format with
  | .tokens => ((o.decoder.tokens deck).mapError .card).map Listing.ofTokens
  | .json => (o.decoder.segments deck).map Listing.jsonOfSegments
  | .text => (o.decoder.segments deck).map Listing.ofSegments

/-- The journal of the stages that the format needs. -/
def journal (o : Options) (deck : List Char) : List Entry :=
  match o.format with
  | .tokens => o.decoder.tokensJournal deck
  | _ => o.decoder.journal deck

/-- Decode what was read from the source, and report. Only a verbose command shows its journal and
the trace of a fault, but an unreadable source is always shown. -/
def report (host : Host) (o : Options) (content : Except FileFault (List UInt8)) : Report :=
  match content with
  | .error fault =>
    let message := fault.message (Path.ofText o.source).text
    let entry : Entry :=
      ⟨.error, "dbd_parser.cli", "Failed to read " ++ o.source ++ ": " ++ message⟩
    ⟨[entry.text, "error: " ++ message], none⟩
  | .ok bytes =>
    let deck := Text.ofFile bytes
    let shown (messages : List String) := if o.verbose then messages else []
    match o.render deck with
    | .ok text => ⟨shown ((o.journal deck).map (·.text)), some text⟩
    | .error fault =>
      let entry : Entry := ⟨.debug, "dbd_parser.cli", "Decode of " ++ o.source ++ " failed"⟩
      ⟨shown ((o.journal deck ++ [entry]).map (·.text) ++ host.trace o deck fault) ++
        ["error: " ++ o.source ++ ": " ++ fault.notice.text], none⟩

end Options

/-- How a command ends. -/
structure Response where
  exit : Nat
  stdout : String
  stderr : String
deriving DecidableEq, Repr

/-- Messages as lines. -/
def linesOf (messages : List String) : String := .join (messages.map (· ++ "\n"))

/-- Why a file cannot even be looked for. -/
inductive NameFault where
  /-- It was asked for and not named. -/
  | absent
  /-- No file can have this name. -/
  | unusable
deriving DecidableEq, Repr

/-- What follows from a report. -/
inductive Ending where
  | respond (response : Response)
  /-- Write a file, and then respond. -/
  | write (path : Path) (text : String) (response : Response)
  /-- There is a text and no file to write it to. -/
  | misnamed (fault : NameFault)
deriving DecidableEq, Repr

def Options.ending (o : Options) (report : Report) : Ending :=
  match report.text? with
  | none => .respond ⟨1, "", linesOf report.messages⟩
  | some text =>
    match o.output with
    | .standard => .respond ⟨0, text ++ "\n", linesOf report.messages⟩
    | .file name =>
      if (Path.ofText name).isUsable then
        .write (Path.ofText name) text
          ⟨0, "", linesOf (report.messages ++ ["Output written to " ++ name])⟩
      else .misnamed .unusable
    | .unnamed => .misnamed .absent

/-- What a command comes to, with what its files have become. -/
inductive Outcome (σ : Type) where
  | help
  | misuse
  | responded (response : Response) (files : σ)
  /-- The output could not be written. -/
  | unwritten (fault : FileFault)
  /-- A file had no name to be read or written by. -/
  | misnamed (fault : NameFault)
deriving DecidableEq, Repr

def Outcome.map {σ τ : Type} (f : σ → τ) : Outcome σ → Outcome τ
  | .help => .help
  | .misuse => .misuse
  | .responded response files => .responded response (f files)
  | .unwritten fault => .unwritten fault
  | .misnamed fault => .misnamed fault

/-- Perform a command line on the files of a system. -/
def perform {m : Type → Type} [Monad m] (host : Host) (files : Files m) (line : List String) :
    m (Outcome Unit) := do
  match Request.ofLine host.conventions line with
  | .help => return .help
  | .misuse => return .misuse
  | .run o =>
    let source := Path.ofText o.source
    if source.isUsable then
      match o.ending (o.report host (← files.read source)) with
      | .respond response => return .responded response ()
      | .write path text response =>
        match ← files.write path text.toUTF8.toList with
        | .ok () => return .responded response ()
        | .error fault => return .unwritten fault
      | .misnamed fault => return .misnamed fault
    else return .misnamed .unusable

/-- Run a command line on a disk. -/
def run (disk : Disk) (line : List String) (host : Host := {}) : Outcome Disk :=
  let (outcome, disk) := (perform host Disk.files line).run disk
  outcome.map fun () => disk

end CardDeck.Command
