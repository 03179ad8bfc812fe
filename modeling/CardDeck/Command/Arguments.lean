import CardDeck.Text.Digit

/-! # Command line arguments

Switches may be written short or long, long ones may be cut to any beginning that no other has,
short ones may share a dash, and a value may be attached or follow. What is no switch is the
source, and so is everything after a double dash. An equals sign sets off what is attached to a
switch; where it may stand among letters is one of the things in which releases of the argument
reader differ, and their `Conventions` are a parameter here. -/

namespace CardDeck.Command

inductive Format where
  | json
  | text
  | tokens
deriving DecidableEq, Repr

/-- The format that a value stands for. A value that was dropped is as good as plain text. -/
def Format.ofValue? : Option String → Option Format
  | some "json" => some .json
  | some "text" | none => some .text
  | some "tokens" => some .tokens
  | _ => none

/-- Where a command puts its text. -/
inductive Output where
  | standard
  | file (name : String)
  /-- A file was asked for and not named. -/
  | unnamed
deriving DecidableEq, Repr

/-- The output that a value stands for; a dash is standard output. -/
def Output.ofValue : Option String → Output
  | none => .unnamed
  | some name => if name = "-" then .standard else .file name

/-- What a command is asked to do. -/
structure Options where
  source : String
  output : Output := .standard
  format : Format := .json
  raw : Bool := false
  verbose : Bool := false
deriving DecidableEq, Repr

inductive Switch where
  | help
  | output
  | format
  | raw
  | verbose
deriving DecidableEq, Repr

namespace Switch

def all : List Switch := [.help, .output, .format, .raw, .verbose]

def long : Switch → List Char
  | .help => "--help".toList
  | .output => "--output".toList
  | .format => "--format".toList
  | .raw => "--raw-lexer".toList
  | .verbose => "--verbose".toList

def ofLetter? : Char → Option Switch
  | 'h' => some .help
  | 'o' => some .output
  | 'f' => some .format
  | 'v' => some .verbose
  | _ => none

def takesValue : Switch → Bool
  | .output | .format => true
  | _ => false

/-- The switches that a name can stand for. -/
def named (name : List Char) : List Switch :=
  match all.find? (·.long = name) with
  | some s => [s]
  | none => all.filter fun s => name.isPrefixOf s.long

end Switch

/-- A switch that is given. -/
inductive Act where
  | flag (s : Switch)
  /-- A switch that takes a value. What is attached to it can turn out to be none. -/
  | value (s : Switch) (text? : Option String)
deriving DecidableEq, Repr

/-- What releases of the argument reader differ in. -/
structure Conventions where
  /-- An equals sign behind the first letter may set off further letters, and behind any other
  letter it is a part of the value. Where it is not loose it sets off the value of any letter, and
  nothing else. -/
  looseEquals : Bool
  /-- A double dash that is attached to a switch is no value. -/
  dropsDashes : Bool
deriving DecidableEq, Repr

namespace Conventions

def early : Conventions := ⟨true, true⟩

def current : Conventions := ⟨false, false⟩

/-- The value that a text is when it is attached. -/
def attached (c : Conventions) (text : List Char) : Option String :=
  if c.dropsDashes ∧ text = ['-', '-'] then none else some (.ofList text)

end Conventions

/-- An argument by itself. -/
inductive Argument where
  | operand (text : String)
  /-- The double dash after which no argument is a switch. -/
  | marker
  /-- Switches that are complete. -/
  | acts (acts : List Act)
  /-- Switches that are complete, and one whose value must follow. -/
  | pending (acts : List Act) (s : Switch)
  /-- Switches that are complete, and what looks like another and is none. -/
  | unknown (acts : List Act)
  /-- Something attached to a switch that has no use for it. -/
  | surplus
  /-- The beginning of several switches. -/
  | ambiguous
deriving DecidableEq, Repr

namespace Argument

/-- A switch that stands without a value. -/
def bare (before : List Act) (s : Switch) : Argument :=
  if s.takesValue then .pending before s else .acts (before ++ [.flag s])

/-- A switch with a text attached by an equals sign. -/
def assigned (c : Conventions) (s : Switch) (text : List Char) : Argument :=
  if s.takesValue then .acts [.value s (c.attached text)] else .surplus

/-- The short switch `s` and the letters after it: a value, or further switches. -/
def cluster (c : Conventions) (before : List Act) (s : Switch) : List Char → Argument
  | [] => bare before s
  | l :: ls =>
    if s.takesValue then
      let text := if l = '=' ∧ ¬c.looseEquals then ls else l :: ls
      .acts (before ++ [.value s (c.attached text)])
    else
      match Switch.ofLetter? l with
      | some next => cluster c (before ++ [.flag s]) next ls
      | none =>
        if c.looseEquals ∨ l = '=' ∨ l = '-' then .surplus else .unknown (before ++ [.flag s])

/-- The first letter after a dash and what follows it. -/
def short (c : Conventions) (s : Switch) : List Char → Argument
  | '=' :: ls => if c.looseEquals ∧ ls ≠ [] then cluster c [] s ls else assigned c s ls
  | ls => cluster c [] s ls

/-- A decimal number: digits, or a point with digits behind it. -/
def isDecimal (text : List Char) : Bool :=
  match text.dropWhile Text.isDecimalDigit with
  | [] => text ≠ []
  | '.' :: places => places ≠ [] && places.all Text.isDecimalDigit
  | _ => false

/-- A dash and a decimal number, which may end in a newline. -/
def isNegativeNumber : List Char → Bool
  | '-' :: text => isDecimal (if text.getLast? = some '\n' then text.dropLast else text)
  | _ => false

/-- What starts with a dash and names no switch. Negative numbers and what holds a blank are
operands. -/
def other (text : List Char) : Argument :=
  if isNegativeNumber text || text.contains ' ' then .operand (.ofList text) else .unknown []

/-- What starts with two dashes. -/
def long (c : Conventions) (text : List Char) : Argument :=
  match Switch.named (text.takeWhile (· ≠ '=')), text.dropWhile (· ≠ '=') with
  | [], _ => other text
  | [s], [] => bare [] s
  | [s], _ :: value => assigned c s value
  | _, _ => .ambiguous

/-- An argument before the marker. -/
def ofText (c : Conventions) (text : String) : Argument :=
  match text.toList with
  | ['-', '-'] => .marker
  | '-' :: '-' :: rest => long c ('-' :: '-' :: rest)
  | '-' :: l :: rest =>
    match Switch.ofLetter? l with
    | some s => short c s rest
    | none => other ('-' :: l :: rest)
  | _ => .operand text

/-- The arguments of a command line. -/
def ofLine (c : Conventions) : List String → List Argument
  | [] => []
  | text :: rest =>
    match ofText c text with
    | .marker => .marker :: rest.map .operand
    | a => a :: ofLine c rest

end Argument

/-- What a command line asks for. -/
inductive Request where
  | help
  | misuse
  | run (options : Options)
deriving DecidableEq, Repr

/-- The options that are left by one more switch, unless it ends the reading. -/
def Options.give (o : Options) : Act → Except Request Options
  | .flag .help => .error .help
  | .flag .raw => .ok { o with raw := true }
  | .flag .verbose => .ok { o with verbose := true }
  | .value .output name? => .ok { o with output := .ofValue name? }
  | .value .format name? =>
    match Format.ofValue? name? with
    | some format => .ok { o with format }
    | none => .error .misuse
  | .flag _ | .value _ _ => .ok o

/-- A command line as far as it has been read. -/
structure Line where
  source? : Option String := none
  options : Options := { source := "" }
  /-- An argument had no place. -/
  stray : Bool := false
  /-- The argument before this one was the source. -/
  atSource : Bool := false
deriving DecidableEq, Repr

namespace Line

def operand (l : Line) (text : String) : Line :=
  match l.source? with
  | none => { l with source? := some text, atSource := true }
  | some _ => { l with stray := true, atSource := false }

/-- A marker must stand next to the source. -/
def mark (l : Line) : Line :=
  { l with stray := l.stray || (l.source?.isSome && !l.atSource) }

def apply (l : Line) (acts : List Act) : Except Request Line := do
  let options ← acts.foldlM Options.give l.options
  return { l with options, atSource := false }

def finish (l : Line) : Request :=
  match l.source?, l.stray with
  | some source, false => .run { l.options with source }
  | _, _ => .misuse

/-- Read arguments one after another. -/
def read (l : Line) : List Argument → Request
  | [] => l.finish
  | .operand text :: rest => (l.operand text).read rest
  | .marker :: rest => l.mark.read rest
  | .acts acts :: rest =>
    match l.apply acts with
    | .error request => request
    | .ok l => l.read rest
  | .pending acts s :: .operand text :: rest =>
    match l.apply (acts ++ [.value s (some text)]) with
    | .error request => request
    | .ok l => l.read rest
  | .pending _ _ :: _ => .misuse
  | .unknown acts :: rest =>
    match l.apply acts with
    | .error request => request
    | .ok l => { l with stray := true }.read rest
  | .surplus :: _ => .misuse
  | .ambiguous :: _ => .misuse

end Line

/-- Read a command line. An ambiguous argument spoils it before anything is done. -/
def Request.ofLine (c : Conventions) (line : List String) : Request :=
  let arguments := Argument.ofLine c line
  if .ambiguous ∈ arguments then .misuse else Line.read {} arguments

end CardDeck.Command
