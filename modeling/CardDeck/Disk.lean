import CardDeck.Text.Quoted

/-! # Files

The operations on files that a command needs, and a disk as it sees one from its working directory:
paths, what they lead to, and why one cannot be read or written. -/

namespace CardDeck

/-- Why a file could not be used. -/
inductive FileFault where
  | missing
  | denied
  | notDirectory
  | isDirectory
  | nameTooLong
  | other (code : Nat) (reason : String)
deriving DecidableEq, Repr

namespace FileFault

/-- The number and the words that a system has for a fault. -/
def cause : FileFault → Nat × String
  | .missing => (2, "No such file or directory")
  | .denied => (13, "Permission denied")
  | .notDirectory => (20, "Not a directory")
  | .isDirectory => (21, "Is a directory")
  | .nameTooLong => (36, "File name too long")
  | .other code reason => (code, reason)

/-- The message about a path. -/
def message (f : FileFault) (path : String) : String :=
  s!"[Errno {f.cause.1}] {f.cause.2}: " ++ Text.quoted path

end FileFault

/-- A path, without the parts that lead nowhere: empty ones and single dots. -/
structure Path where
  /-- The slashes of a path that does not start at the working directory. -/
  root : String
  parts : List String
deriving DecidableEq, Repr

namespace Path

/-- Cut text at slashes. -/
def pieces (text : List Char) : List (List Char) :=
  text.foldr
    (fun c found =>
      if c = '/' then [] :: found
      else (c :: found.headD []) :: found.tail)
    [[]]

/-- A path as it is written. Two slashes at the start are kept apart from one, and more than two
count as one. -/
def ofText (text : String) : Path where
  root :=
    match (text.toList.takeWhile (· = '/')).length with
    | 0 => ""
    | 2 => "//"
    | _ => "/"
  parts := ((pieces text.toList).filter fun p => p ≠ [] ∧ p ≠ ['.']).map .ofList

/-- The text of a path; the working directory is a dot. -/
def text (p : Path) : String :=
  if p.root = "" ∧ p.parts = [] then "." else p.root ++ "/".intercalate p.parts

/-- Whether a file can have this path: no name holds the character that ends names. -/
def isUsable (p : Path) : Bool := p.parts.all fun part => !part.toList.contains (Char.ofNat 0)

end Path

/-- Reading and writing whole files. -/
structure Files (m : Type → Type) where
  read : Path → m (Except FileFault (List UInt8))
  /-- Give a file its content, whether it was there or not. -/
  write : Path → List UInt8 → m (Except FileFault Unit)

/-- A place on a disk: how many directories up from the working directory, or from the root, and
the names that lead down from there. -/
structure Location where
  absolute : Bool := false
  up : Nat := 0
  down : List String := []
deriving DecidableEq, Repr

namespace Location

/-- The place that `part` leads to. The directory above the root is the root. -/
def enter (l : Location) (part : String) : Location :=
  if part ≠ ".." then { l with down := l.down ++ [part] }
  else if l.down ≠ [] then { l with down := l.down.dropLast }
  else if l.absolute then l
  else { l with up := l.up + 1 }

end Location

inductive Node where
  | directory
  | file (bytes : List UInt8)
deriving DecidableEq, Repr

/-- What is wanted of a place: to look for names in it, its content, or to change that. -/
inductive Access where
  | enter
  | read
  | write
deriving DecidableEq, Repr

/-- The nodes of a disk, later ones first, and why it refuses an access to a place. The working
directory, those above it and the root need no mention. -/
structure Disk where
  nodes : List (Location × Node) := []
  refusal? : Access → Location → Option FileFault := fun _ _ => none

namespace Disk

/-- The most bytes of a name. -/
def maxName : Nat := 255

/-- The most bytes of a path. -/
def maxPath : Nat := 4095

def node? (d : Disk) (l : Location) : Option Node :=
  if l.down = [] then some .directory else (d.nodes.find? (·.1 = l)).map (·.2)

/-- Follow the parts of a path. Every part but the last must lead to a directory that may be
entered. -/
def follow (d : Disk) (l : Location) : List String → Except FileFault Location
  | [] => .ok l
  | part :: parts =>
    match d.node? l, d.refusal? .enter l with
    | none, _ => .error .missing
    | some (.file _), _ => .error .notDirectory
    | some .directory, some fault => .error fault
    | some .directory, none =>
      if maxName < part.utf8ByteSize then .error .nameTooLong
      else d.follow (l.enter part) parts

/-- The place of a path. -/
def locate (d : Disk) (p : Path) : Except FileFault Location :=
  if maxPath < p.text.utf8ByteSize then .error .nameTooLong
  else d.follow { absolute := p.root ≠ "" } p.parts

/-- The content of a file. -/
def read (d : Disk) (p : Path) : Except FileFault (List UInt8) := do
  let l ← d.locate p
  match d.node? l, d.refusal? .read l with
  | none, _ => throw .missing
  | some _, some fault => throw fault
  | some .directory, none => throw .isDirectory
  | some (.file bytes), none => return bytes

/-- Put a node in place of what is there. -/
def put (d : Disk) (l : Location) (n : Node) : Disk :=
  { d with nodes := (l, n) :: d.nodes.filter (·.1 ≠ l) }

/-- Give a file its content, whether it was there or not. -/
def write (d : Disk) (p : Path) (bytes : List UInt8) : Except FileFault Disk := do
  let l ← d.locate p
  if d.node? l = some .directory then throw .isDirectory
  match d.refusal? .write l with
  | some fault => throw fault
  | none => return d.put l (.file bytes)

/-- The files of a disk. -/
def files : Files (StateM Disk) where
  read p := return (← get).read p
  write p bytes := do
    match (← get).write p bytes with
    | .ok disk =>
      set disk
      return .ok ()
    | .error fault => return .error fault

/-- Make a directory and those that lead to it. -/
def addDirectory (d : Disk) (p : Path) : Disk :=
  (p.parts.foldl
    (fun (d, l) part =>
      let l := Location.enter l part
      if l.down = [] then (d, l) else (d.put l .directory, l))
    (d, { absolute := p.root ≠ "" : Location })).1

end Disk

end CardDeck
