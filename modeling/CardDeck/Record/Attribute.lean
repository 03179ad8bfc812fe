import CardDeck.Record.Value
import CardDeck.Segment

/-! # Attributes

What follows the header of a record: attributes, each a key, an equals sign and a value, with
commas anywhere between them, up to the end of the statement. -/

namespace CardDeck.Record

inductive AttributeState where
  | key
  | equals (key : String)
  | value (key : String) (state : ValueState)
deriving DecidableEq, Repr

namespace AttributeState

def accept : AttributeState → Token → Option (Step AttributeState Attribute)
  | .key, t => if t.kind = .key then some (.more (.equals t.text)) else none
  | .equals k, t => if t.kind = .equals then some (.more (.value k .start)) else none
  | .value k state, t =>
    match state.accept t with
    | none => none
    | some (.more state) => some (.more (.value k state))
    | some (.done result) => some (.done (result.map (⟨k, ·⟩)))

def refusal : AttributeState → Token → RecordFault
  | .key, t => .badKey t
  | .equals k, t => .missingEquals t k
  | .value _ state, t => state.refusal t

end AttributeState

/-- Reads one attribute. -/
def attributeReader : Reader AttributeState Attribute :=
  ⟨AttributeState.accept, AttributeState.refusal⟩

/-- The attributes read so far, and the one that has been started. -/
structure AttributesState where
  found : Attributes := []
  current : Option AttributeState := none
deriving DecidableEq, Repr

namespace AttributesState

/-- Go on with the attribute that stands at `state`. -/
def acceptWithin (found : Attributes) (state : AttributeState) (t : Token) :
    Option (Step AttributesState Attributes) :=
  match state.accept t with
  | none => none
  | some (.more state) => some (.more ⟨found, some state⟩)
  | some (.done (.ok a)) => some (.more ⟨found ++ [a], none⟩)
  | some (.done (.error fault)) => some (.done (.error fault))

/-- A statement that ends without any attribute has a fault, and the fault points at its
header. -/
def accept (header : Token) (s : AttributesState) (t : Token) :
    Option (Step AttributesState Attributes) :=
  match s.current with
  | some state => acceptWithin s.found state t
  | none =>
    match t.kind with
    | .endOfLine =>
      if s.found = [] then some (.done (.error (.noAttributes header header.text)))
      else some (.done (.ok s.found))
    | .comma => some (.more s)
    | _ => acceptWithin s.found .key t

def refusal (s : AttributesState) (t : Token) : RecordFault :=
  (s.current.getD .key).refusal t

end AttributesState

/-- Reads the attributes that follow `header`, and the end of their statement. -/
def attributesReader (header : Token) : Reader AttributesState Attributes :=
  ⟨AttributesState.accept header, AttributesState.refusal⟩

end CardDeck.Record
