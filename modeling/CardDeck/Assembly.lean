import CardDeck.Segment
import CardDeck.Fault

/-! # Assembling segments

Records come one after another. A segment stays open for the leaf records that follow it, until a
label, a directive, another segment or the end of the deck closes it. -/

namespace CardDeck

/-- The segments closed so far, and the open one. -/
structure Assembly where
  closed : List Segment := []
  current : Option Segment := none
deriving DecidableEq, Repr

namespace Assembly

/-- Close the open segment, if there is one. -/
def flush (a : Assembly) : Assembly := ⟨a.closed ++ a.current.toList, none⟩

/-- Add a record. A segment closes the one before it; a leaf record needs an open segment. -/
def attach (a : Assembly) (header : Token) (attributes : Attributes) :
    Except RecordFault Assembly :=
  match header.kind, a.current with
  | .header .segm, _ => .ok { a.flush with current := some { attributes } }
  | _, none => .error (.orphaned header)
  | .header .field, some s =>
    .ok { a with current := some { s with fields := s.fields ++ [attributes] } }
  | .header .lchild, some s =>
    .ok { a with current := some { s with leftChildren := s.leftChildren ++ [attributes] } }
  | _, some s =>
    .ok { a with current := some { s with crossReferences := s.crossReferences ++ [attributes] } }

end Assembly

end CardDeck
