import CardDeck.Reader

/-! # Values

A value is an identifier, an attribute key, or a list of identifiers in parentheses. -/

namespace CardDeck.Record

inductive ValueState where
  /-- Nothing has been read. -/
  | start
  /-- An item must follow: the list has just been opened, or a comma has been read. -/
  | item (items : List String)
  /-- An item has been read. -/
  | separator (items : List String)
deriving DecidableEq, Repr

namespace ValueState

/-- The text of a list of items. -/
def listText (items : List String) : String := "(" ++ ",".intercalate items ++ ")"

def accept : ValueState → Token → Option (Step ValueState String)
  | .start, t =>
    match t.kind with
    | .identifier | .key => some (.done (.ok t.text))
    | .openParen => some (.more (.item []))
    | _ => none
  | .item items, t =>
    match t.kind with
    | .identifier => some (.more (.separator (items ++ [t.text])))
    | _ => none
  | .separator items, t =>
    match t.kind with
    | .closeParen => some (.done (.ok (listText items)))
    | .comma => some (.more (.item items))
    | _ => none

def refusal : ValueState → Token → RecordFault
  | .start, t => .badValue t ("expected identifier or \x27(\x27, got " ++ t.describe)
  | .item items, t =>
    if t.kind = .closeParen ∧ items = [] then .badValue t "empty parenthesized list"
    else .badValue t ("expected identifier in list, got " ++ t.describe)
  | .separator _, t => .badValue t ("expected \x27,\x27 or \x27)\x27, got " ++ t.describe)

end ValueState

/-- Reads a value. -/
def valueReader : Reader ValueState String := ⟨ValueState.accept, ValueState.refusal⟩

end CardDeck.Record
