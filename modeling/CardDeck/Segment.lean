import CardDeck.Text.Quoted

/-! # Segments

What a deck describes: segments, each with its attributes and the leaf records that follow it. -/

namespace CardDeck

structure Attribute where
  key : String
  /-- The value; a list keeps its parentheses and commas. -/
  value : String
deriving DecidableEq, Repr

namespace Attribute

def text (a : Attribute) : String := a.key ++ "=" ++ a.value

/-- The value of the first attribute with this key. -/
def get? (key : String) (attributes : List Attribute) : Option String :=
  (attributes.find? (·.key = key)).map (·.value)

end Attribute

/-- The attributes of one record. -/
abbrev Attributes := List Attribute

/-- A segment with its fields, its logical children and its indexed fields, which are cross
references. -/
structure Segment where
  attributes : Attributes
  fields : List Attributes := []
  leftChildren : List Attributes := []
  crossReferences : List Attributes := []
deriving DecidableEq, Repr

namespace Segment

def name? (s : Segment) : Option String := Attribute.get? "NAME" s.attributes

/-- One segment on one line, by its name and the sizes of its lists. -/
def inspect (s : Segment) : String :=
  let name := match s.name? with
    | none => "None"
    | some name => Text.quoted name
  s!"Segment(name={name}, fields={s.fields.length}, left_children={s.leftChildren.length}, " ++
    s!"cross_references={s.crossReferences.length})"

end Segment

end CardDeck
