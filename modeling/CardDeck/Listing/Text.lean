import CardDeck.Segment
import CardDeck.Token
import CardDeck.Text.Blank

/-! # Listings

Segments and tokens as plain text, one record or token to a line. -/

namespace CardDeck

/-- Attributes side by side. -/
def Attribute.listing (attributes : Attributes) : String :=
  " ".intercalate (attributes.map (·.text))

/-- The lines of a segment: its own attributes, then its leaf records by kind. -/
def Segment.listing (s : Segment) : List String :=
  ("Got SEGM " ++ Attribute.listing s.attributes) ::
    s.fields.map ("    FIELD  " ++ Attribute.listing ·) ++
    s.leftChildren.map ("    LCHILD " ++ Attribute.listing ·) ++
    s.crossReferences.map ("    XDFLD  " ++ Attribute.listing ·)

/-- A token in columns: line and column, kind and text. No line ends in blanks. -/
def Token.listing (t : Token) : String :=
  .ofList <| Text.trimEnd <|
    (toString t.position.line).toList.leftpad 4 ' ' ++ [':'] ++
    (toString t.position.column).toList.rightpad 3 ' ' ++ [' '] ++
    t.kind.name.toList.rightpad 9 ' ' ++ [' '] ++ t.text.toList

namespace Listing

def ofSegments (segments : List Segment) : String :=
  "\n".intercalate (s!"Parsed {segments.length} segments" :: segments.flatMap (·.listing))

def ofTokens (tokens : List Token) : String := "\n".intercalate (tokens.map (·.listing))

end Listing

end CardDeck
