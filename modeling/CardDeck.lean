import CardDeck.Bookmark
import CardDeck.Main
import CardDeck.Proofs.BlankCards
import CardDeck.Proofs.Command
import CardDeck.Proofs.Concatenation
import CardDeck.Proofs.Continuation
import CardDeck.Proofs.Cursor.Defect
import CardDeck.Proofs.Cursor.Progress
import CardDeck.Proofs.Cursor.Width
import CardDeck.Proofs.Deck.Directive
import CardDeck.Proofs.Deck.Fault
import CardDeck.Proofs.Deck.Viable
import CardDeck.Proofs.Extent
import CardDeck.Proofs.FinalNewline
import CardDeck.Proofs.Ignored
import CardDeck.Proofs.Listing
import CardDeck.Proofs.RoundTrip
import CardDeck.Proofs.Shape
import CardDeck.Proofs.Statement.Trace
import CardDeck.Proofs.Stream.Progress
