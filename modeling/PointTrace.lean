import PointTrace.Main
import PointTrace.Session
import PointTrace.Proofs.Numeral
import PointTrace.Proofs.Argument
import PointTrace.Proofs.Grammar
import PointTrace.Proofs.Parsing
import PointTrace.Proofs.Saving
import PointTrace.Proofs.Json.Grammar
import PointTrace.Proofs.Json.Printing
import PointTrace.Proofs.Json.Compact
import PointTrace.Proofs.Json.Size
import PointTrace.Proofs.RoundTrip
import PointTrace.Proofs.CompactDocument
import PointTrace.Proofs.Outcome
import PointTrace.Proofs.Arrangement
import PointTrace.Proofs.Blame
import PointTrace.Proofs.FileEffect
import PointTrace.Proofs.Footprint
import PointTrace.Proofs.Repetition
import PointTrace.Proofs.Reopening
import PointTrace.Proofs.Strip
import PointTrace.Proofs.Colour
import PointTrace.Proofs.ErrorChain
import PointTrace.Proofs.Decisive
import PointTrace.Proofs.Verdict
import PointTrace.Proofs.Drift
import PointTrace.Proofs.Text
import PointTrace.Proofs.Listing
import PointTrace.Proofs.LayoutListing
import PointTrace.Proofs.Terminal
import PointTrace.Proofs.Synonym
import PointTrace.Proofs.Replay
import PointTrace.Proofs.Lookup
import PointTrace.Proofs.Image
import PointTrace.Proofs.Alignment
import PointTrace.Proofs.Encoding
