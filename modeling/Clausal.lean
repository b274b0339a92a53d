import Clausal.Environment.Desk
import Clausal.Main
import Clausal.Proofs.Adequacy
import Clausal.Proofs.Brackets
import Clausal.Proofs.Budget
import Clausal.Proofs.Contents
import Clausal.Proofs.Cutoff
import Clausal.Proofs.Derivation
import Clausal.Proofs.Erasure
import Clausal.Proofs.Grouping
import Clausal.Proofs.Matching
import Clausal.Proofs.Moves
import Clausal.Proofs.Reading
import Clausal.Proofs.Recognition
import Clausal.Proofs.RoundTrip
import Clausal.Proofs.Rounds
import Clausal.Proofs.Run
import Clausal.Proofs.Semantics
import Clausal.Proofs.Spelling
import Clausal.Proofs.Statements
import Clausal.Proofs.Strip
import Clausal.Proofs.WellFormed
import Clausal.Proofs.Extension
import Clausal.Proofs.Archives
import Clausal.Proofs.Buckets
import Clausal.Proofs.Capture
import Clausal.Proofs.Returns
import Clausal.Proofs.Sessions
import Clausal.Proofs.Substitution
import Clausal.Proofs.Recorders
import Clausal.Proofs.Loading
import Clausal.Proofs.Transcript
import Clausal.Proofs.Reordering
import Clausal.Proofs.Idempotence
import Clausal.Proofs.Routing
import Clausal.Proofs.Entry
import Clausal.Proofs.Heads
import Clausal.Proofs.Leftovers
import Clausal.Proofs.Encoding
import Clausal.Proofs.Partition
import Clausal.Proofs.Bytes
import Clausal.Proofs.Scanning
import Clausal.Proofs.Positions
import Clausal.Proofs.Summaries
import Clausal.Proofs.Layouts
import Clausal.Proofs.Concatenation
import Clausal.Proofs.Plans
import Clausal.Proofs.Underflow
import Clausal.Proofs.Occurrence
import Clausal.Proofs.Parentheses
import Clausal.Proofs.ClosedForm
import Clausal.Proofs.Views
import Clausal.Proofs.Totality
import Clausal.Proofs.Files
