import Quill.Command
import Quill.Main
import Quill.Session
import Quill.Proofs.Derivation
import Quill.Proofs.Reading
import Quill.Proofs.Failure
import Quill.Proofs.Acceptance
import Quill.Proofs.Spacing
import Quill.Proofs.Viable
import Quill.Proofs.Height
import Quill.Proofs.Printing
import Quill.Proofs.Shifting
import Quill.Proofs.Effects
import Quill.Proofs.Shape
import Quill.Proofs.Permanence
import Quill.Proofs.Renumbering
import Quill.Proofs.Joining
import Quill.Proofs.Visibility
import Quill.Proofs.Isolation
import Quill.Proofs.Pruning
import Quill.Proofs.Placement
import Quill.Proofs.Refusal
import Quill.Proofs.Blame
import Quill.Proofs.Rereading
import Quill.Proofs.Events
import Quill.Proofs.Order
import Quill.Proofs.Foreign
import Quill.Proofs.Footprint
import Quill.Proofs.Arithmetic
import Quill.Proofs.Semicolons
import Quill.Proofs.Replay
import Quill.Proofs.Plain
import Quill.Proofs.WellFormed
import Quill.Proofs.Guarded
import Quill.Proofs.Balance
