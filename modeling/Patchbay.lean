import Patchbay.Engine.Load
import Patchbay.Engine.Perform
import Patchbay.Monitor
import Patchbay.Proofs.Agenda
import Patchbay.Proofs.Connect
import Patchbay.Proofs.Delivery
import Patchbay.Proofs.Drive
import Patchbay.Proofs.Inlets
import Patchbay.Proofs.Reading
import Patchbay.Proofs.Reordering
import Patchbay.Proofs.Repeats
import Patchbay.Proofs.Ring
import Patchbay.Proofs.Splitting
import Patchbay.Proofs.Stopping
import Patchbay.Proofs.Strays
import Patchbay.Proofs.Timing
import Patchbay.Proofs.Tabulation
import Patchbay.Proofs.Alignment
import Patchbay.Proofs.Numerals
import Patchbay.Proofs.Rounding
import Patchbay.Proofs.Shortest
import Patchbay.Proofs.Coordinates
import Patchbay.Proofs.RoundTrip
import Patchbay.Proofs.Landing
import Patchbay.Proofs.Numbering
import Patchbay.Proofs.Skipping
import Patchbay.Proofs.Placeholders
import Patchbay.Proofs.Relay
import Patchbay.Proofs.Rounds
import Patchbay.Proofs.Trace
import Patchbay.Proofs.Bounds
import Patchbay.Proofs.Upcoming
import Patchbay.Proofs.Firing
import Patchbay.Proofs.Lineage
import Patchbay.Proofs.Sending
import Patchbay.Proofs.Causes
import Patchbay.Proofs.Packing
import Patchbay.Proofs.Unpacking
import Patchbay.Proofs.Registering
import Patchbay.Proofs.Gliding
import Patchbay.Proofs.Listening
import Patchbay.Proofs.Growing
import Patchbay.Proofs.Lookup
