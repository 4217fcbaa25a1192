import Framing.Chunking
import Framing.Decoder.Consuming
import Framing.Settings
import Framing.Strategy.Delimited
import Framing.Strategy.Elementary
import Framing.Strategy.LengthPrefixed
import Framing.Strategy.Script
import Framing.Proofs.Rounds
import Framing.Proofs.Feeding
import Framing.Proofs.Conservation
import Framing.Proofs.Likeness
import Framing.Proofs.Fragmentation
import Framing.Proofs.Attempt
import Framing.Proofs.Ending
import Framing.Proofs.Bytes
import Framing.Proofs.LengthPrefixed
import Framing.Proofs.Delimited
import Framing.Proofs.Lifecycle
import Framing.Proofs.Allocation
import Framing.Proofs.Paths
import Framing.Proofs.Consuming
import Framing.Proofs.LengthPrefixed.Encoding
import Framing.Proofs.Delimited.Skipping
import Framing.Proofs.Grouping
import Framing.Proofs.Positions
import Framing.Proofs.Slicing
import Framing.Proofs.Flushing
import Framing.Proofs.Bounds
import Framing.Proofs.LengthPrefixed.Consuming
import Framing.Proofs.Appending
import Framing.Proofs.Requests
import Framing.Proofs.Answers
import Framing.Proofs.Delimited.Frames
import Framing.Proofs.Delimited.Rejecting
import Framing.Proofs.Counting
import Framing.Proofs.Memory
import Framing.Proofs.Telling
import Framing.Proofs.Accounts
import Framing.Proofs.Progress
import Framing.Proofs.Outlays
import Framing.Proofs.Attribution
import Framing.Proofs.LengthPrefixed.Rejecting
import Framing.Proofs.Checked
import Framing.Proofs.Conformance
import Framing.Proofs.Simulation
import Framing.Proofs.Stuttering
import Framing.Proofs.Pieces
import Framing.Proofs.Searching
import Framing.Proofs.Views
