import ChannelLisp.CommandLine
import ChannelLisp.Decimal.Binary64
import ChannelLisp.Decimal.Layout
import ChannelLisp.Decimal.Numeral
import ChannelLisp.Decimal.Shortest
import ChannelLisp.Error
import ChannelLisp.FileTree
import ChannelLisp.Host
import ChannelLisp.Literal
import ChannelLisp.Load
import ChannelLisp.Location
import ChannelLisp.Machine
import ChannelLisp.Main
import ChannelLisp.Node
import ChannelLisp.Node.Display
import ChannelLisp.Node.Equality
import ChannelLisp.Node.Host
import ChannelLisp.Operation
import ChannelLisp.Pool
import ChannelLisp.Prelude
import ChannelLisp.Primitive
import ChannelLisp.ReadError
import ChannelLisp.Reader
import ChannelLisp.Repl
import ChannelLisp.Scope
import ChannelLisp.Session
import ChannelLisp.Sink
import ChannelLisp.Text.Backspace
import ChannelLisp.Text.Blank
import ChannelLisp.Text.Bytes
import ChannelLisp.Text.Cluster
import ChannelLisp.Text.Cluster.Table
import ChannelLisp.Text.Quoted
import ChannelLisp.Token
import ChannelLisp.Token.Scan
import ChannelLisp.Word
import ChannelLisp.Proofs.Grammar
import ChannelLisp.Proofs.Reading
import ChannelLisp.Proofs.Scanning
import ChannelLisp.Proofs.Erasure
import ChannelLisp.Proofs.Printing
import ChannelLisp.Proofs.Policy
import ChannelLisp.Proofs.Confinement
import ChannelLisp.Proofs.View
import ChannelLisp.Proofs.Simulation
import ChannelLisp.Proofs.Locations
import ChannelLisp.Proofs.Segments
import ChannelLisp.Proofs.Recovery
import ChannelLisp.Proofs.Locality
import ChannelLisp.Proofs.Slices
import ChannelLisp.Proofs.Cursor
import ChannelLisp.Proofs.Soundness
import ChannelLisp.Proofs.Scoping
import ChannelLisp.Proofs.Sessions
import ChannelLisp.Proofs.Splitting
import ChannelLisp.Proofs.Prelude
import ChannelLisp.Proofs.Places
import ChannelLisp.Proofs.Conservativity
import ChannelLisp.Proofs.Growth
import ChannelLisp.Proofs.Effects
import ChannelLisp.Proofs.Lifetime
import ChannelLisp.Proofs.Rendezvous
import ChannelLisp.Proofs.Refusal
import ChannelLisp.Proofs.Pieces
import ChannelLisp.Proofs.Fragments
import ChannelLisp.Proofs.Nesting
import ChannelLisp.Proofs.Comparison
import ChannelLisp.Proofs.Composition
import ChannelLisp.Proofs.Nearest
import ChannelLisp.Proofs.Overflow
import ChannelLisp.Proofs.Shorthand
import ChannelLisp.Proofs.Descent
