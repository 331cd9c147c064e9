import EngineHost.Analyzer
import EngineHost.Arguments
import EngineHost.Blueprint
import EngineHost.Bytes
import EngineHost.CommandLine
import EngineHost.Config
import EngineHost.Contract.Basic
import EngineHost.Contract.Decode
import EngineHost.Contract.Encode
import EngineHost.Contract.Graph
import EngineHost.Contract.Wire
import EngineHost.Decimal.Natural
import EngineHost.Decimal.Shortest
import EngineHost.Digest
import EngineHost.Engine
import EngineHost.Environment
import EngineHost.Error
import EngineHost.Files
import EngineHost.Gzip.Bits
import EngineHost.Gzip.Checksum
import EngineHost.Gzip.Fault
import EngineHost.Gzip.Huffman
import EngineHost.Gzip.Inflate
import EngineHost.Gzip.Member
import EngineHost.Gzip.Store
import EngineHost.Handle
import EngineHost.Hex
import EngineHost.Journal
import EngineHost.Json.Fault
import EngineHost.Json.Node
import EngineHost.Json.Numeral
import EngineHost.Json.Printer
import EngineHost.Json.Quoted
import EngineHost.Json.Record
import EngineHost.Json.Scan
import EngineHost.Json.Value
import EngineHost.Json.View
import EngineHost.Main
import EngineHost.Memory
import EngineHost.Metrics
import EngineHost.Module
import EngineHost.Options
import EngineHost.Pool
import EngineHost.Proofs.Accounts
import EngineHost.Proofs.Cleanup
import EngineHost.Proofs.Contract.BlockTexts
import EngineHost.Proofs.Contract.Draft
import EngineHost.Proofs.Contract.EntryPoints
import EngineHost.Proofs.Contract.Form
import EngineHost.Proofs.Contract.NormalForm
import EngineHost.Proofs.Contract.Reading
import EngineHost.Proofs.Contract.RoundTrip
import EngineHost.Proofs.Counting
import EngineHost.Proofs.Exchange
import EngineHost.Proofs.Halves
import EngineHost.Proofs.Hex
import EngineHost.Proofs.History
import EngineHost.Proofs.Json.Draft
import EngineHost.Proofs.Json.Embedding
import EngineHost.Proofs.Json.Form
import EngineHost.Proofs.Json.Grammar
import EngineHost.Proofs.Json.Inversion
import EngineHost.Proofs.Json.Printing
import EngineHost.Proofs.Json.Reading
import EngineHost.Proofs.Json.Scanning
import EngineHost.Proofs.Json.Spelling
import EngineHost.Proofs.Json.Untyped
import EngineHost.Proofs.Memory
import EngineHost.Proofs.Pool.Alone
import EngineHost.Proofs.Pool.Safety
import EngineHost.Proofs.Pool.Sequence
import EngineHost.Proofs.Pool.Serving
import EngineHost.Proofs.Pool.Shutdown
import EngineHost.Proofs.Pool.Traffic
import EngineHost.Proofs.Precedence
import EngineHost.Proofs.Recording
import EngineHost.Proofs.Transcript
import EngineHost.Request
import EngineHost.Sandbox
import EngineHost.Script
import EngineHost.Session
import EngineHost.Text.Blank
import EngineHost.Text.Quoted
import EngineHost.Text.Shown
import EngineHost.Word
import EngineHost.Proofs.Contract.Reachability
import EngineHost.Proofs.Frame
import EngineHost.Proofs.Access
import EngineHost.Proofs.Contract.Layout
import EngineHost.Proofs.CommandLine
import EngineHost.Proofs.Word
import EngineHost.Proofs.Json.Focus
import EngineHost.Proofs.Json.Update
import EngineHost.Proofs.Contract.Places
import EngineHost.Proofs.Contract.Pairs
import EngineHost.Proofs.Contract.Repeats
import EngineHost.Proofs.Json.UntypedPlaces
import EngineHost.Proofs.Json.NumberTokens
import EngineHost.Proofs.Contract.OffsetPlaces
import EngineHost.Proofs.Contract.Offsets
import EngineHost.Proofs.HexText
import EngineHost.Proofs.Text.Trim
import EngineHost.Proofs.Environment
import EngineHost.Proofs.Pool.Rotation
import EngineHost.Proofs.Gzip.Checksum
import EngineHost.Proofs.Gzip.Stored
import EngineHost.Proofs.Gzip.Member
