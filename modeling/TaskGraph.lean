import TaskGraph.NameMap
import TaskGraph.FreshName
import TaskGraph.Text.Blank
import TaskGraph.Text.Quoted
import TaskGraph.Number.Double
import TaskGraph.Json.Token
import TaskGraph.Json.Reader
import TaskGraph.Json.Printer
import TaskGraph.TypeTag
import TaskGraph.Canvas.Layout
import TaskGraph.Component.Document
import TaskGraph.Digest
import TaskGraph.Hydration
import TaskGraph.Author
import TaskGraph.Validation.Issue
import TaskGraph.Validation.Cycle
import TaskGraph.Validation.Report
import TaskGraph.Validation.Recursive
import TaskGraph.Subgraph.Unpack
import TaskGraph.Component.Draft
import TaskGraph.Canvas.LayoutFile
import TaskGraph.Proofs.FreshName
import TaskGraph.Proofs.Graph
import TaskGraph.Proofs.Subgraph.Packing
import TaskGraph.Proofs.Subgraph.Nested
import TaskGraph.Proofs.Subgraph.Apply
import TaskGraph.Proofs.Subgraph.PackWiring
import TaskGraph.Proofs.Subgraph.Unpacking
import TaskGraph.Proofs.Subgraph.UnpackedGraph
import TaskGraph.Proofs.Subgraph.UnpackWiring
import TaskGraph.Proofs.Subgraph.RoundTrip
import TaskGraph.Proofs.Closed
import TaskGraph.Proofs.Subgraph.PackClosed
import TaskGraph.Proofs.Subgraph.UnpackClosed
import TaskGraph.Proofs.Subgraph.Session
import TaskGraph.Proofs.Validation.Cycle
import TaskGraph.Proofs.Subgraph.PackCycle
import TaskGraph.Proofs.Validation.Exact
import TaskGraph.Proofs.Validation.Valid
import TaskGraph.Proofs.Subgraph.UnpackValid
import TaskGraph.Proofs.Identity
import TaskGraph.Proofs.Validation.Recursive
import TaskGraph.Proofs.Subgraph.PackValid
import TaskGraph.Proofs.Subgraph.Work
import TaskGraph.Proofs.Validation.Search
import TaskGraph.Proofs.Validation.Termination
import TaskGraph.Proofs.Validation.Coverage
import TaskGraph.Proofs.Json.Lexing
import TaskGraph.Proofs.Json.Reading
import TaskGraph.Proofs.Json.Decoding
import TaskGraph.Proofs.Codec.Parts
import TaskGraph.Proofs.Codec.Recursion
import TaskGraph.Proofs.Codec.RoundTrip
import TaskGraph.Proofs.Validation.CycleCover
import TaskGraph.Proofs.Json.Room
import TaskGraph.Proofs.Codec.Depth
import TaskGraph.Proofs.Codec.Canonical
import TaskGraph.Proofs.Registration
import TaskGraph.Proofs.Subgraph.Interface
import TaskGraph.Proofs.Subgraph.UnpackFrame
import TaskGraph.Proofs.Subgraph.Hygiene
import TaskGraph.Proofs.Subgraph.UnpackLiteral
import TaskGraph.Proofs.Subgraph.ApplyFrame
import TaskGraph.Proofs.Validation.Resolving
import TaskGraph.Proofs.Hydration
import TaskGraph.Proofs.Digests
import TaskGraph.Proofs.Subgraph.UnpackBindings
import TaskGraph.Proofs.Hydrated
