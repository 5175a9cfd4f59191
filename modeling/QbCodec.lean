import QbCodec.Bytes.Output
import QbCodec.Main
import QbCodec.Session
import QbCodec.Proofs.Bytes.Position
import QbCodec.Proofs.File.Tiling
import QbCodec.Proofs.File.Acceptance
import QbCodec.Proofs.File.Coding
import QbCodec.Proofs.Ieee.Notation
import QbCodec.Proofs.Key.Resolution
import QbCodec.Proofs.Source.Scanning
import QbCodec.Proofs.Source.Ink
import QbCodec.Proofs.Script.Layout
import QbCodec.Proofs.Script.Spelling
import QbCodec.Proofs.File.Respelling
import QbCodec.Proofs.File.LineEnds
import QbCodec.Proofs.File.RoundTrip
import QbCodec.Proofs.Script.Rereading
import QbCodec.Proofs.Script.Arguments
import QbCodec.Proofs.Script.Quotation
import QbCodec.Proofs.Source.Joiners
import QbCodec.Proofs.Script.Joiners
import QbCodec.Proofs.Source.Reserved
import QbCodec.Proofs.File.NamedScripts
import QbCodec.Proofs.Key.Indexes
import QbCodec.Proofs.Key.Lookup
import QbCodec.Proofs.Key.Listing
import QbCodec.Proofs.Key.Rereading
import QbCodec.Proofs.Session.Independence
import QbCodec.Proofs.File.Retargeting
import QbCodec.Proofs.File.Joining
import QbCodec.Proofs.Bytes.Record
import QbCodec.Proofs.Session.LifeCycle
import QbCodec.Proofs.Tree.Paths
import QbCodec.Proofs.Tree.Writing
import QbCodec.Proofs.Tree.Finding
import QbCodec.Proofs.Tree.Sharing
import QbCodec.Proofs.File.Renaming
import QbCodec.Proofs.CommandLine.Switches
import QbCodec.Proofs.CommandLine.Writing
import QbCodec.Proofs.CommandLine.VisitingOrder
import QbCodec.Proofs.CommandLine.OutputDirectory
import QbCodec.Proofs.Compression.SlidingWindow
import QbCodec.Proofs.File.Requests
import QbCodec.Proofs.File.Unpacking
import QbCodec.Proofs.Guarded.Codec
import QbCodec.Proofs.Script.Truncation
import QbCodec.Proofs.Script.Values
import QbCodec.Proofs.Source.Numerals
import QbCodec.Proofs.Script.Invisible
import QbCodec.Proofs.Script.Nesting
import QbCodec.Proofs.Source.Comments
import QbCodec.Proofs.File.Returns
import QbCodec.Proofs.Source.Steps
import QbCodec.Proofs.Source.Spans
import QbCodec.Proofs.Source.Balance
import QbCodec.Proofs.File.Registering
import QbCodec.Proofs.File.Fields
import QbCodec.Proofs.Bytes.Operations
import QbCodec.Proofs.Source.Diagnostics
import QbCodec.Proofs.Source.Identifiers
import QbCodec.Proofs.File.Parentheses
import QbCodec.Proofs.File.Variants
