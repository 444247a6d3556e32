import PegGrammar.Text.Width
import PegGrammar.Text.Place
import PegGrammar.Rule.Basic
import PegGrammar.Rule.Keyword
import PegGrammar.Rule.Printer
import PegGrammar.Rule.Fingerprint
import PegGrammar.Unicode.Category
import PegGrammar.Unicode.Script
import PegGrammar.Unicode.Property
import PegGrammar.Unicode.Folding
import PegGrammar.Text.Shown
import PegGrammar.Text.Blank
import PegGrammar.Finite.BitSet
import PegGrammar.Finite.SortedSet
import PegGrammar.Token.Walk
import PegGrammar.Token.Shown
import PegGrammar.Cursor.Offset
import PegGrammar.Script.Stock
import PegGrammar.Pattern.Basic
import PegGrammar.Config.Basic
import PegGrammar.Log.Basic
import PegGrammar.Lead.Analysis
import PegGrammar.Program.Basic
import PegGrammar.Program.Run
import PegGrammar.Program.Moment
import PegGrammar.Program.Cache
import PegGrammar.Json.Reader
import PegGrammar.Number.ByteCount
import PegGrammar.Rule.Load
import PegGrammar.Config.Load
import PegGrammar.File.Directory
import PegGrammar.Sample.Check
import PegGrammar.Sample.Shrink
import PegGrammar.CommandLine.Run
import PegGrammar.Main
import PegGrammar.Proofs.Compile.Table
import PegGrammar.Proofs.Program.Restoration
import PegGrammar.Proofs.Program.DepthLimit
import PegGrammar.Proofs.Program.Reporting
import PegGrammar.Proofs.Program.Translation
import PegGrammar.Proofs.Program.Flattening
import PegGrammar.Proofs.Program.Replay
import PegGrammar.Proofs.Compile.Acceptance
import PegGrammar.Proofs.Cursor.Snapshots
import PegGrammar.Proofs.Program.Hushed
import PegGrammar.Proofs.Program.Locality
import PegGrammar.Proofs.Rule.RoundTrip
import PegGrammar.Proofs.Rule.Separation
import PegGrammar.Proofs.Program.Caching
import PegGrammar.Proofs.Finite.Agreement
import PegGrammar.Proofs.Lead.Independence
import PegGrammar.Proofs.Compile.Handout
import PegGrammar.Proofs.Program.Termination
import PegGrammar.Proofs.Program.Nesting
import PegGrammar.Proofs.Token.Rebuilding
import PegGrammar.Proofs.Pattern.LeftContext
import PegGrammar.Proofs.Program.Transparency
import PegGrammar.Proofs.Finite.Bijection
import PegGrammar.Proofs.Finite.Members
import PegGrammar.Proofs.Program.Tracing
import PegGrammar.Proofs.Sample.Shrinking
import PegGrammar.Proofs.Cursor.Coordinates
import PegGrammar.Proofs.Program.Exactness
import PegGrammar.Proofs.Program.Room
import PegGrammar.Proofs.Program.Renumbering
