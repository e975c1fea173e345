import Jarsmith.Archive.Contents
import Jarsmith.Archive.Directory
import Jarsmith.Archive.Encode
import Jarsmith.Archive.Error
import Jarsmith.Archive.Extra
import Jarsmith.Archive.Member
import Jarsmith.Archive.Open
import Jarsmith.Archive.UnitName
import Jarsmith.Build.Analysis
import Jarsmith.Build.Basic
import Jarsmith.Build.Output
import Jarsmith.Build.Pipeline
import Jarsmith.Build.Resolution
import Jarsmith.Bytes.Crc32
import Jarsmith.Bytes.Field
import Jarsmith.ClassFile.Basic
import Jarsmith.ClassFile.Constant
import Jarsmith.ClassFile.Cursor
import Jarsmith.ClassFile.DebugInformation
import Jarsmith.ClassFile.Decode
import Jarsmith.ClassFile.Encode
import Jarsmith.ClassFile.Error
import Jarsmith.ClassFile.Reference
import Jarsmith.ClassGraph.Basic
import Jarsmith.ClassGraph.Reachability
import Jarsmith.ClassGraph.Scan
import Jarsmith.CommandLine.Command
import Jarsmith.CommandLine.Footprint
import Jarsmith.CommandLine.Options
import Jarsmith.CommandLine.Run
import Jarsmith.Configuration.Assignment
import Jarsmith.Configuration.Document
import Jarsmith.Configuration.File
import Jarsmith.Configuration.FileError
import Jarsmith.Configuration.Finding
import Jarsmith.Configuration.Model
import Jarsmith.Configuration.Problem
import Jarsmith.Configuration.Record
import Jarsmith.Configuration.Selector
import Jarsmith.Configuration.Validation
import Jarsmith.Configuration.Value
import Jarsmith.Console.Layout
import Jarsmith.Console.Markup
import Jarsmith.Console.Shown
import Jarsmith.Console.Table
import Jarsmith.Decimal.Rounding
import Jarsmith.Decimal.Shortest
import Jarsmith.Deflate.BitReader
import Jarsmith.Deflate.BitWriter
import Jarsmith.Deflate.Block
import Jarsmith.Deflate.Code
import Jarsmith.Deflate.CodeLengths
import Jarsmith.Deflate.Description
import Jarsmith.Deflate.Effort
import Jarsmith.Deflate.Inflate
import Jarsmith.Deflate.Optimal
import Jarsmith.Deflate.Search
import Jarsmith.Deflate.Stored
import Jarsmith.Deflate.Stream
import Jarsmith.Deflate.Token
import Jarsmith.Deflate.Word
import Jarsmith.Document.Basic
import Jarsmith.Document.Json
import Jarsmith.Document.Json.Reader
import Jarsmith.Document.Time
import Jarsmith.EntryPoint
import Jarsmith.Fault
import Jarsmith.FileSystem.Basic
import Jarsmith.FileSystem.Environment
import Jarsmith.FileSystem.Error
import Jarsmith.FileSystem.Path
import Jarsmith.Log.Event
import Jarsmith.Log.Traced
import Jarsmith.Main
import Jarsmith.Modification
import Jarsmith.Proofs.Archive.Extra
import Jarsmith.Proofs.Archive.ExtraWalk
import Jarsmith.Proofs.Archive.Layout
import Jarsmith.Proofs.Archive.Obstacle
import Jarsmith.Proofs.Archive.ReadBack
import Jarsmith.Proofs.Archive.RoundTrip
import Jarsmith.Proofs.Archive.UnitName
import Jarsmith.Proofs.Archive.Use
import Jarsmith.Proofs.Build.Apart
import Jarsmith.Proofs.Build.Confinement
import Jarsmith.Proofs.Build.Contents
import Jarsmith.Proofs.Build.Creation
import Jarsmith.Proofs.Build.Decision
import Jarsmith.Proofs.Build.Failure
import Jarsmith.Proofs.Build.Inputs
import Jarsmith.Proofs.Build.Manifest
import Jarsmith.Proofs.Build.Output
import Jarsmith.Proofs.Build.Run
import Jarsmith.Proofs.Bytes.Field
import Jarsmith.Proofs.ClassFile.Acceptance
import Jarsmith.Proofs.ClassFile.Constant
import Jarsmith.Proofs.ClassFile.Cursor
import Jarsmith.Proofs.ClassFile.DebugInformation
import Jarsmith.Proofs.ClassFile.Descriptor
import Jarsmith.Proofs.ClassFile.Fits
import Jarsmith.Proofs.ClassFile.Lookup
import Jarsmith.Proofs.ClassFile.Reference
import Jarsmith.Proofs.ClassFile.Removal
import Jarsmith.Proofs.ClassFile.RoundTrip
import Jarsmith.Proofs.ClassFile.Signature
import Jarsmith.Proofs.ClassFile.UnitText
import Jarsmith.Proofs.ClassGraph.Closure
import Jarsmith.Proofs.ClassGraph.Construction
import Jarsmith.Proofs.ClassGraph.Duplicate
import Jarsmith.Proofs.ClassGraph.Loading
import Jarsmith.Proofs.ClassGraph.Naming
import Jarsmith.Proofs.ClassGraph.Reachability
import Jarsmith.Proofs.ClassGraph.Reduction
import Jarsmith.Proofs.ClassGraph.Scan
import Jarsmith.Proofs.Configuration.Assignment
import Jarsmith.Proofs.Configuration.Classpath
import Jarsmith.Proofs.Configuration.OutputName
import Jarsmith.Proofs.Configuration.Resolved
import Jarsmith.Proofs.Configuration.RoundTrip
import Jarsmith.Proofs.Configuration.Selection
import Jarsmith.Proofs.Configuration.Validated
import Jarsmith.Proofs.Configuration.Written
import Jarsmith.Proofs.Deflate.Bits
import Jarsmith.Proofs.Deflate.Block
import Jarsmith.Proofs.Deflate.CodeLengths
import Jarsmith.Proofs.Deflate.CodePair
import Jarsmith.Proofs.Deflate.Description
import Jarsmith.Proofs.Deflate.Heap
import Jarsmith.Proofs.Deflate.Kraft
import Jarsmith.Proofs.Deflate.Optimal
import Jarsmith.Proofs.Deflate.Preamble
import Jarsmith.Proofs.Deflate.Repair
import Jarsmith.Proofs.Deflate.RoundTrip
import Jarsmith.Proofs.Deflate.Stored
import Jarsmith.Proofs.Deflate.Token
import Jarsmith.Proofs.Deflate.Words
import Jarsmith.Proofs.EntryPoint
import Jarsmith.Proofs.EntryPoint.Origin
import Jarsmith.Proofs.EntryPoint.Resolution
import Jarsmith.Proofs.EntryPoint.Services
import Jarsmith.Proofs.Failure
import Jarsmith.Proofs.FileSystem.Change
import Jarsmith.Proofs.FileSystem.Directories
import Jarsmith.Proofs.FileSystem.Expansion
import Jarsmith.Proofs.FileSystem.PathText
import Jarsmith.Proofs.FileSystem.Place
import Jarsmith.Proofs.FileSystem.Reread
import Jarsmith.Proofs.Log.Traced
import Jarsmith.Proofs.Minification
import Jarsmith.Proofs.Properties.Continuation
import Jarsmith.Proofs.Properties.Escape
import Jarsmith.Proofs.Properties.Written
import Jarsmith.Proofs.Repackaging
import Jarsmith.Proofs.Repackaging.Outcome
import Jarsmith.Proofs.Repackaging.Stop
import Jarsmith.Proofs.Result
import Jarsmith.Proofs.Retention
import Jarsmith.Proofs.Retention.Extension
import Jarsmith.Proofs.Retention.Order
import Jarsmith.Proofs.Session.Confined
import Jarsmith.Proofs.Session.Failure
import Jarsmith.Proofs.Session.Frame
import Jarsmith.Proofs.Session.Log
import Jarsmith.Proofs.Session.Run
import Jarsmith.Proofs.Text.Lines
import Jarsmith.Proofs.Text.LongNul
import Jarsmith.Proofs.Text.Scalar
import Jarsmith.Proofs.Text.Trim
import Jarsmith.Proofs.Text.Unique
import Jarsmith.Proofs.Text.Utf8
import Jarsmith.Properties
import Jarsmith.Repackaging
import Jarsmith.Retention
import Jarsmith.Session
import Jarsmith.Text.Basic
import Jarsmith.Text.Blank
import Jarsmith.Text.CodePage
import Jarsmith.Text.Digit
import Jarsmith.Text.Printable
import Jarsmith.Text.Quoted
import Jarsmith.Text.Size
import Jarsmith.Text.Utf8
import Jarsmith.Text.Width
import Jarsmith.Yaml.Error
import Jarsmith.Yaml.Node
import Jarsmith.Yaml.Node.Parser
import Jarsmith.Yaml.Scalar
import Jarsmith.Yaml.Token
import Jarsmith.Yaml.Token.Cursor
import Jarsmith.Yaml.Token.Lexer
import Jarsmith.Yaml.Token.Property
import Jarsmith.Yaml.Token.Scalar
import Jarsmith.Yaml.Value
import Jarsmith.Yaml.Writer
