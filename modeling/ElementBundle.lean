import ElementBundle.Text.Blank
import ElementBundle.Text.Lines
import ElementBundle.Text.Quoted
import ElementBundle.Text.Search
import ElementBundle.Text.Upper
import ElementBundle.Text.Utf8
import ElementBundle.Text.Word
import ElementBundle.Decimal.Read
import ElementBundle.Markup.Tag
import ElementBundle.Markup.Expression
import ElementBundle.Markup.Block
import ElementBundle.Source.Lexer
import ElementBundle.Component.Pipeline
import ElementBundle.Component.Name
import ElementBundle.Data.Json
import ElementBundle.Project.Settings
import ElementBundle.Diff.Unified
import ElementBundle.Text.Wrap
import ElementBundle.Console.Report
import ElementBundle.Project.Debounce
import ElementBundle.Project.Watch
import ElementBundle.Data.Yaml.Read
import ElementBundle.Project.SettingsFile
import ElementBundle.Command.Run
import ElementBundle.Main
import ElementBundle.Proofs.Source.Calculus
import ElementBundle.Proofs.Source.Lossless
import ElementBundle.Proofs.Source.Lexer
import ElementBundle.Proofs.Component.Body
import ElementBundle.Proofs.Component.Directive
import ElementBundle.Proofs.Component.Edit
import ElementBundle.Proofs.Markup.Literal
import ElementBundle.Proofs.Markup.Rescan
import ElementBundle.Proofs.Component.Boundary
import ElementBundle.Proofs.Source.Splice
import ElementBundle.Proofs.Component.Located
import ElementBundle.Proofs.Component.Outcome
import ElementBundle.Proofs.Markup.Balance
import ElementBundle.Proofs.Source.Machine
import ElementBundle.Proofs.Source.Simulation
import ElementBundle.Proofs.Component.Origin
import ElementBundle.Proofs.Source.Depth
import ElementBundle.Proofs.Source.Resume
import ElementBundle.Proofs.Component.Members
import ElementBundle.Proofs.Component.OneClass
import ElementBundle.Proofs.Project.Callers
import ElementBundle.Proofs.Project.SingleFlight
import ElementBundle.Proofs.Disk.Tree
import ElementBundle.Proofs.Component.Pipeline
import ElementBundle.Proofs.Project.Survey
import ElementBundle.Proofs.Project.Write
import ElementBundle.Proofs.Project.Policy
import ElementBundle.Proofs.Component.LineEnds
import ElementBundle.Proofs.Text.Encoding
import ElementBundle.Proofs.Project.Discover
import ElementBundle.Proofs.Project.Repeat
import ElementBundle.Proofs.Project.Composition
import ElementBundle.Proofs.Project.Timers
import ElementBundle.Proofs.Project.Debounce
import ElementBundle.Proofs.Project.Snapshot
import ElementBundle.Proofs.Project.Watching
import ElementBundle.Proofs.Project.SelfTrigger
import ElementBundle.Proofs.Project.UpToDate
import ElementBundle.Proofs.Markup.Decoding
import ElementBundle.Proofs.Project.Trace
import ElementBundle.Proofs.Component.Name
import ElementBundle.Proofs.Component.Scaffold
import ElementBundle.Proofs.Component.Extent
import ElementBundle.Proofs.Markup.Attributes
import ElementBundle.Proofs.Markup.Normal
import ElementBundle.Proofs.Source.Segments
import ElementBundle.Proofs.Text.Words
import ElementBundle.Proofs.Text.Pattern
import ElementBundle.Proofs.Markup.TagPattern
import ElementBundle.Proofs.Component.Declared
import ElementBundle.Proofs.Component.Accessors
import ElementBundle.Proofs.Component.RoundTrip
import ElementBundle.Proofs.Markup.Interpolation
import ElementBundle.Proofs.Markup.Stretches
import ElementBundle.Proofs.Component.ReportedLine
import ElementBundle.Proofs.Project.Configuration
