import Lockstep.Calendar
import Lockstep.Command.Answer
import Lockstep.Command.Needs
import Lockstep.Command.Request
import Lockstep.Config.Checked
import Lockstep.Config.Entry
import Lockstep.Config.Issue
import Lockstep.Config.Job
import Lockstep.Config.Loading
import Lockstep.Config.Location
import Lockstep.Config.Shorthand
import Lockstep.Engine.Action
import Lockstep.Engine.Feed
import Lockstep.Engine.Pool
import Lockstep.Engine.Run
import Lockstep.Engine.Rupture
import Lockstep.Engine.Session
import Lockstep.Engine.Source
import Lockstep.Engine.Step
import Lockstep.Engine.Synchronization
import Lockstep.Environment.Binding
import Lockstep.Environment.Variables
import Lockstep.Fault
import Lockstep.Files.Path
import Lockstep.Files.Workspace
import Lockstep.Job.Build
import Lockstep.Job.Context
import Lockstep.Job.Run
import Lockstep.Journal
import Lockstep.Json.Reading
import Lockstep.Json.Writing
import Lockstep.Key.Code
import Lockstep.Key.Field
import Lockstep.Key.Frontier
import Lockstep.Main
import Lockstep.Numeral.Binary64
import Lockstep.Numeral.Layout
import Lockstep.Numeral.Power
import Lockstep.Numeral.Reading
import Lockstep.Numeral.Shortest
import Lockstep.Proofs.Accounts
import Lockstep.Proofs.Brackets
import Lockstep.Proofs.Checking
import Lockstep.Proofs.Config.Acceptance
import Lockstep.Proofs.Config.Depth
import Lockstep.Proofs.Config.Loading
import Lockstep.Proofs.Config.Shorthand
import Lockstep.Proofs.Counting
import Lockstep.Proofs.Engine.Abreast
import Lockstep.Proofs.Engine.Cascade
import Lockstep.Proofs.Engine.Course
import Lockstep.Proofs.Engine.Each
import Lockstep.Proofs.Engine.Group
import Lockstep.Proofs.Engine.Intake
import Lockstep.Proofs.Engine.Lane
import Lockstep.Proofs.Engine.Levels
import Lockstep.Proofs.Engine.Moves
import Lockstep.Proofs.Engine.Paired
import Lockstep.Proofs.Engine.Phase
import Lockstep.Proofs.Engine.Refit
import Lockstep.Proofs.Engine.Requests
import Lockstep.Proofs.Engine.Stream
import Lockstep.Proofs.Engine.Tandem
import Lockstep.Proofs.Engine.Turn
import Lockstep.Proofs.Engine.Visit
import Lockstep.Proofs.Extent
import Lockstep.Proofs.Frontier
import Lockstep.Proofs.Headings
import Lockstep.Proofs.Interruption
import Lockstep.Proofs.Job.Building
import Lockstep.Proofs.Job.Construction
import Lockstep.Proofs.Job.Running
import Lockstep.Proofs.Key.Grouping
import Lockstep.Proofs.Key.Integer
import Lockstep.Proofs.Key.Interval
import Lockstep.Proofs.Key.Order
import Lockstep.Proofs.Key.Padding
import Lockstep.Proofs.Key.Tuple
import Lockstep.Proofs.Labels
import Lockstep.Proofs.Lookahead
import Lockstep.Proofs.Lookup
import Lockstep.Proofs.Mask
import Lockstep.Proofs.Merge
import Lockstep.Proofs.Multijoin
import Lockstep.Proofs.Nesting
import Lockstep.Proofs.Neutral
import Lockstep.Proofs.Noninterference
import Lockstep.Proofs.Position
import Lockstep.Proofs.Rearrangement
import Lockstep.Proofs.Records.SortedStart
import Lockstep.Proofs.Registration
import Lockstep.Proofs.Sessions
import Lockstep.Proofs.Staging
import Lockstep.Proofs.Termination
import Lockstep.Proofs.Text.Pieces
import Lockstep.Proofs.Yaml.Faults
import Lockstep.Records.Delimited
import Lockstep.Records.FileLines
import Lockstep.Records.JsonLines
import Lockstep.Records.Opening
import Lockstep.Records.Ordered
import Lockstep.Report.Basic
import Lockstep.Report.Format
import Lockstep.Table.Basic
import Lockstep.Table.Column
import Lockstep.Text.Base64
import Lockstep.Text.Blank
import Lockstep.Text.Decimal
import Lockstep.Text.Hex
import Lockstep.Text.Lines
import Lockstep.Text.Printable
import Lockstep.Text.Quoted
import Lockstep.Text.Utf8
import Lockstep.Value.Basic
import Lockstep.Value.Display
import Lockstep.Value.Key
import Lockstep.Value.Order
import Lockstep.Yaml.Cursor
import Lockstep.Yaml.Document
import Lockstep.Yaml.Layout
import Lockstep.Yaml.Node
import Lockstep.Yaml.Scalar
import Lockstep.Yaml.Tag
import Lockstep.Yaml.Token
