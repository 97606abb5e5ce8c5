import InletRegistry.Access.Authentication
import InletRegistry.Access.Grant
import InletRegistry.Access.Token
import InletRegistry.Audit
import InletRegistry.Cli.Arguments
import InletRegistry.Cli.LogFilter
import InletRegistry.Cli.Startup
import InletRegistry.Cluster.Membership
import InletRegistry.Config.Basic
import InletRegistry.Config.Load
import InletRegistry.Config.Record
import InletRegistry.Course
import InletRegistry.Digest.Sha256
import InletRegistry.Document
import InletRegistry.Failure
import InletRegistry.Fleet.Session
import InletRegistry.Http.Frame
import InletRegistry.Http.Header
import InletRegistry.Http.Message
import InletRegistry.Http.Route
import InletRegistry.Http.Target
import InletRegistry.Inlet.Basic
import InletRegistry.Inlet.Entity
import InletRegistry.Inlet.Store
import InletRegistry.Json.Basic
import InletRegistry.Json.Binary64
import InletRegistry.Json.Number
import InletRegistry.Json.Printer
import InletRegistry.Json.Reader
import InletRegistry.Json.Record
import InletRegistry.Json.Token
import InletRegistry.Locks.Basic
import InletRegistry.Locks.Event
import InletRegistry.Locks.Session
import InletRegistry.Main
import InletRegistry.Net.SocketAddress
import InletRegistry.Net.Url
import InletRegistry.Node.Basic
import InletRegistry.Registry.Operation
import InletRegistry.Registry.Order
import InletRegistry.Registry.Service
import InletRegistry.Revision
import InletRegistry.Routing.Dispatch
import InletRegistry.Routing.Hop
import InletRegistry.Routing.Wire
import InletRegistry.Settings.Basic
import InletRegistry.Settings.Place
import InletRegistry.Settings.Source
import InletRegistry.Text.Base64
import InletRegistry.Text.Blank
import InletRegistry.Text.Digits
import InletRegistry.Text.Percent
import InletRegistry.Text.Pieces
import InletRegistry.Text.Punycode
import InletRegistry.Text.Utf8
import InletRegistry.Text.Uuid
import InletRegistry.Time.Calendar
import InletRegistry.Time.Duration
import InletRegistry.Toml.Moment
import InletRegistry.Toml.Reader
import InletRegistry.Toml.Scalar
import InletRegistry.Toml.Table
import InletRegistry.Toml.Token
import InletRegistry.Write.Counter
import InletRegistry.Write.Pipeline
import InletRegistry.Proofs.Locks.Sound
import InletRegistry.Proofs.Locks.Acting
import InletRegistry.Proofs.Locks.Exclusion
import InletRegistry.Proofs.Locks.Eviction
import InletRegistry.Proofs.Inlet.Store
import InletRegistry.Registry.Traffic
import InletRegistry.Proofs.Registry.Checks
import InletRegistry.Proofs.Registry.Orderly
import InletRegistry.Proofs.Registry.History
import InletRegistry.Proofs.Registry.Lineage
import InletRegistry.Proofs.Registry.RoleChange
import InletRegistry.Proofs.Registry.Acting
import InletRegistry.Proofs.Node.Assess
import InletRegistry.Proofs.Http.Header
import InletRegistry.Proofs.Node.Location
import InletRegistry.Proofs.Fleet.Hops
import InletRegistry.Proofs.Write.Account
import InletRegistry.Proofs.Write.Desk
import InletRegistry.Proofs.Write.Alone
import InletRegistry.Node.Reception
import InletRegistry.Proofs.Locks.Prompt
import InletRegistry.Proofs.Locks.Queue
import InletRegistry.Proofs.Locks.Transcript
import InletRegistry.Proofs.Locks.Running
import InletRegistry.Proofs.Locks.Settling
import InletRegistry.Proofs.Locks.Fairness
import InletRegistry.Proofs.Registry.Failing
import InletRegistry.Proofs.Registry.Prompt
import InletRegistry.Proofs.Node.Reception
import InletRegistry.Proofs.Node.Failures
import InletRegistry.Proofs.Inlet.Rules
import InletRegistry.Proofs.Registry.Life
import InletRegistry.Proofs.Registry.Requests
import InletRegistry.Proofs.Registry.Outcomes
import InletRegistry.Proofs.Node.Statuses
import InletRegistry.Proofs.Registry.Trail
import InletRegistry.Proofs.Registry.Strangers
import InletRegistry.Proofs.Registry.Tandem
import InletRegistry.Proofs.Cluster.Membership
import InletRegistry.Routing.Junction
import InletRegistry.Proofs.Routing.Junction
import InletRegistry.Proofs.Locks.Besides
import InletRegistry.Proofs.Locks.Visit
import InletRegistry.Proofs.Registry.Upshot
import InletRegistry.Proofs.Registry.Answers
import InletRegistry.Registry.Events
import InletRegistry.Proofs.Registry.Besides
import InletRegistry.Proofs.Registry.Independence
import InletRegistry.Proofs.Text.Utf8
import InletRegistry.Proofs.Json.Numeral
import InletRegistry.Proofs.Json.Scanning
import InletRegistry.Proofs.Json.RoundTrip
import InletRegistry.Proofs.Inlet.Entity
import InletRegistry.Proofs.Registry.Meanwhile
import InletRegistry.Proofs.Registry.Restating
import InletRegistry.Proofs.Registry.SentBack
import InletRegistry.Proofs.Text.Pieces
import InletRegistry.Proofs.Access.Authentication
import InletRegistry.Proofs.Node.Admission
import InletRegistry.Proofs.Node.Verbatim
import InletRegistry.Proofs.Node.Answers
import InletRegistry.Proofs.Node.Signature
import InletRegistry.Proofs.Node.Refusals
import InletRegistry.Proofs.Text.Percent
import InletRegistry.Proofs.Text.Form
import InletRegistry.Proofs.Http.Target
import InletRegistry.Proofs.Net.Url
import InletRegistry.Proofs.Routing.Wire
import InletRegistry.Proofs.Routing.Hop
import InletRegistry.Proofs.Node.Checked
import InletRegistry.Proofs.Node.Decision
import InletRegistry.Proofs.Text.Spelling
import InletRegistry.Proofs.Inlet.Naming
import InletRegistry.Proofs.Routing.Connection
import InletRegistry.Proofs.Text.Uuid
import InletRegistry.Proofs.Node.Identifier
import InletRegistry.Proofs.Net.Uri
import InletRegistry.Proofs.Inlet.Uri
import InletRegistry.Proofs.Inlet.Proposal
import InletRegistry.Proofs.Access.Grant
import InletRegistry.Proofs.Text.Base64
import InletRegistry.Proofs.Json.Plain
import InletRegistry.Proofs.Access.Token
import InletRegistry.Proofs.Audit
import InletRegistry.Proofs.Text.Decimal
import InletRegistry.Proofs.Http.Removal
import InletRegistry.Proofs.Node.Removal
