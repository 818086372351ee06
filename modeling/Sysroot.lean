import Sysroot.Catalog.Basic
import Sysroot.Catalog.Order
import Sysroot.Catalog.Standard
import Sysroot.Configure.Arguments
import Sysroot.Configure.Entry
import Sysroot.Error.Cause
import Sysroot.Error.Diagnostic
import Sysroot.Error.System
import Sysroot.Fingerprint.Basic
import Sysroot.Fingerprint.Cbor
import Sysroot.Fingerprint.Export
import Sysroot.Fingerprint.OfTree
import Sysroot.Fingerprint.Sha256
import Sysroot.Install.Manifest
import Sysroot.Install.Transaction
import Sysroot.Journal.Event
import Sysroot.Journal.Record
import Sysroot.Json.Basic
import Sysroot.Json.Reader
import Sysroot.Json.Writer
import Sysroot.Library
import Sysroot.Library.Reading
import Sysroot.OrderedMap
import Sysroot.Path
import Sysroot.Pattern
import Sysroot.Plan.Basic
import Sysroot.Plan.Choice
import Sysroot.Plan.Configured
import Sysroot.Plan.Native
import Sysroot.Proofs.Catalog.Closure
import Sysroot.Proofs.Catalog.Cycle
import Sysroot.Proofs.Catalog.LeastOrder
import Sysroot.Proofs.Catalog.Order
import Sysroot.Proofs.Catalog.Prerequisites
import Sysroot.Proofs.Catalog.Soundness
import Sysroot.Proofs.Effect
import Sysroot.Proofs.Install.AllOrNothing
import Sysroot.Proofs.Install.CopyEach
import Sysroot.Proofs.Install.Copying
import Sysroot.Proofs.Install.Linkless
import Sysroot.Proofs.Install.Listing
import Sysroot.Proofs.Install.Ownership
import Sysroot.Proofs.Install.Precedence
import Sysroot.Proofs.Install.Progress
import Sysroot.Proofs.Install.Recording
import Sysroot.Proofs.Install.Siting
import Sysroot.Proofs.Install.Sources
import Sysroot.Proofs.Install.Transacting
import Sysroot.Proofs.Install.Undoing
import Sysroot.Proofs.Json.RoundTrip
import Sysroot.Proofs.Json.Strings
import Sysroot.Proofs.Run.FailFast
import Sysroot.Proofs.Run.History
import Sysroot.Proofs.Run.LifeCycle
import Sysroot.Proofs.Tree.Actions
import Sysroot.Proofs.Tree.Operations
import Sysroot.Proofs.Tree.Paving
import Sysroot.Proofs.Tree.Resolution
import Sysroot.Proofs.Tree.Seat
import Sysroot.Proofs.Tree.Spelling
import Sysroot.Run.Bench
import Sysroot.Run.Builder
import Sysroot.Run.Library
import Sysroot.Run.Result
import Sysroot.Runner.Basic
import Sysroot.Runner.Host
import Sysroot.Runner.Rehearsal
import Sysroot.Runner.Script
import Sysroot.Runner.StandIn
import Sysroot.Settings
import Sysroot.Settings.File
import Sysroot.Template.Expand
import Sysroot.Template.Fault
import Sysroot.Template.Field
import Sysroot.Template.Part
import Sysroot.Template.Spec
import Sysroot.Text.Blank
import Sysroot.Text.Hex
import Sysroot.Text.Lines
import Sysroot.Text.Numeral
import Sysroot.Text.Printable
import Sysroot.Text.Quoted
import Sysroot.Text.Utf8
import Sysroot.Tool
import Sysroot.Toolchain.Basic
import Sysroot.Toolchain.PlatformFile
import Sysroot.Tree.Action
import Sysroot.Tree.Basic
import Sysroot.Tree.Resolve
import Sysroot.Tree.Select
import Sysroot.Tree.Walk
import Sysroot.Triple
import Sysroot.Proofs.Tree.Refusals
import Sysroot.Proofs.Run.Escapes
import Sysroot.Proofs.Tree.Confined
import Sysroot.Proofs.Plan.Places
import Sysroot.Proofs.Run.Grounds
import Sysroot.Proofs.Install.Astray
import Sysroot.Proofs.Run.Steps
import Sysroot.Proofs.Run.Deliveries
import Sysroot.Proofs.Run.OnlyInstalls
import Sysroot.Proofs.Run.Validation
import Sysroot.Proofs.Run.Presence
import Sysroot.Proofs.Tree.Pointwise
import Sysroot.Proofs.Run.Rehearsing
import Sysroot.Proofs.Install.Agreement
import Sysroot.Proofs.Plan.Determined
import Sysroot.Proofs.Run.Twins
import Sysroot.Proofs.Run.CleanBuild
import Sysroot.Proofs.Install.Outcome
import Sysroot.Proofs.Fingerprint.Exports
import Sysroot.Proofs.Install.Commuting
import Sysroot.Proofs.Install.Standing
import Sysroot.Proofs.Plan.Again
import Sysroot.Proofs.Run.Repeating
import Sysroot.Proofs.Install.Absorbing
import Sysroot.Proofs.Plan.Objects
import Sysroot.Proofs.Run.Artifacts
import Sysroot.Proofs.Run.Embedding
import Sysroot.Proofs.Run.Finishing
import Sysroot.Proofs.Run.Sources
import Sysroot.Proofs.Fingerprint.Comparison
import Sysroot.Proofs.Runner.Tail
import Sysroot.Proofs.Template.Written
import Sysroot.Proofs.Toolchain.Programs
import Sysroot.Proofs.Run.Again
import Sysroot.Proofs.Toolchain.Triple
import Sysroot.Proofs.Library.Reading
import Sysroot.Proofs.Settings.Overriding
import Sysroot.Proofs.Template.Unreported
import Sysroot.Proofs.Library.Lists
import Sysroot.Proofs.Configure.Definitions
import Sysroot.Proofs.Journal.Lines
import Sysroot.Proofs.Settings.Escapes
