import Phrasebook.Accessor
import Phrasebook.CommandLine
import Phrasebook.Decimal
import Phrasebook.FileTree
import Phrasebook.Host
import Phrasebook.Json.Basic
import Phrasebook.Json.Document
import Phrasebook.Language
import Phrasebook.Main
import Phrasebook.Manifest.Basic
import Phrasebook.Manifest.Reading
import Phrasebook.Markup
import Phrasebook.Proofs.Accessor.Acceptance
import Phrasebook.Proofs.Accessor.Lookup
import Phrasebook.Proofs.Accessor.Missing
import Phrasebook.Proofs.Accessor.Refusal
import Phrasebook.Proofs.CommandLine.KeyForKey
import Phrasebook.Proofs.CommandLine.KeyLines
import Phrasebook.Proofs.CommandLine.Passing
import Phrasebook.Proofs.FileTree
import Phrasebook.Proofs.Language
import Phrasebook.Proofs.Manifest.Fields
import Phrasebook.Proofs.Manifest.Languages
import Phrasebook.Proofs.Markup.Bytewise
import Phrasebook.Proofs.Markup.Grammar
import Phrasebook.Proofs.Markup.Html
import Phrasebook.Proofs.Markup.Nesting
import Phrasebook.Proofs.Markup.Octets
import Phrasebook.Proofs.Markup.Openers
import Phrasebook.Proofs.Markup.Parsing
import Phrasebook.Proofs.Markup.Printing
import Phrasebook.Proofs.Markup.Spans
import Phrasebook.Proofs.Places
import Phrasebook.Proofs.Registry.Callers
import Phrasebook.Proofs.Registry.Coalescing
import Phrasebook.Proofs.Registry.Languages
import Phrasebook.Proofs.Registry.Normalization
import Phrasebook.Proofs.Registry.Sharing
import Phrasebook.Proofs.Rehearsal
import Phrasebook.Proofs.Retry
import Phrasebook.Proofs.Session.Accounting
import Phrasebook.Proofs.Session.Acts
import Phrasebook.Proofs.Session.Content
import Phrasebook.Proofs.Session.Convergence
import Phrasebook.Proofs.Session.Delivery
import Phrasebook.Proofs.Session.Initial
import Phrasebook.Proofs.Session.Locking
import Phrasebook.Proofs.Session.Moves
import Phrasebook.Proofs.Session.Order
import Phrasebook.Proofs.Session.Outcomes
import Phrasebook.Proofs.Session.Persistence
import Phrasebook.Proofs.Session.Presenting
import Phrasebook.Proofs.Session.Progress
import Phrasebook.Proofs.Session.Requests
import Phrasebook.Proofs.Session.Schedule
import Phrasebook.Proofs.Session.Settling
import Phrasebook.Proofs.Session.Sources
import Phrasebook.Proofs.Session.Steps
import Phrasebook.Proofs.Session.Storing
import Phrasebook.Proofs.Session.Switches
import Phrasebook.Proofs.Session.Writes
import Phrasebook.Proofs.Template.Flags
import Phrasebook.Proofs.Template.Formatting
import Phrasebook.Proofs.Template.Pattern
import Phrasebook.Proofs.Template.Substitution
import Phrasebook.Proofs.Template.Variables
import Phrasebook.Proofs.Text
import Phrasebook.Proofs.Turn
import Phrasebook.Proofs.Validation.Findings
import Phrasebook.Proofs.Validation.Gaps
import Phrasebook.Proofs.Validation.Prediction
import Phrasebook.Proofs.Validation.Shapes
import Phrasebook.Registry
import Phrasebook.Rehearsal
import Phrasebook.Retry
import Phrasebook.Schema
import Phrasebook.Session.Basic
import Phrasebook.Session.Start
import Phrasebook.Session.Switching
import Phrasebook.Settings
import Phrasebook.Template
import Phrasebook.Text.Basic
import Phrasebook.Text.Quoted
import Phrasebook.Validation
