import Gateway.Config.Credentials
import Gateway.Contracts.Admission
import Gateway.Contracts.Canonical
import Gateway.Contracts.Conformance
import Gateway.Contracts.Decoder
import Gateway.Contracts.DecoderOrder
import Gateway.Contracts.Digest
import Gateway.Contracts.Documents
import Gateway.Contracts.Grammar
import Gateway.Contracts.Identity
import Gateway.Contracts.Ingress
import Gateway.Contracts.Json
import Gateway.Contracts.Number
import Gateway.Contracts.NumberAdmission
import Gateway.Contracts.NumberText
import Gateway.Contracts.Order
import Gateway.Contracts.OrderFree
import Gateway.Contracts.PassageBudget
import Gateway.Contracts.Projection
import Gateway.Contracts.Request
import Gateway.Contracts.RoundTrip
import Gateway.Contracts.Schema
import Gateway.Contracts.Spelling
import Gateway.Contracts.Validator
import Gateway.Contracts.Wire
import Gateway.Foundation.Calendar
import Gateway.Foundation.Datetime
import Gateway.Foundation.Decimal
import Gateway.Foundation.Interaction
import Gateway.Foundation.JsonBlame
import Gateway.Foundation.JsonBytes
import Gateway.Foundation.JsonClosed
import Gateway.Foundation.JsonGrammar
import Gateway.Foundation.JsonScan
import Gateway.Foundation.JsonText
import Gateway.Foundation.KeyedTable
import Gateway.Foundation.Lines
import Gateway.Foundation.Openings
import Gateway.Foundation.Overflow
import Gateway.Foundation.Results
import Gateway.Foundation.Rfc3339
import Gateway.Foundation.Rounding
import Gateway.Foundation.Sequencing
import Gateway.Foundation.Simulation
import Gateway.Foundation.Text
import Gateway.Foundation.Transition
import Gateway.Service.Acknowledgement
import Gateway.Service.Ambiguity
import Gateway.Service.AtMostOnce
import Gateway.Service.Attempts
import Gateway.Service.Calls
import Gateway.Service.Dispatch
import Gateway.Service.Failures
import Gateway.Service.Gateway
import Gateway.Service.Health
import Gateway.Service.Lane
import Gateway.Service.Outlives
import Gateway.Service.Ownership
import Gateway.Service.Policy
import Gateway.Service.Progress
import Gateway.Service.Refusals
import Gateway.Service.Replay
import Gateway.Service.Routes
import Gateway.Service.Sealing
import Gateway.Service.Server
import Gateway.Service.SharedResult
import Gateway.Service.ShortRetention
import Gateway.Service.StoreCalls
import Gateway.Service.Tombstone
import Gateway.Store.Answers
import Gateway.Store.Capacity
import Gateway.Store.Effects
import Gateway.Store.Expired
import Gateway.Store.Expiry
import Gateway.Store.Lifecycle
import Gateway.Store.Maintained
import Gateway.Store.Moves
import Gateway.Store.Operations
import Gateway.Store.Row
import Gateway.Store.Statements
import Gateway.Store.Transparent
import Gateway.Worker.Availability
import Gateway.Worker.Capacity
import Gateway.Worker.Choking
import Gateway.Worker.Content
import Gateway.Worker.Fallback
import Gateway.Worker.Health
import Gateway.Worker.Http
import Gateway.Worker.Infer
import Gateway.Worker.Ordering
import Gateway.Worker.Outcomes
import Gateway.Worker.Payload
import Gateway.Worker.Spelling
import Gateway.Worker.Submission
