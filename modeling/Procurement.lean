import Procurement.Framework.Program
import Procurement.Framework.Serial
import Procurement.Framework.Table
import Procurement.Framework.Conditional
import Procurement.Framework.Paging
import Procurement.Framework.Columns
import Procurement.Framework.Json
import Procurement.Framework.JsonTexts
import Procurement.Framework.Window
import Procurement.Framework.Coroutine
import Procurement.Framework.EventLoop
import Procurement.Framework.Buttons
import Procurement.Framework.Journal
import Procurement.Framework.Alike
import Procurement.Framework.Slice
import Procurement.Model.Schema
import Procurement.Model.Database
import Procurement.Services.Negotiation
import Procurement.Framework.Replay
import Procurement.Framework.Storing
import Procurement.Framework.Refusing
import Procurement.Model.Columns
import Procurement.Framework.Interleaving
import Procurement.Framework.Discipline
import Procurement.Routers.Endpoints
import Procurement.Services.Spec
import Procurement.Routers.Spec
import Procurement.Routers.Outcome
import Procurement.Routers.Atomicity
import Procurement.Routers.Reads
import Procurement.Runs.Step
import Procurement.Runs.Consistency
import Procurement.Runs.Requests
import Procurement.Runs.History
import Procurement.Runs.Acceptance
import Procurement.Runs.Ledger
import Procurement.Runs.Listings
import Procurement.Runs.Paging
import Procurement.Frontend.Turn
import Procurement.Runs.Trail
import Procurement.Runs.Chains
import Procurement.Protocol.Machine
import Procurement.Protocol.Refinement
import Procurement.Runs.Retries
import Procurement.Runs.Reuse
import Procurement.Runs.Storage
import Procurement.Concurrency.Transactions
import Procurement.Concurrency.Rely
import Procurement.Concurrency.Ready
import Procurement.Concurrency.Stages
import Procurement.Concurrency.Progress
import Procurement.Concurrency.Sound
import Procurement.Concurrency.Serializability
import Procurement.Concurrency.Closings
import Procurement.Concurrency.Deadlock
import Procurement.Concurrency.Keys
import Procurement.Security.RateLimit
import Procurement.Security.Refusals
import Procurement.Security.Threads
import Procurement.Security.Passwords
import Procurement.Security.Scope
import Procurement.Security.Lockstep
import Procurement.Security.Isolation
import Procurement.Security.Confidentiality
import Procurement.Observability.Correlation
import Procurement.Runs.Metadata
import Procurement.Observability.LogLines
import Procurement.Routers.Wire
import Procurement.Runs.Verdicts
import Procurement.Frontend.Api
import Procurement.Frontend.Flow
import Procurement.Security.Sessions
import Procurement.Concurrency.Reads
import Procurement.Concurrency.Registrations
import Procurement.Security.Guessing
import Procurement.Frontend.Browser
import Procurement.Frontend.Locking
import Procurement.Frontend.Reports
import Procurement.Frontend.Feedback
