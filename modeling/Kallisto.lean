import Kallisto.Lib.Text
import Kallisto.Lib.SortedMap
import Kallisto.Lib.Order
import Kallisto.Lib.Split
import Kallisto.Lib.Lines
import Kallisto.Lib.Url
import Kallisto.Lib.U64
import Kallisto.Lib.Runs
import Kallisto.Lib.Potential
import Kallisto.Lib.TwoRuns
import Kallisto.Lib.Chronicle
import Kallisto.Lib.RoundRobin
import Kallisto.Lib.Calendar
import Kallisto.Lib.Json
import Kallisto.Lib.JsonValue
import Kallisto.Lib.JsonReads
import Kallisto.Lib.JsonPretty
import Kallisto.Lib.IpAddr
import Kallisto.Queue.LockFreeQueue
import Kallisto.Queue.SlotProtocol
import Kallisto.Queue.Safety
import Kallisto.Queue.Progress
import Kallisto.Queue.Wrapping
import Kallisto.Crypto.Hex
import Kallisto.Crypto.SealedFile
import Kallisto.Crypto.Barrier
import Kallisto.Crypto.Scratch
import Kallisto.Crypto.Codec
import Kallisto.Crypto.Value
import Kallisto.Policy.Matcher
import Kallisto.Policy.Language
import Kallisto.Policy.Token
import Kallisto.Telemetry.Redact
import Kallisto.Resolver.Snapshot
import Kallisto.Resolver.Authorization
import Kallisto.Resolver.Listing
import Kallisto.Resolver.Faithful
import Kallisto.Resolver.Refresh
import Kallisto.Resolver.Lifetimes
import Kallisto.Resolver.Identity
import Kallisto.Resolver.Sigv4
import Kallisto.Event.CpuPlan
import Kallisto.Server.TimeFormat
import Kallisto.Server.Civil
import Kallisto.Server.Rfc3339
import Kallisto.Server.Request
import Kallisto.Server.Responses
import Kallisto.Server.RateLimit
import Kallisto.Server.TokenBucket
import Kallisto.Server.VaultApi
import Kallisto.Server.Reads
import Kallisto.Server.Query
import Kallisto.Server.Confinement
import Kallisto.Server.Guessing
import Kallisto.Server.Discovery
import Kallisto.Server.DirectoryDeny
import Kallisto.Ctl.Commands
import Kallisto.Ctl.TokenTable
import Kallisto.Ctl.Versions
import Kallisto.Ctl.Bump
import Kallisto.Server.Fidelity
import Kallisto.Server.Health
import Kallisto.Server.Bodies
import Kallisto.Telemetry.AccessLog
import Kallisto.Telemetry.Accounting
import Kallisto.Telemetry.Wakeup
import Kallisto.Telemetry.Shutdown
import Kallisto.Telemetry.LineFormat
import Kallisto.Server.Observe
import Kallisto.Telemetry.Metrics
import Kallisto.Server.Process
import Kallisto.Server.Counters
import Kallisto.Server.Scrapes
import Kallisto.Server.Linear
import Kallisto.Server.Sessions
import Kallisto.Configuration.Overrides
import Kallisto.Configuration.Resolve
import Kallisto.Configuration.Listener
import Kallisto.Ctl.Arguments
import Kallisto.Ctl.Publishing
import Kallisto.Ctl.Minting
import Kallisto.Ctl.Printing
import Kallisto.Event.Pinning
import Kallisto.Resolver.Bucket
import Kallisto.Resolver.Presigned
import Kallisto.Ctl.Verifying
