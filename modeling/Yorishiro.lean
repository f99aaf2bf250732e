import Yorishiro.Lib.OrderedMap
import Yorishiro.Lib.Transition
import Yorishiro.Lib.Json
import Yorishiro.Lib.JsonSchema
import Yorishiro.Lib.Table
import Yorishiro.Lib.Program
import Yorishiro.Lib.ReadCommitted
import Yorishiro.Lib.Versions
import Yorishiro.Base.Uuid
import Yorishiro.Base.Error
import Yorishiro.Base.Quotas
import Yorishiro.Queue.Lifecycle
import Yorishiro.Queue.Outbox
import Yorishiro.Queue.System
import Yorishiro.Queue.Fencing
import Yorishiro.Queue.ClaimProtocol
import Yorishiro.Queue.Terminal
import Yorishiro.Queue.Capacity
import Yorishiro.Queue.Relay
import Yorishiro.Queue.Delivery
import Yorishiro.Queue.Dispatch
import Yorishiro.Queue.Retirement
import Yorishiro.Queue.LiveWork
import Yorishiro.Embedding.Vector
import Yorishiro.Query.Requests
import Yorishiro.Query.Protocol
import Yorishiro.Inference.Jobs
import Yorishiro.Inference.InferFill
import Yorishiro.Inference.Agreement
import Yorishiro.Metaschema.Types
import Yorishiro.Metaschema.Projection
import Yorishiro.Metaschema.Versioning
import Yorishiro.Metaschema.Validate
import Yorishiro.Metaschema.Compatibility
import Yorishiro.Schema.Merge
import Yorishiro.Schema.Store
import Yorishiro.Entity.Validation
import Yorishiro.Entity.Fill
import Yorishiro.Entity.Programs
import Yorishiro.Entity.Rules
import Yorishiro.Entity.Guarded
import Yorishiro.Entity.FillRace
import Yorishiro.Entity.Validity
import Yorishiro.Entity.Restamp
import Yorishiro.Entity.Workspace
import Yorishiro.Entity.StoreValidity
import Yorishiro.Entity.Confirmation
import Yorishiro.Entity.Recording
import Yorishiro.Entity.Undo
import Yorishiro.Entity.Review
import Yorishiro.Entity.Outcomes
import Yorishiro.Embedding.Store
import Yorishiro.Embedding.Runs
import Yorishiro.Embedding.Rebuild
import Yorishiro.Embedding.Jobs
import Yorishiro.Embedding.Freshness
import Yorishiro.Query.Search
import Yorishiro.Lib.Search
import Yorishiro.Schema.Sequence
import Yorishiro.Schema.Forks
import Yorishiro.Schema.Catalog
import Yorishiro.Schema.ForkGraph
import Yorishiro.Schema.VersionRuns
import Yorishiro.Lib.Script
import Yorishiro.Lib.Fence
import Yorishiro.Billing.StripeEvents
import Yorishiro.Billing.PlanOrder
import Yorishiro.Billing.PlanResolution
import Yorishiro.Tenancy.Database
import Yorishiro.Tenancy.Access
import Yorishiro.Tenancy.ApiKeys
import Yorishiro.Tenancy.Authentication
import Yorishiro.Tenancy.Memberships
import Yorishiro.Tenancy.Invites
import Yorishiro.Tenancy.Operations
import Yorishiro.Tenancy.Runs
import Yorishiro.Tenancy.Revocation
import Yorishiro.Tenancy.Delegation
import Yorishiro.Tenancy.OwnerAuthority
import Yorishiro.Tenancy.LastOwner
import Yorishiro.Tenancy.InviteHistory
import Yorishiro.Tenancy.InviteRuns
import Yorishiro.Tenancy.Coherence
import Yorishiro.Tenancy.Previews
import Yorishiro.Tenancy.Provisioning
import Yorishiro.Tenancy.FirstAccount
import Yorishiro.Tenancy.FirstLogin
import Yorishiro.Template.Library
import Yorishiro.Template.Marketplace
import Yorishiro.Template.Isolation
import Yorishiro.Template.Readability
import Yorishiro.Schema.Origin
import Yorishiro.Schema.OriginRuns
import Yorishiro.Schema.OriginAlone
import Yorishiro.Schema.LostEdits
import Yorishiro.Schema.UpstreamNotices
import Yorishiro.Schema.OfficialNotices
import Yorishiro.Quota.Database
import Yorishiro.Quota.Limits
import Yorishiro.Lib.Keyset
import Yorishiro.Lib.Lines
import Yorishiro.Transfer.Operations
import Yorishiro.Transfer.Export
import Yorishiro.Transfer.Moves
import Yorishiro.Transfer.Graph
import Yorishiro.Transfer.GraphRuns
import Yorishiro.Transfer.Mirror
import Yorishiro.Transfer.RoundTrip
import Yorishiro.Transfer.Statuses
import Yorishiro.Tenancy.KeyReports
import Yorishiro.Metaschema.Changes
import Yorishiro.Metaschema.Edits
import Yorishiro.Lib.SchemaKeywords
import Yorishiro.Metaschema.WellFormed
import Yorishiro.Entity.Drift
import Yorishiro.Entity.DryRun
import Yorishiro.Lib.Levels
import Yorishiro.Recall.Neighbors
import Yorishiro.Recall.Context
import Yorishiro.Lib.Quantities
import Yorishiro.Schedule.Interval
import Yorishiro.Lib.Separated
import Yorishiro.Lib.Timestamp
import Yorishiro.Entity.DriftNames
import Yorishiro.Queue.Target
import Yorishiro.Http.RateLimit
import Yorishiro.Http.Signatures
import Yorishiro.Billing.StripeSignature
import Yorishiro.Http.StateToken
import Yorishiro.Http.OAuthCookies
import Yorishiro.Lib.Accounts
import Yorishiro.Billing.Credits
import Yorishiro.Schedule.Tick
import Yorishiro.Lib.SingleWriter
import Yorishiro.Maintenance.Switch
import Yorishiro.Maintenance.LoadGuard
import Yorishiro.Lib.Once
import Yorishiro.Queue.Redelivery
import Yorishiro.Lib.Settings
import Yorishiro.Tenancy.RowSecurity
import Yorishiro.Lib.Files
import Yorishiro.Embedding.ModelFetch
import Yorishiro.Embedding.OpenAi
import Yorishiro.Embedding.Assignment
import Yorishiro.Queue.Handlers
import Yorishiro.Lib.Ranking
import Yorishiro.Recall.Backends
import Yorishiro.Transfer.LiveExport
import Yorishiro.Inference.ProposeFields
import Yorishiro.Transfer.Proposing
import Yorishiro.Embedding.StartupReindex
import Yorishiro.Schedule.Cadence
import Yorishiro.Lib.Paging
import Yorishiro.Query.Lists
import Yorishiro.Lib.Guard
import Yorishiro.Tenancy.Authority
import Yorishiro.Tenancy.Standing
import Yorishiro.Queue.JobFence
