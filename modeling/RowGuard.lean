import RowGuard.Dict
import RowGuard.Number.Shortest
import RowGuard.Number.Reading
import RowGuard.Json.Order
import RowGuard.Json.Reader
import RowGuard.Text.Blank
import RowGuard.Text.Uppercase
import RowGuard.Text.Folding
import RowGuard.Text.Debug
import RowGuard.Failure
import RowGuard.Environment
import RowGuard.Schema
import RowGuard.Condition.Match
import RowGuard.Query.Execution
import RowGuard.Query.Rendering
import RowGuard.Wire.Decode
import RowGuard.Wire.Query
import RowGuard.Wire.Schema
import RowGuard.Wire.Failure
import RowGuard.Wire.Identity
import RowGuard.Wire.Config
import RowGuard.Predicate
import RowGuard.Script.Predicate
import RowGuard.Script.Query
import RowGuard.Store.Tables
import RowGuard.Gate
import RowGuard.Synced.Queries
import RowGuard.Batch
import RowGuard.Connection
import RowGuard.Wire.Push
import RowGuard.Wire.Client
import RowGuard.Store.Database
import RowGuard.Schedule.Machine
import RowGuard.Server.Transaction
import RowGuard.Server.Push
import RowGuard.Server.Answer
import RowGuard.Client.Runner
import RowGuard.Script.Body
import RowGuard.Script.Store
import RowGuard.Script.Trusted
import RowGuard.Proofs.Store.Isolation
import RowGuard.Proofs.Gate.KeyAgreement
import RowGuard.Proofs.Gate.GuardedWrites
import RowGuard.Proofs.Gate.Exactness
import RowGuard.Proofs.Gate.BlanketAllow
import RowGuard.Proofs.Gate.PermissionCheck
import RowGuard.Proofs.Push.Serializability
import RowGuard.Proofs.Push.Authorization
import RowGuard.Proofs.Push.DeferredWork
import RowGuard.Proofs.Gate.Disclosure
import RowGuard.Proofs.Gate.AdminBypass
import RowGuard.Proofs.Gate.Suppression
import RowGuard.Proofs.Mutation.Names
import RowGuard.Proofs.Store.Rows
import RowGuard.Proofs.Store.RequiredColumns
import RowGuard.Proofs.Store.Seeding
import RowGuard.Proofs.Client.Prediction
import RowGuard.Proofs.Client.Replica
import RowGuard.Proofs.Store.Defaults
import RowGuard.Proofs.Store.Repetition
import RowGuard.Proofs.Store.KeyedMap
import RowGuard.Proofs.Wire.Objects
import RowGuard.Proofs.Wire.RoundTrip
import RowGuard.Proofs.Program.LeavesOpen
import RowGuard.Proofs.Schedule.Brackets
import RowGuard.Proofs.Server.FailedCalls
import RowGuard.Proofs.Query.Selection
import RowGuard.Proofs.Query.Paging
import RowGuard.Proofs.Query.PageLimits
import RowGuard.Proofs.Query.Filters
import RowGuard.Proofs.Gate.TableReports
import RowGuard.Proofs.Condition.Membership
import RowGuard.Proofs.Condition.Patterns
import RowGuard.Proofs.Json.SortOrder
import RowGuard.Proofs.Query.Ties
import RowGuard.Proofs.Synced.Groups
import RowGuard.Proofs.Wire.Identities
