import LiveProperty.Bridge.Key
import LiveProperty.Bridge.Query
import LiveProperty.BridgeError
import LiveProperty.Cache
import LiveProperty.Dictionary
import LiveProperty.Envelope
import LiveProperty.Json.Basic
import LiveProperty.Json.Tree
import LiveProperty.Json.Written
import LiveProperty.Machine.Begin
import LiveProperty.Machine.Command
import LiveProperty.Machine.Inspection
import LiveProperty.Machine.Journal
import LiveProperty.Machine.Object
import LiveProperty.Machine.Reply
import LiveProperty.Machine.Step
import LiveProperty.Machine.Task
import LiveProperty.Machine.World
import LiveProperty.Notifier
import LiveProperty.Number.Binary
import LiveProperty.Number.Decimal
import LiveProperty.Number.ScaledWord
import LiveProperty.Observation.Owner
import LiveProperty.Observation.Registrar
import LiveProperty.Observation.Scope
import LiveProperty.Pool
import LiveProperty.Proofs.AppliedChanges
import LiveProperty.Proofs.Dictionaries
import LiveProperty.Proofs.DroppedBridges
import LiveProperty.Proofs.History
import LiveProperty.Proofs.Isolation
import LiveProperty.Proofs.Json.Canonical
import LiveProperty.Proofs.Json.FieldMaps
import LiveProperty.Proofs.Json.Reading
import LiveProperty.Proofs.Json.Scalars
import LiveProperty.Proofs.KeyReads
import LiveProperty.Proofs.KeyWrites
import LiveProperty.Proofs.Machine.Abreast
import LiveProperty.Proofs.Machine.Accords
import LiveProperty.Proofs.Machine.Agreements
import LiveProperty.Proofs.Machine.Announcements
import LiveProperty.Proofs.Machine.AnyContexts
import LiveProperty.Proofs.Machine.AskedContexts
import LiveProperty.Proofs.Machine.Attachments
import LiveProperty.Proofs.Machine.Begins
import LiveProperty.Proofs.Machine.Bystanders
import LiveProperty.Proofs.Machine.Calls
import LiveProperty.Proofs.Machine.Contexts
import LiveProperty.Proofs.Machine.Cores
import LiveProperty.Proofs.Machine.Courses
import LiveProperty.Proofs.Machine.Deliveries
import LiveProperty.Proofs.Machine.Edits
import LiveProperty.Proofs.Machine.Effects
import LiveProperty.Proofs.Machine.Fetches
import LiveProperty.Proofs.Machine.Follows
import LiveProperty.Proofs.Machine.Generations
import LiveProperty.Proofs.Machine.Handles
import LiveProperty.Proofs.Machine.Invalidations
import LiveProperty.Proofs.Machine.Observers
import LiveProperty.Proofs.Machine.OwnContexts
import LiveProperty.Proofs.Machine.Parallels
import LiveProperty.Proofs.Machine.Quiet
import LiveProperty.Proofs.Machine.References
import LiveProperty.Proofs.Machine.Registrations
import LiveProperty.Proofs.Machine.Rosters
import LiveProperty.Proofs.Machine.RowWrites
import LiveProperty.Proofs.Machine.Runs
import LiveProperty.Proofs.Machine.Scopes
import LiveProperty.Proofs.Machine.Shelters
import LiveProperty.Proofs.Machine.Sources
import LiveProperty.Proofs.Machine.StoredRows
import LiveProperty.Proofs.Machine.StoredValues
import LiveProperty.Proofs.Machine.Termination
import LiveProperty.Proofs.Machine.Trackers
import LiveProperty.Proofs.Machine.Warnings
import LiveProperty.Proofs.Memoization
import LiveProperty.Proofs.MissingContexts
import LiveProperty.Proofs.Notifications
import LiveProperty.Proofs.Observations
import LiveProperty.Proofs.Pages
import LiveProperty.Proofs.Pools
import LiveProperty.Proofs.QueryContexts
import LiveProperty.Proofs.QueryReads
import LiveProperty.Proofs.Reactions
import LiveProperty.Proofs.Rows
import LiveProperty.Proofs.Saves
import LiveProperty.Proofs.ScopedReads
import LiveProperty.Proofs.SortStages
import LiveProperty.Proofs.Storables
import LiveProperty.Proofs.Tables
import LiveProperty.Proofs.Text.Utf8
import LiveProperty.Proofs.Tokens
import LiveProperty.Proofs.WriteBacks
import LiveProperty.Query.Change
import LiveProperty.Query.Context
import LiveProperty.Query.Descriptor
import LiveProperty.Query.History
import LiveProperty.Query.Memory
import LiveProperty.Query.Row
import LiveProperty.Store.Basic
import LiveProperty.Store.Storable
import LiveProperty.Store.Url
import LiveProperty.Store.Value
import LiveProperty.Text.Description
import LiveProperty.Text.Unprintable
import LiveProperty.Text.Utf8
