import StreamBroker.Broker.Run
import StreamBroker.KeyValue.Bucket
import StreamBroker.Message.Document
import StreamBroker.ObjectBucket.Bucket
import StreamBroker.Proofs.Ascending
import StreamBroker.Proofs.Broker.Acts
import StreamBroker.Proofs.Broker.Ages
import StreamBroker.Proofs.Broker.Calls
import StreamBroker.Proofs.Broker.Deeds
import StreamBroker.Proofs.Broker.Delivering
import StreamBroker.Proofs.Broker.Faithful
import StreamBroker.Proofs.Broker.History
import StreamBroker.Proofs.Broker.Hosted
import StreamBroker.Proofs.Broker.Ledger
import StreamBroker.Proofs.Broker.Origins
import StreamBroker.Proofs.Broker.Places
import StreamBroker.Proofs.Broker.Pulls
import StreamBroker.Proofs.Broker.Queued
import StreamBroker.Proofs.Broker.Refused
import StreamBroker.Proofs.Broker.Registry
import StreamBroker.Proofs.Broker.Rounds
import StreamBroker.Proofs.Broker.Routing
import StreamBroker.Proofs.Broker.Serving
import StreamBroker.Proofs.Broker.Stale
import StreamBroker.Proofs.Broker.Standing
import StreamBroker.Proofs.Broker.Turns
import StreamBroker.Proofs.Broker.Watching
import StreamBroker.Proofs.Cursor.Accounts
import StreamBroker.Proofs.Cursor.AnyOrder
import StreamBroker.Proofs.Cursor.Batches
import StreamBroker.Proofs.Cursor.Course
import StreamBroker.Proofs.Cursor.FirstDeliveries
import StreamBroker.Proofs.Cursor.Floor
import StreamBroker.Proofs.Cursor.Handed
import StreamBroker.Proofs.Cursor.Ignored
import StreamBroker.Proofs.Cursor.Limits
import StreamBroker.Proofs.Cursor.Orderly
import StreamBroker.Proofs.Cursor.PassedOver
import StreamBroker.Proofs.Cursor.Rests
import StreamBroker.Proofs.Cursor.Serves
import StreamBroker.Proofs.Cursor.Steps
import StreamBroker.Proofs.Cursor.Tracks
import StreamBroker.Proofs.Cursor.Undue
import StreamBroker.Proofs.Entry.Capacity
import StreamBroker.Proofs.Entry.RoundTrip
import StreamBroker.Proofs.Entry.Torn
import StreamBroker.Proofs.Except
import StreamBroker.Proofs.Feed
import StreamBroker.Proofs.Index.AnyOrder
import StreamBroker.Proofs.Index.Coherent
import StreamBroker.Proofs.Index.Dated
import StreamBroker.Proofs.Index.Limits
import StreamBroker.Proofs.Index.Pruned
import StreamBroker.Proofs.Index.Purged
import StreamBroker.Proofs.Index.Queries
import StreamBroker.Proofs.Index.Reached
import StreamBroker.Proofs.Index.Recount
import StreamBroker.Proofs.Index.Removal
import StreamBroker.Proofs.Index.Sound
import StreamBroker.Proofs.Index.Trimmed
import StreamBroker.Proofs.Journal.Crash
import StreamBroker.Proofs.Journal.Dated
import StreamBroker.Proofs.Journal.Legible
import StreamBroker.Proofs.Journal.Mirror
import StreamBroker.Proofs.Journal.Performed
import StreamBroker.Proofs.Journal.Recovery
import StreamBroker.Proofs.Json.Records
import StreamBroker.Proofs.Json.RoundTrip
import StreamBroker.Proofs.Json.Strings
import StreamBroker.Proofs.KeyValue.Held
import StreamBroker.Proofs.KeyValue.Map
import StreamBroker.Proofs.KeyValue.Moves
import StreamBroker.Proofs.KeyValue.Refinement
import StreamBroker.Proofs.KeyValue.Runs
import StreamBroker.Proofs.KeyValue.Sizes
import StreamBroker.Proofs.KeyValue.Watching
import StreamBroker.Proofs.LogStore.Directory
import StreamBroker.Proofs.LogStore.Effect
import StreamBroker.Proofs.LogStore.Holds
import StreamBroker.Proofs.LogStore.Interchange
import StreamBroker.Proofs.LogStore.Interrupted
import StreamBroker.Proofs.Lookup
import StreamBroker.Proofs.ObjectBucket.Aging
import StreamBroker.Proofs.ObjectBucket.Description
import StreamBroker.Proofs.ObjectBucket.Faded
import StreamBroker.Proofs.ObjectBucket.Lodged
import StreamBroker.Proofs.ObjectBucket.Looks
import StreamBroker.Proofs.ObjectBucket.Map
import StreamBroker.Proofs.ObjectBucket.Moves
import StreamBroker.Proofs.ObjectBucket.Operations
import StreamBroker.Proofs.ObjectBucket.Refinement
import StreamBroker.Proofs.ObjectBucket.Runs
import StreamBroker.Proofs.ObjectBucket.Shown
import StreamBroker.Proofs.ObjectBucket.Undone
import StreamBroker.Proofs.ObjectBucket.Watching
import StreamBroker.Proofs.SeqMap
import StreamBroker.Proofs.Stream.Announced
import StreamBroker.Proofs.Stream.AnyOrder
import StreamBroker.Proofs.Stream.Claims
import StreamBroker.Proofs.Stream.Conserved
import StreamBroker.Proofs.Stream.Courses
import StreamBroker.Proofs.Stream.Crash
import StreamBroker.Proofs.Stream.Interest
import StreamBroker.Proofs.Stream.LastTime
import StreamBroker.Proofs.Stream.Life
import StreamBroker.Proofs.Stream.Limits
import StreamBroker.Proofs.Stream.LogStep
import StreamBroker.Proofs.Stream.Moves
import StreamBroker.Proofs.Stream.Newest
import StreamBroker.Proofs.Stream.Numbers
import StreamBroker.Proofs.Stream.Outcomes
import StreamBroker.Proofs.Stream.Regions
import StreamBroker.Proofs.Stream.Restart
import StreamBroker.Proofs.Stream.Signals
import StreamBroker.Proofs.Stream.Staff
import StreamBroker.Proofs.Stream.Stamped
import StreamBroker.Proofs.Stream.Standing
import StreamBroker.Proofs.Stream.Steady
import StreamBroker.Proofs.Stream.Taken
import StreamBroker.Proofs.Stream.Waiting
import StreamBroker.Proofs.Stream.Workers
import StreamBroker.Proofs.Subject
import StreamBroker.Proofs.Subject.Exact
import StreamBroker.Proofs.Subject.Literal
import StreamBroker.Proofs.Text.Base64
import StreamBroker.Proofs.Text.Decimal
import StreamBroker.Proofs.Text.Utf8
import StreamBroker.Proofs.Timestamp.Calendar
import StreamBroker.Proofs.Timestamp.Text
