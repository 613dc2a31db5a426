import PagedIndex.Checksum
import PagedIndex.Pool.Guard
import PagedIndex.Record.Kind
import PagedIndex.Store.Medium
import PagedIndex.Store.Scheduler
import PagedIndex.Table.Bulk
import PagedIndex.Table.Outline
import PagedIndex.Table.Verify
import PagedIndex.Proofs.Candidates
import PagedIndex.Proofs.Pool.Bookkeeping
import PagedIndex.Proofs.Pool.Effect
import PagedIndex.Proofs.Pool.Frames
import PagedIndex.Proofs.Pool.Balance
import PagedIndex.Proofs.Pool.Pins
import PagedIndex.Proofs.Pool.Custody
import PagedIndex.Proofs.Pool.Coherence
import PagedIndex.Proofs.Pool.Ledger
import PagedIndex.Proofs.Pool.Clients
import PagedIndex.Proofs.Ascent
import PagedIndex.Proofs.Format.Bytes
import PagedIndex.Proofs.Format.DirectoryState
import PagedIndex.Proofs.Format.DirectoryForm
import PagedIndex.Proofs.Format.BucketEntries
import PagedIndex.Proofs.Format.HeaderSlots
import PagedIndex.Proofs.Pool.Marks
import PagedIndex.Proofs.Pool.Memory
import PagedIndex.Proofs.Table.Shelves
import PagedIndex.Proofs.Table.Upkeep
import PagedIndex.Proofs.Table.Houses
import PagedIndex.Proofs.Table.Legible
import PagedIndex.Proofs.Table.Dividing
import PagedIndex.Proofs.Table.Inserting
import PagedIndex.Proofs.Table.Uniting
import PagedIndex.Proofs.Table.Removing
import PagedIndex.Proofs.Table.Reclaiming
import PagedIndex.Proofs.Table.Stores
import PagedIndex.Proofs.Table.Operations
import PagedIndex.Proofs.Store.Reliable
import PagedIndex.Proofs.Store.Reopening
import PagedIndex.Proofs.Pool.Ease
import PagedIndex.Proofs.Pool.Calls
import PagedIndex.Proofs.Pool.Crowding
import PagedIndex.Proofs.Pool.Flushing
import PagedIndex.Proofs.Format.DirectoryCheck
import PagedIndex.Proofs.Table.Opening
import PagedIndex.Proofs.Table.Single
import PagedIndex.Proofs.Table.Life
import PagedIndex.Proofs.Table.WellFormed
import PagedIndex.Proofs.Table.Reached
import PagedIndex.Proofs.Table.Capacity
import PagedIndex.Proofs.Table.Depths
import PagedIndex.Proofs.Table.Stranding
import PagedIndex.Proofs.Table.Refusals
import PagedIndex.Proofs.Table.Verifying
import PagedIndex.Proofs.Table.Persistence
import PagedIndex.Proofs.Pool.AccessLog
import PagedIndex.Proofs.Pool.Accesses
import PagedIndex.Proofs.Pool.Replacement
import PagedIndex.Proofs.Table.Progress
import PagedIndex.Proofs.Table.Compact
import PagedIndex.Proofs.Table.Canonical
import PagedIndex.Proofs.Table.Calls
import PagedIndex.Proofs.Table.Accounting
import PagedIndex.Proofs.Table.Tenants
import PagedIndex.Proofs.Pool.Gentle
import PagedIndex.Proofs.Table.Restraint
import PagedIndex.Proofs.Table.Verdict
import PagedIndex.Proofs.Replacer
import PagedIndex.Proofs.Store.Agreement
import PagedIndex.Proofs.Store.Scheduling
import PagedIndex.Proofs.Pool.Allocation
import PagedIndex.Proofs.Format.DirectoryEdits
import PagedIndex.Proofs.Table.Resizing
import PagedIndex.Proofs.Format.BoundedList
import PagedIndex.Proofs.Store.Journal
import PagedIndex.Proofs.Pool.Journaling
import PagedIndex.Proofs.Pool.Requests
import PagedIndex.Proofs.Pool.Audit
import PagedIndex.Proofs.Format.Layout
import PagedIndex.Proofs.Encoding
import PagedIndex.Proofs.Records
