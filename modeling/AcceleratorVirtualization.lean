import AcceleratorVirtualization.Containers
import AcceleratorVirtualization.Contract
import AcceleratorVirtualization.Coordinator.AgentLink
import AcceleratorVirtualization.Coordinator.Answers
import AcceleratorVirtualization.Invariants.Acceptance
import AcceleratorVirtualization.Invariants.Accepted
import AcceleratorVirtualization.Invariants.Alarms
import AcceleratorVirtualization.Invariants.Attachments
import AcceleratorVirtualization.Invariants.Authority
import AcceleratorVirtualization.Invariants.Book
import AcceleratorVirtualization.Invariants.BookOperations
import AcceleratorVirtualization.Invariants.BookResets
import AcceleratorVirtualization.Invariants.BookSweeps
import AcceleratorVirtualization.Invariants.Budgets
import AcceleratorVirtualization.Invariants.Census
import AcceleratorVirtualization.Invariants.Chronicle
import AcceleratorVirtualization.Invariants.Commit
import AcceleratorVirtualization.Invariants.Confinement
import AcceleratorVirtualization.Invariants.Consistency
import AcceleratorVirtualization.Invariants.Contracts
import AcceleratorVirtualization.Invariants.Counts
import AcceleratorVirtualization.Invariants.Course
import AcceleratorVirtualization.Invariants.Demands
import AcceleratorVirtualization.Invariants.Disclosure
import AcceleratorVirtualization.Invariants.Durable
import AcceleratorVirtualization.Invariants.Effects
import AcceleratorVirtualization.Invariants.Evolution
import AcceleratorVirtualization.Invariants.Exclusivity
import AcceleratorVirtualization.Invariants.Exposure
import AcceleratorVirtualization.Invariants.Fixtures
import AcceleratorVirtualization.Invariants.Generations
import AcceleratorVirtualization.Invariants.Histories
import AcceleratorVirtualization.Invariants.Homes
import AcceleratorVirtualization.Invariants.Hosting
import AcceleratorVirtualization.Invariants.Inventory
import AcceleratorVirtualization.Invariants.Ledger
import AcceleratorVirtualization.Invariants.LedgerOperations
import AcceleratorVirtualization.Invariants.Limits
import AcceleratorVirtualization.Invariants.Lineage
import AcceleratorVirtualization.Invariants.Lives
import AcceleratorVirtualization.Invariants.Operations
import AcceleratorVirtualization.Invariants.Ownership
import AcceleratorVirtualization.Invariants.Passages
import AcceleratorVirtualization.Invariants.Progress
import AcceleratorVirtualization.Invariants.Reach
import AcceleratorVirtualization.Invariants.RecordOperations
import AcceleratorVirtualization.Invariants.Records
import AcceleratorVirtualization.Invariants.Recoverable
import AcceleratorVirtualization.Invariants.Refresh
import AcceleratorVirtualization.Invariants.Refusals
import AcceleratorVirtualization.Invariants.Replay
import AcceleratorVirtualization.Invariants.Requirements
import AcceleratorVirtualization.Invariants.Restart
import AcceleratorVirtualization.Invariants.Revival
import AcceleratorVirtualization.Invariants.Rollback
import AcceleratorVirtualization.Invariants.Roots
import AcceleratorVirtualization.Invariants.Runs
import AcceleratorVirtualization.Invariants.Standing
import AcceleratorVirtualization.Invariants.Submissions
import AcceleratorVirtualization.Invariants.Sweeps
import AcceleratorVirtualization.Invariants.Tenancy
import AcceleratorVirtualization.Invariants.Tracked
import AcceleratorVirtualization.Invariants.TrackedOperations
import AcceleratorVirtualization.Invariants.Usage
import AcceleratorVirtualization.Lib.Custody
import AcceleratorVirtualization.Lib.Enumeration
import AcceleratorVirtualization.Lib.Feedback
import AcceleratorVirtualization.Lib.Firsts
import AcceleratorVirtualization.Lib.Handover
import AcceleratorVirtualization.Lib.Journaling
import AcceleratorVirtualization.Lib.KeyedList
import AcceleratorVirtualization.Lib.Leasing
import AcceleratorVirtualization.Lib.LittleEndian
import AcceleratorVirtualization.Lib.LowerBound
import AcceleratorVirtualization.Lib.Reading
import AcceleratorVirtualization.Lib.References
import AcceleratorVirtualization.Lib.Refusal
import AcceleratorVirtualization.Lib.Revision
import AcceleratorVirtualization.Lib.Rosters
import AcceleratorVirtualization.Lib.Simulation
import AcceleratorVirtualization.Lib.Sweep
import AcceleratorVirtualization.Lib.Transition
import AcceleratorVirtualization.Lifecycle
import AcceleratorVirtualization.Model
import AcceleratorVirtualization.Runtime.Audit
import AcceleratorVirtualization.Runtime.Bindings
import AcceleratorVirtualization.Runtime.Checks
import AcceleratorVirtualization.Runtime.Devices
import AcceleratorVirtualization.Runtime.Execution
import AcceleratorVirtualization.Runtime.Helpers
import AcceleratorVirtualization.Runtime.Impl
import AcceleratorVirtualization.Runtime.Migrations
import AcceleratorVirtualization.Runtime.Run
import AcceleratorVirtualization.Runtime.Start
import AcceleratorVirtualization.Runtime.Tenants
import AcceleratorVirtualization.Runtime.Views
import AcceleratorVirtualization.Runtime.Virtuals
import AcceleratorVirtualization.Status
import AcceleratorVirtualization.Store.Contents
import AcceleratorVirtualization.Store.Crashes
import AcceleratorVirtualization.Store.Durability
import AcceleratorVirtualization.Store.Edits
import AcceleratorVirtualization.Store.Exchange
import AcceleratorVirtualization.Store.Files
import AcceleratorVirtualization.Store.Recovery
import AcceleratorVirtualization.Store.Refinement
import AcceleratorVirtualization.Surface
import AcceleratorVirtualization.Taxonomy
import AcceleratorVirtualization.Text
import AcceleratorVirtualization.Wire.Bounds
import AcceleratorVirtualization.Wire.Codec
import AcceleratorVirtualization.Wire.Delivery
import AcceleratorVirtualization.Wire.DescriptorLaws
import AcceleratorVirtualization.Wire.Descriptors
import AcceleratorVirtualization.Wire.FieldLaws
import AcceleratorVirtualization.Wire.FieldMap
import AcceleratorVirtualization.Wire.FieldReading
import AcceleratorVirtualization.Wire.Frame
import AcceleratorVirtualization.Wire.Handoff
import AcceleratorVirtualization.Wire.Inspection
import AcceleratorVirtualization.Wire.Integrity
import AcceleratorVirtualization.Wire.Journal
import AcceleratorVirtualization.Wire.NestedLists
import AcceleratorVirtualization.Wire.RecordCodec
import AcceleratorVirtualization.Wire.RecordLaws
import AcceleratorVirtualization.Wire.Replay
import AcceleratorVirtualization.Wire.StateCodec
import AcceleratorVirtualization.Wire.StateLaws
