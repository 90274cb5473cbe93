import AcceleratorVirtualization.Runtime.Run
import AcceleratorVirtualization.Wire.Journal

/-!
# The durable stores

The store on disk keeps two files in its directory: an atomic snapshot of the whole state, and a
journal of the records that changed since. A change set is appended to the journal as one batch; a
compaction replaces the snapshot and then the journal. A load decodes the snapshot and replays the
journal over it. The store in memory applies the same encoded changes to a state it holds.

What the file system does is not ours to say: every call is made at a moment, and the moment says
what goes wrong in it, if anything.
-/

namespace AcceleratorVirtualization

/-! ### The file system -/

/-- The files in the state directory. -/
inductive StoreFile
  | snapshot | journal
  deriving DecidableEq

/-- The names of the two files, `/state.avs` and `/state.avj`. -/
def StoreFile.name : StoreFile → Text
  | .snapshot => txt "/state.avs"
  | .journal => txt "/state.avj"

/-- A file that is read is not opened, or an error ends the reading. -/
inductive ReadFault
  | open_ | read
  deriving DecidableEq

/-- Which call reports that a file was not replaced. -/
inductive WriteFault
  | open_ (errno : ℕ)
  | short | flush | sync
  | replace (message : Text)
  deriving DecidableEq

/-- Which call reports that an append failed, and how many of its bytes are in the file. -/
inductive AppendFault
  | open_ (errno : ℕ)
  | short (kept : ℕ)
  | flush (kept : ℕ)
  | sync (kept : ℕ)
  deriving DecidableEq

/-- What goes wrong in a call that is made now, for each kind of call. -/
structure Moment where
  create : Option Text := none
  read : Option ReadFault := none
  write : Option WriteFault := none
  append : Option AppendFault := none
  deriving DecidableEq

/-- The files of one store, and the moments of the calls to come. Nothing goes wrong in a call after
the last of them. -/
structure Files where
  content : StoreFile → Option Bytes := fun _ => none
  moments : List Moment := []

namespace Files

/-- What the file system is about to do; a perfect moment when nothing is foreseen. -/
def moment (f : Files) : Moment := f.moments.headD {}

/-- The files after the moment has passed. -/
def pass (f : Files) : Files := { f with moments := f.moments.tail }

/-- The file has these bytes now. -/
def set (f : Files) (file : StoreFile) (data : Bytes) : Files :=
  { f with content := Function.update f.content file (some data) }

/-- The status of a failed call, with its detail. -/
def ioFailure (detail : Text) : Status := ⟨.ioFailure, detail⟩

/-- `describe_errno`. -/
def describeErrno (code : ℕ) : Text := txt "errno " ++ toDecimal code

/-- `ensure_directory`: an empty path is the current directory. -/
def ensureDirectory (f : Files) (path : Text) : Files × Check :=
  if path.isEmpty then (f, .ok ())
  else match f.moment.create with
    | none => (f.pass, .ok ())
    | some message => (f.pass, .error (ioFailure
        (txt "cannot create state directory '" ++ path ++ txt "': " ++ message)))

/-- The bytes of a file, if it exists. A file that is not opened counts as one that does not. -/
def readFileBytes (f : Files) (file : StoreFile) (path : Text) :
    Files × Except Status (Option Bytes) :=
  match f.moment.read with
  | none => (f.pass, .ok (f.content file))
  | some .open_ => (f.pass, .ok none)
  | some .read =>
    (f.pass, match f.content file with
      | none => .ok none
      | some _ => .error (ioFailure (txt "read failure on '" ++ path ++ txt "'")))

/-- The bytes are written to a temporary file, which then takes the place of the file. -/
def writeFileAtomic (f : Files) (file : StoreFile) (path : Text) (data : Bytes) (durable : Bool) :
    Files × Check :=
  let temporary := path ++ txt ".tmp"
  let refuse (detail : Text) : Files × Check := (f.pass, .error (ioFailure detail))
  match f.moment.write with
  | none => (f.pass.set file data, .ok ())
  | some (.open_ errno) => refuse
      (txt "cannot open '" ++ temporary ++ txt "' for writing: " ++ describeErrno errno)
  | some .short =>
    if data.isEmpty then (f.pass.set file data, .ok ())
    else refuse (txt "short write to '" ++ temporary ++ txt "'")
  | some .flush => refuse (txt "flush failed")
  | some .sync =>
    if durable then refuse (txt "commit to disk failed") else (f.pass.set file data, .ok ())
  | some (.replace message) => refuse
      (txt "atomic replace of '" ++ path ++ txt "' failed: " ++ message)

/-- The bytes are written behind those that are there. -/
def appendFileBytes (f : Files) (file : StoreFile) (path : Text) (data : Bytes) (durable : Bool) :
    Files × Check :=
  let appended (kept : ℕ) : Files :=
    f.pass.set file ((f.content file).getD [] ++ data.take kept)
  if data.isEmpty then (f, .ok ())
  else match f.moment.append with
    | none => (appended data.length, .ok ())
    | some (.open_ errno) => (f.pass, .error (ioFailure
        (txt "cannot open '" ++ path ++ txt "' for append: " ++ describeErrno errno)))
    | some (.short kept) =>
      (appended kept, .error (ioFailure (txt "short append to '" ++ path ++ txt "'")))
    | some (.flush kept) => (appended kept, .error (ioFailure (txt "flush failed")))
    | some (.sync kept) =>
      if durable then (appended kept, .error (ioFailure (txt "commit to disk failed")))
      else (appended data.length, .ok ())

end Files

/-! ### The store on disk -/

/-- `StoreOptions`, with the defaults of the source. -/
structure StoreOptions where
  directory : Text := []
  enabled : Bool := true
  compactionJournalBytes : ℕ := 4 * 1024 * 1024
  tornTail : TornTail := .reject
  durableSync : Bool := true

/-- `FileDurableStore`: the options, the files of the directory and what the process remembers of
them. -/
structure FileDurableStore where
  options : StoreOptions := {}
  files : Files := {}
  opened : Bool := false
  snapshotPresent : Bool := false
  journalInitialized : Bool := false
  discardedTail : Bool := false
  journalBytes : ℕ := 0
  lastSnapshotBytes : ℕ := 0
  bytesWritten : ℕ := 0
  writeCount : ℕ := 0
  compactions : ℕ := 0

/-- Go on where there was no error. -/
def Check.andThen {σ : Type} (r : σ × Check) (next : σ → σ × Check) : σ × Check :=
  match r with
  | (store, .ok ()) => next store
  | (store, .error status) => (store, .error status)

namespace FileDurableStore

/-- Where the snapshot is. -/
def snapshotPath (st : FileDurableStore) : Text := st.options.directory ++ StoreFile.snapshot.name

/-- Where the journal is. -/
def journalPath (st : FileDurableStore) : Text := st.options.directory ++ StoreFile.journal.name

/-- `FileDurableStore::open`: the directory is made, and both files are looked at. -/
def open_ (st : FileDurableStore) : FileDurableStore × Check :=
  match st.files.ensureDirectory st.options.directory with
  | (files, .error status) => ({ st with files }, .error status)
  | (files, .ok ()) =>
    match files.readFileBytes .snapshot st.snapshotPath with
    | (files, .error status) => ({ st with files }, .error status)
    | (files, .ok snapshot) =>
      let st := { st with snapshotPresent := snapshot.isSome }
      match files.readFileBytes .journal st.journalPath with
      | (files, .error status) => ({ st with files }, .error status)
      | (files, .ok journal) =>
        ({ st with
            files
            journalBytes := (journal.map List.length).getD 0
            journalInitialized := journal.isSome
            opened := true }, .ok ())

/-- The journal begins with its header. -/
def initializeJournal (st : FileDurableStore) : FileDurableStore × Check :=
  if st.journalInitialized then (st, .ok ())
  else
    let header := journalHeaderBytes
    match st.files.writeFileAtomic .journal st.journalPath header st.options.durableSync with
    | (files, .error status) => ({ st with files }, .error status)
    | (files, .ok ()) =>
      ({ st with files, journalInitialized := true, journalBytes := header.length }, .ok ())

/-- All records of a mutation are appended at once. -/
def appendBatch (st : FileDurableStore) (encoded : List EncodedChange) :
    FileDurableStore × Check :=
  let batch := encoded.flatMap frameJournalRecord
  match st.files.appendFileBytes .journal st.journalPath batch st.options.durableSync with
  | (files, .error status) => ({ st with files }, .error status)
  | (files, .ok ()) =>
    ({ st with
        files
        writeCount := st.writeCount + encoded.length
        bytesWritten := st.bytesWritten + batch.length
        journalBytes := st.journalBytes + batch.length }, .ok ())

/-- The first half of `FileDurableStore::compact`: the snapshot file is replaced as a whole. -/
def replaceSnapshot (st : FileDurableStore) (state : VirtualizationState) :
    FileDurableStore × Check :=
  let bytes := encodeSnapshotFile state
  match st.files.writeFileAtomic .snapshot st.snapshotPath bytes st.options.durableSync with
  | (files, .error status) => ({ st with files }, .error status)
  | (files, .ok ()) =>
    ({ st with
        files
        snapshotPresent := true
        lastSnapshotBytes := bytes.length
        writeCount := st.writeCount + 1
        bytesWritten := st.bytesWritten + bytes.length
        compactions := st.compactions + 1 }, .ok ())

/-- The second half of `FileDurableStore::compact`: the journal is replaced by its bare header. -/
def truncateJournal (st : FileDurableStore) : FileDurableStore × Check :=
  let header := journalHeaderBytes
  match st.files.writeFileAtomic .journal st.journalPath header st.options.durableSync with
  | (files, .error status) => ({ st with files }, .error status)
  | (files, .ok ()) =>
    ({ st with
        files
        journalInitialized := true
        journalBytes := header.length
        writeCount := st.writeCount + 1
        bytesWritten := st.bytesWritten + header.length }, .ok ())

/-- The snapshot is replaced first, and then the journal. -/
def compact (st : FileDurableStore) (state : VirtualizationState) : FileDurableStore × Check :=
  if !st.options.enabled then (st, .ok ())
  else if !st.opened then (st, .error Disk.notOpen)
  else Check.andThen (st.replaceSnapshot state) truncateJournal

/-- Compaction is worth it once the journal has grown past the snapshot it would replace. -/
def compactIfGrown (st : FileDurableStore) (state : VirtualizationState) :
    FileDurableStore × Check :=
  let threshold := max st.options.compactionJournalBytes (st.lastSnapshotBytes * 2)
  if st.journalBytes > threshold then st.compact state else (st, .ok ())

/-- `FileDurableStore::apply`: one append to the journal, and a compaction once it has grown. -/
def applyChanges (st : FileDurableStore) (state : VirtualizationState) (changes : ChangeSet) :
    FileDurableStore × Check :=
  if !st.options.enabled then (st, .ok ())
  else if !st.opened then (st, .error Disk.notOpen)
  else if changes.empty then (st, .ok ())
  else
    let encoded := encodeChanges state changes
    if encoded.isEmpty then (st, .ok ())
    else Check.andThen (Check.andThen st.initializeJournal fun st => st.appendBatch encoded)
      fun st => st.compactIfGrown state

/-- The journal is replayed over what the snapshot gave; an empty file is not looked into. -/
def loadJournal (st : FileDurableStore) (state : VirtualizationState) (loadedAnything : Bool)
    (journal : Option Bytes) : FileDurableStore × Except Status VirtualizationState :=
  let trusted (state : VirtualizationState) : Except Status VirtualizationState :=
    state.validateState.map fun _ => state
  match journal.filter (!·.isEmpty) with
  | none => (st, if loadedAnything then trusted state else .ok state)
  | some bytes =>
    match replayJournal st.options.tornTail state bytes with
    | .error status => (st, .error status)
    | .ok (state, discardedTail) => ({ st with discardedTail }, trusted state)

/-- `FileDurableStore::load`: the snapshot, with the journal replayed over it, and then
validated. -/
def load (st : FileDurableStore) : FileDurableStore × Except Status VirtualizationState :=
  if !st.options.enabled then (st, .ok {})
  else
    match st.files.readFileBytes .snapshot st.snapshotPath with
    | (files, .error status) => ({ st with files }, .error status)
    | (files, .ok snapshot) =>
      match snapshot.elim (.ok {}) decodeSnapshotFile with
      | .error status => ({ st with files }, .error status)
      | .ok state =>
        match files.readFileBytes .journal st.journalPath with
        | (files, .error status) => ({ st with files }, .error status)
        | (files, .ok journal) =>
          loadJournal { st with files } state snapshot.isSome journal

/-- `FileDurableStore::present`. -/
def present (st : FileDurableStore) : Bool :=
  st.snapshotPresent || decide (st.journalBytes > journalHeaderSize)

instance : DurableStore FileDurableStore where
  open_ := open_
  applyChanges := applyChanges
  compact := compact
  load := load
  flush st := (st, .ok ())
  close st := ({ st with opened := false }, .ok ())
  present := present

/-- The store of a new process over the same files. -/
def reopened (st : FileDurableStore) (options : StoreOptions) : FileDurableStore :=
  { options, files := { st.files with moments := [] } }

end FileDurableStore

/-! ### The store in memory -/

/-- `MemoryDurableStore`: the state as it would be decoded, and how often it was written. -/
structure MemoryDurableStore where
  state : VirtualizationState := {}
  opened : Bool := false
  present : Bool := false
  writes : ℕ := 0
  compactions : ℕ := 0

namespace MemoryDurableStore

/-- The encoded changes are decoded again and applied one after the other, up to one that is
refused. -/
def applyEncoded (st : MemoryDurableStore) : List EncodedChange → MemoryDurableStore × Check
  | [] => (st, .ok ())
  | change :: rest =>
    match (applyRecord st.state change.kind).run' (Decoder.of change.body) with
    | .error status => (st, .error status)
    | .ok state => applyEncoded { st with state } rest

/-- `MemoryDurableStore::apply`. -/
def applyChanges (st : MemoryDurableStore) (state : VirtualizationState) (changes : ChangeSet) :
    MemoryDurableStore × Check :=
  if !st.opened then (st, .error Disk.notOpen)
  else Check.andThen (st.applyEncoded (encodeChanges state changes)) fun st =>
    ({ st with present := true, writes := st.writes + 1 }, .ok ())

/-- `MemoryDurableStore::compact`. -/
def compact (st : MemoryDurableStore) (state : VirtualizationState) : MemoryDurableStore × Check :=
  ({ st with
      state
      present := true
      writes := st.writes + 1
      compactions := st.compactions + 1 }, .ok ())

instance : DurableStore MemoryDurableStore where
  open_ st := ({ st with opened := true }, .ok ())
  applyChanges := applyChanges
  compact := compact
  load st := (st, .ok st.state)
  flush st := (st, .ok ())
  close st := ({ st with opened := false }, .ok ())
  present st := st.present

end MemoryDurableStore

end AcceleratorVirtualization
