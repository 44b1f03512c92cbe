import Henji.Library.Utf8
import Henji.Tools.BashOutput
import Mathlib.Data.List.Pairwise

/-!
# The file of the output store

Where every call on the file succeeds, the extents of the registry lie beside each other in the
file, and each stream is what its extents hold followed by its buffer.

Results:
1. `persist_spec`, `appendRecord_spec`, `flush_spec`: bytes go from the buffer of one stream to its
   extents, and every other stream stays.
2. `moveExtents_spec`, `compactFile_spec`: compaction moves extents without changing what they hold.
3. `readRecordRange_spec`: a range of a stream is read back from its extents.
-/

namespace Henji

namespace BashOutputStore

open ByteFile (slice splice resize)

variable {store : BashOutputStore} {ref ref' : Nat} {stream stream' : BashOutputStream}
  {record : BashOutputStreamRecord}

/-! ## Streams -/

/-- A command of the registry has this record for a stream. -/
def Holds (store : BashOutputStore) (ref : Nat) (stream : BashOutputStream)
    (record : BashOutputStreamRecord) : Prop :=
  ref ∈ store.commands ∧ (store.records.read ref).streams.get? stream = some record

def Owns (store : BashOutputStore) (ref : Nat) (stream : BashOutputStream) (extent : Nat) : Prop :=
  ∃ record, store.Holds ref stream record ∧ extent ∈ record.extents

def bytes (store : BashOutputStore) : List UInt8 := store.file.getD []

/-- The bytes of the file that an extent stands for. -/
def extentBytes (store : BashOutputStore) (extent : Nat) : List UInt8 :=
  slice store.bytes (store.extents.read extent).fileOffset (store.extents.read extent).length

/-- What extents hold. -/
def written (store : BashOutputStore) (extents : List Nat) : List UInt8 :=
  extents.flatMap store.extentBytes

/-- The logical offsets of extents count up from `first` to `last`. -/
def Chained (heap : Heap BashOutputExtent) : Nat → List Nat → Nat → Prop
  | first, [], last => first = last
  | first, extent :: extents, last =>
    (heap.read extent).logicalOffset = first ∧
      Chained heap (first + (heap.read extent).length) extents last

/-- The second extent lies behind the first one. -/
def Before (heap : Heap BashOutputExtent) (first second : Nat) : Prop :=
  (heap.read first).fileOffset + (heap.read first).length ≤ (heap.read second).fileOffset

/-- The extents of the registry lie beside each other in the file. -/
structure Spooled (store : BashOutputStore) : Prop where
  nodup : store.commands.Nodup
  size : store.fileOffset = store.bytes.length
  inside : ∀ {ref stream extent}, store.Owns ref stream extent → extent < store.extents.next ∧
    0 < (store.extents.read extent).length ∧
    (store.extents.read extent).fileOffset + (store.extents.read extent).length ≤ store.bytes.length
  owner : ∀ {ref stream ref' stream' extent}, store.Owns ref stream extent →
    store.Owns ref' stream' extent → ref = ref' ∧ stream = stream'
  once : ∀ {ref stream record}, store.Holds ref stream record → record.extents.Nodup
  apart : ∀ {ref stream extent ref' stream' other}, store.Owns ref stream extent →
    store.Owns ref' stream' other → extent ≠ other →
    Before store.extents extent other ∨ Before store.extents other extent
  chained : ∀ {ref stream record}, store.Holds ref stream record →
    Chained store.extents 0 record.extents record.persistedBytes

theorem written_append (store : BashOutputStore) (first second : List Nat) :
    store.written (first ++ second) = store.written first ++ store.written second :=
  List.flatMap_append

theorem length_extentBytes {extent : Nat} (h : (store.extents.read extent).fileOffset +
    (store.extents.read extent).length ≤ store.bytes.length) :
    (store.extentBytes extent).length = (store.extents.read extent).length :=
  ByteFile.length_slice h

/-- A chain is as long as what its extents hold. -/
theorem length_written {first last : Nat} {extents : List Nat}
    (h : Chained store.extents first extents last)
    (hinside : ∀ extent ∈ extents, (store.extents.read extent).fileOffset +
      (store.extents.read extent).length ≤ store.bytes.length) :
    first + (store.written extents).length = last := by
  induction extents generalizing first with
  | nil => exact h
  | cons extent extents ih =>
    have hrest := ih h.2 fun other hmem => hinside other (List.mem_cons_of_mem _ hmem)
    have hone := length_extentBytes (hinside extent List.mem_cons_self)
    rw [written, List.flatMap_cons, List.length_append]
    unfold written at hrest
    omega

theorem Spooled.length_written (h : store.Spooled) (hholds : store.Holds ref stream record) :
    (store.written record.extents).length = record.persistedBytes := by
  have hlength := BashOutputStore.length_written (h.chained hholds) fun extent hmem =>
    (h.inside ⟨record, hholds, hmem⟩).2.2
  rwa [Nat.zero_add] at hlength

theorem chained_append {heap : Heap BashOutputExtent} {first middle : Nat} {extents : List Nat}
    {extent : Nat} (h : Chained heap first extents middle)
    (hextent : (heap.read extent).logicalOffset = middle) :
    Chained heap first (extents ++ [extent]) (middle + (heap.read extent).length) := by
  induction extents generalizing first with
  | nil =>
    obtain rfl : first = middle := h
    exact ⟨hextent, rfl⟩
  | cons other extents ih => exact ⟨h.1, ih h.2⟩

/-- A chain depends on its own extents. -/
theorem chained_congr {heap heap' : Heap BashOutputExtent} {first last : Nat} {extents : List Nat}
    (h : Chained heap first extents last)
    (hsame : ∀ extent ∈ extents, (heap'.read extent).logicalOffset = (heap.read extent).logicalOffset ∧
      (heap'.read extent).length = (heap.read extent).length) :
    Chained heap' first extents last := by
  induction extents generalizing first with
  | nil => exact h
  | cons extent extents ih =>
    obtain ⟨hlogical, hlength⟩ := hsame extent List.mem_cons_self
    refine ⟨hlogical.trans h.1, ?_⟩
    rw [hlength]
    exact ih h.2 fun other hmem => hsame other (List.mem_cons_of_mem _ hmem)

/-! ## One segment -/

theorem streamOf_of_get? (h : (store.records.read ref).streams.get? stream = some record) :
    store.streamOf ref stream = record := by
  rw [streamOf, h]
  rfl

theorem get?_updateStream (store : BashOutputStore) (ref : Nat) (stream : BashOutputStream)
    (f : BashOutputStreamRecord → BashOutputStreamRecord) (ref' : Nat)
    (stream' : BashOutputStream) :
    ((store.updateStream ref stream f).records.read ref').streams.get? stream' =
      if ref' = ref ∧ stream' = stream then some (f (store.streamOf ref stream))
      else (store.records.read ref').streams.get? stream' := by
  unfold updateStream updateRecord
  dsimp only
  rw [Heap.read_modify]
  by_cases href : ref' = ref
  · subst href
    rw [if_pos rfl]
    dsimp only
    rw [InsMap.get?_set]
    simp only [true_and]
  · rw [if_neg href, if_neg fun h => href h.1]

/-- Only the record of one stream changes. -/
theorem holds_updateStream {f : BashOutputStreamRecord → BashOutputStreamRecord}
    {record' : BashOutputStreamRecord}
    (hget : (store.records.read ref).streams.get? stream = some record)
    (h : (store.updateStream ref stream f).Holds ref' stream' record') :
    (ref' = ref ∧ stream' = stream ∧ ref ∈ store.commands ∧ record' = f record) ∨
      (¬ (ref' = ref ∧ stream' = stream) ∧ store.Holds ref' stream' record') := by
  obtain ⟨hmem, hsome⟩ := h
  rw [get?_updateStream] at hsome
  split at hsome
  · next heq =>
    rw [streamOf_of_get? hget] at hsome
    exact .inl ⟨heq.1, heq.2, heq.1 ▸ hmem, (Option.some.inj hsome).symm⟩
  · next hne => exact .inr ⟨hne, hmem, hsome⟩

theorem holds_updateStream_self {f : BashOutputStreamRecord → BashOutputStreamRecord}
    (h : store.Holds ref stream record) :
    (store.updateStream ref stream f).Holds ref stream (f record) := by
  refine ⟨h.1, ?_⟩
  rw [get?_updateStream, if_pos ⟨rfl, rfl⟩, streamOf_of_get? h.2]

/-- A change of other things than the file and the extents. -/
theorem spooled_of_records (h : store.Spooled) {after : BashOutputStore}
    (hnodup : after.commands.Nodup) (hextents : after.extents = store.extents)
    (hfile : after.file = store.file) (hoffset : after.fileOffset = store.fileOffset)
    (hrecords : ∀ {ref stream record'}, after.Holds ref stream record' →
      (∃ record, store.Holds ref stream record ∧ record'.extents = record.extents ∧
        record'.persistedBytes = record.persistedBytes) ∨
      (record'.extents = [] ∧ record'.persistedBytes = 0)) : after.Spooled := by
  have hbytes : after.bytes = store.bytes := congrArg (·.getD []) hfile
  have howns : ∀ {ref stream extent}, after.Owns ref stream extent → store.Owns ref stream extent := by
    rintro ref stream extent ⟨record', hholds', hmem⟩
    obtain ⟨record, hholds, hsame, -⟩ | ⟨hnil, -⟩ := hrecords hholds'
    · exact ⟨record, hholds, hsame ▸ hmem⟩
    · exact absurd (hnil ▸ hmem) List.not_mem_nil
  exact {
    nodup := hnodup
    size := by rw [hoffset, hbytes, h.size]
    inside := fun hextent => by
      rw [hextents, hbytes]
      exact h.inside (howns hextent)
    owner := fun hextent hextent' => h.owner (howns hextent) (howns hextent')
    once := fun hholds' => by
      obtain ⟨record, hholds, hsame, -⟩ | ⟨hnil, -⟩ := hrecords hholds'
      · exact hsame ▸ h.once hholds
      · exact hnil ▸ List.nodup_nil
    apart := fun hextent hother hne => by
      rw [hextents]
      exact h.apart (howns hextent) (howns hother) hne
    chained := fun hholds' => by
      rw [hextents]
      obtain ⟨record, hholds, hsame, hpersisted⟩ | ⟨hnil, hzero⟩ := hrecords hholds'
      · rw [hsame, hpersisted]
        exact h.chained hholds
      · rw [hnil, hzero]
        exact rfl }

/-- A change of a buffer leaves the file alone. -/
theorem spooled_setBuffer (h : store.Spooled) (hholds : store.Holds ref stream record)
    {f : BashOutputStreamRecord → BashOutputStreamRecord}
    (hf : ∀ record, (f record).extents = record.extents ∧
      (f record).persistedBytes = record.persistedBytes) :
    (store.updateStream ref stream f).Spooled := by
  refine spooled_of_records h h.nodup rfl rfl rfl fun hholds' => .inl ?_
  obtain ⟨rfl, rfl, -, rfl⟩ | ⟨-, hholds'⟩ := holds_updateStream hholds.2 hholds'
  · exact ⟨record, hholds, hf record⟩
  · exact ⟨_, hholds', rfl, rfl⟩

/-- The store after a segment was written at the end of the file. -/
def persisted (store : BashOutputStore) (ref : Nat) (stream : BashOutputStream)
    (segment : List UInt8) : BashOutputStore :=
  { store.updateStream ref stream fun record =>
      { record with
        extents := record.extents ++ [store.extents.next]
        persistedBytes := record.persistedBytes + segment.length } with
    extents := (store.extents.alloc
      ⟨(store.streamOf ref stream).persistedBytes, store.fileOffset, segment.length⟩).2
    file := some (store.bytes ++ segment)
    fileOffset := store.fileOffset + segment.length }

theorem run_fileCall (hcalls : store.calls = []) (file : List UInt8) :
    Effect.run (fileCall file) store = (.ok (), { store with file := some file }) := by
  unfold Effect.run fileCall
  rw [hcalls]

theorem run_ensureFile (hcalls : store.calls = []) :
    Effect.run ensureFile store = (.ok store.bytes, { store with file := some store.bytes }) := by
  unfold Effect.run ensureFile bytes
  cases hfile : store.file with
  | some file =>
    have hsame : { store with file := some file } = store := by rw [← hfile]
    exact congrArg (Prod.mk (Except.ok file)) hsame.symm
  | none =>
    rw [hcalls]
    dsimp only
    rw [← hcalls]
    rfl

theorem run_persist (hcalls : store.calls = []) (hsize : store.fileOffset = store.bytes.length)
    (segment : List UInt8) :
    Effect.run (persist ref stream segment) store = (.ok (), store.persisted ref stream segment) := by
  have hsplice : splice 0 store.bytes store.fileOffset segment = store.bytes ++ segment := by
    rw [hsize]
    exact ByteFile.splice_end
  have hcalls' : { store with file := some store.bytes }.calls = [] := hcalls
  have hwrite := run_fileCall hcalls' (splice 0 store.bytes store.fileOffset segment)
  rw [hsplice] at hwrite
  unfold persist
  rw [Effect.run_bind_ok (run_ensureFile hcalls), Effect.run_bind_ok (Effect.run_get _), hsplice,
    Effect.run_bind_ok hwrite]
  rfl

theorem read_persisted_old {segment : List UInt8} {extent : Nat} (h : extent < store.extents.next) :
    (store.persisted ref stream segment).extents.read extent = store.extents.read extent :=
  Heap.read_alloc_lt _ _ h

theorem read_persisted_new {segment : List UInt8} :
    (store.persisted ref stream segment).extents.read store.extents.next =
      ⟨(store.streamOf ref stream).persistedBytes, store.fileOffset, segment.length⟩ :=
  Heap.read_alloc_self _ _

/-- The record of a stream with a further segment. -/
def withSegment (store : BashOutputStore) (record : BashOutputStreamRecord)
    (segment : List UInt8) : BashOutputStreamRecord :=
  { record with
    extents := record.extents ++ [store.extents.next]
    persistedBytes := record.persistedBytes + segment.length }

theorem holds_persisted {segment : List UInt8} {record' : BashOutputStreamRecord}
    (hholds : store.Holds ref stream record)
    (h : (store.persisted ref stream segment).Holds ref' stream' record') :
    (ref' = ref ∧ stream' = stream ∧ record' = store.withSegment record segment) ∨
      (¬ (ref' = ref ∧ stream' = stream) ∧ store.Holds ref' stream' record') := by
  have h : (store.updateStream ref stream fun record =>
      store.withSegment record segment).Holds ref' stream' record' := h
  exact (holds_updateStream hholds.2 h).imp_left fun ⟨href, hstream, _, hrecord⟩ =>
    ⟨href, hstream, hrecord⟩

/-- An extent of the persisted store is an old one or the new one of the stream. -/
theorem owns_persisted {segment : List UInt8} {extent : Nat} (hholds : store.Holds ref stream record)
    (h : (store.persisted ref stream segment).Owns ref' stream' extent) :
    store.Owns ref' stream' extent ∨
      (extent = store.extents.next ∧ ref' = ref ∧ stream' = stream) := by
  obtain ⟨record', hholds', hmem⟩ := h
  obtain ⟨rfl, rfl, rfl⟩ | ⟨-, hold⟩ := holds_persisted hholds hholds'
  · obtain hmem | hmem := List.mem_append.mp hmem
    · exact .inl ⟨record, hholds, hmem⟩
    · exact .inr ⟨List.mem_singleton.mp hmem, rfl, rfl⟩
  · exact .inl ⟨record', hold, hmem⟩

theorem spooled_persisted (h : store.Spooled) (hholds : store.Holds ref stream record)
    {segment : List UInt8} (hsegment : segment ≠ []) :
    (store.persisted ref stream segment).Spooled := by
  have hsize : (store.persisted ref stream segment).bytes.length =
      store.bytes.length + segment.length := List.length_append
  have hpos : 0 < segment.length := List.length_pos_iff.mpr hsegment
  have hnotNew : ∀ {ref stream extent}, store.Owns ref stream extent →
      extent ≠ store.extents.next := fun howns => Nat.ne_of_lt (h.inside howns).1
  -- the new segment lies behind every other one
  have hbefore : ∀ {ref' stream' extent}, store.Owns ref' stream' extent →
      Before (store.persisted ref stream segment).extents extent store.extents.next := by
    intro ref' stream' extent howns
    unfold Before
    rw [read_persisted_old (h.inside howns).1, read_persisted_new]
    exact h.size ▸ (h.inside howns).2.2
  exact {
    nodup := h.nodup
    size := by
      rw [hsize]
      show store.fileOffset + segment.length = _
      rw [h.size]
    inside := fun howns => by
      obtain hold | ⟨rfl, -, -⟩ := owns_persisted hholds howns
      · rw [read_persisted_old (h.inside hold).1, hsize]
        obtain ⟨hnext, hlength, hend⟩ := h.inside hold
        exact ⟨Nat.lt_succ_of_lt hnext, hlength, Nat.le_add_right_of_le hend⟩
      · rw [read_persisted_new, hsize, h.size]
        exact ⟨Nat.lt_succ_self _, hpos, Nat.le_refl _⟩
    owner := fun howns howns' => by
      obtain hold | ⟨rfl, hnew⟩ := owns_persisted hholds howns
      · obtain hold' | ⟨rfl, -⟩ := owns_persisted hholds howns'
        · exact h.owner hold hold'
        · exact absurd rfl (hnotNew hold)
      · obtain hold' | ⟨-, hnew'⟩ := owns_persisted hholds howns'
        · exact absurd rfl (hnotNew hold')
        · exact ⟨hnew.1.trans hnew'.1.symm, hnew.2.trans hnew'.2.symm⟩
    once := fun hholds' => by
      obtain ⟨rfl, rfl, rfl⟩ | ⟨-, hold⟩ := holds_persisted hholds hholds'
      · refine List.nodup_append.mpr ⟨h.once hholds, List.nodup_singleton _, ?_⟩
        rintro extent hmem _ hnew rfl
        exact hnotNew ⟨record, hholds, hmem⟩ (List.mem_singleton.mp hnew)
      · exact h.once hold
    apart := fun howns hother hne => by
      obtain hold | ⟨rfl, -⟩ := owns_persisted hholds howns
      · obtain hold' | ⟨rfl, -⟩ := owns_persisted hholds hother
        · unfold Before
          rw [read_persisted_old (h.inside hold).1, read_persisted_old (h.inside hold').1]
          exact h.apart hold hold' hne
        · exact .inl (hbefore hold)
      · obtain hold' | ⟨rfl, -⟩ := owns_persisted hholds hother
        · exact .inr (hbefore hold')
        · exact absurd rfl hne
    chained := fun {ref' stream' record'} hholds' => by
      have hkeep : ∀ {record' : BashOutputStreamRecord}, store.Holds ref' stream' record' →
          Chained (store.persisted ref stream segment).extents 0 record'.extents
            record'.persistedBytes := fun {record'} hold =>
        chained_congr (h.chained hold) fun extent hmem => by
          rw [read_persisted_old (h.inside ⟨record', hold, hmem⟩).1]
          exact ⟨rfl, rfl⟩
      obtain ⟨rfl, rfl, rfl⟩ | ⟨-, hold⟩ := holds_persisted hholds hholds'
      · have hlogical : ((store.persisted ref' stream' segment).extents.read
            store.extents.next).logicalOffset = record.persistedBytes := by
          rw [read_persisted_new, streamOf_of_get? hholds.2]
        have hlast := chained_append (hkeep hholds) hlogical
        rw [read_persisted_new] at hlast
        exact hlast
      · exact hkeep hold }

/-- What the old extents hold stays. -/
theorem written_persisted {segment : List UInt8} {extents : List Nat}
    (hextents : ∀ extent ∈ extents, extent < store.extents.next ∧
      (store.extents.read extent).fileOffset + (store.extents.read extent).length ≤
        store.bytes.length) :
    (store.persisted ref stream segment).written extents = store.written extents := by
  refine List.flatMap_congr fun extent hmem => ?_
  obtain ⟨hnext, hend⟩ := hextents extent hmem
  unfold extentBytes
  rw [read_persisted_old hnext]
  exact ByteFile.slice_append_left hend

theorem written_persisted_new {segment : List UInt8} (hsize : store.fileOffset = store.bytes.length) :
    (store.persisted ref stream segment).written [store.extents.next] = segment := by
  unfold written extentBytes
  rw [List.flatMap_singleton, read_persisted_new, hsize]
  exact ByteFile.slice_append_right

/-! ## One stream -/

/-- How a call leaves the streams that it is not about. -/
structure Elsewhere (before after : BashOutputStore) (ref : Nat) (stream : BashOutputStream) :
    Prop where
  commands : after.commands = before.commands
  get? : ∀ {ref' stream'}, ¬ (ref' = ref ∧ stream' = stream) →
    (after.records.read ref').streams.get? stream' = (before.records.read ref').streams.get? stream'
  written : ∀ {ref' stream' record'}, ¬ (ref' = ref ∧ stream' = stream) →
    before.Holds ref' stream' record' → after.written record'.extents = before.written record'.extents

theorem Elsewhere.trans {first middle last : BashOutputStore} (h : Elsewhere first middle ref stream)
    (h' : Elsewhere middle last ref stream) : Elsewhere first last ref stream where
  commands := h'.commands.trans h.commands
  get? hne := (h'.get? hne).trans (h.get? hne)
  written hne hholds := by
    refine (h'.written hne ⟨?_, ?_⟩).trans (h.written hne hholds)
    · rw [h.commands]
      exact hholds.1
    · rw [h.get? hne]
      exact hholds.2

/-- A call that changes the record of one stream to `record`. -/
structure Rewrites (before after : BashOutputStore) (ref : Nat) (stream : BashOutputStream)
    (record : BashOutputStreamRecord) : Prop where
  calls : after.calls = []
  spooled : after.Spooled
  holds : after.Holds ref stream record
  elsewhere : Elsewhere before after ref stream

theorem Rewrites.trans {first middle last : BashOutputStore} {record' : BashOutputStreamRecord}
    (h : Rewrites first middle ref stream record) (h' : Rewrites middle last ref stream record') :
    Rewrites first last ref stream record' :=
  ⟨h'.calls, h'.spooled, h'.holds, h.elsewhere.trans h'.elsewhere⟩

/-- What a stream holds. -/
def content (store : BashOutputStore) (record : BashOutputStreamRecord) : List UInt8 :=
  store.written record.extents ++ record.buffer

theorem rewrites_setBuffer (hcalls : store.calls = []) (h : store.Spooled)
    (hholds : store.Holds ref stream record) (buffer : List UInt8) :
    Rewrites store (store.updateStream ref stream fun record => { record with buffer }) ref stream
      { record with buffer } where
  calls := hcalls
  spooled := spooled_setBuffer h hholds fun _ => ⟨rfl, rfl⟩
  holds := holds_updateStream_self hholds
  elsewhere := {
    commands := rfl
    get? := fun hne => by rw [get?_updateStream, if_neg hne]
    written := fun _ _ => rfl }

theorem rewrites_persisted (hcalls : store.calls = []) (h : store.Spooled)
    (hholds : store.Holds ref stream record) {segment : List UInt8} (hsegment : segment ≠ []) :
    Rewrites store (store.persisted ref stream segment) ref stream
      (store.withSegment record segment) where
  calls := hcalls
  spooled := spooled_persisted h hholds hsegment
  holds := by
    have hself : (store.updateStream ref stream fun record =>
        store.withSegment record segment).Holds ref stream (store.withSegment record segment) :=
      holds_updateStream_self hholds
    exact hself
  elsewhere := {
    commands := rfl
    get? := fun {ref' stream'} hne => by
      show ((store.updateStream ref stream fun record =>
        store.withSegment record segment).records.read ref').streams.get? stream' = _
      rw [get?_updateStream, if_neg hne]
    written := fun {ref' stream' record'} _ hholds' => written_persisted fun extent hmem =>
      have hinside := h.inside ⟨record', hholds', hmem⟩
      ⟨hinside.1, hinside.2.2⟩ }

theorem written_withSegment (h : store.Spooled) (hholds : store.Holds ref stream record)
    (segment : List UInt8) :
    (store.persisted ref stream segment).written (store.withSegment record segment).extents =
      store.written record.extents ++ segment := by
  show (store.persisted ref stream segment).written (record.extents ++ [store.extents.next]) = _
  rw [written_append, written_persisted_new h.size, written_persisted fun extent hmem =>
    have hinside := h.inside ⟨record, hholds, hmem⟩
    ⟨hinside.1, hinside.2.2⟩]

/-- Segments go from the buffer to the file, and the stream holds the same. -/
theorem persistSegments_spec (fuel : Nat) (hcalls : store.calls = []) (h : store.Spooled)
    (hholds : store.Holds ref stream record) :
    ∃ after record', Effect.run (persistSegments ref stream fuel) store = (.ok (), after) ∧
      Rewrites store after ref stream record' ∧ record'.totalBytes = record.totalBytes ∧
      after.content record' = store.content record := by
  induction fuel generalizing store record with
  | zero =>
    exact ⟨store, record, rfl, ⟨hcalls, h, hholds, rfl, fun _ => rfl, fun _ _ => rfl⟩, rfl, rfl⟩
  | succ fuel ih =>
    unfold persistSegments
    rw [Effect.run_bind_ok (Effect.run_get store)]
    dsimp only
    rw [streamOf_of_get? hholds.2]
    split
    · next hsize =>
      have hset := rewrites_setBuffer hcalls h hholds (record.buffer.drop store.limits.segmentBytes)
      have hsegment : record.buffer.take store.limits.segmentBytes ≠ [] := by
        have hpos := store.limits.segmentBytes_pos
        rw [← List.length_pos_iff, List.length_take]
        omega
      have hpersisted := rewrites_persisted hset.calls hset.spooled hset.holds hsegment
      obtain ⟨after, record', hrun, hrest, htotal, hcontent⟩ :=
        ih hpersisted.calls hpersisted.spooled hpersisted.holds
      refine ⟨after, record', ?_, (hset.trans hpersisted).trans hrest, htotal, ?_⟩
      · rw [Effect.run_bind_ok (Effect.run_modify _ _),
          Effect.run_bind_ok (run_persist hset.calls hset.spooled.size _)]
        exact hrun
      · rw [hcontent]
        unfold content
        rw [written_withSegment hset.spooled hset.holds, List.append_assoc]
        exact congrArg (store.written record.extents ++ ·) (List.take_append_drop _ _)
    · exact ⟨store, record, rfl, ⟨hcalls, h, hholds, rfl, fun _ => rfl, fun _ _ => rfl⟩, rfl, rfl⟩

/-- The stream holds the bytes behind what it held. -/
theorem appendRecord_spec (hcalls : store.calls = []) (h : store.Spooled)
    (hholds : store.Holds ref stream record) (bytes : List UInt8) :
    ∃ after record', Effect.run (appendRecord ref stream bytes) store = (.ok (), after) ∧
      Rewrites store after ref stream record' ∧ record'.totalBytes = record.totalBytes ∧
      after.content record' = store.content record ++ bytes := by
  have hset := rewrites_setBuffer hcalls h hholds (record.buffer ++ bytes)
  have hsame : (store.updateStream ref stream fun record =>
      { record with buffer := record.buffer ++ bytes }) =
      store.updateStream ref stream fun old => { old with buffer := record.buffer ++ bytes } := by
    unfold updateStream
    rw [streamOf_of_get? hholds.2]
  obtain ⟨after, record', hrun, hrest, htotal, hcontent⟩ := persistSegments_spec
    ((store.updateStream ref stream fun old =>
      { old with buffer := record.buffer ++ bytes }).streamOf ref stream).buffer.length
    hset.calls hset.spooled hset.holds
  refine ⟨after, record', ?_, hset.trans hrest, htotal, ?_⟩
  · unfold appendRecord
    rw [Effect.run_bind_ok (Effect.run_modify _ _), Effect.run_bind_ok (Effect.run_get _), hsame]
    exact hrun
  · rw [hcontent]
    exact (List.append_assoc _ _ _).symm

theorem flush_spec (hcalls : store.calls = []) (h : store.Spooled)
    (hholds : store.Holds ref stream record) :
    ∃ after record', Effect.run (flush ref stream) store = (.ok (), after) ∧
      Rewrites store after ref stream record' ∧ record'.totalBytes = record.totalBytes ∧
      after.content record' = store.content record ∧ record'.buffer = [] := by
  unfold flush
  rw [Effect.run_bind_ok (Effect.run_get store)]
  dsimp only
  rw [streamOf_of_get? hholds.2]
  split
  · next hempty =>
    exact ⟨store, record, rfl, ⟨hcalls, h, hholds, rfl, fun _ => rfl, fun _ _ => rfl⟩, rfl, rfl,
      List.isEmpty_iff.mp hempty⟩
  · next hsome =>
    have hset := rewrites_setBuffer hcalls h hholds []
    have hsegment : record.buffer ≠ [] := fun hnil => hsome (List.isEmpty_iff.mpr hnil)
    have hpersisted := rewrites_persisted hset.calls hset.spooled hset.holds hsegment
    refine ⟨_, _, ?_, hset.trans hpersisted, rfl, ?_, rfl⟩
    · rw [Effect.run_bind_ok (Effect.run_modify _ _)]
      exact run_persist hset.calls hset.spooled.size _
    · unfold content
      rw [written_withSegment hset.spooled hset.holds]
      exact List.append_nil _

/-! ## Compaction -/

/-- The extents lie from `first` to `last` in the new file and hold what they held. -/
structure Packed (store : BashOutputStore) (extents : List Nat) (first : Nat)
    (heap : Heap BashOutputExtent) (file : List UInt8) (last : Nat) : Prop where
  size : file.length = store.bytes.length
  next : heap.next = store.extents.next
  fields : ∀ extent, (heap.read extent).logicalOffset = (store.extents.read extent).logicalOffset ∧
    (heap.read extent).length = (store.extents.read extent).length
  held : ∀ extent ∈ extents, slice file (heap.read extent).fileOffset (heap.read extent).length =
    store.extentBytes extent
  fits : first ≤ last
  bound : first ≤ store.bytes.length → last ≤ store.bytes.length
  inside : ∀ extent ∈ extents, first ≤ (heap.read extent).fileOffset ∧
    (heap.read extent).fileOffset + (heap.read extent).length ≤ last
  ordered : extents.Pairwise (Before heap)
  rest : ∀ extent, extent ∉ extents → heap.read extent = store.extents.read extent
  front : ∀ offset length, offset + length ≤ first →
    slice file offset length = slice store.bytes offset length

/-- The store after one extent was moved. -/
def withMoved (store : BashOutputStore) (extent fileOffset : Nat) : BashOutputStore :=
  { store with file := some (splice 0 store.bytes fileOffset (store.extentBytes extent)) }.setFileOffset
    extent fileOffset

theorem read_withMoved (store : BashOutputStore) (extent fileOffset other : Nat) :
    ((store.withMoved extent fileOffset).extents.read other) =
      if other = extent then { store.extents.read extent with fileOffset }
      else store.extents.read other := by
  unfold withMoved setFileOffset
  dsimp only
  rw [Heap.read_modify]

/-- One extent is in place, and the others are packed behind it. -/
theorem packed_cons {moved : BashOutputStore} {extent : Nat} {extents : List Nat} {first last : Nat}
    {heap : Heap BashOutputExtent} {file : List UInt8}
    (hsize : moved.bytes.length = store.bytes.length) (hnext : moved.extents.next = store.extents.next)
    (hmoved : moved.extents.read extent =
      { store.extents.read extent with fileOffset := first })
    (hsame : ∀ other, other ≠ extent → moved.extents.read other = store.extents.read other)
    (hextent : moved.extentBytes extent = store.extentBytes extent)
    (hothers : ∀ other ∈ extents, moved.extentBytes other = store.extentBytes other)
    (hfront : ∀ offset length, offset + length ≤ first →
      slice moved.bytes offset length = slice store.bytes offset length)
    (hnotMem : extent ∉ extents)
    (hroom : first + (store.extents.read extent).length ≤ store.bytes.length)
    (h : Packed moved extents (first + (store.extents.read extent).length) heap file last) :
    Packed store (extent :: extents) first heap file last := by
  have hself : heap.read extent = { store.extents.read extent with fileOffset := first } :=
    (h.rest extent hnotMem).trans hmoved
  exact {
    size := h.size.trans hsize
    next := h.next.trans hnext
    fields := fun other => by
      by_cases heq : other = extent
      · rw [heq, hself]
        exact ⟨rfl, rfl⟩
      · rw [← hsame other heq]
        exact h.fields other
    held := fun other hmem => by
      obtain rfl | hmem := List.mem_cons.mp hmem
      · rw [← hextent, hself, h.front _ _ (Nat.le_refl _)]
        unfold extentBytes
        rw [hmoved]
      · exact (h.held other hmem).trans (hothers other hmem)
    fits := Nat.le_trans (Nat.le_add_right _ _) h.fits
    bound := fun _ => hsize ▸ h.bound (hsize.symm ▸ hroom)
    inside := fun other hmem => by
      obtain rfl | hmem := List.mem_cons.mp hmem
      · rw [hself]
        exact ⟨Nat.le_refl _, h.fits⟩
      · obtain ⟨hlow, hhigh⟩ := h.inside other hmem
        exact ⟨Nat.le_trans (Nat.le_add_right _ _) hlow, hhigh⟩
    ordered := List.pairwise_cons.mpr ⟨fun other hmem => by
      unfold Before
      rw [hself]
      exact (h.inside other hmem).1, h.ordered⟩
    rest := fun other hmem => by
      obtain ⟨hne, hrest⟩ := not_or.mp (mt List.mem_cons.mpr hmem)
      rw [h.rest other hrest, hsame other hne]
    front := fun offset length hle => by
      rw [h.front offset length (Nat.le_trans hle (Nat.le_add_right _ _)), hfront offset length hle] }

theorem moveExtents_spec {extents : List Nat} (first : Nat) (hcalls : store.calls = [])
    (hfile : store.file = some store.bytes) (hordered : extents.Pairwise (Before store.extents))
    (hnodup : extents.Nodup)
    (hfirst : ∀ extent ∈ extents, first ≤ (store.extents.read extent).fileOffset)
    (hinside : ∀ extent ∈ extents, (store.extents.read extent).fileOffset +
      (store.extents.read extent).length ≤ store.bytes.length) :
    ∃ heap file last, Effect.run (moveExtents extents first) store =
      (.ok last, { store with extents := heap, file := some file }) ∧
      Packed store extents first heap file last := by
  induction extents generalizing store first with
  | nil =>
    refine ⟨store.extents, store.bytes, first, ?_, ⟨rfl, rfl, fun _ => ⟨rfl, rfl⟩, ?_, Nat.le_refl _,
      id, ?_, List.Pairwise.nil, fun _ _ => rfl, fun _ _ _ => rfl⟩⟩
    · rw [← hfile]
      rfl
    all_goals exact fun _ hmem => absurd hmem List.not_mem_nil
  | cons extent extents ih =>
    rw [List.pairwise_cons] at hordered
    rw [List.nodup_cons] at hnodup
    have hle := hfirst extent List.mem_cons_self
    have hend := hinside extent List.mem_cons_self
    have hbehind : ∀ other ∈ extents, first + (store.extents.read extent).length ≤
        (store.extents.read other).fileOffset := fun other hmem =>
      Nat.le_trans (Nat.add_le_add_right hle _) (hordered.1 other hmem)
    unfold moveExtents
    rw [Effect.run_bind_ok (Effect.run_get store)]
    dsimp only
    rw [if_neg (Nat.not_lt_of_le hle)]
    split
    · next hmove =>
      have hread : ¬ (store.file.getD []).length <
          (store.extents.read extent).fileOffset + (store.extents.read extent).length :=
        Nat.not_lt_of_le hend
      rw [if_neg hread]
      have hlt : first < (store.extents.read extent).fileOffset := Nat.lt_of_le_of_ne hle hmove
      have hlength := length_extentBytes hend
      have hin : first ≤ store.bytes.length := by omega
      have hsize : (store.withMoved extent first).bytes.length = store.bytes.length :=
        ByteFile.length_splice (by omega)
      have hself : (store.withMoved extent first).extents.read extent =
          { store.extents.read extent with fileOffset := first } := by
        rw [read_withMoved, if_pos rfl]
      have hsame : ∀ other, other ≠ extent →
          (store.withMoved extent first).extents.read other = store.extents.read other :=
        fun other hne => by rw [read_withMoved, if_neg hne]
      have hne : ∀ other ∈ extents, other ≠ extent := fun other hmem heq => hnodup.1 (heq ▸ hmem)
      have hextent : (store.withMoved extent first).extentBytes extent = store.extentBytes extent := by
        unfold extentBytes
        rw [hself]
        have hread : slice (splice 0 store.bytes first (store.extentBytes extent)) first
            (store.extentBytes extent).length = store.extentBytes extent :=
          ByteFile.slice_splice_self hin
        rw [hlength] at hread
        exact hread
      have hothers : ∀ other ∈ extents,
          (store.withMoved extent first).extentBytes other = store.extentBytes other := by
        intro other hmem
        unfold extentBytes
        rw [hsame other (hne other hmem)]
        refine ByteFile.slice_splice_after hin ?_
        rw [hlength]
        exact hbehind other hmem
      obtain ⟨heap, file, last, hrun, hpacked⟩ := @ih (store.withMoved extent first)
        (first + (store.extents.read extent).length) hcalls rfl
        (hordered.2.imp_of_mem fun {a b} ha hb h => by
          unfold Before
          rw [hsame a (hne a ha), hsame b (hne b hb)]
          exact h)
        hnodup.2
        (fun other hmem => by
          rw [hsame other (hne other hmem)]
          exact hbehind other hmem)
        (fun other hmem => by
          rw [hsame other (hne other hmem), hsize]
          exact hinside other (List.mem_cons_of_mem _ hmem))
      refine ⟨heap, file, last, ?_, packed_cons hsize rfl hself hsame hextent hothers
        (fun offset length h => ByteFile.slice_splice_before hin h) hnodup.1
        (Nat.le_trans (Nat.add_le_add_right hle _) hend) hpacked⟩
      rw [Effect.run_bind_ok (run_fileCall hcalls _), Effect.run_bind_ok (Effect.run_modify _ _)]
      exact hrun
    · next hstay =>
      have hstay : first = (store.extents.read extent).fileOffset := not_not.mp hstay
      obtain ⟨heap, file, last, hrun, hpacked⟩ := ih (first + (store.extents.read extent).length)
        hcalls hfile hordered.2 hnodup.2 hbehind fun other hmem =>
          hinside other (List.mem_cons_of_mem _ hmem)
      refine ⟨heap, file, last, hrun, packed_cons rfl rfl ?_ (fun _ _ => rfl) rfl (fun _ _ => rfl)
        (fun _ _ _ => rfl) hnodup.1 (hstay ▸ hend) hpacked⟩
      rw [hstay]

theorem mem_registeredExtents {extent : Nat} :
    extent ∈ store.registeredExtents ↔ ∃ ref stream, store.Owns ref stream extent := by
  unfold registeredExtents Owns Holds
  simp only [List.mem_flatMap, List.mem_map]
  constructor
  · rintro ⟨record, ⟨ref, href, ⟨stream, _⟩, hentry, rfl⟩, hmem⟩
    exact ⟨ref, stream, _, ⟨href, InsMap.mem_entries.mp hentry⟩, hmem⟩
  · rintro ⟨ref, stream, record, ⟨href, hget⟩, hmem⟩
    exact ⟨record, ⟨ref, href, (stream, record), InsMap.mem_entries.mpr hget, rfl⟩, hmem⟩

theorem nodup_registeredExtents (h : store.Spooled) : store.registeredExtents.Nodup := by
  have howns : ∀ {ref stream record extent}, ref ∈ store.commands →
      (stream, record) ∈ (store.records.read ref).streams.entries → extent ∈ record.extents →
      store.Owns ref stream extent := fun href hentry hmem =>
    ⟨_, ⟨href, InsMap.mem_entries.mp hentry⟩, hmem⟩
  unfold registeredExtents
  refine List.nodup_flatMap.mpr ⟨fun record hrecord => ?_, List.pairwise_flatMap.mpr ⟨?_, ?_⟩⟩
  · obtain ⟨ref, href, hrecord⟩ := List.mem_flatMap.mp hrecord
    obtain ⟨⟨stream, _⟩, hentry, rfl⟩ := List.mem_map.mp hrecord
    exact h.once ⟨href, InsMap.mem_entries.mp hentry⟩
  · -- two streams of a command
    intro ref href
    refine List.pairwise_map.mpr ((List.pairwise_map.mp
      (store.records.read ref).streams.nodup).imp_of_mem fun {p q} hp hq hne => ?_)
    intro extent hmem hmem'
    exact hne (h.owner (howns href hp hmem) (howns href hq hmem')).2
  · -- two commands
    refine h.nodup.imp_of_mem fun {ref ref'} href href' hne record hrecord record' hrecord' => ?_
    obtain ⟨⟨stream, _⟩, hentry, rfl⟩ := List.mem_map.mp hrecord
    obtain ⟨⟨stream', _⟩, hentry', rfl⟩ := List.mem_map.mp hrecord'
    intro extent hmem hmem'
    exact hne (h.owner (howns href hentry hmem) (howns href' hentry' hmem')).1

theorem pairwise_before_sorted (h : store.Spooled) :
    (store.registeredExtents.insertionSort fun left right =>
      (store.extents.read left).fileOffset ≤ (store.extents.read right).fileOffset).Pairwise
      (Before store.extents) := by
  have htotal : Std.Total fun left right : Nat =>
      (store.extents.read left).fileOffset ≤ (store.extents.read right).fileOffset :=
    ⟨fun left right => Nat.le_total _ _⟩
  have htrans : IsTrans Nat fun left right : Nat =>
      (store.extents.read left).fileOffset ≤ (store.extents.read right).fileOffset :=
    ⟨fun _ _ _ => Nat.le_trans⟩
  have hsorted := List.pairwise_insertionSort (fun left right : Nat =>
    (store.extents.read left).fileOffset ≤ (store.extents.read right).fileOffset)
    store.registeredExtents
  have hnodup := (List.perm_insertionSort (fun left right : Nat =>
    (store.extents.read left).fileOffset ≤ (store.extents.read right).fileOffset)
    store.registeredExtents).nodup_iff.mpr (nodup_registeredExtents h)
  refine (hsorted.and hnodup).imp_of_mem fun {left right} hleft hright hboth => ?_
  obtain ⟨ref, stream, howns⟩ := mem_registeredExtents.mp ((List.mem_insertionSort _).mp hleft)
  obtain ⟨ref', stream', howns'⟩ := mem_registeredExtents.mp ((List.mem_insertionSort _).mp hright)
  obtain hbefore | hbehind := h.apart howns howns' hboth.2
  · exact hbefore
  · -- the extents are sorted, and none is empty
    have hpos := (h.inside howns').2.1
    have hle := hboth.1
    unfold Before at hbehind
    omega

/-- Compaction moves what the registry holds. -/
theorem compactFile_spec (hcalls : store.calls = []) (h : store.Spooled) :
    ∃ after, Effect.run compactFile store = (.ok (), after) ∧ after.calls = [] ∧ after.Spooled ∧
      after.records = store.records ∧ after.commands = store.commands ∧
      ∀ {ref stream record}, store.Holds ref stream record →
        after.written record.extents = store.written record.extents := by
  unfold compactFile
  rw [Effect.run_bind_ok (Effect.run_get store)]
  cases hfile : store.file with
  | none =>
    refine ⟨_, Effect.run_modify _ _, hcalls, ?_, rfl, rfl, fun _ => rfl⟩
    have hbytes : store.bytes = [] := by
      rw [bytes, hfile]
      rfl
    exact {
      nodup := h.nodup
      size := (congrArg List.length hbytes).symm
      inside := h.inside
      owner := h.owner
      once := h.once
      apart := h.apart
      chained := h.chained }
  | some file =>
    dsimp only
    have hfile' : store.file = some store.bytes := by
      rw [bytes, hfile]
      rfl
    have hmem : ∀ {extent}, extent ∈ (store.registeredExtents.insertionSort fun left right =>
        (store.extents.read left).fileOffset ≤ (store.extents.read right).fileOffset) ↔
        ∃ ref stream, store.Owns ref stream extent := fun {extent} =>
      (List.mem_insertionSort _).trans mem_registeredExtents
    obtain ⟨heap, moved, last, hrun, hpacked⟩ := moveExtents_spec 0 hcalls hfile'
      (pairwise_before_sorted h)
      ((List.perm_insertionSort _ store.registeredExtents).nodup_iff.mpr (nodup_registeredExtents h))
      (fun _ _ => Nat.zero_le _) fun extent hextent => by
        obtain ⟨ref, stream, howns⟩ := hmem.mp hextent
        exact (h.inside howns).2.2
    have hlast : last ≤ moved.length := hpacked.size ▸ hpacked.bound (Nat.zero_le _)
    have hheld : ∀ {extent}, (∃ ref stream, store.Owns ref stream extent) →
        slice (moved.take last) (heap.read extent).fileOffset (heap.read extent).length =
          store.extentBytes extent := fun {extent} howns => by
      rw [ByteFile.slice_take (hpacked.inside extent (hmem.mpr howns)).2]
      exact hpacked.held extent (hmem.mpr howns)
    refine ⟨{ store with
      extents := heap
      file := some (moved.take last)
      fileOffset := last }, ?_, hcalls, ?_, rfl, rfl, fun {ref stream record} hholds => ?_⟩
    · have hcalls' : { store with
        extents := heap
        file := some moved }.calls = [] := hcalls
      rw [Effect.run_bind_ok hrun, Effect.run_bind_ok (Effect.run_get _),
        Effect.run_bind_ok (run_fileCall hcalls' _), Option.getD_some, ByteFile.resize_of_le hlast]
      rfl
    · exact {
        nodup := h.nodup
        size := by
          show last = (moved.take last).length
          rw [List.length_take, Nat.min_eq_left hlast]
        inside := fun {ref stream extent} howns => by
          obtain ⟨hnext, hpos, -⟩ := h.inside howns
          show extent < heap.next ∧ 0 < (heap.read extent).length ∧
            (heap.read extent).fileOffset + (heap.read extent).length ≤ (moved.take last).length
          rw [hpacked.next, (hpacked.fields extent).2, List.length_take, Nat.min_eq_left hlast,
            ← (hpacked.fields extent).2]
          exact ⟨hnext, (hpacked.fields extent).2 ▸ hpos,
            (hpacked.inside extent (hmem.mpr ⟨ref, stream, howns⟩)).2⟩
        owner := h.owner
        once := h.once
        apart := fun {ref stream extent ref' stream' other} howns howns' hne => by
          have hordered : (store.registeredExtents.insertionSort fun left right =>
              (store.extents.read left).fileOffset ≤ (store.extents.read right).fileOffset).Pairwise
              fun left right => Before heap left right ∨ Before heap right left :=
            hpacked.ordered.imp .inl
          have : Std.Symm fun left right => Before heap left right ∨ Before heap right left :=
            ⟨fun _ _ => Or.symm⟩
          exact hordered.forall (hmem.mpr ⟨ref, stream, howns⟩)
            (hmem.mpr ⟨ref', stream', howns'⟩) hne
        chained := fun hholds => chained_congr (h.chained hholds) fun extent _ =>
          hpacked.fields extent }
    · exact List.flatMap_congr fun extent hextent => hheld ⟨ref, stream, record, hholds, hextent⟩

/-! ## Reading -/

theorem run_readFile (hcalls : store.calls = []) {file : List UInt8} (hfile : store.file = some file)
    {offset length : Nat} (h : offset + length ≤ file.length) :
    Effect.run (readFile offset length) store = (.ok (slice file offset length), store) := by
  unfold Effect.run readFile
  rw [hfile, hcalls]
  dsimp only
  rw [if_neg (Nat.not_lt_of_le h)]

/-- The loop goes on behind the bytes that it has read. -/
theorem readExtents_spec {offset length first last : Nat} {extents : List Nat} {acc : List UInt8}
    (hcalls : store.calls = []) {file : List UInt8} (hfile : store.file = some file)
    (hchained : Chained store.extents first extents last)
    (hinside : ∀ extent ∈ extents, 0 < (store.extents.read extent).length ∧
      (store.extents.read extent).fileOffset + (store.extents.read extent).length ≤ file.length)
    (hacc : acc.length = min first (offset + length) - offset) (hshort : acc.length < length)
    (hend : offset + length ≤ last) :
    Effect.run (readExtents offset length extents acc) store =
      (.ok (acc ++ slice (store.written extents) (offset - first) (length - acc.length)), store) := by
  have hbytes : store.bytes = file := by
    rw [bytes, hfile]
    rfl
  induction extents generalizing first acc with
  | nil =>
    obtain rfl : first = last := hchained
    omega
  | cons extent extents ih =>
    obtain ⟨hlogical, hrest⟩ := hchained
    obtain ⟨hpos, hin⟩ := hinside extent List.mem_cons_self
    have hinside' := fun other hmem => hinside other (List.mem_cons_of_mem _ hmem)
    have hlength : (store.extentBytes extent).length = (store.extents.read extent).length :=
      length_extentBytes (hbytes ▸ hin)
    have hwritten : store.written (extent :: extents) =
        store.extentBytes extent ++ store.written extents := List.flatMap_cons
    unfold readExtents
    rw [Effect.run_bind_ok (Effect.run_get store)]
    dsimp only
    rw [hlogical]
    split
    · next hskip =>
      -- the extent lies before the range
      have hbefore : first + (store.extents.read extent).length ≤ offset := by omega
      have hslice : slice (store.written (extent :: extents)) (offset - first)
          (length - acc.length) = slice (store.written extents)
            (offset - (first + (store.extents.read extent).length)) (length - acc.length) := by
        rw [hwritten, slice, slice, List.drop_append,
          List.drop_of_length_le (Nat.le_trans (Nat.le_of_eq hlength) (by omega)), List.nil_append,
          hlength, Nat.sub_add_eq]
      rw [hslice]
      exact ih hrest hinside' (by omega) hshort
    · next htake =>
      have hread : Effect.run (readFile
          ((store.extents.read extent).fileOffset + max offset first - first)
          (min (offset + length) (first + (store.extents.read extent).length) - max offset first))
          store = (.ok (slice (store.extentBytes extent) (offset - first)
          (min (offset + length) (first + (store.extents.read extent).length) -
            max offset first)), store) := by
        rw [run_readFile hcalls hfile (by omega), extentBytes, ByteFile.slice_slice (by omega), hbytes]
        congr 3
        omega
      have hcount : (slice (store.extentBytes extent) (offset - first)
          (min (offset + length) (first + (store.extents.read extent).length) -
            max offset first)).length =
          min (offset + length) (first + (store.extents.read extent).length) - max offset first :=
        ByteFile.length_slice (by omega)
      rw [Effect.run_bind_ok hread, hwritten, ByteFile.slice_append]
      split
      · next hdone =>
        rw [List.length_append, hcount] at hdone
        have hrange : min (offset + length) (first + (store.extents.read extent).length) -
            max offset first = length - acc.length := by omega
        have hnone : length - acc.length - ((store.extentBytes extent).length - (offset - first)) = 0 := by
          omega
        rw [hrange, hnone]
        unfold slice
        rw [List.take_zero, List.append_nil]
        rfl
      · next hmore =>
        rw [List.length_append, hcount] at hmore
        have hall : slice (store.extentBytes extent) (offset - first)
            (min (offset + length) (first + (store.extents.read extent).length) - max offset first) =
            slice (store.extentBytes extent) (offset - first) (length - acc.length) := by
          unfold slice
          rw [List.take_of_length_le (by rw [List.length_drop]; omega),
            List.take_of_length_le (by rw [List.length_drop]; omega)]
        have hgo := @ih _ (acc ++ slice (store.extentBytes extent) (offset - first)
          (min (offset + length) (first + (store.extents.read extent).length) - max offset first))
          hrest hinside' (by rw [List.length_append, hcount]; omega)
          (by rw [List.length_append, hcount]; omega)
        rw [hgo, List.length_append, hcount, hall, List.append_assoc]
        congr 5 <;> omega

/-- A range of a stream that is in the file is read back. -/
theorem readRecordRange_spec (hcalls : store.calls = []) (h : store.Spooled)
    (hholds : store.Holds ref stream record) {offset length : Nat}
    (hrange : offset + length ≤ (store.written record.extents).length) :
    Effect.run (readRecordRange record offset length) store =
      (.ok (slice (store.written record.extents) offset length), store) := by
  have hlast := h.length_written hholds
  unfold readRecordRange
  rw [Effect.run_bind_ok (Effect.run_get store)]
  split
  · next hzero =>
    rw [hzero]
    unfold slice
    rw [List.take_zero]
    rfl
  · next hsome =>
    have hinside := fun extent (hmem : extent ∈ record.extents) =>
      (h.inside ⟨record, hholds, hmem⟩).2
    cases hfile : store.file with
    | none =>
      -- without a file nothing is written
      have hbytes : store.bytes = [] := by
        rw [bytes, hfile]
        rfl
      cases hextents : record.extents with
      | nil =>
        rw [hextents] at hrange
        exact absurd hrange (by show ¬ offset + length ≤ 0; omega)
      | cons extent extents =>
        have hextent := hinside extent (hextents ▸ List.mem_cons_self)
        rw [hbytes] at hextent
        simp only [List.length_nil] at hextent
        omega
    | some file =>
      have hbytes : store.bytes = file := by
        rw [bytes, hfile]
        rfl
      rw [if_neg (by simp)]
      have hread : Effect.run (readExtents offset length record.extents []) store =
          (.ok ([] ++ slice (store.written record.extents) (offset - 0) (length - 0)), store) :=
        readExtents_spec hcalls hfile (h.chained hholds) (hbytes ▸ hinside) (by simp)
          (Nat.pos_of_ne_zero hsome) (hlast ▸ hrange)
      exact hread

end BashOutputStore

end Henji
