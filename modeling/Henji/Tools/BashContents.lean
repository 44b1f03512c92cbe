import Henji.Tools.BashAccountingLaw
import Henji.Tools.BashSpool

/-!
# What the output store keeps

Where every call on the file succeeds, a call of the store changes what the streams of its own
command hold, and no others.

Results:
1. `takes_scalarBoundaryPrefix`, `appendLocked_content`: an append stores whole characters from the
   front of its text behind what the stream holds.
2. `finishLocked_content`, `abandonLocked_content`: finishing and abandoning leave what the registry
   holds, though they write and move the bytes of the file.
-/

namespace Henji

namespace BashOutputStore

variable {store : BashOutputStore} {ref : Nat} {stream : BashOutputStream}
  {record : BashOutputStreamRecord}

theorem Holds.unique {record' : BashOutputStreamRecord} (h : store.Holds ref stream record)
    (h' : store.Holds ref stream record') : record' = record :=
  Option.some.inj (h'.2.symm.trans h.2)

/-- What a stream of a command holds. -/
def contentOf (store : BashOutputStore) (ref : Nat) (stream : BashOutputStream) : List UInt8 :=
  ((store.records.read ref).streams.get? stream).elim [] store.content

theorem contentOf_of_holds (h : store.Holds ref stream record) :
    store.contentOf ref stream = store.content record := by
  rw [contentOf, h.2]
  rfl

/-- The streams are in the file and in their buffers. -/
structure Sound (store : BashOutputStore) : Prop where
  calls : store.calls = []
  spooled : store.Spooled
  total : ∀ {ref stream record}, store.Holds ref stream record →
    record.totalBytes = (store.content record).length
  flushed : ∀ {ref stream record}, store.Holds ref stream record →
    (store.records.read ref).finalized = true → record.buffer = []

/-- The registry holds the same streams. -/
structure Same (before after : BashOutputStore) : Prop where
  commands : after.commands = before.commands
  forward : ∀ {ref stream record}, before.Holds ref stream record →
    ∃ record', after.Holds ref stream record' ∧ record'.totalBytes = record.totalBytes ∧
      after.content record' = before.content record ∧ (record.buffer = [] → record'.buffer = [])
  backward : ∀ {ref stream record'}, after.Holds ref stream record' →
    ∃ record, before.Holds ref stream record

theorem Same.refl (store : BashOutputStore) : Same store store :=
  ⟨rfl, fun {_ _ record} h => ⟨record, h, rfl, rfl, id⟩, fun {_ _ record} h => ⟨record, h⟩⟩

theorem Same.trans {first middle last : BashOutputStore} (h : Same first middle)
    (h' : Same middle last) : Same first last where
  commands := h'.commands.trans h.commands
  forward hholds := by
    obtain ⟨record', hholds', htotal, hcontent, hbuffer⟩ := h.forward hholds
    obtain ⟨record'', hholds'', htotal', hcontent', hbuffer'⟩ := h'.forward hholds'
    exact ⟨record'', hholds'', htotal'.trans htotal, hcontent'.trans hcontent, hbuffer' ∘ hbuffer⟩
  backward hholds := by
    obtain ⟨record', hholds'⟩ := h'.backward hholds
    exact h.backward hholds'

theorem Same.contentOf {before after : BashOutputStore} (h : Same before after)
    (hmem : ref ∈ before.commands) (stream : BashOutputStream) :
    after.contentOf ref stream = before.contentOf ref stream := by
  cases hget : (before.records.read ref).streams.get? stream with
  | some record =>
    obtain ⟨record', hholds', -, hcontent, -⟩ := h.forward ⟨hmem, hget⟩
    rw [contentOf_of_holds hholds', contentOf_of_holds ⟨hmem, hget⟩, hcontent]
  | none =>
    cases hget' : (after.records.read ref).streams.get? stream with
    | none => rw [BashOutputStore.contentOf, BashOutputStore.contentOf, hget, hget']; rfl
    | some record' =>
      obtain ⟨record, -, hsome⟩ := h.backward ⟨h.commands ▸ hmem, hget'⟩
      exact absurd (hget.symm.trans hsome) (Option.some_ne_none _).symm

/-- A rewrite of one stream that holds the same. -/
theorem same_of_rewrites {after : BashOutputStore} {record' : BashOutputStreamRecord}
    (hholds : store.Holds ref stream record) (h : Rewrites store after ref stream record')
    (htotal : record'.totalBytes = record.totalBytes)
    (hcontent : after.content record' = store.content record)
    (hbuffer : record.buffer = [] → record'.buffer = []) : Same store after where
  commands := h.elsewhere.commands
  forward {ref₀ stream₀ old} hold := by
    by_cases heq : ref₀ = ref ∧ stream₀ = stream
    · obtain ⟨rfl, rfl⟩ := heq
      obtain rfl := hholds.unique hold
      exact ⟨record', h.holds, htotal, hcontent, hbuffer⟩
    · refine ⟨old, ⟨h.elsewhere.commands ▸ hold.1, (h.elsewhere.get? heq).trans hold.2⟩, rfl, ?_, id⟩
      unfold content
      rw [h.elsewhere.written heq hold]
  backward {ref₀ stream₀ new} hnew := by
    by_cases heq : ref₀ = ref ∧ stream₀ = stream
    · obtain ⟨rfl, rfl⟩ := heq
      exact ⟨record, hholds⟩
    · exact ⟨new, h.elsewhere.commands ▸ hnew.1, (h.elsewhere.get? heq).symm.trans hnew.2⟩

/-! ## Flushing -/

theorem flushAll_content (streams : List BashOutputStream) (hcalls : store.calls = [])
    (h : store.Spooled)
    (hstreams : ∀ stream ∈ streams, ∃ record, store.Holds ref stream record) :
    ∃ after, Effect.run (streams.forM fun stream => flush ref stream) store = (.ok ⟨⟩, after) ∧
      after.calls = [] ∧ after.Spooled ∧ Same store after ∧
      ∀ stream ∈ streams, ∀ record, after.Holds ref stream record → record.buffer = [] := by
  induction streams generalizing store with
  | nil =>
    exact ⟨store, rfl, hcalls, h, .refl store, fun _ hmem => absurd hmem List.not_mem_nil⟩
  | cons stream streams ih =>
    obtain ⟨record, hholds⟩ := hstreams stream List.mem_cons_self
    obtain ⟨middle, record', hrun, hrewrites, htotal, hcontent, hempty⟩ := flush_spec hcalls h hholds
    have hsame := same_of_rewrites hholds hrewrites htotal hcontent fun _ => hempty
    obtain ⟨after, hrest, hcalls', hspooled, hsame', hflushed⟩ := ih hrewrites.calls
      hrewrites.spooled fun other hmem => by
        obtain ⟨old, hold⟩ := hstreams other (List.mem_cons_of_mem _ hmem)
        obtain ⟨new, hnew, -⟩ := hsame.forward hold
        exact ⟨new, hnew⟩
    refine ⟨after, ?_, hcalls', hspooled, hsame.trans hsame', fun other hmem last hlast => ?_⟩
    · exact (Effect.run_bind_ok hrun).trans hrest
    · obtain rfl | hmem := List.mem_cons.mp hmem
      · obtain ⟨last', hlast', -, -, hbuffer⟩ := hsame'.forward hrewrites.holds
        rw [hlast'.unique hlast]
        exact hbuffer hempty
      · exact hflushed other hmem last hlast

/-! ## Changes of a record -/

theorem holds_updateRecord {f : BashOutputCommandRecord → BashOutputCommandRecord}
    (hf : ∀ record, (f record).streams = record.streams) {ref' : Nat} :
    (store.updateRecord ref f).Holds ref' stream record ↔ store.Holds ref' stream record := by
  unfold Holds updateRecord
  dsimp only
  rw [Heap.read_modify]
  split
  · next heq => rw [hf, heq]
  · rfl

theorem same_updateRecord {f : BashOutputCommandRecord → BashOutputCommandRecord}
    (hf : ∀ record, (f record).streams = record.streams) : Same store (store.updateRecord ref f) where
  commands := rfl
  forward {_ _ record} hholds := ⟨record, (holds_updateRecord hf).mpr hholds, rfl, rfl, id⟩
  backward {_ _ record} hholds := ⟨record, (holds_updateRecord hf).mp hholds⟩

theorem spooled_updateRecord (h : store.Spooled)
    {f : BashOutputCommandRecord → BashOutputCommandRecord}
    (hf : ∀ record, (f record).streams = record.streams) : (store.updateRecord ref f).Spooled :=
  spooled_of_records h h.nodup rfl rfl rfl fun {_ _ record} hholds =>
    .inl ⟨record, (holds_updateRecord hf).mp hholds, rfl, rfl⟩

/-- The same streams are sound where the flags ask for no more. -/
theorem sound_of_same {after : BashOutputStore} (h : store.Sound) (hsame : Same store after)
    (hcalls : after.calls = []) (hspooled : after.Spooled)
    (hflushed : ∀ {ref stream record}, after.Holds ref stream record →
      (after.records.read ref).finalized = true → (store.records.read ref).finalized = true ∨
        record.buffer = []) : after.Sound where
  calls := hcalls
  spooled := hspooled
  total {ref stream record'} hholds' := by
    obtain ⟨record, hholds⟩ := hsame.backward hholds'
    obtain ⟨record'', hholds'', htotal, hcontent, -⟩ := hsame.forward hholds
    rw [hholds''.unique hholds', htotal, hcontent]
    exact h.total hholds
  flushed {ref stream record'} hholds' hfinalized := by
    obtain hold | hempty := hflushed hholds' hfinalized
    · obtain ⟨record, hholds⟩ := hsame.backward hholds'
      obtain ⟨record'', hholds'', -, -, hbuffer⟩ := hsame.forward hholds
      rw [hholds''.unique hholds']
      exact hbuffer (h.flushed hholds hold)
    · exact hempty

theorem finalized_setLimit (store : BashOutputStore) (ref : Nat) (reason : BashOutputLimitReason)
    (ref' : Nat) : ((store.setLimit ref reason).records.read ref').finalized =
      (store.records.read ref').finalized := by
  unfold setLimit updateRecord
  dsimp only
  rw [Heap.read_modify]
  split
  · next heq => rw [heq]
  · rfl

theorem sound_setLimit (h : store.Sound) (ref : Nat) (reason : BashOutputLimitReason) :
    (store.setLimit ref reason).Sound :=
  sound_of_same h (same_updateRecord fun _ => rfl) h.calls
    (spooled_updateRecord h.spooled fun _ => rfl) fun _ hfinalized =>
      .inl ((finalized_setLimit store ref reason _).symm.trans hfinalized)

/-! ## Appending -/

/-- A stream holds `accepted` behind what it held, and the others hold the same. -/
structure Grows (before after : BashOutputStore) (ref : Nat) (stream : BashOutputStream)
    (accepted : List UInt8) : Prop where
  sound : after.Sound
  commands : after.commands = before.commands
  self : after.contentOf ref stream = before.contentOf ref stream ++ accepted
  others : ∀ {ref' stream'}, ref' ∈ before.commands → ¬ (ref' = ref ∧ stream' = stream) →
    after.contentOf ref' stream' = before.contentOf ref' stream'

theorem grows_setLimit {after : BashOutputStore} {accepted : List UInt8}
    (h : Grows store after ref stream accepted) (hmem : ref ∈ store.commands)
    (reason : BashOutputLimitReason) :
    Grows store (after.setLimit ref reason) ref stream accepted := by
  have hsame : Same after (after.setLimit ref reason) := same_updateRecord fun _ => rfl
  exact {
    sound := sound_setLimit h.sound ref reason
    commands := h.commands
    self := (hsame.contentOf (h.commands ▸ hmem) stream).trans h.self
    others := fun hmem' hne => (hsame.contentOf (h.commands ▸ hmem') _).trans (h.others hmem' hne) }

theorem grows_nothing (h : store.Sound) : Grows store store ref stream [] :=
  ⟨h, rfl, (List.append_nil _).symm, fun _ _ => rfl⟩

theorem get?_accept (store : BashOutputStore) (ref : Nat) (stream : BashOutputStream) (count : Nat)
    (ref' : Nat) (stream' : BashOutputStream) :
    ((store.accept ref stream count).records.read ref').streams.get? stream' =
      if ref' = ref ∧ stream' = stream then
        some { store.streamOf ref stream with
          totalBytes := (store.streamOf ref stream).totalBytes + count }
      else (store.records.read ref').streams.get? stream' := by
  unfold accept updateRecord
  dsimp only
  rw [Heap.read_modify]
  by_cases href : ref' = ref
  · subst href
    rw [if_pos rfl]
    dsimp only
    rw [InsMap.get?_set]
    simp only [true_and]
  · rw [if_neg href, if_neg fun h => href h.1]

/-- A stream that is not there holds nothing. -/
theorem content_streamOf (store : BashOutputStore) (ref : Nat) (stream : BashOutputStream) :
    store.content (store.streamOf ref stream) = store.contentOf ref stream := by
  unfold contentOf streamOf
  cases (store.records.read ref).streams.get? stream <;> rfl

theorem spooled_accept (h : store.Spooled) (hmem : ref ∈ store.commands) (count : Nat) :
    (store.accept ref stream count).Spooled := by
  refine spooled_of_records h h.nodup rfl rfl rfl fun {ref' stream' record'} hholds => ?_
  obtain ⟨hmem', hget⟩ := hholds
  rw [get?_accept] at hget
  split at hget
  · next heq =>
    cases hget
    unfold streamOf
    cases hold : (store.records.read ref).streams.get? stream with
    | none => exact .inr ⟨rfl, rfl⟩
    | some record =>
      obtain ⟨rfl, rfl⟩ := heq
      exact .inl ⟨record, ⟨hmem, hold⟩, rfl, rfl⟩
  · exact .inl ⟨record', ⟨hmem', hget⟩, rfl, rfl⟩

theorem finalized_accept (store : BashOutputStore) (ref : Nat) (stream : BashOutputStream)
    (count ref' : Nat) : ((store.accept ref stream count).records.read ref').finalized =
      (store.records.read ref').finalized := by
  unfold accept updateRecord
  dsimp only
  rw [Heap.read_modify]
  split
  · next heq => rw [heq]
  · rfl

/-- The stream takes the bytes. -/
theorem accept_content (h : store.Sound) (hmem : ref ∈ store.commands)
    (hlive : (store.records.read ref).finalized = false) (stream : BashOutputStream)
    (accepted : List UInt8) :
    ∃ after, Effect.run (appendRecord ref stream accepted)
        (store.accept ref stream accepted.length) = (.ok (), after) ∧
      Grows store after ref stream accepted := by
  have hself : (store.accept ref stream accepted.length).Holds ref stream
      { store.streamOf ref stream with
        totalBytes := (store.streamOf ref stream).totalBytes + accepted.length } :=
    ⟨hmem, by rw [get?_accept, if_pos ⟨rfl, rfl⟩]⟩
  have hcalls : (store.accept ref stream accepted.length).calls = [] := h.calls
  obtain ⟨after, record', hrun, hrewrites, htotal, hcontent⟩ :=
    appendRecord_spec hcalls (spooled_accept h.spooled hmem accepted.length) hself accepted
  have hstream : ((store.accept ref stream accepted.length).books.accounts ref).streams.has stream
      = true := by
    rw [has_account, InsMap.has, hself.2]
    rfl
  have hbooks : after.books = (store.accept ref stream accepted.length).books := by
    have hkeeps := Effect.keeps_iff.mp (keeps_appendRecord hstream accepted)
      (store.accept ref stream accepted.length) rfl
    rwa [hrun] at hkeeps
  have hfinalized : ∀ ref', (after.records.read ref').finalized =
      (store.records.read ref').finalized := fun ref' =>
    (congrArg (fun books : BashBooks => (books.accounts ref').finalized) hbooks).trans
      (finalized_accept store ref stream accepted.length ref')
  have hself' : after.content record' = store.contentOf ref stream ++ accepted := by
    rw [hcontent, ← content_streamOf]
    rfl
  -- the other streams are as in the store
  have hother : ∀ {ref' stream' old}, ¬ (ref' = ref ∧ stream' = stream) →
      after.Holds ref' stream' old → store.Holds ref' stream' old ∧
        after.content old = store.content old := by
    intro ref' stream' old hne hold
    have hmid : (store.accept ref stream accepted.length).Holds ref' stream' old :=
      ⟨hrewrites.elsewhere.commands ▸ hold.1, (hrewrites.elsewhere.get? hne).symm.trans hold.2⟩
    have hget := hmid.2
    rw [get?_accept, if_neg hne] at hget
    refine ⟨⟨hmid.1, hget⟩, ?_⟩
    unfold content
    rw [hrewrites.elsewhere.written hne hmid]
    rfl
  have htotal' : (store.streamOf ref stream).totalBytes = (store.contentOf ref stream).length := by
    cases hget : (store.records.read ref).streams.get? stream with
    | none => rw [streamOf, contentOf, hget]; rfl
    | some record =>
      have hholds : store.Holds ref stream record := ⟨hmem, hget⟩
      rw [streamOf_of_get? hget, contentOf_of_holds hholds]
      exact h.total hholds
  refine ⟨after, hrun, ?_, hrewrites.elsewhere.commands, ?_, fun {ref' stream'} hmem' hne => ?_⟩
  · exact {
      calls := hrewrites.calls
      spooled := hrewrites.spooled
      total := fun {ref' stream' old} hold => by
        by_cases heq : ref' = ref ∧ stream' = stream
        · obtain ⟨rfl, rfl⟩ := heq
          rw [hrewrites.holds.unique hold, hself', List.length_append, ← htotal']
          exact htotal
        · obtain ⟨hholds, hsame⟩ := hother heq hold
          rw [hsame]
          exact h.total hholds
      flushed := fun {ref' stream' old} hold hdone => by
        rw [hfinalized] at hdone
        have hne : ¬ (ref' = ref ∧ stream' = stream) := fun heq =>
          Bool.false_ne_true (hlive.symm.trans (heq.1 ▸ hdone))
        exact h.flushed (hother hne hold).1 hdone }
  · rw [contentOf_of_holds hrewrites.holds, hself']
  · have hsame : (after.records.read ref').streams.get? stream' =
        (store.records.read ref').streams.get? stream' := by
      rw [hrewrites.elsewhere.get? hne, get?_accept, if_neg hne]
    cases hget : (after.records.read ref').streams.get? stream' with
    | none => rw [contentOf, contentOf, ← hsame, hget]; rfl
    | some old =>
      have hold : after.Holds ref' stream' old := ⟨hrewrites.elsewhere.commands ▸ hmem', hget⟩
      obtain ⟨hholds, hcontent⟩ := hother hne hold
      rw [contentOf_of_holds hold, contentOf_of_holds hholds, hcontent]

/-- A text that an append takes from the front of another one. -/
structure Takes (text : JsText) (accepted : List UInt8) (front : JsText) : Prop where
  isPrefix : front <+: text
  wellFormed : hasWellFormedUnicode front = true
  encode : encodeUtf8 front = accepted

theorem isContinuation_boundaryBefore {bytes : List UInt8} {last : Nat} {b : UInt8}
    (hzero : boundaryBefore bytes last ≠ 0)
    (h : bytes[boundaryBefore bytes last]? = some b) : isContinuation b = false := by
  induction last with
  | zero => exact absurd rfl hzero
  | succ last ih =>
    unfold boundaryBefore at h hzero
    split at h
    · next hmore =>
      rw [if_pos hmore] at hzero
      exact ih hzero h
    · next hstop =>
      rw [h] at hstop
      exact Bool.eq_false_iff.mpr hstop

/-- An append takes whole characters from the front of its text. -/
theorem takes_scalarBoundaryPrefix {text : JsText} (h : hasWellFormedUnicode text = true)
    (maximum : Nat) :
    ∃ front, Takes text (scalarBoundaryPrefix (encodeUtf8 text) maximum) front := by
  have hscalar := isScalar_codePoints text
  unfold scalarBoundaryPrefix
  split
  · exact ⟨text, List.prefix_rfl, h, rfl⟩
  · have hcut : ∀ b, ((codePoints text).flatMap encodePoint)[boundaryBefore (encodeUtf8 text)
        maximum]? = some b → isContinuation b = false := by
      intro b hb
      by_cases hzero : boundaryBefore (encodeUtf8 text) maximum = 0
      · rw [hzero, ← List.head?_eq_getElem?] at hb
        exact isContinuation_encode hscalar hb
      · exact isContinuation_boundaryBefore hzero hb
    obtain ⟨front, back, hsplit, htake⟩ := cut_encode hscalar hcut
    have hfront : ∀ n ∈ front, isScalar n := fun n hmem =>
      hscalar n (hsplit ▸ List.mem_append_left _ hmem)
    refine ⟨front.flatMap pointUnits, ⟨back.flatMap pointUnits, ?_⟩, (codePoints_units hfront).2, ?_⟩
    · rw [← List.flatMap_append, ← hsplit, units_codePoints h]
    · rw [encodeUtf8_units hfront]
      exact htake.symm

/-- A text whose front takes as many bytes is its front. -/
theorem Takes.all {text front : JsText} {accepted : List UInt8} (h : Takes text accepted front)
    (hlength : accepted.length = (encodeUtf8 text).length) : front = text := by
  obtain ⟨rest, rfl⟩ := h.isPrefix
  rw [encodeUtf8_append h.wellFormed, List.length_append, h.encode] at hlength
  have hrest : rest = [] := by
    by_contra hne
    have := length_encodeUtf8_pos hne
    omega
  rw [hrest, List.append_nil]

/-- What an append that returns stores. -/
def Stores (before after : BashOutputStore) (ref : Nat) (stream : BashOutputStream)
    (text : JsText) (storedBytes : Nat) : Prop :=
  ∃ front, Takes text (encodeUtf8 front) front ∧ storedBytes = (encodeUtf8 front).length ∧
    Grows before after ref stream (encodeUtf8 front)

theorem stores_nothing {text : JsText} {after : BashOutputStore}
    (h : Grows store after ref stream []) : Stores store after ref stream text 0 :=
  ⟨[], ⟨List.nil_prefix, rfl, rfl⟩, rfl, h⟩

theorem storeAccepted_content {text : JsText} {accepted : List UInt8} {length : Nat}
    {reason : BashOutputLimitReason} (h : store.Sound) (hmem : ref ∈ store.commands)
    (hlive : (store.records.read ref).finalized = false)
    (haccepted : ∃ front, Takes text accepted front) :
    ∃ result after, Effect.run (storeAccepted ref stream accepted length reason) store =
        (.ok result, after) ∧ Stores store after ref stream text result.storedBytes := by
  obtain ⟨front, hfront⟩ := haccepted
  -- the end of an append only sets the limit
  have hend : ∀ {middle : BashOutputStore}, Grows store middle ref stream accepted →
      ∃ result after, Effect.run (endAppend ref accepted.length length reason) middle =
        (.ok result, after) ∧ Stores store after ref stream text result.storedBytes := by
    intro middle hgrows
    have hstores : ∀ {after : BashOutputStore}, Grows store after ref stream accepted →
        Stores store after ref stream text accepted.length := fun hafter =>
      ⟨front, ⟨hfront.isPrefix, hfront.wellFormed, rfl⟩, by rw [hfront.encode],
        hfront.encode.symm ▸ hafter⟩
    unfold endAppend
    dsimp only
    split
    · exact ⟨_, _, rfl, hstores (grows_setLimit hgrows hmem reason)⟩
    · exact ⟨_, _, rfl, hstores hgrows⟩
  unfold storeAccepted
  dsimp only
  split
  · obtain ⟨middle, hrun, hgrows⟩ := accept_content h hmem hlive stream accepted
    obtain ⟨result, after, hrest, hstores⟩ := hend hgrows
    refine ⟨result, after, ?_, hstores⟩
    rw [Effect.run_bind_ok (Effect.run_modify _ store), Effect.run_bind_ok hrun]
    exact hrest
  · next hnone =>
    have hnil : accepted = [] := List.length_eq_zero_iff.mp (Nat.eq_zero_of_not_pos hnone)
    exact hend (hnil ▸ grows_nothing h)

/-- An append to a live command stores the front of its text. -/
theorem appendLocked_content {text : JsText} (h : store.Sound) (hclosed : store.closed = false)
    (hmem : ref ∈ store.commands) (hfailed : (store.records.read ref).failed = false)
    (hlive : (store.records.read ref).finalized = false)
    (htext : hasWellFormedUnicode text = true) :
    ∃ result after, Effect.run (appendLocked ref stream text) store = (.ok result, after) ∧
      Stores store after ref stream text result.storedBytes := by
  unfold appendLocked
  rw [Effect.run_bind_ok (Effect.run_get store)]
  dsimp only
  rw [hclosed, hfailed, hlive, if_neg (by decide)]
  split
  · exact ⟨_, _, rfl, stores_nothing (grows_nothing h)⟩
  split
  · exact ⟨_, _, rfl, stores_nothing (grows_setLimit (grows_nothing h) hmem _)⟩
  split
  · exact ⟨_, _, rfl, stores_nothing (grows_setLimit (grows_nothing h) hmem _)⟩
  · exact storeAccepted_content h hmem hlive (takes_scalarBoundaryPrefix htext _)

theorem limit_setLimit (store : BashOutputStore) (ref : Nat) (reason : BashOutputLimitReason) :
    ((store.setLimit ref reason).records.read ref).limit =
      some (store.limitSnapshot ref reason) := by
  unfold setLimit updateRecord
  dsimp only
  rw [Heap.read_modify, if_pos rfl]

theorem endAppend_limit (ref storedBytes length : Nat) (reason : BashOutputLimitReason) :
    Effect.Triple (fun _ => True) (endAppend ref storedBytes length reason)
      (fun result store => result.limit = (store.records.read ref).limit) (fun _ _ => True) := by
  unfold endAppend
  dsimp only
  split
  · refine Effect.triple_bind (Effect.triple_modify _ (Q := fun _ _ => True) fun _ _ => trivial)
      fun _ => ?_
    refine Effect.triple_read fun before _ => Effect.triple_pure _ ?_
    rintro store rfl
    rfl
  · refine Effect.triple_read fun before _ => Effect.triple_pure _ ?_
    rintro store rfl
    rfl

/-- An append returns the limit of its command. -/
theorem appendLocked_limit (ref : Nat) (stream : BashOutputStream) (text : JsText) :
    Effect.Triple (fun _ => True) (appendLocked ref stream text)
      (fun result store => result.limit = (store.records.read ref).limit) (fun _ _ => True) := by
  refine Effect.triple_read fun before _ => ?_
  dsimp only
  split
  · exact fun _ _ => trivial
  split
  · rintro store rfl
    rfl
  split
  · rintro store rfl
    exact (limit_setLimit before ref _).symm
  split
  · rintro store rfl
    exact (limit_setLimit before ref _).symm
  · unfold storeAccepted
    dsimp only
    split
    · refine Effect.triple_bind (Effect.triple_modify _ (Q := fun _ _ => True) fun _ _ => trivial)
        fun _ => Effect.triple_bind (Q := fun _ _ => True) (fun _ _ => ?_) fun _ =>
          endAppend_limit ref _ _ _
      split <;> trivial
    · exact Effect.triple_weaken (endAppend_limit ref _ _ _) (fun _ _ => trivial) (fun _ _ h => h)
        fun _ _ _ => trivial

/-! ## Finishing -/

/-- The registry holds what it held, but for the commands that left it. -/
structure Preserves (before after : BashOutputStore) (ref : Nat) : Prop where
  sound : after.Sound
  commands : ∀ other ∈ after.commands, other ∈ before.commands
  others : ∀ other ∈ before.commands, other ≠ ref → other ∈ after.commands
  contents : ∀ other ∈ after.commands, ∀ stream,
    after.contentOf other stream = before.contentOf other stream

theorem Preserves.refl (h : store.Sound) (ref : Nat) : Preserves store store ref :=
  ⟨h, fun _ => id, fun _ hmem _ => hmem, fun _ _ _ => rfl⟩

theorem Preserves.trans {first middle last : BashOutputStore} (h : Preserves first middle ref)
    (h' : Preserves middle last ref) : Preserves first last ref where
  sound := h'.sound
  commands other hmem := h.commands other (h'.commands other hmem)
  others other hmem hne := h'.others other (h.others other hmem hne) hne
  contents other hmem stream :=
    (h'.contents other hmem stream).trans (h.contents other (h'.commands other hmem) stream)

theorem preserves_of_same {after : BashOutputStore} (hsound : after.Sound) (h : Same store after)
    (ref : Nat) : Preserves store after ref where
  sound := hsound
  commands _ hmem := h.commands ▸ hmem
  others _ hmem _ := h.commands ▸ hmem
  contents _ hmem stream := h.contentOf (h.commands ▸ hmem) stream

/-- The store after a command left the registry. -/
def without (store : BashOutputStore) (ref : Nat) : BashOutputStore :=
  { store with commands := store.commands.filter fun other => other != ref }

theorem mem_without {other : Nat} :
    other ∈ (store.without ref).commands ↔ other ∈ store.commands ∧ other ≠ ref := by
  unfold without
  dsimp only
  rw [List.mem_filter, bne_iff_ne]

/-- A command leaves the registry; the counters are not about what the others hold. -/
theorem preserves_without (h : store.Sound) (ref : Nat) (registryBytes retainedStreams : Int) :
    Preserves store { store.without ref with
      registryBytes
      retainedStreams } ref := by
  have hholds : ∀ {ref' stream record}, Holds { store.without ref with
      registryBytes
      retainedStreams } ref' stream record → store.Holds ref' stream record := fun hholds =>
    ⟨(mem_without.mp hholds.1).1, hholds.2⟩
  exact {
    sound := {
      calls := h.calls
      spooled := spooled_of_records h.spooled (h.spooled.nodup.filter _) rfl rfl rfl
        fun {_ _ record} hrecord => .inl ⟨record, hholds hrecord, rfl, rfl⟩
      total := fun hrecord => h.total (hholds hrecord)
      flushed := fun hrecord => h.flushed (hholds hrecord) }
    commands := fun _ hmem => (mem_without.mp hmem).1
    others := fun _ hmem hne => mem_without.mpr ⟨hmem, hne⟩
    contents := fun _ _ _ => rfl }

theorem finalized_setFinalized (store : BashOutputStore) (ref ref' : Nat) :
    ((store.updateRecord ref fun record => { record with finalized := true }).records.read
      ref').finalized = (decide (ref' = ref) || (store.records.read ref').finalized) := by
  unfold updateRecord
  dsimp only
  rw [Heap.read_modify]
  by_cases heq : ref' = ref
  · rw [if_pos heq, decide_eq_true heq]
    rfl
  · rw [if_neg heq, decide_eq_false heq]
    rfl

theorem endFinish_content (h : store.Sound) (ref : Nat) :
    ∃ result after, Effect.run (endFinish ref) store = (.ok result, after) ∧
      Preserves store after ref := by
  unfold endFinish
  rw [Effect.run_bind_ok (Effect.run_get store)]
  dsimp only
  split
  · exact ⟨_, _, rfl, preserves_without h ref store.registryBytes store.retainedStreams⟩
  · exact ⟨_, _, rfl, .refl h ref⟩

theorem endFinish_result (store : BashOutputStore) (ref : Nat) :
    ∃ after, Effect.run (endFinish ref) store = (.ok (after.summaryLocked ref), after) := by
  unfold endFinish
  rw [Effect.run_bind_ok (Effect.run_get store)]
  dsimp only
  split
  · exact ⟨store.without ref, rfl⟩
  · exact ⟨store, rfl⟩

/-- Finishing a live command returns its summary. -/
theorem finishLocked_result (h : store.Sound) (hclosed : store.closed = false)
    (hmem : ref ∈ store.commands) (hfailed : (store.records.read ref).failed = false) :
    ∃ after, Effect.run (finishLocked ref) store = (.ok (after.summaryLocked ref), after) := by
  unfold finishLocked
  rw [Effect.run_bind_ok (Effect.run_get store)]
  dsimp only
  rw [hclosed, hfailed, if_neg (by decide)]
  split
  · obtain ⟨middle, hrun, -⟩ := flushAll_content (store.records.read ref).streams.keys h.calls
      h.spooled fun stream hstream => by
        obtain ⟨record, hget⟩ := Option.isSome_iff_exists.mp (InsMap.mem_keys.mp hstream)
        exact ⟨record, hmem, hget⟩
    rw [Effect.run_bind_ok hrun, Effect.run_bind_ok (Effect.run_modify _ _)]
    exact endFinish_result _ ref
  · exact endFinish_result store ref

/-- The buffers of a command go to the file, and the command is finished. -/
theorem finishLocked_content (h : store.Sound)
    (hlive : ref ∈ store.commands ∨ (store.records.read ref).finalized = true) :
    Preserves store (Effect.run (finishLocked ref) store).2 ref := by
  unfold finishLocked
  rw [Effect.run_bind_ok (Effect.run_get store)]
  dsimp only
  split
  · exact .refl h ref
  split
  · next hopen =>
    have hmem : ref ∈ store.commands := hlive.resolve_right fun hdone => by simp [hdone] at hopen
    obtain ⟨middle, hrun, hcalls, hspooled, hsame, hflushed⟩ := flushAll_content
      (store.records.read ref).streams.keys h.calls h.spooled fun stream hstream => by
        obtain ⟨record, hget⟩ := Option.isSome_iff_exists.mp (InsMap.mem_keys.mp hstream)
        exact ⟨record, hmem, hget⟩
    have hbooks : middle.books = store.books := by
      have hends := flushAll_spec (I := fun _ => True) (F := fun _ _ => True)
        (store.records.read ref).streams.keys
        (fun stream hstream => (has_account store ref stream).trans (InsMap.mem_keys.mp hstream))
        (fun _ _ _ _ => by split <;> trivial) store ⟨rfl, trivial⟩
      rw [hrun] at hends
      exact hends.1
    have hsame' : Same store (middle.updateRecord ref fun record =>
        { record with finalized := true }) := hsame.trans (same_updateRecord fun _ => rfl)
    have hsound : (middle.updateRecord ref fun record => { record with finalized := true }).Sound :=
      sound_of_same h hsame' hcalls (spooled_updateRecord hspooled fun _ => rfl)
        fun {ref' stream' record'} hholds' hfinalized => by
          rw [finalized_setFinalized, Bool.or_eq_true, decide_eq_true_iff] at hfinalized
          obtain rfl | hold := hfinalized
          · -- every stream of the command was flushed
            obtain ⟨record, hholds⟩ := hsame'.backward hholds'
            exact .inr (hflushed stream' (InsMap.mem_keys.mpr (Option.isSome_iff_exists.mpr
              ⟨record, hholds.2⟩)) record' ((holds_updateRecord (f := fun record =>
                { record with finalized := true }) fun _ => rfl).mp hholds'))
          · exact .inl ((congrArg (fun books : BashBooks => (books.accounts ref').finalized)
              hbooks).symm.trans hold)
    obtain ⟨result, after, hend, hpreserves⟩ := endFinish_content hsound ref
    rw [Effect.run_bind_ok hrun, Effect.run_bind_ok (Effect.run_modify _ _), hend]
    exact (preserves_of_same hsound hsame' ref).trans hpreserves
  · obtain ⟨result, after, hend, hpreserves⟩ := endFinish_content h ref
    have hgo : Effect.run (endFinish ref) store = (.ok result, after) := hend
    rw [hgo]
    exact hpreserves

/-! ## Abandoning -/

/-- A failed command holds nothing. -/
theorem preserves_markFailed (h : store.Sound) (ref : Nat) :
    (store.markFailed ref).Sound ∧ (store.markFailed ref).commands = store.commands ∧
      ∀ other ≠ ref, ∀ stream, (store.markFailed ref).contentOf other stream =
        store.contentOf other stream := by
  have hother : ∀ other ≠ ref, (store.markFailed ref).records.read other =
      store.records.read other := fun other hne => by
    unfold markFailed updateRecord
    dsimp only
    exact Heap.read_modify_ne _ _ hne
  have hself : ((store.markFailed ref).records.read ref).streams = .empty := by
    unfold markFailed updateRecord
    dsimp only
    rw [Heap.read_modify, if_pos rfl]
  have hholds : ∀ {ref' stream record}, (store.markFailed ref).Holds ref' stream record →
      ref' ≠ ref ∧ store.Holds ref' stream record := by
    intro ref' stream record hrecord
    have hne : ref' ≠ ref := by
      rintro rfl
      have hget := hrecord.2
      rw [hself] at hget
      cases hget
    exact ⟨hne, hrecord.1, hother ref' hne ▸ hrecord.2⟩
  refine ⟨?_, rfl, fun other hne stream => ?_⟩
  · exact {
      calls := h.calls
      spooled := spooled_of_records h.spooled h.spooled.nodup rfl rfl rfl
        fun {_ _ record} hrecord => .inl ⟨record, (hholds hrecord).2, rfl, rfl⟩
      total := fun hrecord => h.total (hholds hrecord).2
      flushed := fun hrecord hdone =>
        h.flushed (hholds hrecord).2 (hother _ (hholds hrecord).1 ▸ hdone) }
  · unfold contentOf
    rw [hother other hne]
    rfl

/-- Compaction keeps what the registry holds. -/
theorem compactFile_content (h : store.Sound) :
    ∃ after, Effect.run compactFile store = (.ok (), after) ∧ after.Sound ∧ Same store after := by
  obtain ⟨after, hrun, hcalls, hspooled, hrecords, hcommands, hwritten⟩ :=
    compactFile_spec h.calls h.spooled
  have hholds : ∀ {ref stream record}, after.Holds ref stream record ↔
      store.Holds ref stream record := fun {ref stream record} => by
    unfold Holds
    rw [hrecords, hcommands]
  have hsame : Same store after := {
    commands := hcommands
    forward := fun {_ _ record} hrecord => ⟨record, hholds.mpr hrecord, rfl, by
      unfold content
      rw [hwritten hrecord], id⟩
    backward := fun {_ _ record} hrecord => ⟨record, hholds.mp hrecord⟩ }
  exact ⟨after, hrun, sound_of_same h hsame hcalls hspooled fun _ hdone => .inl (hrecords ▸ hdone),
    hsame⟩

/-- An abandoned command leaves the registry, and the others hold the same. -/
theorem abandonLocked_content (h : store.Sound) (ref : Nat) :
    Preserves store ((abandonLocked ref).exec store) ref ∧
      (ref ∉ ((abandonLocked ref).exec store).commands → ref ∈ store.commands →
        (((abandonLocked ref).exec store).records.read ref).finalized = true) := by
  unfold Effect.exec abandonLocked
  rw [Effect.run_bind_ok (Effect.run_get store)]
  dsimp only
  split
  swap
  · exact ⟨.refl h ref, fun hnot hmem => absurd hmem hnot⟩
  split
  · exact ⟨.refl h ref, fun hnot hmem => absurd hmem hnot⟩
  · have hleft := preserves_without h ref
      (store.registryBytes - (store.records.read ref).commandBytes)
      (store.retainedStreams - (store.records.read ref).streams.entries.length)
    obtain ⟨after, hrun, hsound, hsame⟩ := compactFile_content hleft.sound
    obtain ⟨hfailed, hcommands, hothers⟩ := preserves_markFailed hsound ref
    have hne : ∀ other ∈ (after.markFailed ref).commands, other ≠ ref := fun other hmem =>
      (mem_without.mp (hsame.commands ▸ hcommands ▸ hmem)).2
    have hgo := congrArg Prod.snd
      (Effect.run_bind_ok (f := fun _ => modify fun store => store.markFailed ref) hrun)
    rw [Effect.run_bind_ok (Effect.run_modify _ store)]
    refine hgo.symm ▸ ⟨(hleft.trans (preserves_of_same hsound hsame ref)).trans ?_, fun _ _ => ?_⟩
    swap
    · show ((after.markFailed ref).records.read ref).finalized = true
      unfold markFailed updateRecord
      dsimp only
      rw [Heap.read_modify, if_pos rfl]
    exact {
      sound := hfailed
      commands := fun _ hmem => hmem
      others := fun _ hmem _ => hmem
      contents := fun other hmem => hothers other (hne other hmem) }

/-! ## Beginning -/

/-- A new command holds nothing. -/
theorem beginCommand_content (h : store.Sound) (hclosed : store.closed = false)
    (hallocated : ∀ ref ∈ store.commands, ref < store.records.next) :
    store.beginCommand.2.Sound ∧
      store.beginCommand.2.commands = store.commands ++ [store.records.next] ∧
      (∀ ref ∈ store.commands, ∀ stream,
        store.beginCommand.2.contentOf ref stream = store.contentOf ref stream) ∧
      ∀ stream, store.beginCommand.2.contentOf store.records.next stream = [] := by
  have hstore : store.beginCommand.2 = { store with
      records := (store.records.alloc emptyRecord).2
      commands := store.commands ++ [store.records.next] } := by
    unfold beginCommand
    rw [hclosed]
    rfl
  have hold : ∀ {ref}, ref ∈ store.commands →
      (store.records.alloc emptyRecord).2.read ref = store.records.read ref := fun hmem =>
    Heap.read_alloc_lt _ _ (hallocated _ hmem)
  have hnew : (store.records.alloc emptyRecord).2.read store.records.next = emptyRecord :=
    Heap.read_alloc_self _ _
  rw [hstore]
  have hholds : ∀ {ref stream record}, Holds { store with
      records := (store.records.alloc emptyRecord).2
      commands := store.commands ++ [store.records.next] } ref stream record →
      store.Holds ref stream record := by
    rintro ref stream record ⟨hmem, hget⟩
    obtain hmem | hmem := List.mem_append.mp hmem
    · exact ⟨hmem, hold hmem ▸ hget⟩
    · rw [List.mem_singleton.mp hmem] at hget
      rw [hnew] at hget
      cases hget
  refine ⟨?_, rfl, fun ref hmem stream => ?_, fun stream => ?_⟩
  · exact {
      calls := h.calls
      spooled := spooled_of_records h.spooled
        (List.nodup_append.mpr ⟨h.spooled.nodup, List.nodup_singleton _, fun ref hmem other hother =>
          Nat.ne_of_lt (List.mem_singleton.mp hother ▸ hallocated ref hmem)⟩) rfl rfl rfl
        fun {_ _ record} hrecord => .inl ⟨record, hholds hrecord, rfl, rfl⟩
      total := fun hrecord => h.total (hholds hrecord)
      flushed := fun hrecord hdone =>
        h.flushed (hholds hrecord) (hold (hholds hrecord).1 ▸ hdone) }
  · unfold contentOf
    dsimp only
    rw [hold hmem]
    rfl
  · unfold contentOf
    dsimp only
    rw [hnew]
    rfl

end BashOutputStore

end Henji
