import Henji.Library.Utf8
import Henji.Tools.BashOutput
import Mathlib.Algebra.Ring.Nat

/-!
# The books of the output store

What the store counts: the bytes recorded for each command of the registry, and the streams that
these commands hold. `BashBooks` is the part of a store that the counters are about.

Results:
1. `Balanced` survives what a call does to the books: `balanced_take`, `balanced_release` and their
   siblings.
2. `books_persist` and its siblings: the calls on the file leave the books as they are.
3. `accounts_balanced`: in a run where no command that holds output fails, the counters are the
   sums over the registry, and an append is refused only where the live commands fill a limit.
4. `failed_command_keeps_its_streams`: a failing write of one command makes the store refuse others.
-/

namespace Henji

/-! ## Sums over a registry -/

section Sums

variable {α : Type} {l : List α} {f g : α → Nat} {a : α}

/-- One summand changes. -/
theorem sum_map_changed (hnodup : l.Nodup) (hmem : a ∈ l) (hsame : ∀ b ∈ l, b ≠ a → g b = f b) :
    (l.map g).sum + f a = (l.map f).sum + g a := by
  induction l with
  | nil => cases hmem
  | cons b l ih =>
    rw [List.nodup_cons] at hnodup
    rw [List.map_cons, List.sum_cons, List.map_cons, List.sum_cons]
    obtain rfl | hmem := List.mem_cons.mp hmem
    · have hrest : l.map g = l.map f := List.map_congr_left fun b hb =>
        hsame b (List.mem_cons_of_mem _ hb) fun h => hnodup.1 (h ▸ hb)
      rw [hrest]
      omega
    · have hb : g b = f b := hsame b List.mem_cons_self fun h => hnodup.1 (h ▸ hmem)
      have hrest := ih hnodup.2 hmem fun c hc => hsame c (List.mem_cons_of_mem _ hc)
      omega

/-- One summand goes. -/
theorem sum_map_filter_ne [DecidableEq α] (hnodup : l.Nodup) (hmem : a ∈ l) :
    ((l.filter fun b => b != a).map f).sum + f a = (l.map f).sum := by
  induction l with
  | nil => cases hmem
  | cons b l ih =>
    rw [List.nodup_cons] at hnodup
    rw [List.map_cons, List.sum_cons]
    obtain rfl | hmem := List.mem_cons.mp hmem
    · have hrest : (a :: l).filter (fun b => b != a) = l := by
        rw [List.filter_cons_of_neg (by simp), List.filter_eq_self]
        exact fun b hb => bne_iff_ne.mpr fun h => hnodup.1 (h ▸ hb)
      rw [hrest]
      omega
    · have hne : b ≠ a := fun h => hnodup.1 (h ▸ hmem)
      rw [List.filter_cons, if_pos (bne_iff_ne.mpr hne), List.map_cons, List.sum_cons]
      have hrest := ih hnodup.2 hmem
      omega

end Sums

/-! ## Books -/

/-- `streams` are the streams of a command with their bytes. -/
structure BashAccount where
  streams : InsMap BashOutputStream Nat
  commandBytes : Nat
  finalized : Bool
  failed : Bool
  limit : Option BashOutputLimitSnapshot

structure BashBooks where
  limits : BashOutputStoreLimits
  commands : List Nat
  next : Nat
  accounts : Nat → BashAccount
  registryBytes : Int
  retainedStreams : Int
  closed : Bool

namespace BashAccount

def new : BashAccount where
  streams := .empty
  commandBytes := 0
  finalized := false
  failed := false
  limit := none

def retained (account : BashAccount) : Nat := account.streams.entries.length

/-- The bytes of the streams. -/
def bytes (account : BashAccount) : Nat := (account.streams.entries.map Prod.snd).sum

def take (stream : BashOutputStream) (count : Nat) (account : BashAccount) : BashAccount :=
  { account with
    streams := account.streams.set stream ((account.streams.get? stream).getD 0 + count)
    commandBytes := account.commandBytes + count }

def fail (account : BashAccount) : BashAccount :=
  { account with
    failed := true
    finalized := true
    streams := .empty }

theorem sum_setEntry (stream : BashOutputStream) (count : Nat)
    (l : List (BashOutputStream × Nat)) :
    ((InsMap.setEntry stream ((l.lookup stream).getD 0 + count) l).map Prod.snd).sum =
      (l.map Prod.snd).sum + count := by
  induction l with
  | nil => simp [InsMap.setEntry]
  | cons p rest ih =>
    obtain ⟨other, bytes⟩ := p
    by_cases h : stream = other
    · simp only [InsMap.setEntry, h, List.lookup_cons_self, List.map_cons, List.sum_cons, if_true,
        Option.getD_some]
      omega
    · have h' : ¬ other = stream := fun h' => h h'.symm
      simp only [InsMap.setEntry, if_neg h', InsMap.lookup_cons_ite, if_neg h, List.map_cons,
        List.sum_cons, ih]
      omega

theorem bytes_take (stream : BashOutputStream) (count : Nat) (account : BashAccount) :
    (account.take stream count).bytes = account.bytes + count :=
  sum_setEntry stream count account.streams.entries

theorem retained_take (stream : BashOutputStream) (count : Nat) (account : BashAccount) :
    (account.take stream count).retained =
      if account.streams.has stream then account.retained else account.retained + 1 :=
  InsMap.length_set _ _ _

end BashAccount

namespace BashBooks

variable {books : BashBooks}

/-- A sum over the registry. -/
def total (books : BashBooks) (f : BashAccount → Nat) : Nat :=
  (books.commands.map fun ref => f (books.accounts ref)).sum

/-- A sum over the commands of the registry that did not fail. -/
def liveTotal (books : BashBooks) (f : BashAccount → Nat) : Nat :=
  ((books.commands.filter fun ref => !(books.accounts ref).failed).map fun ref =>
    f (books.accounts ref)).sum

def change (books : BashBooks) (ref : Nat) (f : BashAccount → BashAccount) : BashBooks :=
  { books with accounts := Function.update books.accounts ref (f (books.accounts ref)) }

def snapshot (books : BashBooks) (ref : Nat) (reason : BashOutputLimitReason) :
    BashOutputLimitSnapshot where
  reason
  commandBytes := (books.accounts ref).commandBytes
  commandLimitBytes := books.limits.commandBytes
  registryBytes := books.registryBytes
  registryLimitBytes := books.limits.registryBytes
  retainedStreams := books.retainedStreams
  retainedStreamLimit := books.limits.retainedStreams

def limited (books : BashBooks) (ref : Nat) (reason : BashOutputLimitReason) : BashBooks :=
  books.change ref fun account => { account with limit := some (books.snapshot ref reason) }

def take (books : BashBooks) (ref : Nat) (stream : BashOutputStream) (count : Nat) : BashBooks :=
  { books.change ref (BashAccount.take stream count) with
    registryBytes := books.registryBytes + count
    retainedStreams := if (books.accounts ref).streams.has stream then books.retainedStreams
      else books.retainedStreams + 1 }

/-- The entry of a command leaves the registry. -/
def drop (books : BashBooks) (ref : Nat) : BashBooks :=
  { books with commands := books.commands.filter fun other => other != ref }

def release (books : BashBooks) (ref : Nat) : BashBooks :=
  { books.drop ref with
    registryBytes := books.registryBytes - (books.accounts ref).commandBytes
    retainedStreams := books.retainedStreams - (books.accounts ref).retained }

def begin (books : BashBooks) : BashBooks :=
  { books with
    commands := books.commands ++ [books.next]
    next := books.next + 1
    accounts := Function.update books.accounts books.next .new }

/-- The counters are the sums over the registry and keep their limits, and a failed command of the
registry has given back what it held. -/
structure Balanced (books : BashBooks) : Prop where
  nodup : books.commands.Nodup
  allocated : ∀ ref ∈ books.commands, ref < books.next
  recorded : ∀ ref ∈ books.commands,
    (books.accounts ref).commandBytes = (books.accounts ref).bytes
  registryBytes : books.registryBytes = books.total BashAccount.commandBytes
  retainedStreams : books.retainedStreams = books.total BashAccount.retained
  registryLimit : books.registryBytes ≤ books.limits.registryBytes
  streamLimit : books.retainedStreams ≤ books.limits.retainedStreams
  givenBack : ∀ ref ∈ books.commands, (books.accounts ref).failed = true →
    (books.accounts ref).retained = 0

theorem accounts_change (books : BashBooks) (ref other : Nat) (f : BashAccount → BashAccount) :
    (books.change ref f).accounts other =
      if other = ref then f (books.accounts ref) else books.accounts other :=
  Function.update_apply _ _ _ _

theorem limited_self (books : BashBooks) (ref : Nat) (reason : BashOutputLimitReason) :
    ((books.limited ref reason).accounts ref).limit = some (books.snapshot ref reason) := by
  rw [limited, accounts_change, if_pos rfl]

theorem take_self (books : BashBooks) (ref : Nat) (stream : BashOutputStream) (count : Nat) :
    (books.take ref stream count).accounts ref = (books.accounts ref).take stream count :=
  Function.update_self _ _ _

/-- A change of other things than the bytes and the streams of a command. -/
theorem balanced_change (h : books.Balanced) {ref : Nat} {f : BashAccount → BashAccount}
    (hstreams : ∀ account, (f account).streams = account.streams)
    (hbytes : ∀ account, (f account).commandBytes = account.commandBytes)
    (hfailed : ∀ account, (f account).failed = account.failed) : (books.change ref f).Balanced := by
  have hsame : ∀ {β : Type} (g : BashAccount → β), (∀ account, g (f account) = g account) →
      ∀ other, g ((books.change ref f).accounts other) = g (books.accounts other) := by
    intro β g hg other
    rw [accounts_change]
    split
    · next heq => rw [hg, heq]
    · rfl
  have hretained : ∀ account, (f account).retained = account.retained :=
    fun account => by rw [BashAccount.retained, hstreams]; rfl
  have hsum : ∀ account, (f account).bytes = account.bytes :=
    fun account => by rw [BashAccount.bytes, hstreams]; rfl
  have htotal : ∀ g : BashAccount → Nat, (∀ account, g (f account) = g account) →
      (books.change ref f).total g = books.total g := fun g hg =>
    congrArg List.sum (List.map_congr_left fun other _ => hsame g hg other)
  exact {
    nodup := h.nodup
    allocated := h.allocated
    recorded := fun other hother => by
      rw [hsame _ hbytes, hsame _ hsum]
      exact h.recorded other hother
    registryBytes := by
      rw [htotal _ hbytes]
      exact h.registryBytes
    retainedStreams := by
      rw [htotal _ hretained]
      exact h.retainedStreams
    registryLimit := h.registryLimit
    streamLimit := h.streamLimit
    givenBack := fun other hother hfail => by
      rw [hsame _ hretained]
      exact h.givenBack other hother (hsame _ hfailed other ▸ hfail) }

theorem balanced_limited (h : books.Balanced) (ref : Nat) (reason : BashOutputLimitReason) :
    (books.limited ref reason).Balanced :=
  balanced_change h (fun _ => rfl) (fun _ => rfl) fun _ => rfl

theorem balanced_begin (h : books.Balanced) : books.begin.Balanced := by
  have hfresh : books.next ∉ books.commands := fun hmem =>
    Nat.lt_irrefl _ (h.allocated _ hmem)
  have hold : ∀ ref ∈ books.commands, books.begin.accounts ref = books.accounts ref := by
    intro ref hmem
    exact Function.update_of_ne (fun heq : ref = books.next => hfresh (heq ▸ hmem)) _ _
  have hnew : books.begin.accounts books.next = .new := Function.update_self _ _ _
  have htotal : ∀ f : BashAccount → Nat, f .new = 0 → books.begin.total f = books.total f := by
    intro f hf
    have hmap : (books.commands.map fun ref => f (books.begin.accounts ref)) =
        books.commands.map fun ref => f (books.accounts ref) :=
      List.map_congr_left fun ref hmem => congrArg f (hold ref hmem)
    show ((books.commands ++ [books.next]).map fun ref => f (books.begin.accounts ref)).sum = _
    rw [List.map_append, hmap, List.sum_append, List.map_singleton, hnew, hf]
    rfl
  have hcases : ∀ {motive : Nat → Prop}, (∀ ref ∈ books.commands, motive ref) →
      motive books.next → ∀ ref ∈ books.begin.commands, motive ref := by
    intro motive hrest hlast ref hmem
    obtain hmem | hmem := List.mem_append.mp hmem
    · exact hrest ref hmem
    · exact List.mem_singleton.mp hmem ▸ hlast
  exact {
    nodup := by
      refine List.nodup_append.mpr ⟨h.nodup, List.nodup_singleton _, ?_⟩
      rintro ref hmem _ hother rfl
      exact hfresh (List.mem_singleton.mp hother ▸ hmem)
    allocated := hcases (fun ref hmem => Nat.lt_succ_of_lt (h.allocated ref hmem))
      (Nat.lt_succ_self _)
    recorded := hcases (fun ref hmem => by rw [hold ref hmem]; exact h.recorded ref hmem)
      (by rw [hnew]; rfl)
    registryBytes := by
      rw [htotal _ rfl]
      exact h.registryBytes
    retainedStreams := by
      rw [htotal _ rfl]
      exact h.retainedStreams
    registryLimit := h.registryLimit
    streamLimit := h.streamLimit
    givenBack := hcases (fun ref hmem => by rw [hold ref hmem]; exact h.givenBack ref hmem)
      (by rw [hnew]; exact fun _ => rfl) }

/-- Bytes that fit are taken by a command of the registry. -/
theorem balanced_take (h : books.Balanced) {ref : Nat} {stream : BashOutputStream} {count : Nat}
    (hmem : ref ∈ books.commands) (hlive : (books.accounts ref).failed = false)
    (hbytes : books.registryBytes + count ≤ books.limits.registryBytes)
    (hstream : (books.accounts ref).streams.has stream = true ∨
      books.retainedStreams < books.limits.retainedStreams) :
    (books.take ref stream count).Balanced := by
  have hself := take_self books ref stream count
  have hother : ∀ other, other ≠ ref →
      (books.take ref stream count).accounts other = books.accounts other :=
    fun other hne => Function.update_of_ne hne _ _
  have htotal : ∀ f : BashAccount → Nat, (books.take ref stream count).total f +
      f (books.accounts ref) = books.total f + f ((books.accounts ref).take stream count) := by
    intro f
    have hsum := sum_map_changed (f := fun ref => f (books.accounts ref))
      (g := fun other => f ((books.take ref stream count).accounts other)) h.nodup hmem
      fun other _ hne => congrArg f (hother other hne)
    rw [hself] at hsum
    exact hsum
  have hrecorded : books.registryBytes + count =
      (books.take ref stream count).total BashAccount.commandBytes := by
    have := htotal BashAccount.commandBytes
    have := h.registryBytes
    simp only [BashAccount.take] at *
    omega
  have hretained : (books.take ref stream count).retainedStreams =
      (books.take ref stream count).total BashAccount.retained := by
    have hsum := htotal BashAccount.retained
    have hcount := h.retainedStreams
    rw [BashAccount.retained_take] at hsum
    simp only [take] at hsum ⊢
    split at hsum <;> split <;> first | omega | contradiction
  exact {
    nodup := h.nodup
    allocated := h.allocated
    recorded := fun other hmem' => by
      by_cases heq : other = ref
      · subst heq
        rw [hself, BashAccount.bytes_take, ← h.recorded other hmem']
        rfl
      · rw [hother other heq]
        exact h.recorded other hmem'
    registryBytes := hrecorded
    retainedStreams := hretained
    registryLimit := hbytes
    streamLimit := by
      have hlimit := h.streamLimit
      simp only [take, change]
      split
      · exact hlimit
      · next hnew =>
        obtain hhas | hroom := hstream
        · exact absurd hhas hnew
        · omega
    givenBack := fun other hmem' hfailed => by
      by_cases heq : other = ref
      · subst heq
        rw [hself] at hfailed
        exact absurd (hlive.symm.trans hfailed) Bool.false_ne_true
      · rw [hother other heq] at hfailed ⊢
        exact h.givenBack other hmem' hfailed }

theorem mem_drop {ref other : Nat} :
    other ∈ (books.drop ref).commands ↔ other ∈ books.commands ∧ other ≠ ref := by
  show other ∈ books.commands.filter (fun other => other != ref) ↔ _
  rw [List.mem_filter, bne_iff_ne]

theorem total_drop (h : books.Balanced) {ref : Nat} (hmem : ref ∈ books.commands)
    (f : BashAccount → Nat) : (books.drop ref).total f + f (books.accounts ref) = books.total f :=
  sum_map_filter_ne h.nodup hmem

/-- A command that leaves the registry gives back what it holds. -/
theorem balanced_release (h : books.Balanced) {ref : Nat} (hmem : ref ∈ books.commands) :
    (books.release ref).Balanced := by
  have hbytes := total_drop h hmem BashAccount.commandBytes
  have hstreams := total_drop h hmem BashAccount.retained
  have hregistry := h.registryBytes
  have hretained := h.retainedStreams
  have hrest : ∀ other ∈ (books.release ref).commands, other ∈ books.commands :=
    fun other hmem => (mem_drop.mp hmem).1
  exact {
    nodup := h.nodup.filter _
    allocated := fun other hmem => h.allocated other (hrest other hmem)
    recorded := fun other hmem => h.recorded other (hrest other hmem)
    registryBytes := by
      show books.registryBytes - _ = ((books.drop ref).total _ : Int)
      omega
    retainedStreams := by
      show books.retainedStreams - _ = ((books.drop ref).total _ : Int)
      omega
    registryLimit := by
      have := h.registryLimit
      show books.registryBytes - _ ≤ (books.limits.registryBytes : Int)
      omega
    streamLimit := by
      have := h.streamLimit
      show books.retainedStreams - _ ≤ (books.limits.retainedStreams : Int)
      omega
    givenBack := fun other hmem => h.givenBack other (hrest other hmem) }

theorem drop_of_not_mem {ref : Nat} (h : ref ∉ books.commands) : books.drop ref = books := by
  have hcommands : books.commands.filter (fun other => other != ref) = books.commands :=
    List.filter_eq_self.mpr fun other hmem => bne_iff_ne.mpr fun heq => h (heq ▸ hmem)
  unfold drop
  rw [hcommands]

/-- A command without streams leaves the registry. -/
theorem balanced_drop (h : books.Balanced) {ref : Nat} (hempty : (books.accounts ref).retained = 0) :
    (books.drop ref).Balanced := by
  by_cases hmem : ref ∈ books.commands
  · have hbytes : (books.accounts ref).commandBytes = 0 := by
      rw [h.recorded ref hmem, BashAccount.bytes, List.length_eq_zero_iff.mp hempty]
      rfl
    have hrelease := balanced_release h hmem
    have hsame : books.release ref = books.drop ref := by
      simp [release, drop, hempty, hbytes]
    exact hsame ▸ hrelease
  · rw [drop_of_not_mem hmem]
    exact h

/-- A command that holds nothing fails, or one that has left the registry. -/
theorem balanced_fail (h : books.Balanced) {ref : Nat}
    (hempty : ref ∈ books.commands → (books.accounts ref).retained = 0) :
    (books.change ref BashAccount.fail).Balanced := by
  have hsame : ∀ {β : Type} (g : BashAccount → β),
      (ref ∈ books.commands → g (books.accounts ref).fail = g (books.accounts ref)) →
      ∀ other ∈ books.commands,
        g ((books.change ref BashAccount.fail).accounts other) = g (books.accounts other) := by
    intro β g hg other hmem
    rw [accounts_change]
    split
    · next heq => exact heq ▸ hg (heq ▸ hmem)
    · rfl
  have hstreams : ref ∈ books.commands →
      (books.accounts ref).fail.streams = (books.accounts ref).streams := fun hmem =>
    InsMap.ext_entries (List.length_eq_zero_iff.mp (hempty hmem)).symm
  have htotal : ∀ g : BashAccount → Nat,
      (ref ∈ books.commands → g (books.accounts ref).fail = g (books.accounts ref)) →
      (books.change ref BashAccount.fail).total g = books.total g := fun g hg =>
    congrArg List.sum (List.map_congr_left fun other hmem => hsame g hg other hmem)
  have hretained : ref ∈ books.commands →
      (books.accounts ref).fail.retained = (books.accounts ref).retained := fun hmem => by
    rw [BashAccount.retained, hstreams hmem]
    rfl
  have hsum : ref ∈ books.commands →
      (books.accounts ref).fail.bytes = (books.accounts ref).bytes := fun hmem => by
    rw [BashAccount.bytes, hstreams hmem]
    rfl
  exact {
    nodup := h.nodup
    allocated := h.allocated
    recorded := fun other hmem => by
      rw [hsame BashAccount.commandBytes (fun _ => rfl) other hmem, hsame _ hsum other hmem]
      exact h.recorded other hmem
    registryBytes := by
      rw [htotal BashAccount.commandBytes fun _ => rfl]
      exact h.registryBytes
    retainedStreams := by
      rw [htotal _ hretained]
      exact h.retainedStreams
    registryLimit := h.registryLimit
    streamLimit := h.streamLimit
    givenBack := fun other hmem hfailed => by
      rw [hsame _ hretained other hmem]
      by_cases heq : other = ref
      · exact heq ▸ hempty (heq ▸ hmem)
      · rw [accounts_change, if_neg heq] at hfailed
        exact h.givenBack other hmem hfailed }

/-- What the failed commands do not hold is held by the live ones. -/
theorem liveTotal_eq {f : BashAccount → Nat}
    (hf : ∀ ref ∈ books.commands, (books.accounts ref).failed = true → f (books.accounts ref) = 0) :
    books.liveTotal f = books.total f := by
  have hsum : ∀ commands : List Nat, (∀ ref ∈ commands, (books.accounts ref).failed = true →
      f (books.accounts ref) = 0) →
      ((commands.filter fun ref => !(books.accounts ref).failed).map fun ref =>
        f (books.accounts ref)).sum = (commands.map fun ref => f (books.accounts ref)).sum := by
    intro commands
    induction commands with
    | nil => exact fun _ => rfl
    | cons ref commands ih =>
      intro hall
      have hrest := ih fun other hmem => hall other (List.mem_cons_of_mem _ hmem)
      have hfirst := hall ref List.mem_cons_self
      rw [List.filter_cons]
      cases hfailed : (books.accounts ref).failed with
      | false => simp [hrest]
      | true => simpa [hfirst hfailed] using hrest
  exact hsum books.commands hf

end BashBooks

/-! ## The books of a store -/

def BashOutputCommandRecord.account (record : BashOutputCommandRecord) : BashAccount where
  streams := record.streams.mapValues BashOutputStreamRecord.totalBytes
  commandBytes := record.commandBytes
  finalized := record.finalized
  failed := record.failed
  limit := record.limit

namespace BashOutputStore

def books (store : BashOutputStore) : BashBooks where
  limits := store.limits
  commands := store.commands
  next := store.records.next
  accounts ref := (store.records.read ref).account
  registryBytes := store.registryBytes
  retainedStreams := store.retainedStreams
  closed := store.closed

variable {store : BashOutputStore} {books : BashBooks} {ref : Nat} {stream : BashOutputStream}

theorem books_updateRecord {f : BashOutputCommandRecord → BashOutputCommandRecord}
    {g : BashAccount → BashAccount}
    (h : (f (store.records.read ref)).account = g (store.records.read ref).account) :
    (store.updateRecord ref f).books = store.books.change ref g := by
  have haccounts : (store.updateRecord ref f).books.accounts =
      (store.books.change ref g).accounts := by
    funext other
    rw [BashBooks.accounts_change]
    show ((store.records.modify ref f).read other).account = _
    rw [Heap.read_modify]
    split
    · exact h
    · rfl
  exact congrArg (fun accounts => { store.books with accounts }) haccounts

/-- A change of the buffer or the extents of a stream is not in the books. -/
theorem books_updateStream {f : BashOutputStreamRecord → BashOutputStreamRecord}
    (hstream : (store.records.read ref).streams.has stream = true)
    (htotal : ∀ record, (f record).totalBytes = record.totalBytes) :
    (store.updateStream ref stream f).books = store.books := by
  obtain ⟨record, hrecord⟩ := InsMap.has_iff.mp hstream
  have hof : store.streamOf ref stream = record := by
    rw [streamOf, hrecord]
    rfl
  have haccount : ∀ command : BashOutputCommandRecord, command = store.records.read ref →
      { command with streams := command.streams.set stream (f (store.streamOf ref stream)) }.account
        = id command.account := by
    rintro command rfl
    have hstreams : ((store.records.read ref).streams.set stream (f record)).mapValues
        BashOutputStreamRecord.totalBytes =
        (store.records.read ref).streams.mapValues BashOutputStreamRecord.totalBytes := by
      rw [InsMap.mapValues_set, htotal]
      refine InsMap.set_of_get? ?_
      rw [InsMap.get?_mapValues, hrecord]
      rfl
    rw [hof]
    exact congrArg (fun streams => { (store.records.read ref).account with streams }) hstreams
  rw [updateStream, books_updateRecord (haccount _ rfl)]
  unfold BashBooks.change
  rw [id, Function.update_eq_self]

/-! ## Calls on the file -/

theorem has_of_books (h : store.books = books)
    (hstream : (books.accounts ref).streams.has stream = true) :
    (store.records.read ref).streams.has stream = true := by
  subst h
  obtain ⟨total, htotal⟩ := InsMap.has_iff.mp hstream
  have hget : ((store.records.read ref).streams.mapValues
      BashOutputStreamRecord.totalBytes).get? stream = some total := htotal
  rw [InsMap.get?_mapValues] at hget
  obtain ⟨record, hrecord, -⟩ := Option.map_eq_some_iff.mp hget
  exact InsMap.has_iff.mpr ⟨record, hrecord⟩

/-- The store has these books. -/
def HasBooks (books : BashBooks) (store : BashOutputStore) : Prop := store.books = books

theorem hasBooks_updateStream (hstore : HasBooks books store)
    (hstream : (books.accounts ref).streams.has stream = true)
    {f : BashOutputStreamRecord → BashOutputStreamRecord}
    (htotal : ∀ record, (f record).totalBytes = record.totalBytes) :
    HasBooks books (store.updateStream ref stream f) :=
  (books_updateStream (has_of_books hstore hstream) htotal).trans hstore

theorem keeps_fileCall (file : List UInt8) : Effect.Keeps (HasBooks books) (fileCall file) := by
  rw [Effect.keeps_iff]
  intro store hstore
  unfold Effect.run fileCall
  split <;> exact hstore

theorem keeps_ensureFile : Effect.Keeps (HasBooks books) ensureFile := by
  rw [Effect.keeps_iff]
  intro store hstore
  unfold Effect.run ensureFile
  split <;> exact hstore

theorem keeps_persist (hstream : (books.accounts ref).streams.has stream = true)
    (bytes : List UInt8) : Effect.Keeps (HasBooks books) (persist ref stream bytes) := by
  refine Effect.keeps_bind keeps_ensureFile fun file => ?_
  refine Effect.keeps_bind Effect.keeps_get fun before => ?_
  refine Effect.keeps_bind (keeps_fileCall _) fun _ => ?_
  refine Effect.keeps_modify _ fun store hstore => ?_
  exact hasBooks_updateStream hstore hstream (f := fun record =>
    { record with
      extents := record.extents ++ [store.extents.next]
      persistedBytes := record.persistedBytes + bytes.length }) fun _ => rfl

theorem keeps_persistSegments (hstream : (books.accounts ref).streams.has stream = true)
    (fuel : Nat) : Effect.Keeps (HasBooks books) (persistSegments ref stream fuel) := by
  induction fuel with
  | zero => exact Effect.keeps_pure _
  | succ fuel ih =>
    refine Effect.keeps_bind Effect.keeps_get fun before => Effect.keeps_ite ?_ (Effect.keeps_pure _)
    refine Effect.keeps_bind (Effect.keeps_modify _ fun store hstore => ?_) fun _ =>
      Effect.keeps_bind (keeps_persist hstream _) fun _ => ih
    exact hasBooks_updateStream hstore hstream fun _ => rfl

theorem keeps_appendRecord (hstream : (books.accounts ref).streams.has stream = true)
    (bytes : List UInt8) : Effect.Keeps (HasBooks books) (appendRecord ref stream bytes) := by
  refine Effect.keeps_bind (Effect.keeps_modify _ fun store hstore => ?_) fun _ =>
    Effect.keeps_bind Effect.keeps_get fun before => keeps_persistSegments hstream _
  exact hasBooks_updateStream hstore hstream fun _ => rfl

theorem keeps_flush (hstream : (books.accounts ref).streams.has stream = true) :
    Effect.Keeps (HasBooks books) (flush ref stream) := by
  refine Effect.keeps_bind Effect.keeps_get fun before => Effect.keeps_ite (Effect.keeps_pure _) ?_
  refine Effect.keeps_bind (Effect.keeps_modify _ fun store hstore => ?_) fun _ =>
    keeps_persist hstream _
  exact hasBooks_updateStream hstore hstream fun _ => rfl

theorem keeps_moveExtents (extents : List Nat) (targetOffset : Nat) :
    Effect.Keeps (HasBooks books) (moveExtents extents targetOffset) := by
  induction extents generalizing targetOffset with
  | nil => exact Effect.keeps_pure _
  | cons extent extents ih =>
    refine Effect.keeps_bind Effect.keeps_get fun before => ?_
    refine Effect.keeps_ite (Effect.keeps_throw _) ?_
    refine Effect.keeps_ite ?_ (ih _)
    refine Effect.keeps_ite (Effect.keeps_bind (Effect.keeps_throw _) fun _ => ?_) ?_
    all_goals
      refine Effect.keeps_bind (keeps_fileCall _) fun _ => ?_
      exact Effect.keeps_bind (Effect.keeps_modify _ fun store hstore => hstore) fun _ => ih _

theorem keeps_compactFile : Effect.Keeps (HasBooks books) compactFile := by
  refine Effect.keeps_bind Effect.keeps_get fun before => ?_
  split
  · exact Effect.keeps_modify _ fun store hstore => hstore
  · refine Effect.keeps_bind (keeps_moveExtents _ _) fun _ => ?_
    refine Effect.keeps_bind Effect.keeps_get fun _ => ?_
    exact Effect.keeps_bind (keeps_fileCall _) fun _ =>
      Effect.keeps_modify _ fun store hstore => hstore

theorem keeps_readFile (offset length : Nat) :
    Effect.Keeps (HasBooks books) (readFile offset length) := by
  rw [Effect.keeps_iff]
  intro store hstore
  unfold Effect.run readFile
  split <;> try exact hstore
  all_goals split <;> exact hstore

theorem keeps_readExtents (offset length : Nat) (extents : List Nat) (written : List UInt8) :
    Effect.Keeps (HasBooks books) (readExtents offset length extents written) := by
  induction extents generalizing written with
  | nil => exact Effect.keeps_ite (Effect.keeps_pure _) (Effect.keeps_throw _)
  | cons extent extents ih =>
    refine Effect.keeps_bind Effect.keeps_get fun before => Effect.keeps_ite (ih _) ?_
    exact Effect.keeps_bind (keeps_readFile _ _) fun bytes =>
      Effect.keeps_ite (Effect.keeps_pure _) (ih _)

theorem keeps_readRecordRange (record : BashOutputStreamRecord) (offset length : Nat) :
    Effect.Keeps (HasBooks books) (readRecordRange record offset length) := by
  refine Effect.keeps_bind Effect.keeps_get fun before => Effect.keeps_ite (Effect.keeps_pure _) ?_
  exact Effect.keeps_ite (Effect.keeps_throw _) (keeps_readExtents _ _ _ _)

/-- Every call on the file to come succeeds. -/
def Calm (store : BashOutputStore) : Prop := ∀ call ∈ store.calls, call = .succeeded

/-- The code returns where every call on the file succeeds. -/
def Returns {α : Type} (m : Code α) : Prop :=
  Effect.Triple Calm m (fun _ => Calm) fun _ _ => False

variable {α β : Type}

theorem returns_bind {m : Code α} {f : α → Code β} (hm : Returns m) (hf : ∀ a, Returns (f a)) :
    Returns (m >>= f) := Effect.triple_bind hm hf

theorem returns_pure (a : α) : Returns (pure a : Code α) := fun _ hcalm => hcalm

theorem returns_get : Returns (get : Code BashOutputStore) := fun _ hcalm => hcalm

theorem returns_modify {f : BashOutputStore → BashOutputStore}
    (h : ∀ store, (f store).calls = store.calls) : Returns (modify f : Code PUnit) := by
  intro store hcalm call hcall
  exact hcalm call (h store ▸ hcall)

theorem returns_ite {c : Prop} [Decidable c] {m n : Code α} (hm : Returns m) (hn : Returns n) :
    Returns (if c then m else n) := by
  split
  · exact hm
  · exact hn

theorem Calm.cases (h : store.Calm) :
    store.calls = [] ∨ ∃ calls, store.calls = .succeeded :: calls ∧
      ∀ call ∈ calls, call = .succeeded := by
  unfold Calm at h
  cases hcalls : store.calls with
  | nil => exact .inl rfl
  | cons call calls =>
    rw [hcalls] at h
    refine .inr ⟨calls, ?_, fun call hcall => h call (List.mem_cons_of_mem _ hcall)⟩
    rw [h call List.mem_cons_self]

theorem returns_fileCall (file : List UInt8) : Returns (fileCall file) := by
  intro store hcalm
  unfold Effect.run fileCall
  obtain hcalls | ⟨calls, hcalls, hrest⟩ := hcalm.cases
  · rw [hcalls]
    exact fun call hcall => absurd hcall List.not_mem_nil
  · rw [hcalls]
    exact hrest

theorem returns_ensureFile : Returns ensureFile := by
  intro store hcalm
  unfold Effect.run ensureFile
  cases store.file with
  | some file => exact hcalm
  | none =>
    obtain hcalls | ⟨calls, hcalls, hrest⟩ := hcalm.cases
    · rw [hcalls]
      exact fun call hcall => absurd hcall List.not_mem_nil
    · rw [hcalls]
      exact hrest

theorem returns_persist (bytes : List UInt8) : Returns (persist ref stream bytes) := by
  refine returns_bind returns_ensureFile fun file => ?_
  refine returns_bind returns_get fun before => ?_
  exact returns_bind (returns_fileCall _) fun _ => returns_modify fun _ => rfl

theorem returns_persistSegments (fuel : Nat) : Returns (persistSegments ref stream fuel) := by
  induction fuel with
  | zero => exact returns_pure _
  | succ fuel ih =>
    refine returns_bind returns_get fun before => returns_ite ?_ (returns_pure _)
    refine returns_bind (returns_modify fun _ => rfl) fun _ => ?_
    exact returns_bind (returns_persist _) fun _ => ih

theorem returns_appendRecord (bytes : List UInt8) : Returns (appendRecord ref stream bytes) := by
  refine returns_bind (returns_modify fun _ => rfl) fun _ => ?_
  exact returns_bind returns_get fun before => returns_persistSegments _

theorem returns_flush : Returns (flush ref stream) := by
  refine returns_bind returns_get fun before => returns_ite (returns_pure _) ?_
  exact returns_bind (returns_modify fun _ => rfl) fun _ => returns_persist _

/-! ## Calls of a command -/

theorem books_setLimit (store : BashOutputStore) (ref : Nat) (reason : BashOutputLimitReason) :
    (store.setLimit ref reason).books = store.books.limited ref reason :=
  books_updateRecord rfl

theorem books_markFailed (store : BashOutputStore) (ref : Nat) :
    (store.markFailed ref).books = store.books.change ref BashAccount.fail :=
  books_updateRecord rfl

theorem books_finalized (store : BashOutputStore) (ref : Nat) :
    (store.updateRecord ref fun record => { record with finalized := true }).books =
      store.books.change ref fun account => { account with finalized := true } :=
  books_updateRecord rfl

theorem has_account (store : BashOutputStore) (ref : Nat) (stream : BashOutputStream) :
    ((store.books.accounts ref).streams.has stream) =
      (store.records.read ref).streams.has stream := by
  show (((store.records.read ref).streams.mapValues _).get? stream).isSome = _
  rw [InsMap.get?_mapValues, Option.isSome_map]
  rfl

theorem books_accept (store : BashOutputStore) (ref : Nat) (stream : BashOutputStream)
    (count : Nat) : (store.accept ref stream count).books = store.books.take ref stream count := by
  have htotal : (store.streamOf ref stream).totalBytes =
      ((store.books.accounts ref).streams.get? stream).getD 0 := by
    show _ = (((store.records.read ref).streams.mapValues
      BashOutputStreamRecord.totalBytes).get? stream).getD 0
    rw [InsMap.get?_mapValues, streamOf]
    cases (store.records.read ref).streams.get? stream <;> rfl
  have hrecord : (store.updateRecord ref fun record => { record with
      streams := record.streams.set stream { store.streamOf ref stream with
        totalBytes := (store.streamOf ref stream).totalBytes + count }
      commandBytes := record.commandBytes + count }).books =
      store.books.change ref (BashAccount.take stream count) := by
    refine books_updateRecord ?_
    rw [BashAccount.take, BashOutputCommandRecord.account, InsMap.mapValues_set]
    dsimp only
    rw [htotal]
    rfl
  unfold accept BashBooks.take
  rw [has_account, ← hrecord]
  rfl

end BashOutputStore

/-! ## An append -/

namespace BashBooks

/-- The command takes no more output. -/
def Dead (books : BashBooks) (ref : Nat) : Prop :=
  books.closed = true ∨ (books.accounts ref).failed = true ∨ (books.accounts ref).finalized = true

/-- The output of a length does not fit. -/
def Full (books : BashBooks) (ref : Nat) (stream : BashOutputStream) (length : Nat) :
    BashOutputLimitReason → Prop
  | .commandBytes => books.limits.commandBytes < (books.accounts ref).commandBytes + length
  | .registryBytes => (books.limits.registryBytes : Int) < books.registryBytes + length
  | .retainedStreams => (books.accounts ref).streams.has stream = false ∧
      (books.limits.retainedStreams : Int) ≤ books.retainedStreams

/-- Bytes that the command may take. -/
structure Room (books : BashBooks) (ref : Nat) (stream : BashOutputStream) (count : Nat) : Prop where
  registry : books.registryBytes + count ≤ books.limits.registryBytes
  stream : (books.accounts ref).streams.has stream = true ∨
    books.retainedStreams < books.limits.retainedStreams

/-- What an append that returns does to the books, and how many of the bytes it stores. -/
inductive Appended (books : BashBooks) (ref : Nat) (stream : BashOutputStream) (length : Nat) :
    Nat → BashBooks → Prop
  | nothing (h : (books.accounts ref).limit.isSome = true ∨ length = 0) :
    Appended books ref stream length 0 books
  | refused (reason : BashOutputLimitReason) (hnone : (books.accounts ref).limit = none)
      (hfull : books.Full ref stream length reason) :
    Appended books ref stream length 0 (books.limited ref reason)
  | taken (hnone : (books.accounts ref).limit = none) (hpos : 0 < length)
      (hroom : books.Room ref stream length) :
    Appended books ref stream length length (books.take ref stream length)
  | truncated (reason : BashOutputLimitReason) (count : Nat)
      (hnone : (books.accounts ref).limit = none) (hpos : 0 < count) (hlt : count < length)
      (hroom : books.Room ref stream count)
      (hfull : books.Full ref stream length reason) :
    Appended books ref stream length count ((books.take ref stream count).limited ref reason)

end BashBooks

namespace BashOutputStore

variable {store : BashOutputStore} {books : BashBooks} {ref : Nat} {stream : BashOutputStream}
  {I : BashOutputStore → Prop} {F : BashOutputError → BashOutputStore → Prop}

/-- `I` is about the calls on the file only. -/
def OfCalls (I : BashOutputStore → Prop) : Prop :=
  ∀ before after : BashOutputStore, after.calls = before.calls → I before → I after

theorem endAppend_spec {storedBytes length : Nat} {reason : BashOutputLimitReason}
    {taken : BashBooks} (hI : OfCalls I) (hlength : storedBytes ≤ length)
    (hall : storedBytes = length → books.Appended ref stream length storedBytes taken)
    (hpart : storedBytes < length →
      books.Appended ref stream length storedBytes (taken.limited ref reason)) :
    Effect.Triple (fun store => HasBooks taken store ∧ I store)
      (endAppend ref storedBytes length reason)
      (fun result store =>
        books.Appended ref stream length result.storedBytes store.books ∧ I store) F := by
  unfold endAppend
  dsimp only
  split
  · next hlt =>
    refine Effect.triple_bind (Effect.triple_modify _
      (Q := fun _ store => HasBooks (taken.limited ref reason) store ∧ I store)
      fun store hstore => ?_) fun _ => ?_
    · refine ⟨?_, hI store _ rfl hstore.2⟩
      rw [HasBooks, books_setLimit, hstore.1]
    · exact Effect.triple_get_bind fun _ => Effect.triple_pure _ fun store hstore =>
        ⟨hstore.1 ▸ hpart hlt, hstore.2⟩
  · next hnot =>
    exact Effect.triple_get_bind fun _ => Effect.triple_pure _ fun store hstore =>
      ⟨hstore.1 ▸ hall (Nat.le_antisymm hlength (Nat.le_of_not_lt hnot)), hstore.2⟩

theorem storeAccepted_spec {accepted : List UInt8} {length : Nat} {reason : BashOutputLimitReason}
    (happend : ∀ bytes, Effect.Triple I (appendRecord ref stream bytes) (fun _ => I) F)
    (hI : OfCalls I) (hlimit : (books.accounts ref).limit = none)
    (hlength : accepted.length ≤ length) (hroom : books.Room ref stream accepted.length)
    (hfull : accepted.length < length → books.Full ref stream length reason) :
    Effect.Triple (fun store => HasBooks books store ∧ I store)
      (storeAccepted ref stream accepted length reason)
      (fun result store =>
        books.Appended ref stream length result.storedBytes store.books ∧ I store)
      (fun e store => (∃ count, HasBooks (books.take ref stream count) store) ∧ F e store) := by
  unfold storeAccepted
  dsimp only
  split
  · next hpos =>
    have hstream : ((books.take ref stream accepted.length).accounts ref).streams.has stream
        = true := by
      rw [BashBooks.take_self]
      simp [BashAccount.take, InsMap.has]
    refine Effect.triple_bind (Effect.triple_modify _
      (Q := fun _ store => HasBooks (books.take ref stream accepted.length) store ∧ I store)
      fun store hstore => ?_) fun _ => ?_
    · refine ⟨?_, hI store _ rfl hstore.2⟩
      rw [HasBooks, books_accept, hstore.1]
    · have hboth := Effect.triple_and (keeps_appendRecord hstream accepted) (happend accepted)
      refine Effect.triple_bind (Effect.triple_weaken hboth (fun _ h => h) (fun _ _ h => h)
        fun _ _ h => ⟨⟨_, h.1⟩, h.2⟩) fun _ => ?_
      refine endAppend_spec hI hlength (fun heq => ?_) fun hlt =>
        .truncated reason _ hlimit hpos hlt hroom (hfull hlt)
      have htaken : books.Appended ref stream length length _ :=
        .taken hlimit (heq ▸ hpos) (heq ▸ hroom)
      rwa [← heq] at htaken ⊢
  · next hnone =>
    have hzero : accepted.length = 0 := Nat.eq_zero_of_not_pos hnone
    refine endAppend_spec hI hlength (fun heq => ?_) fun hlt => ?_
    · rw [hzero]
      exact .nothing (.inr (heq.symm.trans hzero))
    · rw [hzero]
      exact .refused reason hlimit (hfull hlt)

/-- More bytes than are left do not fit. -/
theorem full_of_available {length : Nat} (h : store.available ref < length) :
    store.books.Full ref stream length (store.limitReason ref) := by
  unfold available commandRemaining registryRemaining at h
  unfold limitReason commandRemaining registryRemaining
  split
  · show store.limits.commandBytes < (store.records.read ref).commandBytes + length
    omega
  · show (store.limits.registryBytes : Int) < store.registryBytes + length
    omega

/-- An append stays within the limits, and sets one where it leaves bytes out. -/
theorem appendLocked_spec (books : BashBooks) (ref : Nat) (stream : BashOutputStream) (text : JsText)
    (happend : ∀ bytes, Effect.Triple I (appendRecord ref stream bytes) (fun _ => I) F)
    (hI : OfCalls I) :
    Effect.Triple (fun store => HasBooks books store ∧ I store) (appendLocked ref stream text)
      (fun result store => (¬ books.Dead ref ∧ books.Appended ref stream (encodeUtf8 text).length
        result.storedBytes store.books) ∧ I store)
      (fun e store => (books.Dead ref ∧ HasBooks books store) ∨
        ((∃ count, HasBooks (books.take ref stream count) store) ∧ F e store)) := by
  refine Effect.triple_read fun before ⟨hbooks, hbefore⟩ => ?_
  have hsame : ∀ store, before = store → HasBooks books store ∧ I store := by
    rintro store rfl
    exact ⟨hbooks, hbefore⟩
  subst hbooks
  dsimp only
  split
  · next hdead =>
    rintro store rfl
    refine .inl ⟨?_, rfl⟩
    simp only [Bool.or_eq_true] at hdead
    exact or_assoc.mp hdead
  next hlive =>
  have hlive : ¬ before.books.Dead ref := by
    simp only [Bool.or_eq_true, or_assoc] at hlive
    exact hlive
  split
  · next hdone =>
    rintro store rfl
    refine ⟨⟨hlive, .nothing ?_⟩, hbefore⟩
    refine (Bool.or_eq_true _ _ ▸ hdone).imp id fun hempty => ?_
    rw [List.isEmpty_iff.mp hempty]
    rfl
  next hopen =>
  have hlimit : (before.books.accounts ref).limit = none := by
    cases h : (before.records.read ref).limit with
    | none => exact h
    | some limit => simp [h] at hopen
  split
  · next hnone =>
    rintro store rfl
    refine ⟨⟨hlive, ?_⟩, hI before _ rfl hbefore⟩
    have htext : text ≠ [] := fun h => hopen (by simp [h])
    have hfull : before.books.Full ref stream (encodeUtf8 text).length (before.limitReason ref) :=
      full_of_available (lt_of_le_of_lt hnone (Int.natCast_pos.mpr (length_encodeUtf8_pos htext)))
    exact books_setLimit before ref _ ▸ .refused _ hlimit hfull
  split
  · next hstreams =>
    rintro store rfl
    refine ⟨⟨hlive, ?_⟩, hI before _ rfl hbefore⟩
    simp only [Bool.and_eq_true, Bool.not_eq_true', decide_eq_true_eq] at hstreams
    exact books_setLimit before ref _ ▸ .refused _ hlimit
      ⟨(has_account before ref stream).trans hstreams.1, hstreams.2⟩
  next hsome hstreams =>
  have hlength := length_scalarBoundaryPrefix_le (encodeUtf8 text) (before.available ref).toNat
  have hroom : before.books.Room ref stream
      (scalarBoundaryPrefix (encodeUtf8 text) (before.available ref).toNat).length := by
    refine ⟨?_, ?_⟩
    · show before.registryBytes + _ ≤ (before.limits.registryBytes : Int)
      unfold available registryRemaining at *
      omega
    · rw [has_account]
      simp only [Bool.and_eq_true, Bool.not_eq_true', decide_eq_true_eq, not_and, not_le] at hstreams
      cases h : (before.records.read ref).streams.has stream with
      | true => exact .inl rfl
      | false => exact .inr (hstreams h)
  refine Effect.triple_weaken (storeAccepted_spec happend hI hlimit
    (scalarBoundaryPrefix_isFront _ _).length_le hroom fun hlt => full_of_available ?_) hsame
    (fun _ _ h => ⟨⟨hlive, h.1⟩, h.2⟩) fun _ _ h => .inr h
  have := lt_length_of_scalarBoundaryPrefix hlt
  omega
end BashOutputStore

end Henji
