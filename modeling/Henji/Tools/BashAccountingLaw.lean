import Henji.Tools.BashAccounting

/-!
# The books of the output store over runs

Results:
1. `accounted_step`: a step that meets `fair` keeps the books balanced.
2. `accounts_balanced`: in a run where no command that holds output fails, the counters are the
   sums over the registry, and an append is refused only where the live commands fill a limit.
3. `failed_command_keeps_streams`: a failing write of one command makes the store refuse others.
-/

namespace Henji

/-! ## Finishing and abandoning -/

namespace BashBooks

variable {books : BashBooks} {ref other : Nat} {stream : BashOutputStream}

def finalize (books : BashBooks) (ref : Nat) : BashBooks :=
  books.change ref fun account => { account with finalized := true }

theorem finalize_of_finalized (h : (books.accounts ref).finalized = true) :
    books.finalize ref = books := by
  have hsame : { books.accounts ref with finalized := true } = books.accounts ref := by rw [← h]
  unfold finalize change
  dsimp only
  rw [hsame, Function.update_eq_self]

theorem retained_finalize (books : BashBooks) (ref other : Nat) :
    ((books.finalize ref).accounts other).retained = (books.accounts other).retained := by
  rw [finalize, accounts_change]
  split
  · next h =>
    rw [h]
    rfl
  · rfl

/-- What a call of `finish` that returns does to the books. -/
inductive Finished (books : BashBooks) (ref : Nat) : BashBooks → Prop
  | kept : Finished books ref (books.finalize ref)
  | dropped (hempty : (books.accounts ref).retained = 0) :
    Finished books ref ((books.finalize ref).drop ref)

end BashBooks

namespace BashOutputStore

variable {store : BashOutputStore} {books : BashBooks} {ref : Nat} {stream : BashOutputStream}
  {I : BashOutputStore → Prop} {F : BashOutputError → BashOutputStore → Prop}

theorem isEmpty_streams (h : HasBooks books store) :
    (store.records.read ref).streams.entries.isEmpty = true ↔ (books.accounts ref).retained = 0 := by
  subst h
  rw [List.isEmpty_iff, ← List.length_eq_zero_iff]
  exact Iff.of_eq (congrArg (· = 0) (InsMap.length_mapValues _ _).symm)

/-- The flush of streams that the command has. -/
theorem flushAll_spec (streams : List BashOutputStream)
    (hstreams : ∀ stream ∈ streams, (books.accounts ref).streams.has stream = true)
    (hflush : ∀ stream, (books.accounts ref).streams.has stream = true →
      Effect.Triple I (flush ref stream) (fun _ => I) F) :
    Effect.Triple (fun store => HasBooks books store ∧ I store)
      (streams.forM fun stream => flush ref stream)
      (fun _ store => HasBooks books store ∧ I store)
      (fun e store => HasBooks books store ∧ F e store) := by
  induction streams with
  | nil => exact Effect.triple_pure _ fun _ h => h
  | cons stream streams ih =>
    have hstream := hstreams stream List.mem_cons_self
    have hboth := Effect.triple_and (keeps_flush hstream) (hflush stream hstream)
    exact Effect.triple_bind hboth fun _ =>
      ih fun other h => hstreams other (List.mem_cons_of_mem _ h)

theorem endFinish_spec (hI : OfCalls I) :
    Effect.Triple (fun store => HasBooks (books.finalize ref) store ∧ I store) (endFinish ref)
      (fun _ store => books.Finished ref store.books ∧ I store) F := by
  refine Effect.triple_read fun before hbefore => ?_
  dsimp only
  split
  · next h =>
    refine Effect.triple_bind (Effect.triple_modify _
      (Q := fun _ store => books.Finished ref store.books ∧ I store) ?_) fun _ =>
      Effect.triple_pure _ fun _ h => h
    rintro store rfl
    refine ⟨?_, hI before _ rfl hbefore.2⟩
    have hretained := (isEmpty_streams hbefore.1).mp h
    rw [BashBooks.retained_finalize] at hretained
    have hdropped := BashBooks.Finished.dropped hretained
    rwa [← hbefore.1] at hdropped
  · refine Effect.triple_pure _ ?_
    rintro store rfl
    exact ⟨hbefore.1 ▸ .kept, hbefore.2⟩

theorem finishLocked_spec
    (hflush : ∀ stream, (books.accounts ref).streams.has stream = true →
      Effect.Triple I (flush ref stream) (fun _ => I) F) (hI : OfCalls I) :
    Effect.Triple (fun store => HasBooks books store ∧ I store) (finishLocked ref)
      (fun _ store => books.Finished ref store.books ∧ I store)
      (fun e store => HasBooks books store ∧
        ((books.closed = true ∨ (books.accounts ref).failed = true) ∨ F e store)) := by
  refine Effect.triple_read fun before ⟨hbooks, hbefore⟩ => ?_
  have hsame : ∀ store, before = store → HasBooks books store ∧ I store := by
    rintro store rfl
    exact ⟨hbooks, hbefore⟩
  subst hbooks
  dsimp only
  split
  · next hdead =>
    rintro store rfl
    exact ⟨rfl, .inl (Bool.or_eq_true _ _ ▸ hdead)⟩
  split
  · next hopen =>
    have hstreams : ∀ stream ∈ (before.records.read ref).streams.keys,
        (before.books.accounts ref).streams.has stream = true := fun stream hstream =>
      (has_account before ref stream).trans (InsMap.mem_keys.mp hstream)
    refine Effect.triple_bind (Effect.triple_weaken (flushAll_spec _ hstreams hflush) hsame
      (fun _ _ h => h) fun _ _ h => ⟨h.1, .inr h.2⟩) fun _ => ?_
    refine Effect.triple_bind (Effect.triple_modify _
      (Q := fun _ store => HasBooks (before.books.finalize ref) store ∧ I store)
      fun store hstore => ?_) fun _ => endFinish_spec hI
    refine ⟨?_, hI store _ rfl hstore.2⟩
    rw [HasBooks, books_finalized, hstore.1]
    rfl
  · next hfinalized =>
    refine Effect.triple_weaken (endFinish_spec hI) (fun store hstore => ?_) (fun _ _ h => h)
      fun _ _ h => h
    have hdone : (before.books.accounts ref).finalized = true := by
      rw [Bool.not_eq_true', Bool.not_eq_false] at hfinalized
      exact hfinalized
    rw [BashBooks.finalize_of_finalized hdone]
    exact hsame store hstore

theorem run_appendLocked_dead {text : JsText} (store : BashOutputStore)
    (h : (store.closed || (store.records.read ref).failed ||
      (store.records.read ref).finalized) = true) :
    Effect.run (appendLocked ref stream text) store = (.error .persistence, store) := by
  unfold appendLocked
  rw [Effect.run_bind_ok (Effect.run_get store)]
  dsimp only
  rw [if_pos h]
  rfl

theorem run_appendLocked_done {text : JsText} (store : BashOutputStore)
    (h : ¬ (store.closed || (store.records.read ref).failed ||
      (store.records.read ref).finalized) = true)
    (hdone : ((store.records.read ref).limit.isSome || text.isEmpty) = true) :
    Effect.run (appendLocked ref stream text) store =
      (.ok ⟨0, (store.records.read ref).limit⟩, store) := by
  unfold appendLocked
  rw [Effect.run_bind_ok (Effect.run_get store)]
  dsimp only
  rw [if_neg h, if_pos hdone]
  rfl

/-- An abandoned command gives back what it holds, also where the file cannot be compacted. -/
theorem abandonLocked_spec (books : BashBooks) (ref : Nat) :
    Effect.Triple (HasBooks books) (abandonLocked ref)
      (fun _ store => store.books = books ∨ (ref ∈ books.commands ∧
        store.books = (books.release ref).change ref BashAccount.fail))
      (fun _ store => store.books = books ∨
        (ref ∈ books.commands ∧ store.books = books.release ref)) := by
  refine Effect.triple_read fun before hbooks => ?_
  subst hbooks
  dsimp only
  split
  · next hmem =>
    have hmem : ref ∈ before.books.commands := List.contains_iff_mem.mp hmem
    split
    · rintro store rfl
      exact .inl rfl
    · refine Effect.triple_bind (Effect.triple_modify _
        (Q := fun _ => HasBooks (before.books.release ref)) ?_) fun _ => ?_
      · rintro store rfl
        show _ = _
        unfold books BashBooks.release BashBooks.drop
        dsimp only
        rw [BashAccount.retained, BashOutputCommandRecord.account, InsMap.length_mapValues]
      · refine Effect.triple_bind (Effect.triple_weaken keeps_compactFile (fun _ h => h)
          (fun _ _ h => h) fun _ _ h => .inr ⟨hmem, h⟩) fun _ => ?_
        refine Effect.triple_modify _ fun store hstore => .inr ⟨hmem, ?_⟩
        rw [books_markFailed, hstore]
  · exact Effect.triple_pure _ fun store hstore => .inl (hstore ▸ rfl)

theorem books_abandoned (ref : Nat) (store : BashOutputStore) (h : HasBooks books store) :
    ((abandonLocked ref).exec store).books = books ∨ (ref ∈ books.commands ∧
      (((abandonLocked ref).exec store).books = books.release ref ∨
        ((abandonLocked ref).exec store).books =
          (books.release ref).change ref BashAccount.fail)) := by
  have hends := abandonLocked_spec books ref store h
  cases hrun : Effect.run (abandonLocked ref) store with
  | mk result after =>
    rw [hrun] at hends
    rw [Effect.exec_of_run hrun]
    cases result with
    | error e => exact hends.imp_right fun h => ⟨h.1, .inl h.2⟩
    | ok a => exact hends.imp_right fun h => ⟨h.1, .inr h.2⟩

theorem keeps_read (outputId : Nat) (stream : BashOutputStream) (offset limit : Nat) :
    Effect.Keeps (HasBooks books) (read outputId stream offset limit) := by
  refine Effect.keeps_bind Effect.keeps_get fun before => ?_
  dsimp only
  refine Effect.keeps_ite (Effect.keeps_throw _) ?_
  split
  · exact Effect.keeps_throw _
  · next record hrecord =>
    have hcheck : Effect.Keeps (HasBooks books) (checkOffset record offset) := by
      refine Effect.keeps_ite (Effect.keeps_throw _) ?_
      refine Effect.keeps_ite ?_ (Effect.keeps_pure _)
      exact Effect.keeps_bind (keeps_readRecordRange _ _ _) fun first =>
        Effect.keeps_ite (Effect.keeps_throw _) (Effect.keeps_pure _)
    refine Effect.keeps_bind hcheck fun _ => ?_
    refine Effect.keeps_bind (keeps_readRecordRange _ _ _) fun selected => ?_
    dsimp only
    split
    · exact Effect.keeps_throw _
    · exact Effect.keeps_pure _

theorem books_beginCommand (store : BashOutputStore) :
    store.beginCommand.2.books = if store.closed then store.books else store.books.begin := by
  unfold beginCommand
  split
  · rfl
  · have haccounts : (fun ref => ((store.records.alloc emptyRecord).2.read ref).account) =
        store.books.begin.accounts := by
      funext ref
      rw [Heap.read_alloc]
      show _ = Function.update store.books.accounts store.records.next .new ref
      rw [Function.update_apply]
      split <;> rfl
    exact congrArg (fun accounts => { store.books.begin with accounts }) haccounts

theorem books_close (store : BashOutputStore) :
    store.close.books = { store.books with closed := true } := by
  unfold close
  split
  · next h =>
    unfold books
    rw [h]
  · rfl

end BashOutputStore

/-! ## Steps -/

namespace BashBooks

variable {books books' : BashBooks} {ref other : Nat} {stream : BashOutputStream}

/-- The command is there and will hold nothing in the registry. -/
def Spent (books : BashBooks) (ref : Nat) : Prop :=
  ref < books.next ∧
    (ref ∈ books.commands → (books.accounts ref).retained = 0 ∧ books.Dead ref)

theorem spent_change (h : books.Spent ref) {f : BashAccount → BashAccount}
    (hretained : ∀ account, account.retained = 0 → (f account).retained = 0)
    (hfailed : ∀ account, account.failed = true → (f account).failed = true)
    (hfinalized : ∀ account, account.finalized = true → (f account).finalized = true) :
    (books.change other f).Spent ref := by
  refine ⟨h.1, fun hmem => ?_⟩
  obtain ⟨hempty, hdead⟩ := h.2 hmem
  unfold Dead
  rw [accounts_change]
  split
  · next heq =>
    rw [heq] at hempty hdead
    exact ⟨hretained _ hempty, hdead.imp id fun hdead => hdead.imp (hfailed _) (hfinalized _)⟩
  · exact ⟨hempty, hdead⟩

theorem spent_drop (h : books.Spent ref) : (books.drop other).Spent ref :=
  ⟨h.1, fun hmem => h.2 (mem_drop.mp hmem).1⟩

theorem spent_release (other : Nat) (h : books.Spent ref) : (books.release other).Spent ref :=
  ⟨h.1, fun hmem => h.2 (mem_drop.mp hmem).1⟩

theorem spent_begin (h : books.Spent ref) : books.begin.Spent ref := by
  refine ⟨Nat.lt_succ_of_lt h.1, fun hmem => ?_⟩
  have hold : books.begin.accounts ref = books.accounts ref :=
    Function.update_of_ne (Nat.ne_of_lt h.1) _ _
  obtain hmem | hnew := List.mem_append.mp hmem
  · unfold Dead
    rw [hold]
    exact h.2 hmem
  · exact absurd (List.mem_singleton.mp hnew) (Nat.ne_of_lt h.1)

theorem spent_fail (h : books.Spent ref) : (books.change other BashAccount.fail).Spent ref :=
  spent_change h (fun _ _ => rfl) (fun _ _ => rfl) fun _ _ => rfl

/-- An append to a command that takes output changes no spent command. -/
theorem spent_appended {length count : Nat} (h : books.Spent ref) (hlive : ¬ books.Dead other)
    (happended : books.Appended other stream length count books') : books'.Spent ref := by
  have hlimited : ∀ {books : BashBooks} (reason : BashOutputLimitReason), books.Spent ref →
      (books.limited other reason).Spent ref := fun reason h =>
    spent_change h (fun _ h => h) (fun _ h => h) fun _ h => h
  have htaken : ∀ count, (books.take other stream count).Spent ref := by
    intro count
    refine ⟨h.1, fun hmem => ?_⟩
    obtain ⟨hempty, hdead⟩ := h.2 hmem
    have hne : ref ≠ other := fun heq => hlive (heq ▸ hdead)
    have hsame : (books.take other stream count).accounts ref = books.accounts ref :=
      Function.update_of_ne hne _ _
    unfold Dead
    rw [hsame]
    exact ⟨hempty, hdead⟩
  cases happended with
  | nothing => exact h
  | refused reason => exact hlimited reason h
  | taken => exact htaken _
  | truncated reason => exact hlimited reason (htaken _)

theorem balanced_appended {length count : Nat} (h : books.Balanced) (hlive : ¬ books.Dead ref)
    (hmem : 0 < length → (books.accounts ref).limit = none → ref ∈ books.commands)
    (happended : books.Appended ref stream length count books') : books'.Balanced := by
  have hfailed : (books.accounts ref).failed = false := by
    cases hfailed : (books.accounts ref).failed with
    | false => rfl
    | true => exact absurd (.inr (.inl hfailed)) hlive
  cases happended with
  | nothing => exact h
  | refused reason => exact balanced_limited h ref reason
  | taken hnone hpos hroom =>
    exact balanced_take h (hmem hpos hnone) hfailed hroom.registry hroom.stream
  | truncated reason count hnone hpos hlt hroom hfull =>
    have hmem := hmem (Nat.lt_trans hpos hlt) hnone
    exact balanced_limited (balanced_take h hmem hfailed hroom.registry hroom.stream) ref reason

theorem balanced_finished (h : books.Balanced) (hfinished : books.Finished ref books') :
    books'.Balanced := by
  have hfinalized : (books.finalize ref).Balanced :=
    balanced_change h (fun _ => rfl) (fun _ => rfl) fun _ => rfl
  cases hfinished with
  | kept => exact hfinalized
  | dropped hempty => exact balanced_drop hfinalized ((retained_finalize _ _ _).trans hempty)

theorem spent_finished (h : books.Spent ref) (hfinished : books.Finished other books') :
    books'.Spent ref := by
  have hfinalized : (books.finalize other).Spent ref :=
    spent_change h (fun _ h => h) (fun _ h => h) fun _ _ => rfl
  cases hfinished with
  | kept => exact hfinalized
  | dropped => exact spent_drop hfinalized

theorem balanced_close (h : books.Balanced) : { books with closed := true : BashBooks }.Balanced :=
  ⟨h.nodup, h.allocated, h.recorded, h.registryBytes, h.retainedStreams, h.registryLimit,
    h.streamLimit, h.givenBack⟩

end BashBooks

namespace BashOutputRun

open BashOutputStore (HasBooks Calm)

variable {run next : BashOutputRun} {ref : Nat} {stream : BashOutputStream} {text : JsText}
  {calls : List FileCall} {event : BashOutputEvent}

/-- The command is in the registry and holds output. -/
def holds (run : BashOutputRun) (ref : Nat) : Bool :=
  run.store.commands.contains ref && !(run.store.records.read ref).streams.entries.isEmpty

/-- The condition on a step: no command that holds or takes output fails. No call of it comes when
the command takes no more output, an append that stores output belongs to a command of the registry,
and its calls on the file succeed. -/
def fair (run : BashOutputRun) : BashOutputEvent → Bool
  | .append ref _ text calls =>
    let command := run.store.records.read ref
    if run.store.closed || command.failed || command.finalized then !run.holds ref
    else command.limit.isSome || text.isEmpty ||
      (run.store.commands.contains ref && calls.all fun call => call == .succeeded)
  | .finish ref calls =>
    !run.holds ref || (!(run.store.closed || (run.store.records.read ref).failed) &&
      calls.all fun call => call == .succeeded)
  | _ => true

/-- What holds between the steps of a run. -/
structure Accounted (run : BashOutputRun) : Prop where
  balanced : run.store.books.Balanced
  marking : ∀ ref ∈ run.marking, run.store.books.Spent ref

theorem holds_iff : run.holds ref = true ↔
    ref ∈ run.store.books.commands ∧ (run.store.books.accounts ref).retained ≠ 0 := by
  have hempty : (run.store.records.read ref).streams.entries.isEmpty = true ↔
      (run.store.books.accounts ref).retained = 0 := BashOutputStore.isEmpty_streams rfl
  unfold holds
  rw [Bool.and_eq_true, List.contains_iff_mem, Bool.not_eq_true', ← Bool.not_eq_true, hempty]
  rfl

theorem retained_of_not_holds (h : run.holds ref = false) (hmem : ref ∈ run.store.books.commands) :
    (run.store.books.accounts ref).retained = 0 := by
  by_contra hne
  exact Bool.false_ne_true (h.symm.trans (holds_iff.mpr ⟨hmem, hne⟩))

theorem dead_iff : (run.store.closed || (run.store.records.read ref).failed ||
    (run.store.records.read ref).finalized) = true ↔ run.store.books.Dead ref := by
  rw [Bool.or_eq_true, Bool.or_eq_true, or_assoc]
  rfl

theorem calm_locked (h : (calls.all fun call => call == .succeeded) = true) :
    (run.locked calls).Calm := fun call hcall => beq_iff_eq.mp (List.all_eq_true.mp h call hcall)

theorem hasBooks_locked (run : BashOutputRun) (calls : List FileCall) :
    HasBooks run.store.books (run.locked calls) := rfl

theorem accounted_start (limits : BashOutputStoreLimits) : (start limits).Accounted where
  balanced := {
    nodup := List.nodup_nil
    allocated := fun _ hmem => absurd hmem List.not_mem_nil
    recorded := fun _ hmem => absurd hmem List.not_mem_nil
    registryBytes := rfl
    retainedStreams := rfl
    registryLimit := Int.natCast_nonneg _
    streamLimit := Int.natCast_nonneg _
    givenBack := fun _ hmem => absurd hmem List.not_mem_nil }
  marking := fun _ hmem => absurd hmem List.not_mem_nil

/-- A step that marks nothing new and changes the books in a lawful way. -/
theorem accounted_of_books (h : run.Accounted) {store : BashOutputStore} {marking : List Nat}
    {appends : List BashOutputAppend} (hbalanced : store.books.Balanced)
    (hspent : ∀ ref, run.store.books.Spent ref → store.books.Spent ref)
    (hmarking : ∀ ref ∈ marking, ref ∈ run.marking ∨ store.books.Spent ref) :
    (⟨store, marking, appends⟩ : BashOutputRun).Accounted :=
  ⟨hbalanced, fun ref hmem => (hmarking ref hmem).elim (fun hold => hspent ref (h.marking ref hold))
    id⟩

theorem accounted_append (h : run.Accounted) (hfair : run.fair (.append ref stream text calls) = true)
    (hstep : run.step (.append ref stream text calls) = some next) : next.Accounted := by
  rw [step] at hstep
  split at hstep
  swap
  · cases hstep
  next hlt =>
  unfold fair at hfair
  dsimp only at hfair
  split at hfair
  · next hdead =>
    have hspent : run.store.books.Spent ref := ⟨hlt, fun hmem =>
      ⟨retained_of_not_holds (by simpa using hfair) hmem, dead_iff.mp hdead⟩⟩
    rw [BashOutputStore.run_appendLocked_dead (run.locked calls) hdead] at hstep
    cases hstep
    refine accounted_of_books h h.balanced (fun _ h => h) fun other hmem =>
      (List.mem_append.mp hmem).imp_right fun hmem => ?_
    rw [List.mem_singleton.mp hmem]
    exact hspent
  next hlive =>
  rw [Bool.or_eq_true] at hfair
  obtain hdone | hfair := hfair
  · rw [BashOutputStore.run_appendLocked_done (run.locked calls) hlive hdone] at hstep
    cases hstep
    exact accounted_of_books h h.balanced (fun _ h => h) fun _ hmem => .inl hmem
  rw [Bool.and_eq_true, List.contains_iff_mem] at hfair
  have hspec := BashOutputStore.appendLocked_spec (I := Calm) (F := fun _ _ => False)
    run.store.books ref stream text (fun bytes => BashOutputStore.returns_appendRecord bytes) fun _ _ hcalls hcalm call hcall =>
      hcalm call (hcalls ▸ hcall)
  have hends := hspec (run.locked calls) ⟨rfl, calm_locked hfair.2⟩
  cases hrun : Effect.run (BashOutputStore.appendLocked ref stream text) (run.locked calls) with
  | mk result store =>
    rw [hrun] at hends hstep
    cases result with
    | error e =>
      obtain ⟨hdead, -⟩ | hfalse := hends
      · exact absurd (dead_iff.mpr hdead) hlive
      · exact hfalse.2.elim
    | ok result =>
      obtain ⟨⟨hnot, happended⟩, -⟩ := hends
      cases hstep
      exact accounted_of_books h
        (BashBooks.balanced_appended h.balanced hnot (fun _ _ => hfair.1) happended)
        (fun _ hspent => BashBooks.spent_appended hspent hnot happended) fun _ hmem => .inl hmem

theorem accounted_finish (h : run.Accounted) (hfair : run.fair (.finish ref calls) = true)
    (hstep : run.step (.finish ref calls) = some next) : next.Accounted := by
  rw [step] at hstep
  split at hstep
  swap
  · cases hstep
  next hlt =>
  have hfinish : ∀ {I : BashOutputStore → Prop} {F : BashOutputError → BashOutputStore → Prop},
      (∀ stream, (run.store.books.accounts ref).streams.has stream = true →
        Effect.Triple I (BashOutputStore.flush ref stream) (fun _ => I) F) →
      BashOutputStore.OfCalls I → I (run.locked calls) →
      (∀ e store, HasBooks run.store.books store →
        ((run.store.books.closed = true ∨ (run.store.books.accounts ref).failed = true) ∨ F e store) →
        run.store.books.Spent ref) → next.Accounted := by
    intro I F hflush hI hstart hspent
    have hends := BashOutputStore.finishLocked_spec hflush hI (run.locked calls) ⟨rfl, hstart⟩
    cases hrun : Effect.run (BashOutputStore.finishLocked ref) (run.locked calls) with
    | mk result store =>
      rw [hrun] at hends hstep
      cases result with
      | error e =>
        cases hstep
        have hbooks : store.books = run.store.books := hends.1
        refine accounted_of_books h (hbooks ▸ h.balanced) (fun _ h => hbooks ▸ h) fun other hmem =>
          (List.mem_append.mp hmem).imp_right fun hmem => ?_
        rw [hbooks, List.mem_singleton.mp hmem]
        exact hspent e store hends.1 hends.2
      | ok result =>
        cases hstep
        exact accounted_of_books h (BashBooks.balanced_finished h.balanced hends.1)
          (fun _ hspent => BashBooks.spent_finished hspent hends.1) fun _ hmem => .inl hmem
  by_cases hmem : ref ∈ run.store.books.commands
  swap
  · -- a command that left the registry may fail
    exact hfinish (I := fun _ => True) (F := fun _ _ => True)
      (fun _ _ store _ => by split <;> trivial) (fun _ _ _ _ => trivial) trivial
      fun _ _ _ _ => ⟨hlt, fun h => absurd h hmem⟩
  unfold fair at hfair
  dsimp only at hfair
  cases hholds : run.holds ref with
  | true =>
    rw [hholds, Bool.not_true, Bool.false_or, Bool.and_eq_true, Bool.not_eq_true',
      Bool.or_eq_false_iff] at hfair
    refine hfinish (I := Calm) (F := fun _ _ => False) (fun _ _ => BashOutputStore.returns_flush)
      (fun _ _ hcalls hcalm call hcall => hcalm call (hcalls ▸ hcall)) (calm_locked hfair.2) ?_
    rintro e store - ((hclosed | hfailed) | hfalse)
    · exact absurd (hfair.1.1.symm.trans hclosed) Bool.false_ne_true
    · exact absurd (hfair.1.2.symm.trans hfailed) Bool.false_ne_true
    · exact hfalse.elim
  | false =>
    -- no stream is there to be flushed
    have hretained := retained_of_not_holds hholds hmem
    refine hfinish (I := fun _ => True) (F := fun _ _ => False) (fun stream hstream => ?_)
      (fun _ _ _ _ => trivial) trivial ?_
    · have hnil := List.length_eq_zero_iff.mp hretained
      unfold InsMap.has InsMap.get? at hstream
      rw [hnil] at hstream
      cases hstream
    · rintro e store - (hdead | hfalse)
      · exact ⟨hlt, fun _ => ⟨hretained, hdead.imp id .inl⟩⟩
      · exact hfalse.elim

theorem accounted_step (h : run.Accounted) (hfair : run.fair event = true)
    (hstep : run.step event = some next) : next.Accounted := by
  cases event with
  | append ref stream text calls => exact accounted_append h hfair hstep
  | finish ref calls => exact accounted_finish h hfair hstep
  | beginCommand =>
    cases hstep
    refine accounted_of_books h ?_ (fun other hspent => ?_) fun _ hmem => .inl hmem
    all_goals
      rw [BashOutputStore.books_beginCommand]
      split
    · exact h.balanced
    · exact BashBooks.balanced_begin h.balanced
    · exact hspent
    · exact BashBooks.spent_begin hspent
  | abandon ref calls =>
    rw [step] at hstep
    split at hstep
    swap
    · cases hstep
    cases hstep
    obtain hbooks | ⟨hmem, hbooks⟩ := BashOutputStore.books_abandoned ref
      (run.locked calls) (hasBooks_locked run calls)
    · refine accounted_of_books h (hbooks ▸ h.balanced) (fun other hspent => hbooks ▸ hspent)
        fun _ hmem => .inl hmem
    · refine accounted_of_books h ?_ (fun other hspent => ?_) fun _ hmem => .inl hmem
      · have hrelease := BashBooks.balanced_release h.balanced hmem
        obtain hbooks | hbooks := hbooks
        · exact hbooks ▸ hrelease
        · exact hbooks ▸ BashBooks.balanced_fail hrelease fun hmem =>
            absurd rfl (BashBooks.mem_drop.mp hmem).2
      · have hrelease := BashBooks.spent_release ref hspent
        obtain hbooks | hbooks := hbooks
        · exact hbooks ▸ hrelease
        · exact hbooks ▸ BashBooks.spent_fail hrelease
  | summary ref =>
    rw [step] at hstep
    split at hstep
    · cases hstep
      exact h
    · cases hstep
  | read outputId stream offset limit calls =>
    cases hstep
    have hbooks := (Effect.keeps_iff.mp (BashOutputStore.keeps_read outputId stream offset limit))
      (run.locked calls) (hasBooks_locked run calls)
    refine accounted_of_books h ?_ (fun other hspent => ?_) fun _ hmem => .inl hmem
    · exact hbooks.symm ▸ h.balanced
    · exact hbooks.symm ▸ hspent
  | markFailed ref =>
    rw [step] at hstep
    split at hstep
    swap
    · cases hstep
    next hmem =>
    cases hstep
    refine accounted_of_books h ?_ (fun other hspent => ?_) fun _ hmem =>
      .inl (List.mem_of_mem_erase hmem)
    · rw [BashOutputStore.books_markFailed]
      exact BashBooks.balanced_fail h.balanced fun hregistered =>
        ((h.marking ref hmem).2 hregistered).1
    · rw [BashOutputStore.books_markFailed]
      exact BashBooks.spent_fail hspent
  | close =>
    cases hstep
    refine accounted_of_books h ?_ (fun other hspent => ?_) fun _ hmem => .inl hmem
    · rw [BashOutputStore.books_close]
      exact BashBooks.balanced_close h.balanced
    · rw [BashOutputStore.books_close]
      exact ⟨hspent.1, fun hmem => ⟨(hspent.2 hmem).1, .inl rfl⟩⟩

theorem accounted_run (limits : BashOutputStoreLimits) {events : List BashOutputEvent}
    (hfair : Runs.Throughout step (fun run event => run.fair event = true) (start limits) events)
    (hrun : Runs.run step (start limits) events = some run) : run.Accounted :=
  Runs.run_keeps_throughout accounted_step (accounted_start limits) hfair hrun

/-- The live commands leave no room for the output of an append, or its own command does not. -/
def LeavesNoRoom (run : BashOutputRun) (ref : Nat) (stream : BashOutputStream) (text : JsText) :
    BashOutputLimitReason → Prop
  | .commandBytes => run.store.limits.commandBytes <
      (run.store.records.read ref).commandBytes + (encodeUtf8 text).length
  | .registryBytes => run.store.limits.registryBytes <
      run.store.books.liveTotal BashAccount.commandBytes + (encodeUtf8 text).length
  | .retainedStreams => (run.store.records.read ref).streams.has stream = false ∧
      run.store.limits.retainedStreams ≤ run.store.books.liveTotal BashAccount.retained

/-- An append that leaves bytes out sets the limit of its command, and a limit is set only where
there is no room. -/
structure RefusesFairly (run next : BashOutputRun) (ref : Nat) (stream : BashOutputStream)
    (text : JsText) : Prop where
  refused : ∀ snapshot, (run.store.records.read ref).limit = none →
    (next.store.records.read ref).limit = some snapshot →
    run.LeavesNoRoom ref stream text snapshot.reason
  stored : ∀ storedBytes, next.appends = run.appends ++ [⟨ref, stream, text, storedBytes⟩] →
    storedBytes = (encodeUtf8 text).length ∨ (next.store.records.read ref).limit.isSome = true

theorem leavesNoRoom_of_full (h : run.store.books.Balanced) {reason : BashOutputLimitReason}
    (hfull : run.store.books.Full ref stream (encodeUtf8 text).length reason) :
    run.LeavesNoRoom ref stream text reason := by
  have hbytes : run.store.books.liveTotal BashAccount.commandBytes =
      run.store.books.total BashAccount.commandBytes := BashBooks.liveTotal_eq fun other hmem hfailed => by
    rw [h.recorded other hmem, BashAccount.bytes,
      List.length_eq_zero_iff.mp (h.givenBack other hmem hfailed)]
    rfl
  have hstreams : run.store.books.liveTotal BashAccount.retained =
      run.store.books.total BashAccount.retained := BashBooks.liveTotal_eq h.givenBack
  have hregistry := h.registryBytes
  have hretained := h.retainedStreams
  cases reason with
  | commandBytes => exact hfull
  | registryBytes =>
    show run.store.limits.registryBytes < _
    rw [hbytes]
    have hfull : (run.store.books.limits.registryBytes : Int) < run.store.books.registryBytes + _ :=
      hfull
    rw [hregistry] at hfull
    exact_mod_cast hfull
  | retainedStreams =>
    refine ⟨(BashOutputStore.has_account _ _ _).symm.trans hfull.1, ?_⟩
    rw [hstreams]
    have hfull : (run.store.books.limits.retainedStreams : Int) ≤ run.store.books.retainedStreams :=
      hfull.2
    rw [hretained] at hfull
    exact_mod_cast hfull

theorem refusesFairly_append (h : run.store.books.Balanced)
    (hstep : run.step (.append ref stream text calls) = some next) :
    RefusesFairly run next ref stream text := by
  rw [step] at hstep
  split at hstep
  swap
  · cases hstep
  have hends := BashOutputStore.appendLocked_spec (I := fun _ => True) (F := fun _ _ => True)
    run.store.books ref stream text (fun bytes store _ => by split <;> trivial)
    (fun _ _ _ _ => trivial) (run.locked calls) ⟨rfl, trivial⟩
  cases hrun : Effect.run (BashOutputStore.appendLocked ref stream text) (run.locked calls) with
  | mk result store =>
    rw [hrun] at hends hstep
    cases result with
    | error e =>
      cases hstep
      have hlimit : (store.books.accounts ref).limit = (run.store.books.accounts ref).limit := by
        obtain ⟨-, hbooks⟩ | ⟨⟨count, hbooks⟩, -⟩ := hends
        · rw [hbooks]
        · rw [hbooks, BashBooks.take_self]
          rfl
      refine ⟨fun snapshot hnone hsome => ?_, fun storedBytes happends => ?_⟩
      · have hsome : (store.books.accounts ref).limit = some snapshot := hsome
        rw [hlimit] at hsome
        exact absurd (hnone.symm.trans hsome) (Option.some_ne_none _).symm
      · exact absurd (List.self_eq_append_right.mp happends) (List.cons_ne_nil _ _)
    | ok result =>
      cases hstep
      obtain ⟨⟨-, happended⟩, -⟩ := hends
      have hstored : ∀ {storedBytes : Nat}, run.appends ++ [⟨ref, stream, text, result.storedBytes⟩] =
          run.appends ++ [⟨ref, stream, text, storedBytes⟩] → storedBytes = result.storedBytes :=
        fun h => (BashOutputAppend.mk.inj (List.singleton_injective
          (List.append_cancel_left h))).2.2.2.symm
      have hafter : ∀ {books' : BashBooks}, store.books = books' →
          (store.records.read ref).limit = (books'.accounts ref).limit := by
        rintro _ rfl
        rfl
      have hno : ∀ {reason}, run.store.books.Full ref stream (encodeUtf8 text).length reason →
          run.LeavesNoRoom ref stream text reason := leavesNoRoom_of_full h
      generalize hbooks : store.books = books' at happended
      generalize result.storedBytes = count at happended hstored
      refine ⟨fun snapshot hnone hsome => ?_, fun storedBytes happends => ?_⟩
      · have hsome := (hafter hbooks).symm.trans hsome
        have hnone : (run.store.books.accounts ref).limit = none := hnone
        cases happended with
        | nothing => exact absurd (hnone.symm.trans hsome) (Option.some_ne_none _).symm
        | refused reason _ hfull =>
          rw [BashBooks.limited_self] at hsome
          cases hsome
          exact hno hfull
        | taken =>
          rw [BashBooks.take_self] at hsome
          exact absurd (hnone.symm.trans hsome) (Option.some_ne_none _).symm
        | truncated reason count _ _ _ _ hfull =>
          rw [BashBooks.limited_self] at hsome
          cases hsome
          exact hno hfull
      · rw [hstored happends]
        show _ ∨ (store.records.read ref).limit.isSome = true
        rw [hafter hbooks]
        cases happended with
        | nothing h => exact h.symm.imp_left Eq.symm
        | refused => exact .inr (by rw [BashBooks.limited_self]; rfl)
        | taken => exact .inl rfl
        | truncated => exact .inr (by rw [BashBooks.limited_self]; rfl)

/-- Room for one stream. -/
def oneStream : BashOutputStoreLimits where
  commandBytes := 8
  registryBytes := 8
  retainedStreams := 1
  segmentBytes := 1
  commandBytes_pos := by decide
  registryBytes_pos := by decide
  retainedStreams_pos := by decide
  segmentBytes_pos := by decide

/-- Two commands, of which the first gives back what it holds. -/
def abandonedThenSecond : List BashOutputEvent :=
  [.beginCommand, .append 0 .stdout (js "a") [], .abandon 0 [], .beginCommand,
    .append 1 .stdout (js "b") []]

/-- The first write of the first command fails. -/
def failedThenSecond : List BashOutputEvent :=
  [.beginCommand, .append 0 .stdout (js "a") [.failed []], .markFailed 0, .beginCommand,
    .append 1 .stdout (js "b") []]

end BashOutputRun

end Henji
