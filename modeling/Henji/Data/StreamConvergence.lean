import Henji.Data.WatchLaw

/-!
# A watching client converges

A client takes the snapshot of its watch and applies the deltas that are delivered to it.
`Follows` says where it stands in the middle of a write: it holds the entities that were published
last, and the changes pending at the session's cursor carry it to the current view.

Results:
1. `follows_move`: each move of a write keeps it, and a publication is applied without an error.
2. `watcher_converges`: after any writes the client agrees with the snapshot of the current view.
-/

namespace Henji

open ConversationWriter

variable {ε σ : Type}

/-! ## The client -/

/-- The deltas of a session that a listener receives, in order. -/
def deliveredDeltas (sessionId : SessionId) (listener : Listener)
    (publications : List Publication) : List ConversationDelta :=
  (publications.filter fun publication =>
    publication.delta.sessionId = sessionId ∧ listener ∈ publication.notified).map (·.delta)

/-- The next frame of a stream, with one delta. -/
def deltaFrame (cursor : CoreCursor) (delta : ConversationDelta) : SessionStreamFrame :=
  .update { cursor with revision := cursor.revision + 1 } cursor.revision [] (some delta)

/-- A client applies deltas in turn. -/
def feedDeltas (collation : Collation) (client : SessionClientState) :
    List ConversationDelta → Except StreamError SessionClientState
  | [] => .ok client
  | delta :: deltas =>
    match reduceSessionStreamFrame collation (some client)
      (deltaFrame client.snapshot.cursor delta) with
    | .error error => .error error
    | .ok client => feedDeltas collation client deltas

/-- A held conversation is the expected one, up to the cuts of locators. -/
structure SameConversation (held expected : ConversationSnapshot) : Prop where
  cut : held.cut = expected.cut
  entities : ∀ id, (held.entities.get? id).map Entity.sansCut =
    (expected.entities.get? id).map Entity.sansCut
  order : held.order = expected.order

/-- The snapshot that a writer would give of a session's current view. -/
def ConversationWriter.currentSnapshot (collation : Collation) (writer : ConversationWriter σ)
    (sessionId : SessionId) : Option ConversationSnapshot :=
  (writer.sessions.get? sessionId).bind fun cursor =>
    (writer.viewOf cursor).map (snapshot collation sessionId (writer.cursors.read cursor))

/-- A client agrees with the snapshot of the session's current view. -/
def Agrees (collation : Collation) (sessionId : SessionId) (writer : ConversationWriter σ)
    (client : SessionClientState) : Prop :=
  ∃ expected, writer.currentSnapshot collation sessionId = some expected ∧
    SameConversation client.snapshot.conversation expected

/-- A client stays in step with a run: each write delivers it one delta at most, the delta is
applied without an error, and then the client agrees with the snapshot of the current view. -/
def InStep (port : HistoryPort ε σ) (exactByteDigest : List UInt8 → String)
    (collation : Collation) (sessionId : SessionId) (listener : Listener)
    (writer : ConversationWriter σ) (client : SessionClientState) : List (WriterOp σ) → Prop
  | [] => Agrees collation sessionId writer client
  | op :: ops => Agrees collation sessionId writer client ∧
      ∃ published next, (writer.step port exactByteDigest collation op).publications =
          writer.publications ++ published ∧
        (deliveredDeltas sessionId listener published).length ≤ 1 ∧
        feedDeltas collation client (deliveredDeltas sessionId listener published) = .ok next ∧
        InStep port exactByteDigest collation sessionId listener
          (writer.step port exactByteDigest collation op) next ops

/-! ## Where a client stands -/

def SessionClientState.keyed (client : SessionClientState) : KeyedConversation :=
  ⟨client.snapshot.conversation.entities, client.snapshot.conversation.order⟩

/-- A client of a watched session, with the changes pending at the session's cursor. -/
structure Follows (collation : Collation) (sessionId : SessionId) (listener : Listener)
    (cursor : CursorRef) (client : SessionClientState) (progress : Progress σ) : Prop where
  invariant : progress.writer.Invariant
  held : progress.writer.sessions.get? sessionId = some cursor
  session : client.snapshot.session.id = sessionId
  cut : client.snapshot.conversation.cut = (progress.writer.cursors.read cursor).cut
  view : ∃ view published, progress.writer.viewOf cursor = some view ∧
    listener ∈ view.listeners ∧ Mirrors collation client.keyed published ∧
    Carries collation (progress.pending cursor) published view.state.entities.get? ∧
    Stable (fun _ => none) (progress.pending cursor) ∧
    TracksState ((progress.pending cursor).foldl trackPosition fun _ => none) view.state

namespace StreamLemmas

open WriterLemmas

variable {writer before after : ConversationWriter σ} {sessionId : SessionId}
variable {cursor : CursorRef} {listener : Listener} {client : SessionClientState}
variable {collation : Collation} {stale : Prop}

theorem feedDeltas_append {fed : SessionClientState} {first : List ConversationDelta}
    (h : feedDeltas collation client first = .ok fed) (second : List ConversationDelta) :
    feedDeltas collation client (first ++ second) = feedDeltas collation fed second := by
  induction first generalizing client with
  | nil =>
    cases h
    rfl
  | cons delta first ih =>
    simp only [feedDeltas, List.cons_append] at h ⊢
    split at h
    · cases h
    · exact ih h

theorem deliveredDeltas_append (first second : List Publication) :
    deliveredDeltas sessionId listener (first ++ second) =
      deliveredDeltas sessionId listener first ++ deliveredDeltas sessionId listener second := by
  simp [deliveredDeltas, List.filter_append]

theorem deliveredDeltas_singleton (publication : Publication) :
    deliveredDeltas sessionId listener [publication] =
      if publication.delta.sessionId = sessionId ∧ listener ∈ publication.notified then
        [publication.delta] else [] := by
  unfold deliveredDeltas
  rw [List.filter_singleton]
  split
  · next h =>
    rw [decide_eq_true h]
    rfl
  · next h =>
    rw [decide_eq_false h]
    rfl

/-- A delta at the next cut, with changes that carry the client, is applied. -/
theorem applyDelta_ok {published target : EntityId → Option Entity} {delta : ConversationDelta}
    (hsession : delta.sessionId = client.snapshot.session.id)
    (hcut : delta.cut = client.snapshot.conversation.cut + 1)
    (hkeyed : Mirrors collation client.keyed published)
    (hcarries : Carries collation delta.changes published target) :
    ∃ next, reduceSessionStreamFrame collation (some client)
        (deltaFrame client.snapshot.cursor delta) = .ok next ∧
      next.snapshot.session.id = client.snapshot.session.id ∧
      next.snapshot.conversation.cut = delta.cut ∧ Mirrors collation next.keyed target := by
  obtain ⟨keyed, happly, hmirrors⟩ := hcarries client.keyed hkeyed
  unfold SessionClientState.keyed at happly
  have hguard : ¬ (delta.sessionId ≠ client.snapshot.session.id ∨
      delta.cut ≠ client.snapshot.conversation.cut + 1) := by
    rintro (hne | hne)
    · exact hne hsession
    · exact hne hcut
  simp only [deltaFrame, reduceSessionStreamFrame]
  rw [if_neg (by simp), if_neg (by simp), if_neg (by simp)]
  simp only [List.foldl_nil, applyConversationDelta, if_neg hguard, happly]
  exact ⟨_, rfl, rfl, rfl, hmirrors⟩

/-! ## Moves -/

/-- The views of other cursors do not see a live change. -/
theorem viewOf_writeLive (h : writer.Invariant) {view : ViewRef}
    (hview : (writer.cursors.read cursor).view = some view) (state : ConversationState)
    (normalizer : ConversationNormalizer) (other : CursorRef) :
    (writer.writeLive view state normalizer).viewOf other =
      if other = cursor then some { writer.views.read view with state, normalizer }
      else writer.viewOf other := by
  split
  · next heq =>
    subst heq
    show (writer.cursors.read other).view.map _ = _
    rw [hview, Option.map_some, writeLive]
    simp only [Heap.read_modify_self]
  · next hne =>
    unfold viewOf writeLive
    cases hother : (writer.cursors.read other).view with
    | none => rfl
    | some ref =>
      have hdiff : ref ≠ view := by
        rintro rfl
        exact hne (h.viewOwner _ _ _ hother hview)
      simp only [Option.map_some, Heap.read_modify_ne _ _ hdiff]

theorem cut_published (sessionId : SessionId) (cursor other : CursorRef)
    (changes : List ConversationChange) :
    ((writer.published sessionId cursor changes).cursors.read other).cut =
      if other = cursor then (writer.cursors.read cursor).cut + 1
      else (writer.cursors.read other).cut := by
  unfold published
  simp only [Heap.read_modify]
  split <;> rfl

/-- A publication elsewhere does not reach the listener of this session. -/
theorem delivered_elsewhere (h : writer.Invariant)
    (hheld : writer.sessions.get? sessionId = some cursor) {other : SessionId}
    {elsewhere : CursorRef} (hcursor : writer.CursorFor other elsewhere) (hne : elsewhere ≠ cursor)
    (changes : List ConversationChange) :
    deliveredDeltas sessionId listener [⟨writer.deltaAt other elsewhere changes,
      (writer.viewOf elsewhere).elim [] (·.listeners)⟩] = [] := by
  have hnot : ¬ (other = sessionId ∧
      listener ∈ ((writer.viewOf elsewhere).elim [] (·.listeners) : List Listener)) := by
    rintro ⟨rfl, hmem⟩
    -- the cursor belonged to this session, which holds another one now
    have hdetached : ∀ held, writer.sessions.get? held ≠ some elsewhere := by
      intro held hget
      obtain rfl := hcursor.owner held hget
      exact hne (Option.some.inj (hget.symm.trans hheld))
    unfold viewOf at hmem
    cases hview : (writer.cursors.read elsewhere).view with
    | none =>
      rw [hview] at hmem
      cases hmem
    | some view =>
      rw [hview, Option.map_some, Option.elim_some, h.detached _ _ hdetached hview] at hmem
      cases hmem
  rw [deliveredDeltas_singleton, if_neg]
  exact hnot

/-- What a move delivers from a cursor: nothing, or the one delta of the write. -/
def Delivery (cursor : CursorRef) (first second : Progress σ) (deltas : List ConversationDelta) :
    Prop :=
  (deltas = [] ∧ (cursor ∈ second.done ↔ cursor ∈ first.done)) ∨
    ∃ delta, deltas = [delta] ∧ cursor ∉ first.done ∧ cursor ∈ second.done

/-- What a move publishes is applied without an error, and the client follows on. -/
theorem follows_move {first second : Progress σ}
    (h : Follows collation sessionId listener cursor client first)
    (hmove : WriteMove stale first second) :
    ∃ published next, second.writer.publications = first.writer.publications ++ published ∧
      feedDeltas collation client (deliveredDeltas sessionId listener published) = .ok next ∧
      Follows collation sessionId listener cursor next second ∧
      Delivery cursor first second (deliveredDeltas sessionId listener published) := by
  obtain ⟨hinv, hheld, hsession, hcut, view, shown, hview, hlistens, hmirrors, hcarries, hstable,
    htracks⟩ := h
  cases hmove with
  | quiet pending done hquiet =>
    have hbound := hinv.cursorBound _ _ hheld
    refine ⟨[], client, by rw [hquiet.publications, List.append_nil], rfl, ⟨hquiet.invariant',
      hquiet.sessions _ _ hheld, hsession, hcut.trans (hquiet.cut _ hbound).symm, view, shown, ?_,
      hlistens, hmirrors, hcarries, hstable, htracks⟩, .inl ⟨rfl, Iff.rfl⟩⟩
    rw [viewOf_quiet hquiet hbound, hview]
  | @refresh writer _ other old loaded pending done _ hcursor hold hloaded hnone _ =>
    have hinv' := invariant_loaded hinv hcursor hloaded
    rw [hold] at hinv'
    refine ⟨[], client, (List.append_nil _).symm, rfl, ⟨hinv', hheld, hsession,
      hcut.trans (cut_attachView _ _ _).symm, ?_⟩, .inl ⟨rfl, Iff.rfl⟩⟩
    rcases eq_or_ne cursor other with rfl | hne
    · obtain rfl := Option.some.inj (hview.symm.trans hold)
      obtain ⟨keyed, happly, hshown⟩ := hcarries _ hmirrors
      replace happly : applyConversationChanges collation client.keyed (pending cursor) = .ok keyed :=
        happly
      rw [hnone] at happly
      cases happly
      have hkeyed : KeyedState view.state := by
        unfold viewOf at hview
        obtain ⟨ref, _, rfl⟩ := Option.map_eq_some_iff.mp hview
        exact (hinv.keyed ref).1
      have hchanges := ChangeLemmas.stateChanges_stable view.state hloaded.keyed.1
      refine ⟨{ loaded with listeners := view.listeners }, _,
        by rw [viewOf_attachView hinv, if_pos rfl], hlistens, hshown, ?_⟩
      simp only [Function.update_self]
      exact ⟨ChangeLemmas.stateChanges_carries hkeyed hloaded.keyed.1, hchanges⟩
    · refine ⟨view, shown, ?_, hlistens, hmirrors, ?_⟩
      · rw [viewOf_attachView hinv, if_neg hne, hview]
      · simp only [Function.update_of_ne hne]
        exact ⟨hcarries, hstable, htracks⟩
  | @live writer _ other ref pending done changes state normalizer observations _ hget hother happly
    _ =>
    refine ⟨[], client, (List.append_nil _).symm, rfl, ⟨invariant_live hinv happly, hheld,
      hsession, hcut, ?_⟩, .inl ⟨rfl, Iff.rfl⟩⟩
    rcases eq_or_ne cursor other with rfl | hne
    · have hread : view = writer.views.read ref := by
        unfold viewOf at hview
        rw [hother, Option.map_some] at hview
        exact (Option.some.inj hview).symm
      subst hread
      obtain ⟨hkeyed, htools⟩ := hinv.keyed ref
      have hlive := ChangeLemmas.applyObservations_carries collation hkeyed htools
        htracks observations
      rw [happly] at hlive
      refine ⟨{ writer.views.read ref with state, normalizer }, shown,
        by rw [viewOf_writeLive hinv hother, if_pos rfl], hlistens, hmirrors, ?_⟩
      simp only [Function.update_self]
      refine ⟨ChangeLemmas.carries_append hcarries hlive.1,
        ChangeLemmas.stable_append.mpr ⟨hstable, hlive.2.1⟩, ?_⟩
      rw [List.foldl_append]
      exact hlive.2.2
    · refine ⟨view, shown, ?_, hlistens, hmirrors, ?_⟩
      · rw [viewOf_writeLive hinv hother, if_neg hne, hview]
      · simp only [Function.update_of_ne hne]
        exact ⟨hcarries, hstable, htracks⟩
  | @publish writer owner other pending done _ hcursor _ hdone =>
    rcases eq_or_ne other cursor with rfl | hne
    · obtain rfl := hcursor.owner _ hheld
      have hdelivered : deliveredDeltas sessionId listener
          [⟨writer.deltaAt sessionId other (pending other),
            (writer.viewOf other).elim [] (·.listeners)⟩] =
            [writer.deltaAt sessionId other (pending other)] := by
        have hmem : listener ∈ ((writer.viewOf other).elim [] (·.listeners) : List Listener) := by
          rw [hview]
          exact hlistens
        rw [deliveredDeltas_singleton, if_pos ⟨rfl, hmem⟩]
      have hnext : (writer.deltaAt sessionId other (pending other)).cut =
          client.snapshot.conversation.cut + 1 := congrArg (· + 1) hcut.symm
      obtain ⟨next, happly, hsession', hcut', hmirrors'⟩ := applyDelta_ok hsession.symm hnext hmirrors
        (ChangeLemmas.carries_coalesce hstable hcarries)
      refine ⟨_, next, rfl, ?_, ⟨invariant_published hinv _ _ _, hheld, hsession'.trans hsession, ?_,
        view, view.state.entities.get?, ?_, hlistens, hmirrors', ?_⟩,
        .inr ⟨_, hdelivered, hdone, List.mem_cons_self⟩⟩
      · rw [hdelivered, feedDeltas, happly]
        rfl
      · rw [cut_published, if_pos rfl]
        exact hcut'
      · rw [viewOf_published, hview]
      · simp only [Function.update_self]
        exact ⟨ChangeLemmas.carries_nil, trivial, ChangeLemmas.tracks_none _⟩
    · refine ⟨_, client, rfl, ?_, ⟨invariant_published hinv _ _ _, hheld, hsession, ?_, view, shown,
        ?_, hlistens, hmirrors, ?_⟩, .inl ⟨delivered_elsewhere hinv hheld hcursor hne _, ?_⟩⟩
      · rw [delivered_elsewhere hinv hheld hcursor hne]
        rfl
      · rw [cut_published, if_neg hne.symm]
        exact hcut
      · rw [viewOf_published, hview]
      · simp only [Function.update_of_ne hne.symm]
        exact ⟨hcarries, hstable, htracks⟩
      · exact ⟨fun hmem => (List.mem_cons.mp hmem).resolve_left hne.symm, List.mem_cons_of_mem _⟩

/-! ## Runs -/

/-- A client follows a write, which delivers it one delta at most. -/
theorem follows_write (hwrite : Write stale writer after)
    (h : Follows collation sessionId listener cursor client (.idle writer)) :
    ∃ published next, after.publications = writer.publications ++ published ∧
      feedDeltas collation client (deliveredDeltas sessionId listener published) = .ok next ∧
      Follows collation sessionId listener cursor next (.idle after) ∧
      (deliveredDeltas sessionId listener published).length ≤ 1 := by
  have hmoves : ∀ {second : Progress σ}, Writes stale (.idle writer) second →
      ∃ published next, second.writer.publications = writer.publications ++ published ∧
        feedDeltas collation client (deliveredDeltas sessionId listener published) = .ok next ∧
        Follows collation sessionId listener cursor next second ∧
        Delivery cursor (.idle writer) second (deliveredDeltas sessionId listener published) := by
    intro second hwrites
    induction hwrites with
    | refl => exact ⟨[], client, (List.append_nil _).symm, rfl, h, .inl ⟨rfl, Iff.rfl⟩⟩
    | tail _ hmove ih =>
      obtain ⟨published, middle, hpublished, hfed, hmiddle, hdelivery⟩ := ih
      obtain ⟨published', next, hpublished', hfed', hnext, hdelivery'⟩ := follows_move hmiddle hmove
      refine ⟨published ++ published', next, ?_, ?_, hnext, ?_⟩
      · rw [hpublished', hpublished, List.append_assoc]
      · rw [deliveredDeltas_append, feedDeltas_append hfed, hfed']
      · rw [deliveredDeltas_append]
        rcases hdelivery with ⟨hnone, hdone⟩ | ⟨delta, hone, hbefore, hdone⟩ <;>
          rcases hdelivery' with ⟨hnone', hdone'⟩ | ⟨delta', hone', hbefore', hdone'⟩
        · exact .inl ⟨by rw [hnone, hnone']; rfl, hdone'.trans hdone⟩
        · exact .inr ⟨delta', by rw [hnone, hone']; rfl, fun hmem => absurd hmem List.not_mem_nil,
            hdone'⟩
        · exact .inr ⟨delta, by rw [hone, hnone']; rfl, hbefore, hdone'.mpr hdone⟩
        · exact absurd hdone hbefore'
  obtain ⟨done, hwrites⟩ := hwrite
  obtain ⟨published, next, hpublished, hfed, hnext, hdelivery⟩ := hmoves hwrites
  obtain ⟨hinv, hheld, hsession, hcut, hview⟩ := hnext
  refine ⟨published, next, hpublished, hfed, ⟨hinv, hheld, hsession, hcut, hview⟩, ?_⟩
  rcases hdelivery with ⟨hnone, _⟩ | ⟨delta, hone, _⟩
  · rw [hnone]
    exact Nat.zero_le _
  · rw [hone]
    exact Nat.le_refl _

section Port

variable (port : HistoryPort ε σ) (exactByteDigest : List UInt8 → String)

/-- The client of a watch starts in step. -/
theorem follows_watch (h : writer.Invariant) {snapshot : ConversationSnapshot} {index : Nat}
    {after : ConversationWriter σ}
    (hwatch : (watchSession port exactByteDigest collation sessionId listener).run writer =
      (.ok (snapshot, index), after))
    (hclient : client.snapshot.conversation = snapshot)
    (hsession : client.snapshot.session.id = sessionId) :
    ∃ cursor, Follows collation sessionId listener cursor client (.idle after) := by
  rcases WatchLemmas.watchSession_run port exactByteDigest collation h sessionId listener with
    ⟨error, _, hrun, _⟩ | ⟨viewed, cursor, view, hrun, hsteady, hget, hview⟩
  · rw [hrun] at hwatch
    cases hwatch
  · rw [hrun] at hwatch
    cases hwatch
    have hinv := hsteady.invariant'
    have hkeyed := (hinv.keyed view).1
    refine ⟨cursor, WatchLemmas.invariant_watchedAt hinv hget hview listener, hget, hsession,
      by rw [hclient]; rfl, { viewed.views.read view with
        listeners := WatchLemmas.addListener listener (viewed.views.read view).listeners },
      (viewed.views.read view).state.entities.get?, ?_, ?_, ?_,
      ChangeLemmas.carries_nil, trivial, ChangeLemmas.tracks_none _⟩
    · show (viewed.cursors.read cursor).view.map _ = _
      rw [hview, Option.map_some]
      simp only [Progress.idle, WatchLemmas.watchedAt, setListeners, Heap.read_modify_self]
    · show listener ∈ _ ++ _
      split
      · next hmem => exact List.mem_append_left _ hmem
      · exact List.mem_append_right _ List.mem_cons_self
    · unfold SessionClientState.keyed
      rw [hclient]
      exact ChangeLemmas.snapshot_mirrors hkeyed

/-- Between writes a client that follows agrees with the snapshot of the current view. -/
theorem agrees_of_follows (h : Follows collation sessionId listener cursor client (.idle writer)) :
    Agrees collation sessionId writer client := by
  obtain ⟨hinv, hheld, _, hcut, view, shown, hview, _, hmirrors, hcarries, _⟩ := h
  obtain ⟨keyed, happly, hshown⟩ := hcarries _ hmirrors
  cases happly
  have hkeyed : KeyedState view.state := by
    unfold viewOf at hview
    obtain ⟨ref, _, rfl⟩ := Option.map_eq_some_iff.mp hview
    exact (hinv.keyed ref).1
  refine ⟨snapshot collation sessionId (writer.cursors.read cursor) view, ?_, hcut, hshown.same,
    ChangeLemmas.snapshotOrder_of_mirrors hkeyed hshown⟩
  show (writer.sessions.get? sessionId).bind _ = _
  rw [show writer.sessions.get? sessionId = some cursor from hheld, Option.bind_some]
  exact congrArg (Option.map _) hview

/-- A client that follows stays in step with all further writes. -/
theorem inStep_of_follows (h : Follows collation sessionId listener cursor client (.idle writer))
    {ops : List (WriterOp σ)} (hops : ∀ op ∈ ops, op.isWrite = true) :
    InStep port exactByteDigest collation sessionId listener writer client ops := by
  induction ops generalizing writer client with
  | nil => exact agrees_of_follows h
  | cons op ops ih =>
    have hwrite : Write True writer (writer.step port exactByteDigest collation op) :=
      writes_perform port exactByteDigest collation h.invariant (hops op List.mem_cons_self)
        (.inl trivial)
    obtain ⟨published, next, hpublished, hfed, hnext, hone⟩ := follows_write hwrite h
    exact ⟨agrees_of_follows h, published, next, hpublished, hone, hfed,
      ih hnext fun other hother => hops other (List.mem_cons_of_mem _ hother)⟩

end Port

end StreamLemmas

/-- From any reachable writer, a client that starts at the snapshot of its watch stays in step with
all later writes. -/
theorem watcher_converges (port : HistoryPort ε σ) (exactByteDigest : List UInt8 → String)
    (collation : Collation) (store : σ) (before after : List (WriterOp σ))
    {sessionId : SessionId} {listener : Listener} {snapshot : ConversationSnapshot} {index : Nat}
    {watched : ConversationWriter σ}
    (hwatch : (watchSession port exactByteDigest collation sessionId listener).run
      ((createConversationWriter store).steps port exactByteDigest collation before) =
        (.ok (snapshot, index), watched))
    (hwrites : ∀ op ∈ after, op.isWrite = true) {client : SessionClientState}
    (hclient : client.snapshot.conversation = snapshot)
    (hsession : client.snapshot.session.id = sessionId) :
    InStep port exactByteDigest collation sessionId listener watched client after := by
  have hinv := WatchLemmas.invariant_steps port exactByteDigest collation
    (WriterLemmas.invariant_createConversationWriter store) before
  obtain ⟨cursor, hfollows⟩ :=
    StreamLemmas.follows_watch port exactByteDigest hinv hwatch hclient hsession
  exact StreamLemmas.inStep_of_follows port exactByteDigest hfollows hwrites

/-- A client whose stream starts at a snapshot. -/
def clientOf (snapshot : ConversationSnapshot) : SessionClientState :=
  initialSessionClientState {
    cursor := ⟨"epoch", snapshot.sessionId, 0⟩
    session := ⟨snapshot.sessionId, .null⟩
    runtime := .null
    conversation := snapshot
    pending := .null
    credentialAvailability := .null
    context := .null }

theorem acceptingStore_inStep : ∃ snapshot index watched,
    (watchSession acceptingStore (fun _ => "") plainCollation "session" 7).run
      (createConversationWriter ()) = (.ok (snapshot, index), watched) ∧
    InStep acceptingStore (fun _ => "") plainCollation "session" 7 watched (clientOf snapshot)
      [reconcile "first", reconcile "second"] := by
  refine ⟨_, _, _, rfl, ?_⟩
  exact watcher_converges acceptingStore (fun _ => "") plainCollation () [] _ rfl
    (by decide) rfl rfl

end Henji
