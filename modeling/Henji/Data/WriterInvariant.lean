import Henji.Data.ConversationWriter
import Henji.Data.PublishedChanges

/-!
# The invariant of the writer's objects

Cursors and views are shared by the session map, the suspended admissions and the unsubscribe
closures. `HeapInvariant` says how: a session has its own cursor, a view belongs to one cursor, and
the view of a cursor that no session holds any more has no listeners. `listenersOf writer sessionId`
are the listeners that a publication at the session's cursor notifies.

Results: one lemma for each way an operation touches the objects (`invariant_newCursor`,
`invariant_attachView`, `invariant_writeView`, `invariant_setListeners`, `invariant_dropView`,
`invariant_eraseSession`), with what it does to the listeners.
-/

namespace Henji

/-- How cursors, views, sessions, admissions and subscriptions hang together. -/
structure HeapInvariant (cursors : Heap SessionSaveCursor) (views : Heap SessionConversation)
    (sessions : InsMap SessionId CursorRef) (admissions : InsMap Nat Admission)
    (subscriptions : List Subscription) : Prop where
  cursorBound : ∀ sessionId cursor, sessions.get? sessionId = some cursor → cursor < cursors.next
  cursorOwner : ∀ sessionId other cursor, sessions.get? sessionId = some cursor →
    sessions.get? other = some cursor → sessionId = other
  freshCursor : ∀ cursor, cursors.next ≤ cursor → (cursors.read cursor).view = none
  viewBound : ∀ cursor view, (cursors.read cursor).view = some view → view < views.next
  viewOwner : ∀ cursor other view, (cursors.read cursor).view = some view →
    (cursors.read other).view = some view → cursor = other
  viewSession : ∀ sessionId cursor view, sessions.get? sessionId = some cursor →
    (cursors.read cursor).view = some view → (views.read view).state.sessionId = sessionId
  detached : ∀ cursor view, (∀ sessionId, sessions.get? sessionId ≠ some cursor) →
    (cursors.read cursor).view = some view → (views.read view).listeners = []
  listenersNodup : ∀ view, (views.read view).listeners.Nodup
  keyed : ∀ view, KeyedState (views.read view).state ∧ ToolIds (views.read view).normalizer
  admissionBound : ∀ ticket admission, admissions.get? ticket = some admission →
    admission.cursor < cursors.next
  admissionSession : ∀ ticket admission, admissions.get? ticket = some admission →
    ∀ sessionId, sessions.get? sessionId = some admission.cursor →
      sessionId = admission.input.sessionCorrelation
  subscriptionBound : ∀ subscription ∈ subscriptions,
    subscription.cursor < cursors.next ∧ subscription.view < views.next
  subscriptionSession : ∀ subscription ∈ subscriptions, ∀ sessionId,
    sessions.get? sessionId = some subscription.cursor → sessionId = subscription.sessionId
  subscriptionView : ∀ subscription ∈ subscriptions, ∀ cursor,
    (cursors.read cursor).view = some subscription.view → cursor = subscription.cursor

namespace ConversationWriter

variable {σ : Type}

def Invariant (writer : ConversationWriter σ) : Prop :=
  HeapInvariant writer.cursors writer.views writer.sessions writer.admissions writer.subscriptions

/-- The view that a cursor holds. -/
def viewOf (writer : ConversationWriter σ) (cursor : CursorRef) : Option SessionConversation :=
  (writer.cursors.read cursor).view.map writer.views.read

/-- The listeners of the view that a session's cursor holds. -/
def listenersOf (writer : ConversationWriter σ) (sessionId : SessionId) : List Listener :=
  ((writer.sessions.get? sessionId).bind writer.viewOf).elim [] (·.listeners)

end ConversationWriter

namespace WriterLemmas

open ConversationWriter

section Listeners

variable {σ : Type} {writer after : ConversationWriter σ} {sessionId : SessionId}

theorem listenersOf_none (h : writer.sessions.get? sessionId = none) :
    writer.listenersOf sessionId = [] := by
  rw [listenersOf, h]
  rfl

theorem listenersOf_some {cursor : CursorRef} (h : writer.sessions.get? sessionId = some cursor) :
    writer.listenersOf sessionId = (writer.viewOf cursor).elim [] (·.listeners) := by
  rw [listenersOf, h]
  rfl

/-- The listeners of a session are read through its cursor and view only. -/
theorem listenersOf_congr (hsession : after.sessions.get? sessionId = writer.sessions.get? sessionId)
    (hview : ∀ cursor, writer.sessions.get? sessionId = some cursor →
      ((after.viewOf cursor).elim [] (·.listeners) : List Listener) =
        (writer.viewOf cursor).elim [] (·.listeners)) :
    after.listenersOf sessionId = writer.listenersOf sessionId := by
  cases hget : writer.sessions.get? sessionId with
  | none => rw [listenersOf_none hget, listenersOf_none (hsession.trans hget)]
  | some cursor =>
    rw [listenersOf_some hget, listenersOf_some (hsession.trans hget), hview cursor hget]

end Listeners

variable {cursors : Heap SessionSaveCursor} {views : Heap SessionConversation}
variable {sessions : InsMap SessionId CursorRef} {admissions : InsMap Nat Admission}
variable {subscriptions : List Subscription}

theorem invariant_createConversationWriter {σ : Type} (store : σ) :
    (createConversationWriter store).Invariant where
  cursorBound _ _ h := by simp [createConversationWriter] at h
  cursorOwner _ _ _ h := by simp [createConversationWriter] at h
  freshCursor _ _ := rfl
  viewBound _ _ h := by simp [createConversationWriter] at h
  viewOwner _ _ _ h := by simp [createConversationWriter] at h
  viewSession _ _ _ h := by simp [createConversationWriter] at h
  detached _ _ _ h := by simp [createConversationWriter] at h
  listenersNodup _ := List.nodup_nil
  keyed _ := ⟨KeyedStateLemmas.keyed_createConversationState _,
    KeyedStateLemmas.toolIds_createConversationNormalizer⟩
  admissionBound _ _ h := by simp [createConversationWriter] at h
  admissionSession _ _ h := by simp [createConversationWriter] at h
  subscriptionBound _ h := by simp [createConversationWriter] at h
  subscriptionSession _ h := by simp [createConversationWriter] at h
  subscriptionView _ h := by simp [createConversationWriter] at h

/-! ## Cursors -/

/-- Writing the cut or the revision of a cursor. -/
theorem invariant_cursorFields (h : HeapInvariant cursors views sessions admissions subscriptions)
    (ref : CursorRef) (f : SessionSaveCursor → SessionSaveCursor)
    (hf : ∀ cursor, (f cursor).view = cursor.view) :
    HeapInvariant (cursors.modify ref f) views sessions admissions subscriptions := by
  have hview : ∀ cursor, ((cursors.modify ref f).read cursor).view = (cursors.read cursor).view := by
    intro cursor
    rw [Heap.read_modify]
    split
    · next heq => rw [hf, heq]
    · rfl
  obtain ⟨h₁, h₂, h₃, h₄, h₅, h₆, h₇, h₈, h₉, h₁₀, h₁₁, h₁₂, h₁₃, h₁₄⟩ := h
  refine ⟨h₁, h₂, ?_, ?_, ?_, ?_, ?_, h₈, h₉, h₁₀, h₁₁, h₁₂, h₁₃, ?_⟩ <;> simp only [hview]
  · exact h₃
  · exact h₄
  · exact h₅
  · exact h₆
  · exact h₇
  · exact h₁₄

/-- A new cursor for a session that has none. -/
theorem invariant_newCursor (h : HeapInvariant cursors views sessions admissions subscriptions)
    {sessionId : SessionId} (hnone : sessions.get? sessionId = none) :
    HeapInvariant (cursors.alloc ⟨0, 0, none⟩).2 views
      (sessions.set sessionId (cursors.alloc ⟨0, 0, none⟩).1) admissions subscriptions := by
  have hview : ∀ cursor, ((cursors.alloc ⟨0, 0, none⟩).2.read cursor).view =
      (cursors.read cursor).view := by
    intro cursor
    rw [Heap.read_alloc]
    split
    · next heq => rw [heq, h.freshCursor _ (Nat.le_refl _)]
    · rfl
  have hget : ∀ other cursor, (sessions.set sessionId cursors.next).get? other = some cursor →
      (other = sessionId ∧ cursor = cursors.next) ∨
        (other ≠ sessionId ∧ sessions.get? other = some cursor ∧ cursor < cursors.next) := by
    intro other cursor hother
    rw [InsMap.get?_set] at hother
    split at hother
    · next heq => exact .inl ⟨heq, (Option.some.inj hother).symm⟩
    · next hne => exact .inr ⟨hne, hother, h.cursorBound _ _ hother⟩
  obtain ⟨h₁, h₂, h₃, h₄, h₅, h₆, h₇, h₈, h₉, h₁₀, h₁₁, h₁₂, h₁₃, h₁₄⟩ := h
  refine ⟨?_, ?_, ?_, ?_, ?_, ?_, ?_, h₈, h₉, ?_, ?_, ?_, ?_, ?_⟩ <;>
    simp only [hview, Heap.alloc_fst, Heap.next_alloc]
  · intro other cursor hother
    rcases hget other cursor hother with ⟨_, rfl⟩ | ⟨_, _, hlt⟩
    · exact Nat.lt_succ_self _
    · exact Nat.lt_succ_of_lt hlt
  · intro first second cursor hfirst hsecond
    rcases hget _ _ hfirst with ⟨rfl, rfl⟩ | ⟨_, hfirst, hlt⟩
    · rcases hget _ _ hsecond with ⟨rfl, _⟩ | ⟨_, _, hlt⟩
      · rfl
      · exact absurd hlt (Nat.lt_irrefl _)
    · rcases hget _ _ hsecond with ⟨rfl, rfl⟩ | ⟨_, hsecond, _⟩
      · exact absurd hlt (Nat.lt_irrefl _)
      · exact h₂ _ _ _ hfirst hsecond
  · exact fun cursor hle => h₃ cursor (Nat.le_of_succ_le hle)
  · exact h₄
  · exact h₅
  · intro other cursor view hother hcursor
    rcases hget _ _ hother with ⟨_, rfl⟩ | ⟨_, hother, _⟩
    · rw [h₃ _ (Nat.le_refl _)] at hcursor
      cases hcursor
    · exact h₆ _ _ _ hother hcursor
  · intro cursor view hnot hcursor
    refine h₇ cursor view (fun other hother => ?_) hcursor
    refine hnot other ?_
    rw [InsMap.get?_set_ne, hother]
    rintro rfl
    rw [hnone] at hother
    cases hother
  · exact fun ticket admission hget => Nat.lt_succ_of_lt (h₁₀ ticket admission hget)
  · intro ticket admission hticket other hother
    rcases hget _ _ hother with ⟨_, heq⟩ | ⟨_, hother, _⟩
    · exact absurd (h₁₀ ticket admission hticket) (by rw [heq]; exact Nat.lt_irrefl _)
    · exact h₁₁ ticket admission hticket other hother
  · exact fun subscription hmem => ⟨Nat.lt_succ_of_lt (h₁₂ subscription hmem).1,
      (h₁₂ subscription hmem).2⟩
  · intro subscription hmem other hother
    rcases hget _ _ hother with ⟨_, heq⟩ | ⟨_, hother, _⟩
    · exact absurd (h₁₂ subscription hmem).1 (by rw [heq]; exact Nat.lt_irrefl _)
    · exact h₁₃ subscription hmem other hother
  · exact h₁₄

/-! ## Views -/

/-- A new view for a cursor. The view of a detached cursor has no listeners. -/
theorem invariant_attachView (h : HeapInvariant cursors views sessions admissions subscriptions)
    {ref : CursorRef} (href : ref < cursors.next) {loaded : SessionConversation}
    (hsession : ∀ sessionId, sessions.get? sessionId = some ref →
      loaded.state.sessionId = sessionId)
    (hdetached : (∀ sessionId, sessions.get? sessionId ≠ some ref) → loaded.listeners = [])
    (hnodup : loaded.listeners.Nodup)
    (hkeyed : KeyedState loaded.state ∧ ToolIds loaded.normalizer) :
    HeapInvariant (cursors.modify ref fun cursor => { cursor with view := some views.next })
      (views.alloc loaded).2 sessions admissions subscriptions := by
  have hview : ∀ cursor view, ((cursors.modify ref fun cursor =>
      { cursor with view := some views.next }).read cursor).view = some view →
      (cursor = ref ∧ view = views.next) ∨
        (cursor ≠ ref ∧ (cursors.read cursor).view = some view ∧ view < views.next) := by
    intro cursor view hcursor
    rw [Heap.read_modify] at hcursor
    split at hcursor
    · next heq => exact .inl ⟨heq, (Option.some.inj hcursor).symm⟩
    · next hne => exact .inr ⟨hne, hcursor, h.viewBound _ _ hcursor⟩
  obtain ⟨h₁, h₂, h₃, h₄, h₅, h₆, h₇, h₈, h₉, h₁₀, h₁₁, h₁₂, h₁₃, h₁₄⟩ := h
  refine ⟨h₁, h₂, ?_, ?_, ?_, ?_, ?_, ?_, ?_, h₁₀, h₁₁, ?_, h₁₃, ?_⟩
  · intro cursor hle
    rw [Heap.read_modify_ne _ _ (Nat.ne_of_gt (Nat.lt_of_lt_of_le href hle))]
    exact h₃ cursor hle
  · intro cursor view hcursor
    rw [Heap.next_alloc]
    rcases hview _ _ hcursor with ⟨_, rfl⟩ | ⟨_, _, hlt⟩
    · exact Nat.lt_succ_self _
    · exact Nat.lt_succ_of_lt hlt
  · intro cursor other view hcursor hother
    rcases hview _ _ hcursor with ⟨rfl, rfl⟩ | ⟨_, hcursor, hlt⟩
    · rcases hview _ _ hother with ⟨rfl, _⟩ | ⟨_, _, hlt⟩
      · rfl
      · exact absurd hlt (Nat.lt_irrefl _)
    · rcases hview _ _ hother with ⟨_, rfl⟩ | ⟨_, hother, _⟩
      · exact absurd hlt (Nat.lt_irrefl _)
      · exact h₅ _ _ _ hcursor hother
  · intro sessionId cursor view hget hcursor
    rcases hview _ _ hcursor with ⟨rfl, rfl⟩ | ⟨_, hcursor, hlt⟩
    · rw [Heap.read_alloc, if_pos rfl]
      exact hsession sessionId hget
    · rw [Heap.read_alloc_lt _ _ hlt]
      exact h₆ _ _ _ hget hcursor
  · intro cursor view hnot hcursor
    rcases hview _ _ hcursor with ⟨rfl, rfl⟩ | ⟨_, hcursor, hlt⟩
    · rw [Heap.read_alloc, if_pos rfl]
      exact hdetached hnot
    · rw [Heap.read_alloc_lt _ _ hlt]
      exact h₇ _ _ hnot hcursor
  · intro view
    rw [Heap.read_alloc]
    split
    · exact hnodup
    · exact h₈ view
  · intro view
    rw [Heap.read_alloc]
    split
    · exact hkeyed
    · exact h₉ view
  · exact fun subscription hmem => ⟨(h₁₂ subscription hmem).1,
      Nat.lt_succ_of_lt (h₁₂ subscription hmem).2⟩
  · intro subscription hmem cursor hcursor
    rcases hview _ _ hcursor with ⟨_, heq⟩ | ⟨_, hcursor, _⟩
    · exact absurd (h₁₂ subscription hmem).2 (by rw [heq]; exact Nat.lt_irrefl _)
    · exact h₁₄ subscription hmem cursor hcursor

/-- Rewriting a view: its session stays, and a detached cursor's view stays without listeners. -/
theorem invariant_modifyView (h : HeapInvariant cursors views sessions admissions subscriptions)
    (ref : ViewRef) (f : SessionConversation → SessionConversation)
    (hsession : (f (views.read ref)).state.sessionId = (views.read ref).state.sessionId)
    (hdetached : ∀ cursor, (cursors.read cursor).view = some ref →
      (∀ sessionId, sessions.get? sessionId ≠ some cursor) → (f (views.read ref)).listeners = [])
    (hnodup : (f (views.read ref)).listeners.Nodup)
    (hkeyed : KeyedState (f (views.read ref)).state ∧ ToolIds (f (views.read ref)).normalizer) :
    HeapInvariant cursors (views.modify ref f) sessions admissions subscriptions := by
  obtain ⟨h₁, h₂, h₃, h₄, h₅, h₆, h₇, h₈, h₉, h₁₀, h₁₁, h₁₂, h₁₃, h₁₄⟩ := h
  refine ⟨h₁, h₂, h₃, h₄, h₅, ?_, ?_, ?_, ?_, h₁₀, h₁₁, h₁₂, h₁₃, h₁₄⟩
  · intro sessionId cursor view hget hcursor
    rw [Heap.read_modify]
    split
    · next heq =>
      subst heq
      rw [hsession]
      exact h₆ _ _ _ hget hcursor
    · exact h₆ _ _ _ hget hcursor
  · intro cursor view hnot hcursor
    rw [Heap.read_modify]
    split
    · next heq =>
      subst heq
      exact hdetached cursor hcursor hnot
    · exact h₇ _ _ hnot hcursor
  · intro view
    rw [Heap.read_modify]
    split
    · exact hnodup
    · exact h₈ view
  · intro view
    rw [Heap.read_modify]
    split
    · exact hkeyed
    · exact h₉ view

/-- Dropping the view of a cursor. -/
theorem invariant_dropView (h : HeapInvariant cursors views sessions admissions subscriptions)
    (ref : CursorRef) :
    HeapInvariant (cursors.modify ref fun cursor => { cursor with view := none }) views sessions
      admissions subscriptions := by
  have hview : ∀ cursor view, ((cursors.modify ref fun cursor =>
      { cursor with view := none }).read cursor).view = some view →
      (cursors.read cursor).view = some view := by
    intro cursor view hcursor
    rw [Heap.read_modify] at hcursor
    split at hcursor
    · cases hcursor
    · exact hcursor
  obtain ⟨h₁, h₂, h₃, h₄, h₅, h₆, h₇, h₈, h₉, h₁₀, h₁₁, h₁₂, h₁₃, h₁₄⟩ := h
  refine ⟨h₁, h₂, ?_, fun cursor view hcursor => h₄ cursor view (hview _ _ hcursor),
    fun cursor other view hcursor hother => h₅ _ _ _ (hview _ _ hcursor) (hview _ _ hother),
    fun sessionId cursor view hget hcursor => h₆ _ _ _ hget (hview _ _ hcursor),
    fun cursor view hnot hcursor => h₇ _ _ hnot (hview _ _ hcursor), h₈, h₉, h₁₀, h₁₁, h₁₂, h₁₃,
    fun subscription hmem cursor hcursor => h₁₄ _ hmem _ (hview _ _ hcursor)⟩
  intro cursor hle
  cases hcursor : ((cursors.modify ref fun cursor =>
      { cursor with view := none }).read cursor).view with
  | none => rfl
  | some view =>
    have := hview _ _ hcursor
    rw [h₃ cursor hle] at this
    cases this

/-! ## Sessions, admissions and subscriptions -/

/-- A session whose view has no listeners gives up its cursor. -/
theorem invariant_eraseSession (h : HeapInvariant cursors views sessions admissions subscriptions)
    {sessionId : SessionId} (hsilent : ∀ cursor view, sessions.get? sessionId = some cursor →
      (cursors.read cursor).view = some view → (views.read view).listeners = []) :
    HeapInvariant cursors views (sessions.erase sessionId) admissions subscriptions := by
  have hget : ∀ other cursor, (sessions.erase sessionId).get? other = some cursor →
      sessions.get? other = some cursor := by
    intro other cursor hother
    rw [InsMap.get?_erase] at hother
    split at hother
    · cases hother
    · exact hother
  obtain ⟨h₁, h₂, h₃, h₄, h₅, h₆, h₇, h₈, h₉, h₁₀, h₁₁, h₁₂, h₁₃, h₁₄⟩ := h
  refine ⟨fun other cursor hother => h₁ _ _ (hget _ _ hother),
    fun first second cursor hfirst hsecond => h₂ _ _ _ (hget _ _ hfirst) (hget _ _ hsecond), h₃, h₄,
    h₅, fun other cursor view hother => h₆ _ _ _ (hget _ _ hother), ?_, h₈, h₉, h₁₀,
    fun ticket admission hticket other hother => h₁₁ _ _ hticket _ (hget _ _ hother), h₁₂,
    fun subscription hmem other hother => h₁₃ _ hmem _ (hget _ _ hother), h₁₄⟩
  intro cursor view hnot hcursor
  by_cases hheld : sessions.get? sessionId = some cursor
  · exact hsilent cursor view hheld hcursor
  · refine h₇ cursor view (fun other hother => ?_) hcursor
    refine hnot other ?_
    rw [InsMap.get?_erase, if_neg, hother]
    rintro rfl
    exact hheld hother

/-- All sessions give up their cursors. -/
theorem invariant_noSessions (h : HeapInvariant cursors views sessions admissions subscriptions)
    (hsilent : ∀ sessionId cursor view, sessions.get? sessionId = some cursor →
      (cursors.read cursor).view = some view → (views.read view).listeners = []) :
    HeapInvariant cursors views .empty admissions subscriptions := by
  obtain ⟨h₁, h₂, h₃, h₄, h₅, h₆, h₇, h₈, h₉, h₁₀, h₁₁, h₁₂, h₁₃, h₁₄⟩ := h
  refine ⟨fun _ _ hget => (by cases hget), fun _ _ _ hget => (by cases hget), h₃, h₄, h₅,
    fun _ _ _ hget => (by cases hget), ?_, h₈, h₉, h₁₀, fun _ _ _ _ hget => (by cases hget), h₁₂,
    fun _ _ _ hget => (by cases hget), h₁₄⟩
  intro cursor view _ hcursor
  by_cases hheld : ∃ sessionId, sessions.get? sessionId = some cursor
  · obtain ⟨sessionId, hheld⟩ := hheld
    exact hsilent sessionId cursor view hheld hcursor
  · exact h₇ cursor view (fun sessionId hget => hheld ⟨sessionId, hget⟩) hcursor

theorem invariant_setAdmission (h : HeapInvariant cursors views sessions admissions subscriptions)
    (ticket : Nat) {admission : Admission} (hbound : admission.cursor < cursors.next)
    (hsession : ∀ sessionId, sessions.get? sessionId = some admission.cursor →
      sessionId = admission.input.sessionCorrelation) :
    HeapInvariant cursors views sessions (admissions.set ticket admission) subscriptions := by
  obtain ⟨h₁, h₂, h₃, h₄, h₅, h₆, h₇, h₈, h₉, h₁₀, h₁₁, h₁₂, h₁₃, h₁₄⟩ := h
  refine ⟨h₁, h₂, h₃, h₄, h₅, h₆, h₇, h₈, h₉, ?_, ?_, h₁₂, h₁₃, h₁₄⟩ <;>
    intro other found hget <;> rw [InsMap.get?_set] at hget <;> split at hget
  · cases hget
    exact hbound
  · exact h₁₀ _ _ hget
  · cases hget
    exact hsession
  · exact h₁₁ _ _ hget

theorem invariant_eraseAdmission
    (h : HeapInvariant cursors views sessions admissions subscriptions) (ticket : Nat) :
    HeapInvariant cursors views sessions (admissions.erase ticket) subscriptions := by
  have hget : ∀ other admission, (admissions.erase ticket).get? other = some admission →
      admissions.get? other = some admission := by
    intro other admission hother
    rw [InsMap.get?_erase] at hother
    split at hother
    · cases hother
    · exact hother
  obtain ⟨h₁, h₂, h₃, h₄, h₅, h₆, h₇, h₈, h₉, h₁₀, h₁₁, h₁₂, h₁₃, h₁₄⟩ := h
  exact ⟨h₁, h₂, h₃, h₄, h₅, h₆, h₇, h₈, h₉, fun _ _ hother => h₁₀ _ _ (hget _ _ hother),
    fun _ _ hother => h₁₁ _ _ (hget _ _ hother), h₁₂, h₁₃, h₁₄⟩

theorem invariant_subscriptions
    (h : HeapInvariant cursors views sessions admissions subscriptions)
    {subscriptions' : List Subscription}
    (hall : ∀ subscription ∈ subscriptions',
      (subscription.cursor < cursors.next ∧ subscription.view < views.next) ∧
      (∀ sessionId, sessions.get? sessionId = some subscription.cursor →
        sessionId = subscription.sessionId) ∧
      ∀ cursor, (cursors.read cursor).view = some subscription.view →
        cursor = subscription.cursor) :
    HeapInvariant cursors views sessions admissions subscriptions' := by
  obtain ⟨h₁, h₂, h₃, h₄, h₅, h₆, h₇, h₈, h₉, h₁₀, h₁₁, _, _, _⟩ := h
  exact ⟨h₁, h₂, h₃, h₄, h₅, h₆, h₇, h₈, h₉, h₁₀, h₁₁, fun subscription hmem => (hall _ hmem).1,
    fun subscription hmem => (hall _ hmem).2.1, fun subscription hmem => (hall _ hmem).2.2⟩

end WriterLemmas

end Henji
