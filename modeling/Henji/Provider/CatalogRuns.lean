import Henji.Library.Runs
import Henji.Provider.ModelCatalog
import Mathlib.Data.List.Permutation

/-!
# Calls on one catalog

`models`, `efforts`, `favorite` and `remember` on the catalog file of one provider and account. A call
runs from one await to the next; the file is read as a whole and replaced by a rename. Nothing orders
the calls: between the read of an update and its rename other calls can rename too.

A file that was readable stays readable. The updates of a run are all kept where each rename still
finds what its call read.
-/

namespace Henji

namespace ModelCatalog

/-! ## Calls -/

inductive Call where
  | models
  | favorite (modelId : JsText) (chosen : Bool)
  | efforts
  | remember (modelId : JsText) (effort : ReasoningEffort)
deriving DecidableEq

inductive LiveModelCatalogErrorCode where
  | credential_unavailable
  | models_unavailable
  | catalog_read_failed
  | models_not_loaded
deriving DecidableEq

/-- What a read of the catalog is for. -/
inductive Purpose where
  | models
  | efforts
  | update (update : Update)
  | readBack (update : Update)
deriving DecidableEq

/-- The await that a call has reached. -/
inductive Point where
  | resolving (call : Call)
  | fetching
  | reading (purpose : Purpose)
  | seeding (purpose : Purpose)
  | writing (catalog : StoredCatalog) (update : Update)
  | settling
  | returned (update : Option Update)
  | failed (code : LiveModelCatalogErrorCode)
deriving DecidableEq

structure State where
  file : Option Json
  snapshot : Option ModelSnapshot
  calls : List Point
deriving DecidableEq

def start (file : Option Json) : State where
  file := file
  snapshot := none
  calls := []

/-- A call starts or goes on behind its await. `settle` has the models and the metadata that the
requests of a call brought, or `none` where they failed. -/
inductive Event where
  | call (call : Call)
  | resolve (index : Nat)
  | refuse (index : Nat)
  | read (index : Nat)
  | rename (index : Nat)
  | settle (index : Nat) (result : Option ModelSnapshot)
deriving DecidableEq

/-- A call behind `#readCatalog`. -/
def proceed (catalog : StoredCatalog) : Purpose → Point
  | .models => .settling
  | .efforts => .returned none
  | .update update => .writing catalog update
  | .readBack update => .returned (some update)

/-- A call behind `#writeCatalog` of an update. -/
def written : Update → Point
  | .favorite snapshot modelId chosen => .reading (.readBack (.favorite snapshot modelId chosen))
  | .remember modelId effort => .returned (some (.remember modelId effort))

/-- A call behind the resolution of its account. -/
def resolved (declaration : Declaration) (s : State) (index : Nat) : Call → State
  | .models =>
    -- A listed provider with accounts reads the catalog that belongs to no account.
    if declaration.listed && declaration.accounts then
      { s with calls := s.calls.set index (.returned none) }
    else { s with calls := s.calls.set index (.reading .models) }
  | .favorite modelId chosen =>
    match s.snapshot with
    | none => { s with calls := s.calls.set index (.failed .models_not_loaded) }
    | some snapshot =>
      { s with calls := s.calls.set index (.reading (.update (.favorite snapshot modelId chosen))) }
  | .efforts =>
    match s.snapshot with
    | some _ => { s with calls := s.calls.set index (.reading .efforts) }
    | none =>
      if declaration.listed then
        { s with
          snapshot := some (declaredSnapshot declaration)
          calls := s.calls.set index (.reading .efforts) }
      else { s with calls := s.calls.set index .fetching }
  | .remember modelId effort =>
    { s with calls := s.calls.set index (.reading (.update (.remember modelId effort))) }

def step (declaration : Declaration) (s : State) : Event → Option State
  | .call call => some { s with calls := s.calls ++ [.resolving call] }
  | .resolve index =>
    match s.calls[index]? with
    | some (.resolving call) => some (resolved declaration s index call)
    | _ => none
  | .refuse index =>
    -- The credential of a request for models.
    match s.calls[index]? with
    | some (.resolving .models) =>
      if declaration.listed then none
      else some { s with calls := s.calls.set index (.failed .credential_unavailable) }
    | _ => none
  | .read index =>
    match s.calls[index]? with
    | some (.reading purpose) =>
      match s.file with
      | none => some { s with calls := s.calls.set index (.seeding purpose) }
      | some json =>
        match validateStoredCatalog json with
        | none => some { s with calls := s.calls.set index (.failed .catalog_read_failed) }
        | some catalog => some { s with calls := s.calls.set index (proceed catalog purpose) }
    | _ => none
  | .rename index =>
    match s.calls[index]? with
    | some (.seeding purpose) => some { s with
        file := some (seedCatalog declaration).json
        calls := s.calls.set index (proceed (seedCatalog declaration) purpose) }
    | some (.writing catalog update) => some { s with
        file := some (update.apply declaration catalog).json
        calls := s.calls.set index (written update) }
    | _ => none
  | .settle index result =>
    match s.calls[index]?, result with
    | some .fetching, some fetched => some { s with
        snapshot := some { fetched with models := [] }
        calls := s.calls.set index (.reading .efforts) }
    | some .settling, some fetched =>
      let snapshot := if declaration.listed then declaredSnapshot declaration else { fetched with
        models := withPinnedModels declaration fetched.models }
      some { s with
        snapshot := some snapshot
        calls := s.calls.set index (.returned none) }
    | some .settling, none =>
      if declaration.listed then none
      else some { s with calls := s.calls.set index (.failed .models_unavailable) }
    | _, _ => none

/-! ## What a step does -/

/-- The catalog that a read of the file gives, with the seed that a missing one gets. -/
def catalogOf (declaration : Declaration) : Option Json → Option StoredCatalog
  | none => some (seedCatalog declaration)
  | some json => validateStoredCatalog json

@[simp] theorem catalogOf_json (declaration : Declaration) (catalog : StoredCatalog) :
    catalogOf declaration (some catalog.json) = some catalog := validateStoredCatalog_json catalog

namespace Point

/-- The update of a call that has replaced the file. -/
def applied : Point → Option Update
  | reading (.readBack update) => some update
  | seeding (.readBack update) => some update
  | returned update => update
  | _ => none

/-- The update of a call that returned. -/
def result : Point → Option Update
  | returned update => update
  | _ => none

def ended : Point → Bool
  | returned _ | failed _ => true
  | _ => false

theorem applied_of_ended {point : Point} (h : point.ended = true) : point.applied = point.result := by
  cases point with
  | returned update => rfl
  | failed code => rfl
  | resolving call => cases h
  | fetching => cases h
  | reading purpose => cases h
  | seeding purpose => cases h
  | writing catalog update => cases h
  | settling => cases h

end Point

theorem applied_proceed (catalog : StoredCatalog) (purpose : Purpose) :
    (proceed catalog purpose).applied = (Point.reading purpose).applied := by
  cases purpose <;> rfl

theorem applied_seeding (purpose : Purpose) :
    (Point.seeding purpose).applied = (Point.reading purpose).applied := by
  cases purpose <;> rfl

theorem applied_written (update : Update) : (written update).applied = some update := by
  cases update <;> rfl

theorem proceed_ne_failed (catalog : StoredCatalog) (purpose : Purpose)
    (code : LiveModelCatalogErrorCode) : proceed catalog purpose ≠ .failed code := by
  cases purpose <;> exact fun h => nomatch h

theorem written_ne_failed (update : Update) (code : LiveModelCatalogErrorCode) :
    written update ≠ .failed code := by
  cases update <;> exact fun h => nomatch h

/-- What an event can do: start a call, move one without the file, find the file unreadable, seed the
file or replace it. -/
inductive Change (declaration : Declaration) (s : State) : Event → State → Prop where
  | started {call : Call} : Change declaration s (.call call)
      { s with calls := s.calls ++ [.resolving call] }
  | moved {event : Event} {index : Nat} {before behind : Point} {snapshot : Option ModelSnapshot}
      (hbefore : s.calls[index]? = some before) (happlied : behind.applied = before.applied)
      (hread : behind ≠ .failed .catalog_read_failed) :
      Change declaration s event { s with
        snapshot := snapshot
        calls := s.calls.set index behind }
  | unread {index : Nat} {json : Json} (hfile : s.file = some json)
      (hinvalid : validateStoredCatalog json = none) :
      Change declaration s (.read index) { s with
        calls := s.calls.set index (.failed .catalog_read_failed) }
  | seeded {index : Nat} {purpose : Purpose} (hbefore : s.calls[index]? = some (.seeding purpose)) :
      Change declaration s (.rename index) { s with
        file := some (seedCatalog declaration).json
        calls := s.calls.set index (proceed (seedCatalog declaration) purpose) }
  | replaced {index : Nat} {catalog : StoredCatalog} {update : Update}
      (hbefore : s.calls[index]? = some (.writing catalog update)) :
      Change declaration s (.rename index) { s with
        file := some (update.apply declaration catalog).json
        calls := s.calls.set index (written update) }

variable {declaration : Declaration} {s t : State} {event : Event}

theorem change_of_resolved {index : Nat} {call : Call}
    (hbefore : s.calls[index]? = some (.resolving call)) :
    Change declaration s (.resolve index) (resolved declaration s index call) := by
  have hmove : ∀ (behind : Point) (snapshot : Option ModelSnapshot), behind.applied = none →
      behind ≠ .failed .catalog_read_failed → Change declaration s (.resolve index) { s with
        snapshot := snapshot
        calls := s.calls.set index behind } := fun behind snapshot happlied hne =>
    .moved hbefore happlied hne
  cases call with
  | models =>
    rw [resolved]
    split
    · exact hmove (.returned none) s.snapshot rfl (by decide)
    · exact hmove (.reading .models) s.snapshot rfl (by decide)
  | favorite modelId chosen =>
    rw [resolved]
    split
    · exact hmove (.failed .models_not_loaded) s.snapshot rfl (by decide)
    · next snapshot _ =>
      exact hmove (.reading (.update (.favorite snapshot modelId chosen))) s.snapshot rfl
        (fun h => nomatch h)
  | efforts =>
    rw [resolved]
    split
    · exact hmove (.reading .efforts) s.snapshot rfl (by decide)
    · split
      · exact hmove (.reading .efforts) (some (declaredSnapshot declaration)) rfl (by decide)
      · exact hmove .fetching s.snapshot rfl (by decide)
  | remember modelId effort =>
    exact hmove (.reading (.update (.remember modelId effort))) s.snapshot rfl (fun h => nomatch h)

theorem change_of_step (h : step declaration s event = some t) : Change declaration s event t := by
  cases event with
  | call call =>
    obtain rfl := Option.some.inj h
    exact .started
  | resolve index =>
    simp only [step] at h
    split at h
    · next call hbefore =>
      obtain rfl := Option.some.inj h
      exact change_of_resolved hbefore
    · cases h
  | refuse index =>
    simp only [step] at h
    split at h
    · next hbefore =>
      split at h
      · cases h
      · obtain rfl := Option.some.inj h
        exact .moved hbefore rfl fun hfailed => nomatch hfailed
    · cases h
  | read index =>
    simp only [step] at h
    split at h
    · next purpose hbefore =>
      split at h
      · obtain rfl := Option.some.inj h
        exact .moved hbefore (applied_seeding purpose) fun hfailed => nomatch hfailed
      · next json hfile =>
        split at h
        · next hinvalid =>
          obtain rfl := Option.some.inj h
          exact .unread hfile hinvalid
        · next catalog _ =>
          obtain rfl := Option.some.inj h
          exact .moved hbefore (applied_proceed catalog purpose) (proceed_ne_failed catalog purpose _)
    · cases h
  | rename index =>
    simp only [step] at h
    split at h
    · next purpose hbefore =>
      obtain rfl := Option.some.inj h
      exact .seeded hbefore
    · next catalog update hbefore =>
      obtain rfl := Option.some.inj h
      exact .replaced hbefore
    · cases h
  | settle index result =>
    simp only [step] at h
    split at h
    · next hbefore =>
      obtain rfl := Option.some.inj h
      exact .moved hbefore rfl fun hfailed => nomatch hfailed
    · next hbefore =>
      obtain rfl := Option.some.inj h
      exact .moved hbefore rfl fun hfailed => nomatch hfailed
    · next hbefore =>
      split at h
      · cases h
      · obtain rfl := Option.some.inj h
        exact .moved hbefore rfl fun hfailed => nomatch hfailed
    · cases h

/-! ## Every read is valid -/

/-- The file can be read, and no read has failed. -/
structure Readable (declaration : Declaration) (s : State) : Prop where
  file : (catalogOf declaration s.file).isSome = true
  read : .failed .catalog_read_failed ∉ s.calls

theorem Readable.step (h : Readable declaration s) (hstep : step declaration s event = some t) :
    Readable declaration t := by
  have hset : ∀ {index : Nat} {behind : Point}, behind ≠ .failed .catalog_read_failed →
      .failed .catalog_read_failed ∉ s.calls.set index behind := by
    intro index behind hne hmem
    rcases List.mem_or_eq_of_mem_set hmem with hold | hnew
    · exact h.read hold
    · exact hne hnew.symm
  cases change_of_step hstep with
  | started =>
    refine ⟨h.file, fun hmem => ?_⟩
    rcases List.mem_append.mp hmem with hold | hnew
    · exact h.read hold
    · exact nomatch List.mem_singleton.mp hnew
  | moved hbefore happlied hread => exact ⟨h.file, hset hread⟩
  | unread hfile hinvalid =>
    have hvalid := h.file
    rw [hfile, catalogOf, hinvalid] at hvalid
    cases hvalid
  | seeded hbefore =>
    exact ⟨by rw [catalogOf_json]; rfl, hset (proceed_ne_failed _ _ _)⟩
  | replaced hbefore =>
    exact ⟨by rw [catalogOf_json]; rfl, hset (written_ne_failed _ _)⟩

/-! ## The updates of a run -/

/-- The catalog that a call at its rename has read, or the seed where it found none. -/
def Point.found (declaration : Declaration) : Point → Option StoredCatalog
  | .seeding _ => some (seedCatalog declaration)
  | .writing catalog _ => some catalog
  | _ => none

/-- The rename of a call finds the catalog that the call has read. -/
def Undisturbed (declaration : Declaration) (s : State) : Event → Prop
  | .rename index => ∀ catalog ∈ (s.calls[index]?).bind (Point.found declaration),
      catalogOf declaration s.file = some catalog
  | _ => True

instance decidableUndisturbed (declaration : Declaration) (s : State) :
    (event : Event) → Decidable (Undisturbed declaration s event)
  | .rename index => inferInstanceAs
      (Decidable (∀ catalog ∈ (s.calls[index]?).bind (Point.found declaration), _))
  | .call _ | .resolve _ | .refuse _ | .read _ | .settle _ _ => isTrue trivial

/-- The file holds the updates that have replaced it, one after the other. -/
def Kept (declaration : Declaration) (initial : StoredCatalog) (s : State) : Prop :=
  ∃ applied : List Update, applied.Perm (s.calls.filterMap Point.applied) ∧
    catalogOf declaration s.file = some (applied.foldl (Update.apply declaration) initial) ∧
    (applied ≠ [] → s.file.isSome = true)

theorem filterMap_applied_set {calls : List Point} {index : Nat} {before behind : Point}
    (h : calls[index]? = some before) (happlied : behind.applied = before.applied) :
    (calls.set index behind).filterMap Point.applied = calls.filterMap Point.applied := by
  obtain ⟨hindex, rfl⟩ := List.getElem?_eq_some_iff.mp h
  obtain ⟨front, rest, hsplit, -, hset⟩ := @List.exists_of_set _ _ behind _ hindex
  rw [hset]
  conv_rhs => rw [hsplit]
  simp only [List.filterMap_append, List.filterMap_cons, happlied]

theorem filterMap_applied_replaced {calls : List Point} {index : Nat} {before behind : Point}
    {update : Update} (h : calls[index]? = some before) (hnone : before.applied = none)
    (happlied : behind.applied = some update) :
    (update :: calls.filterMap Point.applied).Perm
      ((calls.set index behind).filterMap Point.applied) := by
  obtain ⟨hindex, rfl⟩ := List.getElem?_eq_some_iff.mp h
  obtain ⟨front, rest, hsplit, -, hset⟩ := @List.exists_of_set _ _ behind _ hindex
  rw [hset]
  conv_lhs => rw [hsplit]
  simp only [List.filterMap_append, List.filterMap_cons, happlied, hnone]
  exact List.perm_middle.symm

variable {initial : StoredCatalog}

theorem Kept.step (h : Kept declaration initial s) (hreadable : Readable declaration s)
    (hundisturbed : Undisturbed declaration s event) (hstep : step declaration s event = some t) :
    Kept declaration initial t := by
  obtain ⟨applied, hperm, hfile, hsome⟩ := h
  cases change_of_step hstep with
  | started =>
    refine ⟨applied, ?_, hfile, hsome⟩
    rw [List.filterMap_append]
    exact (List.append_nil _).symm ▸ hperm
  | moved hbefore happlied hread =>
    refine ⟨applied, ?_, hfile, hsome⟩
    rw [filterMap_applied_set hbefore happlied]
    exact hperm
  | unread hnone hinvalid =>
    have hvalid := hreadable.file
    rw [hnone, catalogOf, hinvalid] at hvalid
    cases hvalid
  | @seeded index purpose hbefore =>
    have hsame : catalogOf declaration s.file = some (seedCatalog declaration) :=
      hundisturbed _ (by rw [hbefore]; rfl)
    refine ⟨applied, ?_, ?_, fun _ => rfl⟩
    · rw [filterMap_applied_set hbefore ((applied_proceed _ _).trans (applied_seeding _).symm)]
      exact hperm
    · rw [catalogOf_json, ← hsame, hfile]
  | @replaced index catalog update hbefore =>
    have hsame : catalogOf declaration s.file = some catalog :=
      hundisturbed _ (by rw [hbefore]; rfl)
    refine ⟨applied ++ [update], ?_, ?_, fun _ => rfl⟩
    · have hmore := filterMap_applied_replaced hbefore rfl (applied_written update)
      exact (List.perm_append_singleton update applied).trans ((hperm.cons update).trans hmore)
    · rw [catalogOf_json, List.foldl_append, List.foldl_cons, List.foldl_nil]
      rw [hsame] at hfile
      rw [← Option.some.inj hfile]

/-- The updates of the calls that returned. -/
def State.updates (s : State) : List Update := s.calls.filterMap Point.result

theorem updates_of_settled (h : ∀ point ∈ s.calls, point.ended = true) :
    s.calls.filterMap Point.applied = s.updates :=
  List.filterMap_congr fun point hmem => Point.applied_of_ended (h point hmem)

/-- No read of a catalog fails in any run from a readable file. Where each rename finds the catalog
that its call read, the file at the end of all calls holds the update of every call that returned,
one after the other. -/
theorem updates_kept (declaration : Declaration) (file : Option Json) (initial : StoredCatalog)
    (hinitial : catalogOf declaration file = some initial) (events : List Event) (t : State)
    (hrun : Runs.run (step declaration) (start file) events = some t) :
    Readable declaration t ∧
    (Runs.Throughout (step declaration) (Undisturbed declaration) (start file) events →
      (∀ point ∈ t.calls, point.ended = true) →
      ∃ order : List Update, order.Perm t.updates ∧
        catalogOf declaration t.file = some (order.foldl (Update.apply declaration) initial) ∧
        (order ≠ [] → t.file.isSome = true)) := by
  have hstart : Readable declaration (start file) := by
    refine ⟨?_, fun hmem => nomatch hmem⟩
    rw [start, hinitial]
    rfl
  constructor
  · exact Runs.run_keeps (fun h hstep => Readable.step h hstep) hstart hrun
  · intro hall hended
    have hkept : Readable declaration t ∧ Kept declaration initial t := by
      refine Runs.run_keeps_throughout
        (P := fun s => Readable declaration s ∧ Kept declaration initial s)
        (fun h hcondition hstep => ⟨h.1.step hstep, h.2.step h.1 hcondition hstep⟩) ?_ hall hrun
      exact ⟨hstart, [], List.Perm.nil, hinitial, fun hne => absurd rfl hne⟩
    obtain ⟨order, hperm, hfile, hsome⟩ := hkept.2
    rw [updates_of_settled hended] at hperm
    exact ⟨order, hperm, hfile, hsome⟩

/-- A listed provider with two models. -/
def twoModels : Declaration where
  entries := [
    { modelId := js "a", defaultEffort := .auto, efforts := [.auto, .high], pinned := false },
    { modelId := js "b", defaultEffort := .auto, efforts := [.auto, .high], pinned := false }]
  listed := true
  external := false
  accounts := false

/-- The snapshot is loaded, and a favourite and a chosen effort are on their way. -/
def bothStarted : List Event :=
  [.call .efforts, .resolve 0, .read 0, .rename 0, .call (.favorite (js "a") false),
    .call (.remember (js "a") .high), .resolve 1, .resolve 2]

theorem updates_kept_in_turn : ∃ t,
    Runs.run (step twoModels) (start none)
      (bothStarted ++ [.read 1, .rename 1, .read 2, .rename 2, .read 1]) = some t ∧
    ∃ order : List Update, order.Perm t.updates ∧
      catalogOf twoModels t.file =
        some (order.foldl (Update.apply twoModels) (seedCatalog twoModels)) := by
  have hall : Runs.Throughout (step twoModels) (Undisturbed twoModels) (start none)
      (bothStarted ++ [.read 1, .rename 1, .read 2, .rename 2, .read 1]) := by
    decide +kernel
  obtain ⟨t, hrun, hended⟩ : ∃ t, Runs.run (step twoModels) (start none)
      (bothStarted ++ [.read 1, .rename 1, .read 2, .rename 2, .read 1]) = some t ∧
        ∀ point ∈ t.calls, point.ended = true :=
    Runs.exists_run (by decide +kernel)
  obtain ⟨order, hperm, hfile, -⟩ :=
    (updates_kept twoModels none (seedCatalog twoModels) rfl _ t hrun).2 hall hended
  exact ⟨t, hrun, order, hperm, hfile⟩

/-- A chosen effort that was read before a favourite was written replaces the file without it. -/
theorem favorite_lost : ∃ t,
    Runs.run (step twoModels) (start none)
      (bothStarted ++ [.read 1, .read 2, .rename 1, .rename 2, .read 1]) = some t ∧
    (∀ point ∈ t.calls, point.ended = true) ∧
    ¬ ∃ order : List Update, order.Perm t.updates ∧
      catalogOf twoModels t.file =
        some (order.foldl (Update.apply twoModels) (seedCatalog twoModels)) := by
  let favorite : Update := .favorite (declaredSnapshot twoModels) (js "a") false
  let remember : Update := .remember (js "a") .high
  obtain ⟨t, hrun, hended, hupdates, hfile⟩ : ∃ t, Runs.run (step twoModels) (start none)
      (bothStarted ++ [.read 1, .read 2, .rename 1, .rename 2, .read 1]) = some t ∧
        (∀ point ∈ t.calls, point.ended = true) ∧ t.updates = [favorite, remember] ∧
        catalogOf twoModels t.file = some (remember.apply twoModels (seedCatalog twoModels)) :=
    Runs.exists_run (by decide +kernel)
  refine ⟨t, hrun, hended, ?_⟩
  rintro ⟨order, hperm, hkept⟩
  rw [hfile] at hkept
  rw [hupdates, List.perm_pair] at hperm
  rcases hperm with rfl | rfl
  · exact absurd hkept (by decide +kernel)
  · exact absurd hkept (by decide +kernel)

end ModelCatalog

end Henji
