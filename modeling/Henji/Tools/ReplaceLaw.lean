import Henji.Tools.AtomicReplace
import Mathlib.Data.List.Basic

/-!
# A replacement is all or nothing

Most operations are calm: they change nothing but what they record, and the directories that they
make above the target. So each stage has one assertion, and only opening, writing, changing the mode,
renaming and removing move from one to the next.

Results:
1. `replaceFile_spec`: the stages of the `try` block, and where a throw leaves the tree.
2. `atomicReplace_spec`: a replacement is all or nothing.
-/

namespace Henji.AtomicReplace

open Effect

/-! ## Calm code -/

section Calm

variable {absolute : Path} {α β : Type}

/-- `s'` is `s` with some directories above the target. -/
structure Quiet (absolute : Path) (s s' : State) : Prop where
  temporary : s'.temporary = s.temporary
  renamed : s'.renamed = s.renamed
  failed : s.failed ⊆ s'.failed
  tree : ∀ path, s'.tree path = s.tree path ∨
    s.tree path = none ∧ s'.tree path = some .directory ∧ path.length < absolute.length

theorem Quiet.refl (s : State) : Quiet absolute s s :=
  ⟨rfl, rfl, List.Subset.refl _, fun _ => .inl rfl⟩

theorem Quiet.trans {s t u : State} (h : Quiet absolute s t) (h' : Quiet absolute t u) :
    Quiet absolute s u where
  temporary := h'.temporary.trans h.temporary
  renamed := h'.renamed.trans h.renamed
  failed := List.Subset.trans h.failed h'.failed
  tree path := by
    rcases h.tree path with hsame | ⟨hnone, hsome, hlength⟩
    · rcases h'.tree path with hsame' | ⟨hnone', hsome', hlength'⟩
      · exact .inl (hsame'.trans hsame)
      · exact .inr ⟨hsame ▸ hnone', hsome', hlength'⟩
    · rcases h'.tree path with hsame' | ⟨hnone', -, -⟩
      · exact .inr ⟨hnone, hsame'.trans hsome, hlength⟩
      · rw [hsome] at hnone'
        cases hnone'

theorem Quiet.some {s t : State} (h : Quiet absolute s t) {path : Path} {node : Node}
    (hpath : s.tree path = some node) : t.tree path = some node := by
  rcases h.tree path with hsame | ⟨hnone, -, -⟩
  · exact hsame.trans hpath
  · rw [hpath] at hnone
    cases hnone

theorem Quiet.target {s t : State} (h : Quiet absolute s t) : t.tree absolute = s.tree absolute := by
  rcases h.tree absolute with hsame | ⟨-, -, hlength⟩
  · exact hsame
  · exact absurd hlength (Nat.lt_irrefl _)

def Calm (absolute : Path) (m : Code α) : Prop := ∀ s, Quiet absolute s (run m s).2

theorem calm_pure (a : α) : Calm absolute (pure a : Code α) := fun s => .refl s

theorem calm_throw (e : ReplaceError) : Calm absolute (throw e : Code α) := fun s => .refl s

theorem calm_get : Calm absolute (get : Code State) := fun s => .refl s

theorem calm_bind {m : Code α} {f : α → Code β} (hm : Calm absolute m)
    (hf : ∀ a, Calm absolute (f a)) : Calm absolute (m >>= f) := by
  intro s
  rw [run_bind]
  have h := hm s
  rcases hr : run m s with ⟨_ | a, t⟩ <;> rw [hr] at h
  · exact h
  · exact h.trans (hf a t)

theorem calm_attempt {m : Code α} (hm : Calm absolute m) : Calm absolute (attempt m) := hm

theorem calm_ite {c : Prop} [Decidable c] {m n : Code α} (hm : Calm absolute m)
    (hn : Calm absolute n) : Calm absolute (if c then m else n) := by
  split
  · exact hm
  · exact hn

theorem calm_forM {f : α → Code PUnit} (xs : List α) (h : ∀ x ∈ xs, Calm absolute (f x)) :
    Calm absolute (xs.forM f) := by
  induction xs with
  | nil => exact calm_pure PUnit.unit
  | cons x xs ih =>
    obtain ⟨hx, hxs⟩ := List.forall_mem_cons.mp h
    exact calm_bind hx fun _ => ih hxs

/-- A state with other fates left. -/
def withFates (s : State) (fates : List Fate) (aborted : Bool) : State :=
  { s with fates := fates, aborted := aborted }

theorem quiet_withFates (s : State) (fates : List Fate) (aborted : Bool) :
    Quiet absolute s (withFates s fates aborted) :=
  ⟨rfl, rfl, List.Subset.refl _, fun _ => .inl rfl⟩

theorem run_nextFate (s : State) : ∃ fate fates aborted,
    run nextFate s = (.ok fate, withFates s fates aborted) := by
  unfold nextFate
  rw [run_bind_ok (run_get s)]
  cases hfates : s.fates with
  | nil => exact ⟨none, s.fates, s.aborted, rfl⟩
  | cons fate fates => exact ⟨some fate, fates, s.aborted || fate.cancelled, rfl⟩

/-- How an operation ends. -/
theorem run_perform (operation : Operation)
    (act : Option Nat → State → Except FileError (α × State)) (s : State) :
    ∃ fates aborted,
      (∃ count a t, act count (withFates s fates aborted) = .ok (a, t) ∧
        run (perform operation act) s = (.ok a, t)) ∨
      ∃ error, run (perform operation act) s = (.error (.file error),
        { withFates s fates aborted with failed := operation :: s.failed }) := by
  obtain ⟨fate, fates, aborted, hfate⟩ := run_nextFate s
  refine ⟨fates, aborted, ?_⟩
  unfold perform
  rw [run_bind_ok hfate, run_bind_ok (run_get _)]
  dsimp only
  cases hresult : outcome fate act (withFates s fates aborted) with
  | error error => exact .inr ⟨error, rfl⟩
  | ok result =>
    obtain ⟨a, t⟩ := result
    refine .inl ⟨fate.map Fate.count, a, t, ?_, rfl⟩
    unfold outcome at hresult
    split at hresult
    · cases hresult
    · exact hresult

theorem quiet_failed (s : State) (fates : List Fate) (aborted : Bool) (operation : Operation) :
    Quiet absolute s { withFates s fates aborted with failed := operation :: s.failed } :=
  ⟨rfl, rfl, List.subset_cons_self _ _, fun _ => .inl rfl⟩

theorem calm_perform {operation : Operation}
    {act : Option Nat → State → Except FileError (α × State)}
    (h : ∀ count s a t, act count s = .ok (a, t) → Quiet absolute s t) :
    Calm absolute (perform operation act) := by
  intro s
  obtain ⟨fates, aborted, ⟨count, a, t, hact, hrun⟩ | ⟨error, hrun⟩⟩ := run_perform operation act s
  · rw [hrun]
    exact (quiet_withFates s fates aborted).trans (h count _ a t hact)
  · rw [hrun]
    exact quiet_failed s fates aborted operation

theorem calm_quietly (operation : Operation) : Calm absolute (quietly operation) :=
  calm_perform fun _ s _ t h => by
    cases h
    exact .refl s

theorem calm_throwIfCancelled : Calm absolute throwIfCancelled :=
  calm_bind calm_get fun _ => calm_ite (calm_throw _) (calm_pure _)

theorem calm_lstat (path : Path) : Calm absolute (lstat path) :=
  calm_perform fun _ s node t h => by
    split at h
    · cases h
      exact .refl s
    · cases h

theorem calm_mkdir {path : Path} (hpath : path.length < absolute.length) :
    Calm absolute (mkdir path) :=
  calm_perform fun _ s _ t h => by
    split at h
    · cases h
    · next hnone =>
      cases h
      refine ⟨rfl, rfl, List.Subset.refl _, fun other => ?_⟩
      by_cases hother : other = path
      · subst hother
        exact .inr ⟨hnone, if_pos rfl, hpath⟩
      · exact .inl (if_neg hother)

theorem calm_checkDirectory (path : Path) : Calm absolute (checkDirectory path) :=
  calm_bind (calm_lstat path) fun node => calm_bind calm_throwIfCancelled fun _ => by
    cases node
    · exact calm_throw _
    · exact calm_pure _
    · exact calm_throw _
    · exact calm_throw _

theorem calm_ensureDirectory (create : Bool) {path : Path} (hpath : path.length < absolute.length) :
    Calm absolute (ensureDirectory create path) := by
  refine calm_bind (calm_attempt (calm_checkDirectory path)) fun result => ?_
  split
  · exact calm_pure _
  · exact calm_ite (calm_bind (calm_mkdir hpath) fun _ => calm_throwIfCancelled) (calm_throw _)
  · exact calm_throw _

theorem length_of_steps {boundary path : Path} (h : path ∈ steps boundary (parentOf absolute)) :
    path.length < absolute.length := by
  unfold steps parentOf at h
  obtain ⟨n, hn, rfl⟩ := List.mem_map.mp h
  rw [List.mem_range, List.length_dropLast] at hn
  have hle : ((absolute.dropLast).take (boundary.length + n + 1)).length ≤ absolute.dropLast.length :=
    List.length_take_le' _ _
  rw [List.length_dropLast] at hle
  omega

theorem calm_ensureParent (root : Path) (pathPolicy create : Bool) :
    Calm absolute (ensureParent root pathPolicy (parentOf absolute) create) := by
  refine calm_bind calm_throwIfCancelled fun _ => calm_ite (calm_throw _) ?_
  exact calm_bind (calm_forM _ fun path hpath => calm_ensureDirectory create (length_of_steps hpath))
    fun _ => calm_forM _ fun path _ => calm_checkDirectory path

theorem calm_close : Calm absolute close :=
  calm_perform fun _ s _ t h => by
    cases h
    exact ⟨rfl, rfl, List.Subset.refl _, fun _ => .inl rfl⟩

/-- Calm code keeps what quiet changes keep. -/
theorem keeps_of_calm {P : State → Prop} {m : Code α} (hm : Calm absolute m)
    (hP : ∀ s t, Quiet absolute s t → P s → P t) : Keeps P m :=
  keeps_iff.mpr fun s hs => hP s _ (hm s) hs

end Calm

/-! ## Stages -/

section Stages

variable {before : Tree} {absolute : Path}

/-- Away from the target, and from one path, there are at most more directories. -/
def Elsewhere (before : Tree) (absolute : Path) (apart : Option Path) (s : State) : Prop :=
  ∀ path, path ≠ absolute → some path ≠ apart → s.tree path = before path ∨
    before path = none ∧ s.tree path = some .directory

theorem Elsewhere.quiet {apart : Option Path} {s t : State} (h : Elsewhere before absolute apart s)
    (hquiet : Quiet absolute s t) : Elsewhere before absolute apart t := by
  intro path hpath hapart
  rcases hquiet.tree path with hsame | ⟨hnone, hsome, -⟩
  · rw [hsame]
    exact h path hpath hapart
  · rcases h path hpath hapart with hbefore | ⟨-, hdirectory⟩
    · exact .inr ⟨hbefore ▸ hnone, hsome⟩
    · rw [hnone] at hdirectory
      cases hdirectory

/-- No temporary file is owned, and the target is as it was. -/
structure Unowned (before : Tree) (absolute : Path) (s : State) : Prop where
  temporary : s.temporary = none
  renamed : s.renamed = false
  target : s.tree absolute = before absolute
  elsewhere : Elsewhere before absolute none s

/-- A temporary file is owned, and the target is as it was. -/
structure Owned (before : Tree) (absolute : Path) (node : Node) (s : State) : Prop where
  renamed : s.renamed = false
  target : s.tree absolute = before absolute
  temporary : ∃ path, s.temporary = some path ∧ path ≠ absolute ∧ before path = none ∧
    s.tree path = some node ∧ Elsewhere before absolute (some path) s

/-- What the target is after the rename. -/
structure Replaced (before : Tree) (absolute : Path) (node : Node) (s : State) : Prop where
  temporary : s.temporary = none
  renamed : s.renamed = true
  target : s.tree absolute = some node
  elsewhere : Elsewhere before absolute none s

theorem Unowned.quiet {s t : State} (hquiet : Quiet absolute s t) (h : Unowned before absolute s) :
    Unowned before absolute t where
  temporary := hquiet.temporary.trans h.temporary
  renamed := hquiet.renamed.trans h.renamed
  target := hquiet.target.trans h.target
  elsewhere := h.elsewhere.quiet hquiet

theorem Owned.quiet {node : Node} {s t : State} (hquiet : Quiet absolute s t)
    (h : Owned before absolute node s) : Owned before absolute node t where
  renamed := hquiet.renamed.trans h.renamed
  target := hquiet.target.trans h.target
  temporary := by
    obtain ⟨path, hpath, hne, hbefore, hnode, helsewhere⟩ := h.temporary
    exact ⟨path, hquiet.temporary.trans hpath, hne, hbefore, hquiet.some hnode,
      helsewhere.quiet hquiet⟩

theorem Replaced.quiet {node : Node} {s t : State} (hquiet : Quiet absolute s t)
    (h : Replaced before absolute node s) : Replaced before absolute node t where
  temporary := hquiet.temporary.trans h.temporary
  renamed := hquiet.renamed.trans h.renamed
  target := hquiet.target.trans h.target
  elsewhere := h.elsewhere.quiet hquiet

/-- Where a throw leaves the tree. -/
def Thrown (before : Tree) (absolute : Path) (replaced : State → Prop) (s : State) : Prop :=
  Unowned before absolute s ∨ (∃ node, Owned before absolute node s) ∨ replaced s

variable {replaced : State → Prop} {α : Type}

/-- Calm code between two stages. -/
theorem triple_calm {P : State → Prop} {E : ReplaceError → State → Prop} {m : Code α}
    (hm : Calm absolute m) (hP : ∀ s t, Quiet absolute s t → P s → P t)
    (hE : ∀ e s, P s → E e s) : Triple P m (fun _ => P) E :=
  triple_weaken (keeps_of_calm hm hP) (fun _ hs => hs) (fun _ _ hs => hs) hE

/-- An operation whose fate may be its failure. -/
theorem triple_perform {P : State → Prop} {Q : α → State → Prop}
    {operation : Operation} {act : Option Nat → State → Except FileError (α × State)}
    (hP : ∀ s t, Quiet absolute s t → P s → P t)
    (hact : ∀ count s a t, P s → act count s = .ok (a, t) → Q a t) :
    Triple P (perform operation act) Q (fun _ => P) := by
  intro s hs
  obtain ⟨fates, aborted, ⟨count, a, t, ht, hrun⟩ | ⟨error, hrun⟩⟩ := run_perform operation act s
  · rw [hrun]
    exact hact count _ a t (hP s _ (quiet_withFates s fates aborted) hs) ht
  · rw [hrun]
    exact hP s _ (quiet_failed s fates aborted operation) hs

/-! ## The temporary file -/

theorem candidate_ne (absolute : Path) (attempt : Nat) : candidate absolute attempt ≠ absolute := by
  intro h
  have hlast : absolute.getLast? =
      some ("." ++ base absolute ++ ".henji-" ++ toString attempt) :=
    (congrArg List.getLast? h).symm.trans List.getLast?_concat
  have hbase : base absolute = "." ++ base absolute ++ ".henji-" ++ toString attempt :=
    congrArg (fun last => Option.getD last "target") hlast
  have hlength := congrArg String.length hbase
  rw [String.length_append, String.length_append, String.length_append] at hlength
  have hdot : ".".length = 1 := by decide
  omega

theorem openNew_spec {path : Path} (hpath : path ≠ absolute) :
    Triple (Unowned before absolute) (openNew path)
      (fun _ => Owned before absolute (.file [] 0o600)) (fun _ => Unowned before absolute) := by
  refine triple_perform (fun _ _ => Unowned.quiet) fun _ s _ t hs h => ?_
  split at h
  · cases h
  · next hnone =>
    cases h
    have hbefore : before path = none := by
      rcases hs.elsewhere path hpath (by simp) with hsame | ⟨hbefore, -⟩
      · exact hsame ▸ hnone
      · exact hbefore
    refine ⟨hs.renamed, ?_, path, rfl, hpath, hbefore, if_pos rfl, fun other hother hapart => ?_⟩
    · exact (if_neg (Ne.symm hpath)).trans hs.target
    · have hne : other ≠ path := fun h => hapart (h ▸ rfl)
      have hsame : (updateTree s path (some (.file [] 0o600))).tree other = s.tree other := if_neg hne
      show (updateTree s path (some (.file [] 0o600))).tree other = before other ∨ _ ∧
        (updateTree s path (some (.file [] 0o600))).tree other = _
      rw [hsame]
      exact hs.elsewhere other hother (by simp)

theorem openTemporary_spec (attempts attempt : Nat) :
    Triple (Unowned before absolute) (openTemporary absolute attempts attempt)
      (fun _ => Owned before absolute (.file [] 0o600)) (fun _ => Unowned before absolute) := by
  induction attempts generalizing attempt with
  | zero => exact triple_throw _ fun _ hs => hs
  | succ attempts ih =>
    refine triple_bind (triple_attempt (openNew_spec (candidate_ne absolute attempt))) fun result => ?_
    cases result with
    | ok _ => exact triple_pure _ fun _ hs => hs
    | error error =>
      cases error with
      | file error =>
        cases error with
        | alreadyExists => exact ih _
        | notFound => exact triple_throw _ fun _ hs => hs
        | failed => exact triple_throw _ fun _ hs => hs
      | _ => exact triple_throw _ fun _ hs => hs

theorem owned_change {node node' : Node} {s : State} (h : Owned before absolute node s) {path : Path}
    (hpath : s.temporary = some path) :
    Owned before absolute node' (updateTree s path (some node')) := by
  obtain ⟨owned, howned, hne, hbefore, hnode, helsewhere⟩ := h.temporary
  obtain rfl := Option.some.inj (hpath.symm.trans howned)
  refine ⟨h.renamed, ?_, path, howned, hne, hbefore, if_pos rfl, fun other hother hapart => ?_⟩
  · exact (if_neg (Ne.symm hne)).trans h.target
  · have hsame : (updateTree s path (some node')).tree other = s.tree other :=
      if_neg fun h => hapart (congrArg some h)
    rw [hsame]
    exact helsewhere other hother hapart

/-- What a change of the temporary file makes of it. -/
theorem changeTemporary_spec {content : List UInt8} {mode : Nat} {s t : State}
    {change : List UInt8 → Nat → Node} (h : Owned before absolute (.file content mode) s)
    (ht : changeTemporary s change = .ok t) : Owned before absolute (change content mode) t := by
  obtain ⟨path, hpath, -, -, hnode, -⟩ := h.temporary
  unfold changeTemporary at ht
  rw [hpath] at ht
  dsimp only at ht
  rw [hnode] at ht
  cases ht
  exact owned_change h hpath

theorem write_spec (content bytes : List UInt8) (mode : Nat) :
    Triple (Owned before absolute (.file content mode)) (write bytes)
      (fun written => Owned before absolute (.file (content ++ bytes.take written) mode))
      (fun _ => Owned before absolute (.file content mode)) := by
  refine triple_perform (fun _ _ => Owned.quiet) fun count s written t hs h => ?_
  dsimp only at h
  cases hchange : changeTemporary s fun earlier mode =>
      .file (earlier ++ bytes.take (count.getD bytes.length)) mode with
  | error error =>
    rw [hchange] at h
    cases h
  | ok s' =>
    rw [hchange] at h
    cases h
    have hfront : bytes.take (bytes.take (count.getD bytes.length)).length =
        bytes.take (count.getD bytes.length) :=
      (List.prefix_iff_eq_take.mp (List.take_prefix _ _)).symm
    have howned := changeTemporary_spec hs hchange
    rw [hfront]
    exact howned

theorem writeAll_spec (bytes content : List UInt8) (mode : Nat) :
    Triple (Owned before absolute (.file content mode)) (writeAll bytes)
      (fun _ => Owned before absolute (.file (content ++ bytes) mode))
      (fun _ => Thrown before absolute replaced) := by
  have hthrown : ∀ (content : List UInt8) (e : ReplaceError) (s : State),
      Owned before absolute (.file content mode) s → Thrown before absolute replaced s :=
    fun content _ _ hs => .inr (.inl ⟨_, hs⟩)
  rw [writeAll]
  split
  · next hdone =>
    subst hdone
    rw [List.append_nil]
    exact triple_pure _ fun _ hs => hs
  · next hdone =>
    have hlength := List.length_pos_iff.mpr hdone
    refine triple_bind (triple_weaken (write_spec content bytes mode) (fun _ hs => hs)
      (fun _ _ hs => hs) (hthrown content)) fun written => ?_
    split
    · exact triple_throw _ (hthrown _ .writeFailed)
    · next hwritten =>
      refine triple_bind (triple_calm calm_throwIfCancelled (fun _ _ => Owned.quiet) (hthrown _))
        fun _ => ?_
      have hrest := writeAll_spec (bytes.drop written) (content ++ bytes.take written) mode
      rw [List.append_assoc, List.take_append_drop] at hrest
      exact hrest
termination_by bytes.length
decreasing_by
  rw [List.length_drop]
  omega

theorem chmod_spec (content : List UInt8) (mode earlier : Nat) :
    Triple (Owned before absolute (.file content earlier)) (chmod mode)
      (fun _ => Owned before absolute (.file content mode))
      (fun _ => Owned before absolute (.file content earlier)) := by
  refine triple_perform (fun _ _ => Owned.quiet) fun _ s _ t hs h => ?_
  cases hchange : changeTemporary s fun bytes _ => .file bytes mode with
  | error error =>
    rw [hchange] at h
    cases h
  | ok s' =>
    rw [hchange] at h
    cases h
    have howned := changeTemporary_spec hs hchange
    exact howned

/-! ## The target -/

/-- The target has the expected bytes, as far as they are read. -/
def Matches (before : Tree) (absolute : Path) (expectedBytes : Option (List UInt8)) : Prop :=
  ∀ expected ∈ expectedBytes, ∃ content mode, before absolute = some (.file content mode) ∧
    expected = content.take (MAX_EDIT_FILE_BYTES + 1)

theorem read_spec {node : Node} {content : List UInt8} {mode : Nat}
    (hfile : before absolute = some (.file content mode)) (offset limit : Nat) :
    Triple (Owned before absolute node) (read absolute offset limit)
      (fun chunk s => Owned before absolute node s ∧
        ∃ count, 0 < count ∧ chunk = (content.drop offset).take (min limit count))
      (fun _ => Owned before absolute node) := by
  refine triple_perform (fun _ _ => Owned.quiet) fun count s chunk t hs h => ?_
  rw [hs.target, hfile] at h
  cases h
  exact ⟨hs, _, Nat.lt_of_lt_of_le Nat.zero_lt_one (Nat.le_max_left _ _), rfl⟩

theorem readOn_spec {node : Node} {content : List UInt8} {mode : Nat}
    (hfile : before absolute = some (.file content mode)) (fuel begun : Nat)
    (hhave : begun ≤ MAX_EDIT_FILE_BYTES + 1) (hfuel : MAX_EDIT_FILE_BYTES + 2 ≤ fuel + begun)
    (hlength : begun ≤ content.length) :
    Triple (Owned before absolute node) (readOn absolute (content.take begun) fuel)
      (fun bytes s => Owned before absolute node s ∧
        bytes = content.take (MAX_EDIT_FILE_BYTES + 1))
      (fun _ => Owned before absolute node) := by
  have htake : (content.take begun).length = begun := by
    rw [List.length_take]
    omega
  induction fuel generalizing begun with
  | zero => omega
  | succ fuel ih =>
    unfold readOn
    dsimp only
    rw [htake]
    split
    · next hdone =>
      have hall : begun = MAX_EDIT_FILE_BYTES + 1 := by omega
      rw [hall]
      exact triple_pure _ fun s hs => ⟨hs, rfl⟩
    · next hmore =>
      refine triple_bind (read_spec hfile begun _) fun chunk => ?_
      split
      · next hend =>
        refine triple_pure _ fun s hs => ⟨hs.1, ?_⟩
        obtain ⟨count, hcount, hchunk⟩ := hs.2
        have hnone : (content.drop begun).length = 0 := by
          have hzero := congrArg List.length (hchunk.symm.trans hend)
          rw [List.length_take, List.length_nil] at hzero
          omega
        rw [List.length_drop] at hnone
        rw [List.take_of_length_le (by omega), List.take_of_length_le (by omega)]
      · next hsome =>
        intro s hs
        obtain ⟨howned, count, hcount, hchunk⟩ := hs
        have hlengthChunk : chunk.length = min (min (min 8192 (MAX_EDIT_FILE_BYTES + 1 - begun)) count)
            (content.length - begun) := by
          rw [hchunk, List.length_take, List.length_drop]
        have hpositive := List.length_pos_iff.mpr hsome
        have hnext : content.take begun ++ chunk = content.take (begun + chunk.length) := by
          have hfront : chunk = (content.drop begun).take chunk.length := by
            rw [hchunk]
            exact List.prefix_iff_eq_take.mp (List.take_prefix _ _)
          rw [List.take_add, ← hfront]
        rw [hnext]
        exact ih (begun + chunk.length) (by omega) (by omega) (by omega)
          (by rw [List.length_take]; omega) s howned

theorem readBytesBounded_spec {node : Node} {content : List UInt8} {mode : Nat}
    (hfile : before absolute = some (.file content mode)) :
    Triple (Owned before absolute node) (readBytesBounded absolute)
      (fun bytes s => Owned before absolute node s ∧
        bytes = content.take (MAX_EDIT_FILE_BYTES + 1))
      (fun _ => Owned before absolute node) := by
  have hstays : ∀ operation, Triple (Owned before absolute node) (quietly operation)
      (fun _ => Owned before absolute node) (fun _ => Owned before absolute node) := fun operation =>
    triple_calm (calm_quietly operation) (fun _ _ => Owned.quiet) fun _ _ hs => hs
  refine triple_bind (hstays .open) fun _ => ?_
  refine triple_bind (triple_attempt (readOn_spec hfile (MAX_EDIT_FILE_BYTES + 2) 0 (Nat.zero_le _)
    (Nat.le_refl _) (Nat.zero_le _))) fun result => ?_
  cases result with
  | error error =>
    exact triple_bind (hstays .close) fun _ => triple_ofExcept _ (fun _ _ h => by cases h)
      fun _ _ _ hs => hs
  | ok bytes =>
    show Triple (fun s => Owned before absolute node s ∧
      bytes = content.take (MAX_EDIT_FILE_BYTES + 1)) _ _ _
    refine triple_of_fact fun hbytes => ?_
    exact triple_bind (hstays .close) fun _ => triple_ofExcept _
      (fun _ _ h hs => by cases h; exact ⟨hs, hbytes⟩) fun _ _ h => by cases h

theorem current_spec {node : Node} :
    Triple (Owned before absolute node) (current absolute)
      (fun found s => Owned before absolute node s ∧ ∀ target ∈ found, before absolute = some target)
      (fun _ => Owned before absolute node) := by
  have hlstat : Triple (Owned before absolute node) (lstat absolute)
      (fun found s => Owned before absolute node s ∧ before absolute = some found)
      (fun _ => Owned before absolute node) := by
    refine triple_perform (fun _ _ => Owned.quiet) fun _ s found t hs h => ?_
    rw [hs.target] at h
    split at h
    · next target htarget =>
      cases h
      exact ⟨hs, htarget⟩
    · cases h
  refine triple_bind (triple_attempt hlstat) fun result => ?_
  cases result with
  | ok found =>
    exact triple_pure _ fun s hs => ⟨hs.1, fun target htarget => by
      cases htarget
      exact hs.2⟩
  | error error =>
    cases error with
    | file error =>
      cases error with
      | notFound => exact triple_pure _ fun s hs => ⟨hs, fun _ h => by cases h⟩
      | alreadyExists => exact triple_throw _ fun _ hs => hs
      | failed => exact triple_throw _ fun _ hs => hs
    | _ => exact triple_throw _ fun _ hs => hs

/-- A target that is accepted has the expected bytes. -/
theorem checkTarget_spec {node : Node} (expectedBytes : Option (List UInt8)) :
    Triple (Owned before absolute node) (checkTarget absolute expectedBytes)
      (fun _ s => Owned before absolute node s ∧ Matches before absolute expectedBytes)
      (fun _ => Owned before absolute node) := by
  refine triple_bind current_spec fun found => ?_
  refine triple_of_fact fun hfound => ?_
  cases found with
  | none =>
    cases expectedBytes with
    | none => exact triple_pure _ fun s hs => ⟨hs, fun _ h => by cases h⟩
    | some expected => exact triple_throw _ fun _ hs => hs
  | some target =>
    cases target with
    | file content mode =>
      have hfile := hfound _ rfl
      cases expectedBytes with
      | none => exact triple_pure _ fun s hs => ⟨hs, fun _ h => by cases h⟩
      | some expected =>
        refine triple_bind (readBytesBounded_spec hfile) fun latest => ?_
        refine triple_of_fact fun hlatest => ?_
        refine triple_bind (triple_calm calm_throwIfCancelled (fun _ _ => Owned.quiet)
          fun _ _ hs => hs) fun _ => ?_
        split
        · next hequal =>
          refine triple_pure _ fun s hs => ⟨hs, fun other hother => ?_⟩
          cases hother
          exact ⟨content, mode, hfile, (eq_of_beq hequal).trans hlatest⟩
        · exact triple_throw _ fun _ hs => hs
    | directory => exact triple_throw _ fun _ hs => hs
    | symlink => exact triple_throw _ fun _ hs => hs
    | other => exact triple_throw _ fun _ hs => hs

theorem rename_spec {node : Node} :
    Triple (Owned before absolute node) (rename absolute)
      (fun _ => Replaced before absolute node) (fun _ => Owned before absolute node) := by
  refine triple_perform (fun _ _ => Owned.quiet) fun _ s _ t hs h => ?_
  obtain ⟨path, hpath, hne, hbefore, hnode, helsewhere⟩ := hs.temporary
  rw [hpath] at h
  dsimp only at h
  rw [hnode] at h
  dsimp only at h
  split at h
  · cases h
  · cases h
    refine ⟨rfl, rfl, ?_, fun other hother _ => ?_⟩
    · exact (if_neg (Ne.symm hne)).trans (if_pos rfl)
    · by_cases hsame : other = path
      · subst hsame
        exact .inl ((if_pos rfl).trans hbefore.symm)
      · have htree : (updateTree (updateTree s absolute (some node)) path none).tree other =
            s.tree other := (if_neg hsame).trans (if_neg hother)
        show (updateTree (updateTree s absolute (some node)) path none).tree other = before other ∨
          before other = none ∧
            (updateTree (updateTree s absolute (some node)) path none).tree other = some .directory
        rw [htree]
        exact helsewhere other hother fun h => hsame (Option.some.inj h)

/-! ## The whole replacement -/

section Replace

variable (root : Path) (pathPolicy : Bool) (bytes : List UInt8) (mode : Nat)
  (expectedBytes : Option (List UInt8))

/-- The target is the new file, and was one that may be replaced. -/
def Committed (before : Tree) (absolute : Path) (bytes : List UInt8) (mode : Nat)
    (expectedBytes : Option (List UInt8)) (s : State) : Prop :=
  Replaced before absolute (.file bytes mode) s ∧ Matches before absolute expectedBytes

/-- The stages of the `try` block, and where a throw leaves the tree. -/
theorem replaceFile_spec :
    Triple (Unowned before absolute)
      (replaceFile root pathPolicy absolute bytes mode expectedBytes)
      (fun _ => Committed before absolute bytes mode expectedBytes)
      (fun _ => Thrown before absolute (Committed before absolute bytes mode expectedBytes)) := by
  have howned : ∀ {node : Node} {m : Code Unit}, Calm absolute m →
      Triple (Owned before absolute node) m (fun _ => Owned before absolute node)
        (fun _ => Thrown before absolute (Committed before absolute bytes mode expectedBytes)) :=
    fun hm => triple_calm hm (fun _ _ => Owned.quiet) fun _ _ hs => .inr (.inl ⟨_, hs⟩)
  have hcommitted : ∀ {m : Code Unit}, Calm absolute m →
      Triple (Committed before absolute bytes mode expectedBytes) m
        (fun _ => Committed before absolute bytes mode expectedBytes)
        (fun _ => Thrown before absolute (Committed before absolute bytes mode expectedBytes)) :=
    fun hm => triple_calm hm (fun _ _ hquiet hs => ⟨hs.1.quiet hquiet, hs.2⟩)
      fun _ _ hs => .inr (.inr hs)
  have hparent := fun create => @calm_ensureParent absolute root pathPolicy create
  refine triple_bind (triple_weaken (openTemporary_spec TEMP_ATTEMPTS 0) (fun _ hs => hs)
    (fun _ _ hs => hs) fun _ _ hs => .inl hs) fun _ => ?_
  refine triple_bind (howned calm_throwIfCancelled) fun _ => ?_
  refine triple_bind (writeAll_spec bytes [] 0o600) fun _ => ?_
  refine triple_bind (howned (calm_quietly .sync)) fun _ => ?_
  refine triple_bind (howned calm_throwIfCancelled) fun _ => ?_
  refine triple_bind (triple_weaken (chmod_spec bytes mode 0o600) (fun _ hs => hs)
    (fun _ _ hs => hs) fun _ _ hs => .inr (.inl ⟨_, hs⟩)) fun _ => ?_
  refine triple_bind (howned calm_throwIfCancelled) fun _ => ?_
  refine triple_bind (howned calm_close) fun _ => ?_
  refine triple_bind (howned (calm_quietly .beforeRename)) fun _ => ?_
  refine triple_bind (howned calm_throwIfCancelled) fun _ => ?_
  refine triple_bind (howned (hparent true)) fun _ => ?_
  refine triple_bind (howned (hparent false)) fun _ => ?_
  refine triple_bind (triple_weaken (checkTarget_spec expectedBytes) (fun _ hs => hs)
    (fun _ _ hs => hs) fun _ _ hs => .inr (.inl ⟨_, hs⟩)) fun _ => ?_
  refine triple_of_fact fun hmatches => ?_
  refine triple_bind (howned calm_throwIfCancelled) fun _ => ?_
  refine triple_bind (triple_weaken rename_spec (fun _ hs => hs)
    (fun _ s hs => (⟨hs, hmatches⟩ : Committed before absolute bytes mode expectedBytes s))
    fun _ _ hs => .inr (.inl ⟨_, hs⟩)) fun _ => ?_
  refine triple_bind (hcommitted (calm_quietly .afterRename)) fun _ => ?_
  exact hcommitted calm_throwIfCancelled

/-! ## The cleanup -/

/-- No temporary file is left, unless the cleanup failed. -/
structure Settled (before : Tree) (absolute : Path) (bytes : List UInt8) (mode : Nat)
    (expectedBytes : Option (List UInt8)) (s : State) : Prop where
  kept : s.renamed = false → s.tree absolute = before absolute
  replaced : s.renamed = true →
    s.tree absolute = some (.file bytes mode) ∧ Matches before absolute expectedBytes
  elsewhere : ∀ path, path ≠ absolute → s.tree path = before path ∨
    before path = none ∧ (s.tree path = some .directory ∨ .cleanupTemporary ∈ s.failed ∨
      .remove ∈ s.failed)

theorem settled_unowned {s : State} (h : Unowned before absolute s) :
    Settled before absolute bytes mode expectedBytes s where
  kept _ := h.target
  replaced hrenamed := by
    rw [h.renamed] at hrenamed
    cases hrenamed
  elsewhere path hpath := (h.elsewhere path hpath (by simp)).imp_right fun hnew =>
    ⟨hnew.1, .inl hnew.2⟩

theorem settled_committed {s : State} (h : Committed before absolute bytes mode expectedBytes s) :
    Settled before absolute bytes mode expectedBytes s where
  kept hrenamed := by
    rw [h.1.renamed] at hrenamed
    cases hrenamed
  replaced _ := ⟨h.1.target, h.2⟩
  elsewhere path hpath := (h.1.elsewhere path hpath (by simp)).imp_right fun hnew =>
    ⟨hnew.1, .inl hnew.2⟩

theorem settled_owned {node : Node} {s : State} (h : Owned before absolute node s)
    (hfailed : .cleanupTemporary ∈ s.failed ∨ .remove ∈ s.failed) :
    Settled before absolute bytes mode expectedBytes s where
  kept _ := h.target
  replaced hrenamed := by
    rw [h.renamed] at hrenamed
    cases hrenamed
  elsewhere path hpath := by
    obtain ⟨owned, -, -, hbefore, -, helsewhere⟩ := h.temporary
    by_cases hsame : path = owned
    · exact .inr ⟨hsame ▸ hbefore, .inr hfailed⟩
    · exact (helsewhere path hpath fun h => hsame (Option.some.inj h)).imp_right fun hnew =>
        ⟨hnew.1, .inl hnew.2⟩

/-- A failed operation is on record. -/
theorem perform_failed {operation : Operation}
    {act : Option Nat → State → Except FileError (α × State)} {s t : State} {e : ReplaceError}
    (h : run (perform operation act) s = (.error e, t)) : operation ∈ t.failed := by
  obtain ⟨fates, aborted, ⟨count, a, u, -, hrun⟩ | ⟨error, hrun⟩⟩ := run_perform operation act s
  · rw [hrun] at h
    cases h
  · rw [hrun] at h
    cases h
    exact List.mem_cons_self

/-- A removal leaves no temporary file, or is on record as failed. -/
theorem removeTemporary_spec {node : Node} (temporary : Path) :
    Triple (fun s => Owned before absolute node s ∧ s.temporary = some temporary)
      (removeTemporary temporary)
      (fun _ => Settled before absolute bytes mode expectedBytes)
      (fun _ => Settled before absolute bytes mode expectedBytes) := by
  have hquiet : ∀ s t, Quiet absolute s t →
      Owned before absolute node s ∧ s.temporary = some temporary →
      Owned before absolute node t ∧ t.temporary = some temporary :=
    fun s t hquiet hs => ⟨hs.1.quiet hquiet, hquiet.temporary.trans hs.2⟩
  have hfailed : ∀ {α : Type} {operation : Operation}
      {act : Option Nat → State → Except FileError (α × State)} {Q : α → State → Prop},
      (operation = .cleanupTemporary ∨ operation = .remove) →
      (∀ count s a t, Owned before absolute node s ∧ s.temporary = some temporary →
        act count s = .ok (a, t) → Q a t) →
      Triple (fun s => Owned before absolute node s ∧ s.temporary = some temporary)
        (perform operation act) Q (fun _ => Settled before absolute bytes mode expectedBytes) := by
    intro α operation act Q hoperation hact s hs
    have hends := (triple_perform hquiet hact :
      Triple _ (perform operation act) _ fun _ => _) s hs
    rcases hrun : run (perform operation act) s with ⟨e | a, t⟩ <;> rw [hrun] at hends
    · have hmem := perform_failed hrun
      refine settled_owned bytes mode expectedBytes hends.1 ?_
      rcases hoperation with rfl | rfl
      · exact .inl hmem
      · exact .inr hmem
    · exact hends
  refine triple_bind (hfailed (.inl rfl) fun _ s _ t hs h => ?_) fun _ =>
    hfailed (.inr rfl) fun _ s _ t hs h => ?_
  · cases h
    exact hs
  · split at h
    · cases h
    · cases h
      obtain ⟨howned, htemporary⟩ := hs
      obtain ⟨path, hpath, hne, hbefore, -, helsewhere⟩ := howned.temporary
      obtain rfl := Option.some.inj (htemporary.symm.trans hpath)
      refine ⟨fun _ => (if_neg (Ne.symm hne)).trans howned.target, fun hrenamed => ?_,
        fun other hother => ?_⟩
      · exact absurd (howned.renamed.symm.trans hrenamed) Bool.false_ne_true
      · by_cases hsame : other = temporary
        · subst hsame
          exact .inl ((if_pos rfl).trans hbefore.symm)
        · have htree : (updateTree s temporary none).tree other = s.tree other := if_neg hsame
          rw [htree]
          exact (helsewhere other hother fun h => hsame (Option.some.inj h)).imp_right fun hnew =>
            ⟨hnew.1, .inl hnew.2⟩

theorem cleanupPart_spec {P Q : State → Prop} {E : ReplaceError → State → Prop} {part : Code Unit}
    (h : Triple P part (fun _ => Q) (fun _ => Q)) : Triple P (cleanupPart part) (fun _ => Q) E := by
  refine triple_bind (triple_attempt h) fun result => ?_
  cases result with
  | ok _ => exact triple_pure _ fun _ hs => hs
  | error _ => exact triple_get_bind fun _ => triple_pure _ fun _ hs => hs

/-- The close of the temporary file is calm. -/
theorem closing_spec {P : State → Prop} {E : ReplaceError → State → Prop} (file : Bool)
    (hP : ∀ s t, Quiet absolute s t → P s → P t) :
    Triple P (closeFile file) (fun _ => P) E := by
  cases file with
  | false => exact triple_pure _ fun _ hs => hs
  | true => exact cleanupPart_spec (triple_calm calm_close hP fun _ _ hs => hs)

/-- The cleanup without a temporary file. -/
theorem cleanup_unowned {P : State → Prop} {E : ReplaceError → State → Prop}
    (hP : ∀ s t, Quiet absolute s t → P s → P t) (hnone : ∀ s, P s → s.temporary = none) :
    Triple P cleanup (fun _ => P) E := by
  refine triple_read fun s₀ hs₀ => ?_
  rw [hnone s₀ hs₀]
  have hclosing : Triple (s₀ = ·) (closeFile s₀.file)
      (fun _ => P) E := fun s hs => closing_spec s₀.file hP s (hs ▸ hs₀)
  exact triple_bind hclosing fun closing => triple_pure _ fun _ hs => hs

theorem cleanup_owned {node : Node} {E : ReplaceError → State → Prop} :
    Triple (Owned before absolute node) cleanup
      (fun _ => Settled before absolute bytes mode expectedBytes) E := by
  refine triple_read fun s₀ hs₀ => ?_
  obtain ⟨temporary, htemporary, -⟩ := hs₀.temporary
  rw [htemporary]
  have hclosing : Triple (s₀ = ·) (closeFile s₀.file)
      (fun _ s => Owned before absolute node s ∧ s.temporary = some temporary) E := fun s hs =>
    closing_spec s₀.file (fun s t hquiet hs => ⟨hs.1.quiet hquiet, hquiet.temporary.trans hs.2⟩) s
      (hs ▸ ⟨hs₀, htemporary⟩)
  refine triple_bind hclosing fun closing => ?_
  refine triple_bind (cleanupPart_spec (removeTemporary_spec bytes mode expectedBytes temporary))
    fun removing => ?_
  exact triple_pure _ fun _ hs => hs

end Replace

/-- The state in which a replacement begins. -/
structure Fresh (s : State) : Prop where
  temporary : s.temporary = none
  file : s.file = false
  renamed : s.renamed = false
  failed : s.failed = []

/-- A replacement is all or nothing, whatever fails and whenever the turn is cancelled. -/
theorem atomicReplace_spec (root : Path) (pathPolicy : Bool) (bytes : List UInt8) (mode : Nat)
    (expectedBytes : Option (List UInt8)) {s t : State} {result : Except ReplaceError Unit}
    (hs : Fresh s)
    (hrun : run (atomicReplace root pathPolicy absolute bytes mode expectedBytes) s = (result, t)) :
    Settled s.tree absolute bytes mode expectedBytes t ∧ (result = .ok () → t.renamed = true) := by
  have hstart : Unowned s.tree absolute s :=
    ⟨hs.temporary, hs.renamed, rfl, fun _ _ _ => .inl rfl⟩
  have hunowned : ∀ {m : Code Unit}, Calm absolute m →
      Triple (Unowned s.tree absolute) m (fun _ => Unowned s.tree absolute)
        (fun _ => Settled s.tree absolute bytes mode expectedBytes) :=
    fun hm => triple_calm hm (fun _ _ => Unowned.quiet) fun _ _ hs =>
      settled_unowned bytes mode expectedBytes hs
  have hwhole : Triple (Unowned s.tree absolute)
      (atomicReplace root pathPolicy absolute bytes mode expectedBytes)
      (fun _ t => Settled s.tree absolute bytes mode expectedBytes t ∧ t.renamed = true)
      (fun _ => Settled s.tree absolute bytes mode expectedBytes) := by
    refine triple_bind (hunowned calm_throwIfCancelled) fun _ => ?_
    refine triple_bind (hunowned (calm_ensureParent root pathPolicy true)) fun _ => ?_
    refine triple_bind (triple_attempt (replaceFile_spec root pathPolicy bytes mode expectedBytes))
      fun result => ?_
    cases result with
    | ok _ =>
      refine triple_bind (@cleanup_unowned absolute (Committed s.tree absolute bytes mode
        expectedBytes) _ (fun _ _ hquiet hs => ⟨hs.1.quiet hquiet, hs.2⟩)
        fun _ hs => hs.1.temporary) fun cleanupError => ?_
      cases cleanupError with
      | false =>
        exact triple_pure _ fun _ hs =>
          ⟨settled_committed bytes mode expectedBytes hs, hs.1.renamed⟩
      | true => exact triple_throw _ fun _ hs => settled_committed bytes mode expectedBytes hs
    | error error =>
      have hcleanup : Triple (Thrown s.tree absolute (Committed s.tree absolute bytes mode
          expectedBytes)) cleanup (fun _ => Settled s.tree absolute bytes mode expectedBytes)
          (fun _ => Settled s.tree absolute bytes mode expectedBytes) := by
        rintro t (ht | ⟨node, ht⟩ | ht)
        · exact triple_weaken (@cleanup_unowned absolute (Unowned s.tree absolute)
            (fun _ => Settled s.tree absolute bytes mode expectedBytes) (fun _ _ => Unowned.quiet)
            fun _ hs => hs.temporary) (fun _ hs => hs)
            (fun _ _ hs => settled_unowned bytes mode expectedBytes hs) (fun _ _ hs => hs) t ht
        · exact cleanup_owned bytes mode expectedBytes t ht
        · exact triple_weaken (@cleanup_unowned absolute (Committed s.tree absolute bytes mode
            expectedBytes) (fun _ => Settled s.tree absolute bytes mode expectedBytes)
            (fun _ _ hquiet hs => ⟨hs.1.quiet hquiet, hs.2⟩) fun _ hs => hs.1.temporary)
            (fun _ hs => hs) (fun _ _ hs => settled_committed bytes mode expectedBytes hs)
            (fun _ _ hs => hs) t ht
      refine triple_bind hcleanup fun cleanupError => ?_
      cases cleanupError with
      | false => exact triple_ofExcept _ (fun _ _ h => by cases h) fun _ _ _ hs => hs
      | true => exact triple_throw _ fun _ hs => hs
  cases result with
  | ok _ =>
    obtain ⟨hsettled, hrenamed⟩ := hwhole.ok hstart hrun
    exact ⟨hsettled, fun _ => hrenamed⟩
  | error error => exact ⟨hwhole.error hstart hrun, fun h => by cases h⟩

end Stages

/-! ## One replacement -/

/-- A working directory with one file. -/
def exampleTree : Tree := fun path =>
  if path = [] ∨ path = ["w"] then some .directory
  else if path = ["w", "a"] then some (.file [1, 2] 0o644)
  else none

def exampleState (fates : List Fate) : State where
  tree := exampleTree
  aborted := false
  fates := fates
  temporary := none
  file := false
  renamed := false
  failed := []

/-- The turn is cancelled while the temporary file is opened, and the hook of the cleanup fails. -/
def failedCleanup : List Fate := [⟨none, true, 0⟩, ⟨none, false, 0⟩, ⟨some .failed, false, 0⟩]

theorem atomicReplace_spec_example : ∃ result t,
    run (atomicReplace ["w"] false ["w", "a"] [7, 8, 9] 0o644 (some [1, 2]))
      (exampleState failedCleanup) = (result, t) ∧
    Settled exampleTree ["w", "a"] [7, 8, 9] 0o644 (some [1, 2]) t ∧
    (result = .ok () → t.renamed = true) :=
  ⟨_, _, rfl, @atomicReplace_spec ["w", "a"] ["w"] false [7, 8, 9] 0o644 (some [1, 2])
    (exampleState failedCleanup) _ _ ⟨rfl, rfl, rfl, rfl⟩ rfl⟩

/-- The temporary file remains although its removal did not fail. -/
theorem temporary_remains_without_removal :
    let t := (run (atomicReplace ["w"] false ["w", "a"] [7, 8, 9] 0o644 (some [1, 2]))
      (exampleState failedCleanup)).2
    exampleTree ["w", ".a.henji-0"] = none ∧ t.tree ["w", ".a.henji-0"] = some (.file [] 0o600) ∧
      .remove ∉ t.failed := by
  decide +kernel

end Henji.AtomicReplace
