/-!
# Code with a state and exceptions

`Effect ε σ α` is code that reads and writes a state `σ` and either returns an `α` or throws an
`ε`. What it wrote before a throw stays written, so a caller that catches nothing leaves the state
as the throwing call left it.

`Triple P m Q E` says how code ends when it starts in a state of `P`: in `Q` when it returns and in
`E` when it throws. The rules follow the constructors; `Keeps I m` is the case of one invariant for
both ends.
-/

namespace Henji

def Effect (ε σ α : Type) : Type := σ → Except ε α × σ

namespace Effect

variable {ε σ α β : Type}

def run (m : Effect ε σ α) (s : σ) : Except ε α × σ := m s

instance : Monad (Effect ε σ) where
  pure a := fun s => (.ok a, s)
  bind m f := fun s => match m s with
    | (.ok a, s) => f a s
    | (.error e, s) => (.error e, s)

instance : MonadStateOf σ (Effect ε σ) where
  get := fun s => (.ok s, s)
  set s := fun _ => (.ok (), s)
  modifyGet f := fun s => (.ok (f s).1, (f s).2)

instance : MonadExceptOf ε (Effect ε σ) where
  throw e := fun s => (.error e, s)
  tryCatch m handle := fun s => match m s with
    | (.ok a, s) => (.ok a, s)
    | (.error e, s) => handle e s

/-- Run `cleanup` after `m`, whichever way `m` ends. -/
def finallyDo (m : Effect ε σ α) (cleanup : σ → σ) : Effect ε σ α := fun s =>
  ((m s).1, cleanup (m s).2)

/-- `try`: how `m` ended is a value, and what it wrote stays written. -/
def attempt (m : Effect ε σ α) : Effect ε σ (Except ε α) := fun s => (.ok (m s).1, (m s).2)

/-- A result that is already there. -/
def ofExcept (result : Except ε α) : Effect ε σ α := fun s => (result, s)

/-- The code of a port: a function of the state that reports its own failures. -/
def ofPort (f : σ → Except ε α × σ) : Effect ε σ α := f

/-- The state after a run, whichever way it ended. -/
def exec (m : Effect ε σ α) (s : σ) : σ := (run m s).2

/-! ## Running -/

@[simp] theorem run_pure (a : α) (s : σ) : run (pure a : Effect ε σ α) s = (.ok a, s) := rfl

theorem run_bind (m : Effect ε σ α) (f : α → Effect ε σ β) (s : σ) :
    run (m >>= f) s = match run m s with
      | (.ok a, s) => run (f a) s
      | (.error e, s) => (.error e, s) := rfl

@[simp] theorem run_throw (e : ε) (s : σ) :
    run (throw e : Effect ε σ α) s = (.error e, s) := rfl

@[simp] theorem run_get (s : σ) : run (get : Effect ε σ σ) s = (.ok s, s) := rfl

@[simp] theorem run_set (s t : σ) : run (set t : Effect ε σ PUnit) s = (.ok ⟨⟩, t) := rfl

@[simp] theorem run_modify (f : σ → σ) (s : σ) :
    run (modify f : Effect ε σ PUnit) s = (.ok ⟨⟩, f s) := rfl

theorem run_bind_ok {m : Effect ε σ α} {f : α → Effect ε σ β} {s t : σ} {a : α}
    (h : run m s = (.ok a, t)) : run (m >>= f) s = run (f a) t := by
  rw [run_bind, h]

theorem run_bind_error {m : Effect ε σ α} {f : α → Effect ε σ β} {s t : σ} {e : ε}
    (h : run m s = (.error e, t)) : run (m >>= f) s = (.error e, t) := by
  rw [run_bind, h]

/-- A sequence that returns went through both of its parts. -/
theorem exists_of_run_bind {m : Effect ε σ α} {f : α → Effect ε σ β} {s u : σ} {b : β}
    (h : run (m >>= f) s = (.ok b, u)) :
    ∃ a t, run m s = (.ok a, t) ∧ run (f a) t = (.ok b, u) := by
  rw [run_bind] at h
  cases hm : run m s with
  | mk result t =>
    rw [hm] at h
    cases result with
    | error e => cases h
    | ok a => exact ⟨a, t, rfl, h⟩

theorem of_run_throw {e : ε} {s t : σ} {a : α} {φ : Prop}
    (h : run (throw e : Effect ε σ α) s = (.ok a, t)) : φ := by
  cases h

theorem of_run_pure {a b : α} {s t : σ} (h : run (pure a : Effect ε σ α) s = (.ok b, t)) :
    b = a ∧ t = s := by
  cases h
  exact ⟨rfl, rfl⟩

theorem of_run_ofExcept {result : Except ε α} {a : α} {s t : σ}
    (h : run (ofExcept result : Effect ε σ α) s = (.ok a, t)) : result = .ok a ∧ t = s := by
  cases result with
  | error e => cases h
  | ok b =>
    cases h
    exact ⟨rfl, rfl⟩

theorem of_run_bind_ofExcept {result : Except ε α} {f : α → Effect ε σ β} {b : β} {s u : σ}
    (h : run (ofExcept result >>= f) s = (.ok b, u)) :
    ∃ a, result = .ok a ∧ run (f a) s = (.ok b, u) := by
  cases result with
  | error e => cases h
  | ok a => exact ⟨a, rfl, h⟩

theorem exec_of_run {m : Effect ε σ α} {s t : σ} {r : Except ε α} (h : run m s = (r, t)) :
    exec m s = t := congrArg Prod.snd h

theorem exec_bind_ok {m : Effect ε σ α} {f : α → Effect ε σ β} {s t : σ} {a : α}
    (h : run m s = (.ok a, t)) : exec (m >>= f) s = exec (f a) t :=
  congrArg Prod.snd (run_bind_ok h)

theorem exec_bind_error {m : Effect ε σ α} {f : α → Effect ε σ β} {s t : σ} {e : ε}
    (h : run m s = (.error e, t)) : exec (m >>= f) s = t :=
  congrArg Prod.snd (run_bind_error h)

/-! ## Triples -/

/-- Started in `P`, the code returns in `Q` or throws in `E`. -/
def Triple (P : σ → Prop) (m : Effect ε σ α) (Q : α → σ → Prop) (E : ε → σ → Prop) : Prop :=
  ∀ s, P s → match run m s with
    | (.ok a, t) => Q a t
    | (.error e, t) => E e t

variable {P P' : σ → Prop} {Q Q' : α → σ → Prop} {R : β → σ → Prop} {E E' : ε → σ → Prop}

theorem Triple.ok {m : Effect ε σ α} (h : Triple P m Q E) {s t : σ} {a : α} (hs : P s)
    (hr : run m s = (.ok a, t)) : Q a t := by
  have := h s hs
  rwa [hr] at this

theorem Triple.error {m : Effect ε σ α} (h : Triple P m Q E) {s t : σ} {e : ε} (hs : P s)
    (hr : run m s = (.error e, t)) : E e t := by
  have := h s hs
  rwa [hr] at this

theorem triple_pure (a : α) (h : ∀ s, P s → Q a s) : Triple P (pure a) Q E :=
  fun s hs => h s hs

theorem triple_throw (e : ε) (h : ∀ s, P s → E e s) :
    Triple P (throw e : Effect ε σ α) Q E :=
  fun s hs => h s hs

theorem triple_ofExcept (result : Except ε α) (hok : ∀ a s, result = .ok a → P s → Q a s)
    (herror : ∀ e s, result = .error e → P s → E e s) :
    Triple P (ofExcept result : Effect ε σ α) Q E := by
  intro s hs
  cases result with
  | error e => exact herror e s rfl hs
  | ok a => exact hok a s rfl hs

/-- Code that goes on with the state it reads: the rest may start from any state of `P`. -/
theorem triple_get_bind {f : σ → Effect ε σ α} (h : ∀ s₀, Triple P (f s₀) Q E) :
    Triple P (get >>= f) Q E :=
  fun s hs => h s s hs

/-- The same, where the rest needs to know the state that was read. -/
theorem triple_read {f : σ → Effect ε σ α} (h : ∀ s₀, P s₀ → Triple (s₀ = ·) (f s₀) Q E) :
    Triple P (get >>= f) Q E :=
  fun s hs => h s hs s rfl

theorem triple_modify (f : σ → σ) {Q : PUnit → σ → Prop} (h : ∀ s, P s → Q ⟨⟩ (f s)) :
    Triple P (modify f : Effect ε σ PUnit) Q E :=
  fun s hs => h s hs

/-- Sequencing: the middle assertion is what the first part establishes. -/
theorem triple_bind {m : Effect ε σ α} {f : α → Effect ε σ β} (hm : Triple P m Q E)
    (hf : ∀ a, Triple (Q a) (f a) R E) : Triple P (m >>= f) R E := by
  intro s hs
  rw [run_bind]
  have h := hm s hs
  rcases hr : run m s with ⟨_ | a, t⟩
  · rw [hr] at h
    exact h
  · rw [hr] at h
    exact hf a t h

theorem triple_weaken {m : Effect ε σ α} (h : Triple P m Q E) (hP : ∀ s, P' s → P s)
    (hQ : ∀ a s, Q a s → Q' a s) (hE : ∀ e s, E e s → E' e s) : Triple P' m Q' E' := by
  intro s hs
  have h := h s (hP s hs)
  rcases hr : run m s with ⟨_ | a, t⟩
  · rw [hr] at h
    exact hE _ _ h
  · rw [hr] at h
    exact hQ _ _ h

/-- Two things that are known of both ends. -/
theorem triple_and {m : Effect ε σ α} (h : Triple P m Q E) (h' : Triple P' m Q' E') :
    Triple (fun s => P s ∧ P' s) m (fun a s => Q a s ∧ Q' a s) (fun e s => E e s ∧ E' e s) := by
  intro s hs
  have h := h s hs.1
  have h' := h' s hs.2
  rcases hr : run m s with ⟨_ | a, t⟩ <;> rw [hr] at h h' <;> exact ⟨h, h'⟩

/-- Both ends of the attempted code are ends of the attempt. -/
theorem triple_attempt {m : Effect ε σ α} (h : Triple P m Q E') :
    Triple P (attempt m) (fun r s => match r with
      | .ok a => Q a s
      | .error e => E' e s) E := by
  intro s hs
  have h := h s hs
  show match run m s with | (r, t) => match r with | .ok a => Q a t | .error e => E' e t
  rcases hr : run m s with ⟨_ | a, t⟩ <;> rw [hr] at h <;> exact h

theorem triple_of_fact {φ : Prop} {m : Effect ε σ α} (h : φ → Triple P m Q E) :
    Triple (fun s => P s ∧ φ) m Q E :=
  fun s ⟨hs, hφ⟩ => h hφ s hs

theorem triple_exists {ι : Type} {P : ι → σ → Prop} {m : Effect ε σ α}
    (h : ∀ i, Triple (P i) m Q E) : Triple (fun s => ∃ i, P i s) m Q E :=
  fun s ⟨i, hs⟩ => h i s hs

/-- What both ends satisfy still holds after a cleanup that keeps it. -/
theorem triple_finallyDo {m : Effect ε σ α} {cleanup : σ → σ} (h : Triple P m Q E)
    (hQ : ∀ a s, Q a s → Q a (cleanup s)) (hE : ∀ e s, E e s → E e (cleanup s)) :
    Triple P (finallyDo m cleanup) Q E := by
  intro s hs
  have h := h s hs
  show match ((run m s).1, cleanup (run m s).2) with
    | (.ok a, t) => Q a t
    | (.error e, t) => E e t
  rcases hr : run m s with ⟨e | a, t⟩ <;> rw [hr] at h
  · exact hE e t h
  · exact hQ a t h

/-! ## Invariants -/

/-- The invariant survives the code, also when the code throws. -/
def Keeps (I : σ → Prop) (m : Effect ε σ α) : Prop := Triple I m (fun _ => I) (fun _ => I)

variable {I : σ → Prop}

theorem keeps_iff {m : Effect ε σ α} : Keeps I m ↔ ∀ s, I s → I (run m s).2 := by
  refine forall_congr' fun s => imp_congr_right fun _ => ?_
  rcases run m s with ⟨_ | a, t⟩ <;> rfl

/-- What an invariant says about code whose errors do not matter. -/
theorem triple_of_keeps {m : Effect ε σ α} (hm : Keeps I m) :
    Triple I m (fun _ => I) (fun _ _ => True) :=
  triple_weaken hm (fun _ hs => hs) (fun _ _ hs => hs) (fun _ _ _ => trivial)

theorem keeps_pure (a : α) : Keeps I (pure a : Effect ε σ α) := fun _ hs => hs

theorem keeps_throw (e : ε) : Keeps I (throw e : Effect ε σ α) := fun _ hs => hs

theorem keeps_get : Keeps I (get : Effect ε σ σ) := fun _ hs => hs

theorem keeps_modify (f : σ → σ) (h : ∀ s, I s → I (f s)) :
    Keeps I (modify f : Effect ε σ PUnit) := fun s hs => h s hs

theorem keeps_bind {m : Effect ε σ α} {f : α → Effect ε σ β} (hm : Keeps I m)
    (hf : ∀ a, Keeps I (f a)) : Keeps I (m >>= f) := triple_bind hm hf

/-- An attempt does not throw. -/
theorem triple_attempt_keeps {m : Effect ε σ α} (hm : Keeps I m) :
    Triple I (attempt m) (fun _ => I) E :=
  triple_weaken (triple_attempt hm) (fun _ hs => hs)
    (fun r _ hs => by cases r <;> exact hs) (fun _ _ hs => hs)

theorem keeps_attempt {m : Effect ε σ α} (hm : Keeps I m) : Keeps I (attempt m) :=
  triple_attempt_keeps hm

theorem keeps_ite {c : Prop} [Decidable c] {m n : Effect ε σ α} (hm : Keeps I m)
    (hn : Keeps I n) : Keeps I (if c then m else n) := by
  split
  · exact hm
  · exact hn

end Effect

end Henji
