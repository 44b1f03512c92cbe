/-!
# Runs of an event system

A system is a step function that says for a state and an event what the next state is, or that the
event cannot happen there. `run` folds it over a list of events. The rules below carry what every
step preserves over a whole run; `Throughout` restricts a run to steps that meet a condition.
-/

namespace Henji

namespace Runs

variable {σ ε : Type} (step : σ → ε → Option σ)

/-- A run of events; `none` where one of them cannot happen. -/
def run (s : σ) : List ε → Option σ
  | [] => some s
  | event :: events => (step s event).bind fun next => run next events

/-- Every step of the run meets the condition in the state where it is taken. -/
def Throughout (condition : σ → ε → Prop) (s : σ) : List ε → Prop
  | [] => True
  | event :: events =>
    condition s event ∧ ∀ next, step s event = some next → Throughout condition next events

variable {step} {s t : σ} {events : List ε}

/-- The rule of runs: what every step keeps holds at the end of a run. -/
theorem run_keeps {P : σ → Prop} (hstep : ∀ {s t event}, P s → step s event = some t → P t)
    (h : P s) (hrun : run step s events = some t) : P t := by
  induction events generalizing s with
  | nil => exact Option.some.inj hrun ▸ h
  | cons event events ih =>
    obtain ⟨middle, hmiddle, hrest⟩ := Option.bind_eq_some_iff.mp hrun
    exact ih (hstep h hmiddle) hrest

/-- The rule of runs whose steps meet a condition. -/
theorem run_keeps_throughout {P : σ → Prop} {condition : σ → ε → Prop}
    (hstep : ∀ {s t event}, P s → condition s event → step s event = some t → P t)
    (h : P s) (hall : Throughout step condition s events) (hrun : run step s events = some t) :
    P t := by
  induction events generalizing s with
  | nil => exact Option.some.inj hrun ▸ h
  | cons event events ih =>
    obtain ⟨middle, hmiddle, hrest⟩ := Option.bind_eq_some_iff.mp hrun
    exact ih (hstep h hall.1 hmiddle) (hall.2 middle hmiddle) hrest

theorem throughout_append {condition : σ → ε → Prop} {first second : List ε} {middle : σ}
    (h : Throughout step condition s (first ++ second)) (hrun : run step s first = some middle) :
    Throughout step condition middle second := by
  induction first generalizing s with
  | nil => exact Option.some.inj hrun ▸ h
  | cons event first ih =>
    obtain ⟨next, hnext, hrest⟩ := Option.bind_eq_some_iff.mp hrun
    exact ih (h.2 next hnext) hrest

theorem throughout_front {condition : σ → ε → Prop} {first second : List ε}
    (h : Throughout step condition s (first ++ second)) : Throughout step condition s first := by
  induction first generalizing s with
  | nil => trivial
  | cons event first ih => exact ⟨h.1, fun next hnext => ih (h.2 next hnext)⟩

theorem throughout_of_forall {condition : ε → Prop} (h : ∀ event ∈ events, condition event) :
    Throughout step (fun _ event => condition event) s events := by
  induction events generalizing s with
  | nil => trivial
  | cons event events ih =>
    exact ⟨h event List.mem_cons_self, fun _ _ => ih fun e he => h e (List.mem_cons_of_mem _ he)⟩

theorem throughout_and {first second : σ → ε → Prop} (hfirst : Throughout step first s events)
    (hsecond : Throughout step second s events) :
    Throughout step (fun s event => first s event ∧ second s event) s events := by
  induction events generalizing s with
  | nil => trivial
  | cons event events ih =>
    exact ⟨⟨hfirst.1, hsecond.1⟩, fun next hnext => ih (hfirst.2 next hnext) (hsecond.2 next hnext)⟩

/-- Whether the steps of a run on fixed events meet a condition is evaluated along the run. -/
instance decidableThroughout (condition : σ → ε → Prop) [∀ s event, Decidable (condition s event)] :
    (s : σ) → (events : List ε) → Decidable (Throughout step condition s events)
  | _, [] => isTrue trivial
  | s, event :: events =>
    have : Decidable (∀ next, step s event = some next → Throughout step condition next events) :=
      match h : step s event with
      | none => isTrue fun _ hnext => nomatch hnext
      | some next => match decidableThroughout condition next events with
        | isTrue hrest => isTrue fun _ hnext => Option.some.inj hnext ▸ hrest
        | isFalse hrest => isFalse fun hall => hrest (hall next rfl)
    inferInstanceAs (Decidable (_ ∧ _))

/-- A run on fixed events is evaluated to see what holds at its end. -/
theorem exists_run {P : σ → Prop} [DecidablePred P]
    (h : (run step s events).any (fun t => decide (P t)) = true) :
    ∃ t, run step s events = some t ∧ P t := by
  cases hrun : run step s events with
  | none =>
    rw [hrun] at h
    cases h
  | some t =>
    rw [hrun] at h
    exact ⟨t, rfl, of_decide_eq_true h⟩

end Runs

end Henji
