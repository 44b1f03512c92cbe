/-!
# Machines that never refuse

A machine takes an item and its state to some outputs and its next state. `run` folds it over a list;
the outputs of a list are those of its parts in order, and a machine whose items are lists of another
machine's items runs as that machine on the joined list.
-/

namespace Henji

/-- The step of a machine with states `σ`, items `α` and outputs `β`. -/
abbrev Mealy (σ α β : Type) : Type := α → σ → List β × σ

namespace Mealy

variable {σ α β γ : Type} (step : Mealy σ α β)

def run : List α → σ → List β × σ
  | [], s => ([], s)
  | item :: items, s =>
    let (outputs, s) := step item s
    let (others, s) := run items s
    (outputs ++ others, s)

@[simp] theorem run_nil (s : σ) : run step [] s = ([], s) := rfl

theorem run_cons (item : α) (items : List α) (s : σ) :
    run step (item :: items) s = ((step item s).1 ++ (run step items (step item s).2).1,
      (run step items (step item s).2).2) := rfl

theorem run_append (first second : List α) (s : σ) :
    run step (first ++ second) s = ((run step first s).1 ++ (run step second (run step first s).2).1,
      (run step second (run step first s).2).2) := by
  induction first generalizing s with
  | nil => simp
  | cons item first ih => simp only [List.cons_append, run_cons, ih, List.append_assoc]

theorem run_singleton (item : α) (s : σ) : run step [item] s = step item s := by
  simp [run_cons]

/-- The outputs and the state behind two lists, from those behind each. -/
theorem run_append_of {first second : List α} {s t u : σ} {outputs others : List β}
    (hfirst : run step first s = (outputs, t)) (hsecond : run step second t = (others, u)) :
    run step (first ++ second) s = (outputs ++ others, u) := by
  rw [run_append, hfirst, hsecond]

theorem run_cons_of {item : α} {items : List α} {s t u : σ} {outputs others : List β}
    (hitem : step item s = (outputs, t)) (hitems : run step items t = (others, u)) :
    run step (item :: items) s = (outputs ++ others, u) := by
  rw [run_cons, hitem, hitems]

/-- A machine that runs another one on the parts of its items. -/
theorem run_flatMap {whole : Mealy σ γ β} {parts : γ → List α}
    (h : ∀ item s, whole item s = run step (parts item) s) (items : List γ) (s : σ) :
    run whole items s = run step (items.flatMap parts) s := by
  induction items generalizing s with
  | nil => rfl
  | cons item items ih => rw [run_cons, List.flatMap_cons, run_append, h, ih]

end Mealy

end Henji
