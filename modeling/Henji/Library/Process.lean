import Henji.Library.Effect

/-!
# Foreign code at a boundary

A `Process` is what code that a program calls can do at its boundary, in the order in which it
does it: act on what it shares with the program, call back into the program, and return or throw.
What it does after a callback may depend on how the callback ended. The tree is well founded: the
process ends.

Results:
1. `keeps_exec`: a property that the actions and the callbacks keep survives the whole process.
2. `exec_returns`: a process that only returns values of a kind returns a value of that kind.
-/

namespace Henji

/-- A process with actions `A` and callbacks `R`, that returns an `α` or throws an `ε`. -/
inductive Process (ε A R α : Type) where
  | done (outcome : Except ε α)
  | act (action : A) (next : Process ε A R α)
  | callBack (report : R) (next : Except ε Unit → Process ε A R α)

namespace Process

variable {ε σ A R α : Type}

/-- Run a process against the state it shares and the callbacks it was given. -/
def exec (act : A → σ → σ) (onReport : R → Effect ε σ Unit) : Process ε A R α → Effect ε σ α
  | done outcome => fun s => (outcome, s)
  | .act action next => fun s => next.exec act onReport (act action s)
  | callBack report next => fun s =>
    (next (Effect.run (onReport report) s).1).exec act onReport (Effect.run (onReport report) s).2

/-- Every value that the process may return is a `P`. -/
def Returns (P : α → Prop) : Process ε A R α → Prop
  | done (.ok a) => P a
  | done (.error _) => True
  | .act _ next => next.Returns P
  | callBack _ next => ∀ ended, (next ended).Returns P

variable {act : A → σ → σ} {onReport : R → Effect ε σ Unit} {I : σ → Prop}

theorem keeps_exec (hact : ∀ action s, I s → I (act action s))
    (hreport : ∀ report, Effect.Keeps I (onReport report)) (process : Process ε A R α) :
    Effect.Keeps I (process.exec act onReport) := by
  rw [Effect.keeps_iff]
  induction process with
  | done outcome => exact fun s hs => hs
  | act action next ih => exact fun s hs => ih _ (hact action s hs)
  | callBack report next ih =>
    exact fun s hs => ih _ _ (Effect.keeps_iff.mp (hreport report) s hs)

theorem exec_returns {P : α → Prop} {process : Process ε A R α} (h : process.Returns P) (s : σ)
    {a : α} {t : σ} (hr : Effect.run (process.exec act onReport) s = (.ok a, t)) : P a := by
  induction process generalizing s with
  | done outcome =>
    cases hr
    exact h
  | act action next ih => exact ih h _ hr
  | callBack report next ih => exact ih _ (h _) _ hr

end Process

end Henji
