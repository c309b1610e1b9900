import TwinScript.Eval.Run

/-!
# What a part of a program keeps

`m.Keeps I F P` is a promise of a part of a program: from a state with `I` it ends, if it ends at
all, in a state with `I`, with a result that has `P` or an error that has `F`. The promise composes
along `do`, so a part keeps it once its parts do.
-/

namespace TwinScript

/-- The outcome leaves a state with `I`, and a result with `P` or an error with `F`. -/
def Outcome.Meets {α : Type} (I : State → Prop) (F : EvalError → Prop) (P : α → Prop) :
    Outcome α → Prop
  | .done a st => P a ∧ I st
  | .failed e st => F e ∧ I st
  | .unfinished => True
  | .crashed => True

namespace Eval

variable {α β : Type} {I : State → Prop} {F : EvalError → Prop}

/-- From any state with `I`, the outcome leaves a state with `I`, and a result with `P` or an error
with `F`. -/
def Keeps (I : State → Prop) (F : EvalError → Prop) (m : Eval α) (P : α → Prop) : Prop :=
  ∀ st, I st → (m st).Meets I F P

/-- A result alone keeps everything. -/
theorem Keeps.pure {P : α → Prop} {a : α} (h : P a) : Keeps I F (Pure.pure a) P := by
  intro st hst
  exact ⟨h, hst⟩

/-- So does an error alone. -/
theorem Keeps.fail {P : α → Prop} {e : EvalError} (h : F e) : Keeps I F (Eval.fail e) P := by
  intro st hst
  exact ⟨h, hst⟩

/-- Nothing is asked of what does not end. -/
theorem Keeps.unfinished {P : α → Prop} : Keeps I F (fun _ => .unfinished) P :=
  fun _ _ => True.intro

/-- The second part begins with what the first has kept. -/
theorem Keeps.bind {m : Eval α} {next : α → Eval β} {P : α → Prop} {Q : β → Prop}
    (hm : Keeps I F m P) (hnext : ∀ a, P a → Keeps I F (next a) Q) :
    Keeps I F (m >>= next) Q := by
  intro st hst
  have h := hm st hst
  rw [bind_apply]
  cases hr : m st with
  | done a st' =>
    rw [hr] at h
    exact hnext a h.1 st' h.2
  | failed e st' =>
    rw [hr] at h
    exact h
  | unfinished => exact True.intro
  | crashed => exact True.intro

/-- What is kept by a part is kept if it is done inside a call. -/
theorem Keeps.insideCall {m : Eval α} {P : α → Prop} {pos : Position} (hm : Keeps I F m P)
    (henter : Keeps I F (Eval.enterCall pos) fun _ => True)
    (hleave : Keeps I F Eval.leaveCall fun _ => True) :
    Keeps I F (Eval.insideCall pos m) P := by
  refine henter.bind fun _ _ st hst => ?_
  have h := hm st hst
  unfold alwaysThen
  cases hr : m st with
  | done a mid =>
    rw [hr] at h
    exact hleave.bind (fun _ _ => Keeps.pure h.1) mid h.2
  | failed e mid =>
    rw [hr] at h
    exact hleave.bind (fun _ _ => Keeps.fail h.1) mid h.2
  | unfinished => exact True.intro
  | crashed => exact True.intro

/-- A computation without effects keeps what is true of its answer. -/
theorem Keeps.ofExcept {P : α → Prop} {x : Except EvalError α} (hok : ∀ a, x = .ok a → P a)
    (herror : ∀ e, x = .error e → F e) : Keeps I F (Eval.ofExcept x) P := by
  cases x with
  | ok a => exact Keeps.pure (hok a rfl)
  | error e => exact Keeps.fail (herror e rfl)

end Eval

end TwinScript
