import Mathlib.Tactic.Common

/-!
# Computations that fail or panic

A computation in `ExceptT ε Option` returns a value, fails with an error, or panics (`none`). Such a
computation is described by two facts: what it `Returns`, and when it `Panics`. Both go through a
sequence of steps one step at a time (`returns_bind`, `panics_bind`), so that a long `do` block
becomes a conjunction over its steps.
-/

namespace Fallible

variable {ε α β : Type}

def Returns (c : ExceptT ε Option α) (a : α) : Prop := c.run = some (.ok a)

def Panics (c : ExceptT ε Option α) : Prop := c.run = none

/-- It does not panic, and then it either returns or fails. -/
theorem exists_run {c : ExceptT ε Option α} (h : ¬ Panics c) : ∃ r, c.run = some r :=
  Option.ne_none_iff_exists'.mp h

@[simp] theorem returns_pure (a b : α) : Returns (pure a : ExceptT ε Option α) b ↔ a = b := by
  show some (Except.ok a : Except ε α) = some (.ok b) ↔ a = b
  simp

@[simp] theorem panics_pure (a : α) : Panics (pure a : ExceptT ε Option α) ↔ False :=
  iff_of_false (fun h => by cases h) id

@[simp] theorem returns_throw (e : ε) (a : α) :
    Returns (throw e : ExceptT ε Option α) a ↔ False :=
  iff_of_false (fun h => by cases h) id

@[simp] theorem panics_throw (e : ε) : Panics (throw e : ExceptT ε Option α) ↔ False :=
  iff_of_false (fun h => by cases h) id

/-- What a step followed by others does, by what the step does. -/
theorem run_bind (c : ExceptT ε Option α) (f : α → ExceptT ε Option β) :
    (c >>= f).run = c.run.bind fun r =>
      match r with
      | .ok a => (f a).run
      | .error e => some (.error e) := by
  show c.run.bind (ExceptT.bindCont f) = _
  congr 1

@[simp] theorem returns_bind (c : ExceptT ε Option α) (f : α → ExceptT ε Option β) (b : β) :
    Returns (c >>= f) b ↔ ∃ a, Returns c a ∧ Returns (f a) b := by
  unfold Returns
  rw [run_bind]
  cases c.run with
  | none => simp
  | some r => cases r <;> simp

@[simp] theorem panics_bind (c : ExceptT ε Option α) (f : α → ExceptT ε Option β) :
    Panics (c >>= f) ↔ Panics c ∨ ∃ a, Returns c a ∧ Panics (f a) := by
  unfold Panics Returns
  rw [run_bind]
  cases c.run with
  | none => simp
  | some r => cases r <;> simp

/-- Steps that each undo `encode` undo it on a list, item by item and in order. -/
theorem returns_mapM {f : α → ExceptT ε Option β} {encode : β → α}
    (h : ∀ a b, Returns (f a) b ↔ encode b = a) (as : List α) (bs : List β) :
    Returns (as.mapM f) bs ↔ bs.map encode = as := by
  induction as generalizing bs with
  | nil => simp [eq_comm]
  | cons a as ih =>
    rw [List.mapM_cons]
    simp only [returns_bind, returns_pure, h, ih]
    constructor
    · rintro ⟨b, rfl, bs', rfl, rfl⟩
      rfl
    · intro heq
      cases bs with
      | nil => cases heq
      | cons b bs' =>
        cases heq
        exact ⟨b, rfl, bs', rfl, rfl⟩

theorem panics_mapM {f : α → ExceptT ε Option β} (h : ∀ a, ¬ Panics (f a)) (as : List α) :
    ¬ Panics (as.mapM f) := by
  induction as with
  | nil => simp
  | cons a as ih =>
    rw [List.mapM_cons]
    simp only [panics_bind, h a, ih, panics_pure, and_false, exists_false, or_self,
      not_false_eq_true]

end Fallible
