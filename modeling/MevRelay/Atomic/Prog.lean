import Mathlib.Tactic.Common

/-!
# Programs over atomic operations

A `Prog` is a program cut at the places where it touches shared state: it returns, it aborts, or it
makes one atomic call and continues with the answer. One definition of a program then has two
readings:

* **sequential** (`Prog.run`) — every call is executed at once, nothing happens in between;
* **interleaved** (`Atomic.Pool`) — other programs may run between any two calls.

The third reading abstracts from the state altogether. `Prog.Always Φ Ψ` says that whatever answers
come back, every call the program makes is one that `Φ` allows after the calls made so far, and
every value it returns satisfies `Ψ`. It is proved once per program, by its syntax, and both other
readings inherit it: `Always.run_keeps` here, `Pool.run_invariant` there. `Prog.Everywhere Θ` is the
same for what relates the calls made so far to what is left of the program, and `Prog.Steps` is that
relation itself: along which trace a program has become which.
-/

namespace Atomic

universe u

/-- A program that calls atomic operations `Op`, each answered by an `Ans o`, and returns an `α`.
`abort` is the end without a value: a panic. -/
inductive Prog (Op : Type u) (Ans : Op → Type u) (α : Type u) : Type u where
  | ret (a : α)
  | abort
  | call (o : Op) (k : Ans o → Prog Op Ans α)

/-- How a program that runs on its own ends. -/
inductive Outcome (α : Type u) : Type u where
  | returned (a : α)
  | aborted
  deriving DecidableEq, Repr

def Outcome.map {α β : Type u} (f : α → β) : Outcome α → Outcome β
  | .returned a => .returned (f a)
  | .aborted => .aborted

/-- A returned value was mapped from a returned value. -/
theorem Outcome.map_eq_returned {α β : Type u} {f : α → β} {o : Outcome α} {b : β}
    (h : o.map f = .returned b) : ∃ a, o = .returned a ∧ f a = b := by
  cases o with
  | returned a =>
    cases h
    exact ⟨a, rfl, rfl⟩
  | aborted => cases h

@[simp] theorem Outcome.map_eq_aborted {α β : Type u} {f : α → β} {o : Outcome α} :
    o.map f = .aborted ↔ o = .aborted := by
  cases o with
  | returned a => exact iff_of_false (fun h => by cases h) (fun h => by cases h)
  | aborted => exact iff_of_true rfl rfl

theorem Outcome.error_ne_ok {ε α : Type u} (e : ε) (a : α) :
    (.returned (.error e) : Outcome (Except ε α)) ≠ .returned (.ok a) := by
  intro h
  cases h

theorem Outcome.aborted_ne_returned {α : Type u} (a : α) : Outcome.aborted ≠ .returned a := by
  intro h
  cases h

/-- A call that was made, with its answer. -/
structure Event {Op : Type u} (Ans : Op → Type u) : Type u where
  op : Op
  ans : Ans op

namespace Prog

variable {Op : Type u} {Ans : Op → Type u} {α β σ : Type u}

/-! ## The monad -/

/-- Run `p`, then `f` on its value. An abort of `p` is an abort of the whole. -/
def bind : Prog Op Ans α → (α → Prog Op Ans β) → Prog Op Ans β
  | .ret a, f => f a
  | .abort, _ => .abort
  | .call o k, f => .call o (fun a => (k a).bind f)

instance : Monad (Prog Op Ans) where
  pure := .ret
  bind := bind

/-- A single call. -/
def op (o : Op) : Prog Op Ans (Ans o) := .call o .ret

/-- A computation without calls that may panic. -/
def ofOption : Option α → Prog Op Ans α
  | some a => .ret a
  | none => .abort

@[simp] theorem pure_eq (a : α) : (pure a : Prog Op Ans α) = .ret a := rfl

@[simp] theorem ret_bind (a : α) (f : α → Prog Op Ans β) : (.ret a >>= f) = f a := rfl

@[simp] theorem op_bind (o : Op) (f : Ans o → Prog Op Ans β) : (op o >>= f) = .call o f := rfl

@[simp] theorem ofOption_some (a : α) : (ofOption (some a) : Prog Op Ans α) = .ret a := rfl

theorem bind_ret (p : Prog Op Ans α) : (p >>= .ret) = p := by
  induction p with
  | ret a => rfl
  | abort => rfl
  | call o k ih => exact congrArg (Prog.call o) (funext ih)

theorem bind_assoc {γ : Type u} (p : Prog Op Ans α) (f : α → Prog Op Ans β)
    (g : β → Prog Op Ans γ) : (p >>= f >>= g) = (p >>= fun a => f a >>= g) := by
  induction p with
  | ret a => rfl
  | abort => rfl
  | call o k ih => exact congrArg (Prog.call o) (funext ih)

instance : LawfulMonad (Prog Op Ans) :=
  LawfulMonad.mk' _ bind_ret (fun _ _ => rfl) bind_assoc

/-! ## The sequential reading -/

/-- Run a program from state `s`, executing each call at once. -/
def run (exec : (o : Op) → σ → Ans o × σ) : Prog Op Ans α → σ → Outcome α × σ
  | .ret a, s => (.returned a, s)
  | .abort, s => (.aborted, s)
  | .call o k, s => (k (exec o s).1).run exec (exec o s).2

variable {exec : (o : Op) → σ → Ans o × σ}

@[simp] theorem run_call (o : Op) (k : Ans o → Prog Op Ans α) (s : σ) :
    (call o k).run exec s = (k (exec o s).1).run exec (exec o s).2 := rfl

/-- A call whose answer and effect are known. -/
theorem run_call_of {o : Op} {k : Ans o → Prog Op Ans α} {s s' : σ} {a : Ans o}
    (h : exec o s = (a, s')) : (call o k).run exec s = (k a).run exec s' := by
  rw [run_call, h]

/-- The first part is known to return: the rest runs on from there. -/
theorem run_bind_of {p : Prog Op Ans α} {f : α → Prog Op Ans β} {s s' : σ} {a : α}
    (h : p.run exec s = (.returned a, s')) : (p >>= f).run exec s = (f a).run exec s' := by
  induction p generalizing s with
  | ret b =>
    cases h
    rfl
  | abort => cases h
  | call o k ih => exact ih _ h

/-- The first part is known to abort: so does the whole. -/
theorem run_bind_of_aborted {p : Prog Op Ans α} {f : α → Prog Op Ans β} {s s' : σ}
    (h : p.run exec s = (.aborted, s')) : (p >>= f).run exec s = (.aborted, s') := by
  induction p generalizing s with
  | ret b => cases h
  | abort =>
    cases h
    rfl
  | call o k ih => exact ih _ h

/-- Mapping the value does not change what the program does. -/
theorem run_map (p : Prog Op Ans α) (f : α → β) (s : σ) :
    (f <$> p).run exec s = ((p.run exec s).1.map f, (p.run exec s).2) := by
  rw [← bind_pure_comp]
  induction p generalizing s with
  | ret a => rfl
  | abort => rfl
  | call o k ih => exact ih _ _

/-- Dropping the value does not change what the program does. -/
theorem run_discard (p : Prog Op Ans α) (b : β) (s : σ) :
    (p >>= fun _ => pure b).run exec s =
      ((p.run exec s).1.map fun _ => b, (p.run exec s).2) := by
  rw [show (p >>= fun _ => pure b) = (fun _ => b) <$> p from bind_pure_comp _ _, run_map]

/-! ## The reading without a state -/

/-- Whatever the answers are: every call is one that `Φ` allows after the trace so far, and every
returned value satisfies `Ψ` of the whole trace. -/
def Always (Φ : List (Event Ans) → Op → Prop) (Ψ : List (Event Ans) → α → Prop) :
    List (Event Ans) → Prog Op Ans α → Prop
  | tr, .ret a => Ψ tr a
  | _, .abort => True
  | tr, .call o k => Φ tr o ∧ ∀ a, Always Φ Ψ (tr ++ [⟨o, a⟩]) (k a)

variable {Φ Φ' : List (Event Ans) → Op → Prop} {Ψ Ψ' : List (Event Ans) → α → Prop}
  {tr : List (Event Ans)} {p : Prog Op Ans α}

/-- The rule of consequence. -/
theorem Always.mono (hΦ : ∀ tr o, Φ tr o → Φ' tr o) (hΨ : ∀ tr a, Ψ tr a → Ψ' tr a)
    (h : p.Always Φ Ψ tr) : p.Always Φ' Ψ' tr := by
  induction p generalizing tr with
  | ret a => exact hΨ _ _ h
  | abort => trivial
  | call o k ih => exact ⟨hΦ _ _ h.1, fun a => ih a (h.2 a)⟩

/-- The rule of conjunction. -/
theorem Always.and (h : p.Always Φ Ψ tr) (h' : p.Always Φ' Ψ' tr) :
    p.Always (fun tr o => Φ tr o ∧ Φ' tr o) (fun tr a => Ψ tr a ∧ Ψ' tr a) tr := by
  induction p generalizing tr with
  | ret a => exact ⟨h, h'⟩
  | abort => trivial
  | call o k ih => exact ⟨⟨h.1, h'.1⟩, fun a => ih a (h.2 a) (h'.2 a)⟩

/-- The rule of sequence: what the first part returns is what the second part starts from. -/
theorem Always.bind {f : α → Prog Op Ans β} {Θ : List (Event Ans) → β → Prop}
    (h : p.Always Φ Ψ tr) (hf : ∀ tr a, Ψ tr a → (f a).Always Φ Θ tr) :
    (p >>= f).Always Φ Θ tr := by
  induction p generalizing tr with
  | ret a => exact hf _ _ h
  | abort => trivial
  | call o k ih => exact ⟨h.1, fun a => ih a (h.2 a)⟩

theorem Always.map {f : α → β} {Θ : List (Event Ans) → β → Prop}
    (h : p.Always Φ (fun tr a => Θ tr (f a)) tr) : (f <$> p).Always Φ Θ tr := by
  rw [← bind_pure_comp]
  exact h.bind fun _ _ ha => ha

/-- What every allowed call keeps of the trace holds at every call and at the end. -/
theorem Always.keeping {I : List (Event Ans) → Prop} (h : p.Always Φ Ψ tr)
    (hstep : ∀ tr o a, Φ tr o → I tr → I (tr ++ [⟨o, a⟩])) (htr : I tr) :
    p.Always (fun tr o => Φ tr o ∧ I tr) (fun tr a => Ψ tr a ∧ I tr) tr := by
  induction p generalizing tr with
  | ret a => exact ⟨h, htr⟩
  | abort => trivial
  | call o k ih => exact ⟨⟨h.1, htr⟩, fun a => ih a (h.2 a) (hstep tr o a h.1 htr)⟩

/-- What does not depend on the calls before the program holds after any of them. -/
theorem Always.after {Ψ' : List (Event Ans) → α → Prop} (pre : List (Event Ans))
    (hΦ : ∀ tr o, Φ tr o → Φ (pre ++ tr) o) (hΨ : ∀ tr a, Ψ tr a → Ψ' (pre ++ tr) a)
    (h : p.Always Φ Ψ tr) : p.Always Φ Ψ' (pre ++ tr) := by
  induction p generalizing tr with
  | ret a => exact hΨ _ _ h
  | abort => trivial
  | call o k ih =>
    refine ⟨hΦ _ _ h.1, fun a => ?_⟩
    rw [List.append_assoc]
    exact ih a (h.2 a)

/-- A program only adds to the trace. -/
theorem Always.extends (h : p.Always Φ Ψ tr) :
    p.Always Φ (fun tr' a => tr <+: tr' ∧ Ψ tr' a) tr := by
  induction p generalizing tr with
  | ret a => exact ⟨List.prefix_rfl, h⟩
  | abort => trivial
  | call o k ih =>
    refine ⟨h.1, fun a => (ih a (h.2 a)).mono (fun _ _ => id) fun tr' b hb => ?_⟩
    exact ⟨(List.prefix_append _ _).trans hb.1, hb.2⟩

/-- After a computation that may panic, only its value matters. -/
theorem always_ofOption_bind {β : Type u} {o : Option α} {f : α → Prog Op Ans β}
    {Θ : List (Event Ans) → β → Prop} (h : ∀ a, o = some a → (f a).Always Φ Θ tr) :
    (ofOption o >>= f).Always Φ Θ tr := by
  cases o with
  | none => trivial
  | some a => exact h a rfl

/-- Whatever the answers are: `Θ` holds of every trace and what is left of the program after it. -/
def Everywhere (Θ : List (Event Ans) → Prog Op Ans α → Prop) :
    List (Event Ans) → Prog Op Ans α → Prop
  | tr, .ret a => Θ tr (.ret a)
  | tr, .abort => Θ tr .abort
  | tr, .call o k => Θ tr (.call o k) ∧ ∀ a, Everywhere Θ (tr ++ [⟨o, a⟩]) (k a)

variable {Θ : List (Event Ans) → Prog Op Ans α → Prop}

theorem Everywhere.here (h : p.Everywhere Θ tr) : Θ tr p := by
  cases p with
  | ret a => exact h
  | abort => exact h
  | call o k => exact h.1

theorem Everywhere.mono {Θ' : List (Event Ans) → Prog Op Ans α → Prop}
    (hΘ : ∀ tr q, Θ tr q → Θ' tr q) (h : p.Everywhere Θ tr) : p.Everywhere Θ' tr := by
  induction p generalizing tr with
  | ret a => exact hΘ _ _ h
  | abort => exact hΘ _ _ h
  | call o k ih => exact ⟨hΘ _ _ h.1, fun a => ih a (h.2 a)⟩

theorem Everywhere.and {Θ' : List (Event Ans) → Prog Op Ans α → Prop} (h : p.Everywhere Θ tr)
    (h' : p.Everywhere Θ' tr) : p.Everywhere (fun tr q => Θ tr q ∧ Θ' tr q) tr := by
  induction p generalizing tr with
  | ret a => exact ⟨h, h'⟩
  | abort => exact ⟨h, h'⟩
  | call o k ih => exact ⟨⟨h.1, h'.1⟩, fun a => ih a (h.2 a) (h'.2 a)⟩

theorem Everywhere.map {f : α → β} {Θ : List (Event Ans) → Prog Op Ans β → Prop}
    (h : p.Everywhere (fun tr q => Θ tr (f <$> q)) tr) : (f <$> p).Everywhere Θ tr := by
  rw [← bind_pure_comp] at *
  induction p generalizing tr with
  | ret a => exact h
  | abort => exact h
  | call o k ih => exact ⟨h.1, fun a => ih a (h.2 a)⟩

/-- What holds everywhere holds at every call and of every returned value. -/
theorem Everywhere.always (h : p.Everywhere Θ tr) (hcall : ∀ tr o k, Θ tr (.call o k) → Φ tr o)
    (hret : ∀ tr a, Θ tr (.ret a) → Ψ tr a) : p.Always Φ Ψ tr := by
  induction p generalizing tr with
  | ret a => exact hret _ _ h
  | abort => trivial
  | call o k ih => exact ⟨hcall _ _ _ h.1, fun a => ih a (h.2 a)⟩

/-- A computation that may panic ends the program, or its value matters. -/
theorem everywhere_ofOption_bind {β : Type u} {o : Option α} {f : α → Prog Op Ans β}
    {Θ : List (Event Ans) → Prog Op Ans β → Prop} (hnone : o = none → Θ tr .abort)
    (hsome : ∀ a, o = some a → (f a).Everywhere Θ tr) : (ofOption o >>= f).Everywhere Θ tr := by
  cases o with
  | none => exact hnone rfl
  | some a => exact hsome a rfl

/-- What every allowed call keeps of the trace holds of all traces. -/
theorem Always.everywhere {I : List (Event Ans) → Prop} (h : p.Always Φ Ψ tr)
    (hstep : ∀ tr o a, Φ tr o → I tr → I (tr ++ [⟨o, a⟩])) (htr : I tr) :
    p.Everywhere (fun tr _ => I tr) tr := by
  induction p generalizing tr with
  | ret a => exact htr
  | abort => exact htr
  | call o k ih => exact ⟨htr, fun a => ih a (h.2 a) (hstep tr o a h.1 htr)⟩

/-! ### When it aborts -/

/-- Whatever the answers are: the program does not abort, and `N` allows each of its calls. -/
def Safely (N : Op → Prop) : Prog Op Ans α → Prop
  | .ret _ => True
  | .abort => False
  | .call o k => N o ∧ ∀ a, Safely N (k a)

/-- Whatever the answers are: the program has aborted exactly after the traces that are in `C`. -/
def AbortsIff (C : List (Event Ans) → Prop) : List (Event Ans) → Prog Op Ans α → Prop
  | tr, .ret _ => ¬ C tr
  | tr, .abort => C tr
  | tr, .call o k => ¬ C tr ∧ ∀ a, AbortsIff C (tr ++ [⟨o, a⟩]) (k a)

variable {N : Op → Prop} {C C' : List (Event Ans) → Prop}

theorem Safely.bind {f : α → Prog Op Ans β} (h : p.Safely N) (hf : ∀ a, (f a).Safely N) :
    (p >>= f).Safely N := by
  induction p with
  | ret a => exact hf a
  | abort => exact h
  | call o k ih => exact ⟨h.1, fun a => ih a (h.2 a)⟩

theorem AbortsIff.bind {f : α → Prog Op Ans β} (h : p.AbortsIff C tr)
    (hf : ∀ tr a, ¬ C tr → (f a).AbortsIff C tr) : (p >>= f).AbortsIff C tr := by
  induction p generalizing tr with
  | ret a => exact hf tr a h
  | abort => exact h
  | call o k ih => exact ⟨h.1, fun a => ih a (h.2 a)⟩

theorem AbortsIff.map {f : α → β} (h : p.AbortsIff C tr) : (f <$> p).AbortsIff C tr := by
  rw [← bind_pure_comp]
  exact h.bind fun _ _ htr => htr

theorem AbortsIff.congr (hC : ∀ tr, C tr ↔ C' tr) (h : p.AbortsIff C tr) :
    p.AbortsIff C' tr := by
  rw [← funext fun tr => propext (hC tr)]
  exact h

/-- A program that does not abort, after a trace that is not in `C` and stays so. -/
theorem Safely.abortsIff (h : p.Safely N)
    (hkeep : ∀ tr o a, N o → ¬ C tr → ¬ C (tr ++ [⟨o, a⟩])) (htr : ¬ C tr) :
    p.AbortsIff C tr := by
  induction p generalizing tr with
  | ret a => exact htr
  | abort => exact absurd h id
  | call o k ih => exact ⟨htr, fun a => ih a (h.2 a) (hkeep tr o a h.1 htr)⟩

/-- A computation that may panic, after a trace that tells whether it does. -/
theorem abortsIff_ofOption_bind {β : Type u} {o : Option α} {f : α → Prog Op Ans β}
    (hnone : o = none ↔ C tr) (hsome : ∀ a, o = some a → (f a).AbortsIff C tr) :
    (ofOption o >>= f).AbortsIff C tr := by
  cases o with
  | none => exact hnone.mp rfl
  | some a => exact hsome a rfl

theorem AbortsIff.everywhere (h : p.AbortsIff C tr) :
    p.Everywhere (fun tr q => q = .abort ↔ C tr) tr := by
  induction p generalizing tr with
  | ret a => exact iff_of_false (fun h => by cases h) h
  | abort => exact iff_of_true rfl h
  | call o k ih => exact ⟨iff_of_false (fun h => by cases h) h.1, fun a => ih a (h.2 a)⟩

/-- The other way round, from what is known of all points of a program. -/
theorem Everywhere.abortsIff (h : p.Everywhere (fun tr q => q = .abort ↔ C tr) tr) :
    p.AbortsIff C tr := by
  induction p generalizing tr with
  | ret a =>
    intro hC
    have hret : (Prog.ret a : Prog Op Ans α) = .abort := (show _ ↔ _ from h).mpr hC
    cases hret
  | abort => exact (show _ ↔ _ from h).mp rfl
  | call o k ih =>
    refine ⟨fun hC => ?_, fun a => ih a (h.2 a)⟩
    have hcall : (Prog.call o k : Prog Op Ans α) = .abort := h.1.mpr hC
    cases hcall

/-- What every allowed call keeps, the whole program keeps. -/
theorem Always.run_keeps {I : σ → Prop} (h : p.Always Φ Ψ tr)
    (hI : ∀ tr o s, Φ tr o → I s → I (exec o s).2) {s : σ} (hs : I s) :
    I (p.run exec s).2 := by
  induction p generalizing tr s with
  | ret a => exact hs
  | abort => exact hs
  | call o k ih => exact ih _ (h.2 _) (hI _ _ _ h.1 hs)

/-! ## Following a trace -/

/-- `p` makes the calls of the trace, gets the answers in it, and then `q` is left of it. -/
def Steps : Prog Op Ans α → List (Event Ans) → Prog Op Ans α → Prop
  | p, [], q => p = q
  | p, e :: tr, q => ∃ k, p = .call e.op k ∧ Steps (k e.ans) tr q

variable {q : Prog Op Ans α} {later : List (Event Ans)} {a b : α}

theorem Steps.refl (p : Prog Op Ans α) : p.Steps [] p := rfl

theorem Steps.concat {o : Op} {k : Ans o → Prog Op Ans α} (h : p.Steps tr (.call o k))
    (ans : Ans o) : p.Steps (tr ++ [⟨o, ans⟩]) (k ans) := by
  induction tr generalizing p with
  | nil =>
    cases h
    exact ⟨k, rfl, rfl⟩
  | cons e tr ih =>
    obtain ⟨k', rfl, h⟩ := h
    exact ⟨k', rfl, ih h⟩

/-- Every point of a program is reached by the trace before it. -/
theorem Steps.everywhere {p₀ : Prog Op Ans α} (h : p₀.Steps tr p) :
    p.Everywhere (fun tr q => p₀.Steps tr q) tr := by
  induction p generalizing tr with
  | ret a => exact h
  | abort => exact h
  | call o k ih => exact ⟨h, fun ans => ih ans (h.concat ans)⟩

theorem Steps.map {f : α → β} (h : p.Steps tr q) : (f <$> p).Steps tr (f <$> q) := by
  induction tr generalizing p with
  | nil =>
    cases h
    exact rfl
  | cons e tr ih =>
    obtain ⟨k, rfl, h⟩ := h
    exact ⟨fun ans => f <$> k ans, rfl, ih h⟩

/-- A program that has returned makes no more calls. -/
theorem Steps.eq_ret_of_append (h : p.Steps tr (.ret a)) (h' : p.Steps (tr ++ later) q) :
    later = [] ∧ q = .ret a := by
  induction tr generalizing p with
  | nil =>
    cases h
    cases later with
    | nil => exact ⟨rfl, h'.symm⟩
    | cons e later =>
      obtain ⟨k, hcall, -⟩ := h'
      cases hcall
  | cons e tr ih =>
    obtain ⟨k, rfl, h⟩ := h
    obtain ⟨k', hcall, h'⟩ := h'
    cases hcall
    exact ih h h'

/-- A trace can be cut in only one place at which the program has returned. -/
theorem Steps.eq_of_append {tr' later' : List (Event Ans)} (h : p.Steps tr (.ret a))
    (h' : p.Steps tr' (.ret b)) (heq : tr ++ later = tr' ++ later') : a = b ∧ later = later' := by
  rcases List.append_eq_append_iff.mp heq with ⟨more, rfl, rfl⟩ | ⟨more, rfl, rfl⟩
  · obtain ⟨rfl, hret⟩ := h.eq_ret_of_append h'
    cases hret
    exact ⟨rfl, rfl⟩
  · obtain ⟨rfl, hret⟩ := h'.eq_ret_of_append h
    cases hret
    exact ⟨rfl, rfl⟩

/-- A sequence that has returned: so has its first part, before the second one started. -/
theorem Steps.of_bind {f : α → Prog Op Ans β} {b : β} (h : (p >>= f).Steps tr (.ret b)) :
    ∃ a tr₁ tr₂, tr = tr₁ ++ tr₂ ∧ p.Steps tr₁ (.ret a) ∧ (f a).Steps tr₂ (.ret b) := by
  induction p generalizing tr with
  | ret a => exact ⟨a, [], tr, rfl, rfl, h⟩
  | abort =>
    cases tr with
    | nil => cases h
    | cons e tr =>
      obtain ⟨k, hcall, -⟩ := h
      cases hcall
  | call o k ih =>
    cases tr with
    | nil => cases h
    | cons e tr =>
      obtain ⟨k', hcall, h⟩ := h
      cases hcall
      obtain ⟨a, tr₁, tr₂, rfl, hfirst, hsecond⟩ := ih e.ans h
      exact ⟨a, e :: tr₁, tr₂, rfl, ⟨k, rfl, hfirst⟩, hsecond⟩

theorem Steps.of_map {f : α → β} {b : β} (h : (f <$> p).Steps tr (.ret b)) :
    ∃ a, p.Steps tr (.ret a) ∧ f a = b := by
  rw [← bind_pure_comp] at h
  obtain ⟨a, tr₁, tr₂, rfl, hfirst, hsecond⟩ := h.of_bind
  cases tr₂ with
  | nil =>
    cases hsecond
    exact ⟨a, by rwa [List.append_nil], rfl⟩
  | cons e tr₂ =>
    obtain ⟨k, hcall, -⟩ := hsecond
    cases hcall

end Prog

end Atomic
