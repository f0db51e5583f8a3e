import MevRelay.Atomic.Prog
import Mathlib.Data.List.Induction

/-!
# Interleaved runs of a pool of programs

A `System` says what a call does to the shared state, which program serves which request, and how
the environment may change the state on its own. A `Pool` is the shared state with one thread per
request that has arrived; a schedule is a list of actions, each of which lets a request arrive, lets
one thread make its next call, or lets the environment act. Every thread keeps the trace of its
calls and answers, so a statement about a reachable state can say *which request* wrote a value and
*what that request had read* before.

* `Pool.run_invariant` — the invariant rule. The step case may use what `Prog.Always` proves of the
  thread that moves, so an invariant is checked against single calls, never against whole programs.
* `Pool.run_written` — the provenance rule: whatever is in the shared state was written by a thread
  whose request and trace justify it. `Pool.run_read` says the same of whatever was read at some
  time, and `Pool.run_lasting` carries what a trace says over to the present.
* `System.history`, `System.final` — the runs in which requests are served one after the other.
* `System.exists_schedule` — such a run is one of the schedules, so what holds in every reachable
  pool holds after every sequential run.
-/

namespace Atomic

universe u

variable {Op : Type u} {Ans : Op → Type u} {Req α σ Env : Type u}

/-- A shared state `σ`, the calls on it, the programs that serve requests, and the environment. -/
structure System (Op : Type u) (Ans : Op → Type u) (Req α σ Env : Type u) where
  exec : (o : Op) → σ → Ans o × σ
  program : Req → Prog Op Ans α
  disturb : Env → σ → σ

/-- A request being served: the calls made so far and what is left of its program. -/
structure Thread (Op : Type u) (Ans : Op → Type u) (Req α : Type u) : Type u where
  request : Req
  trace : List (Event Ans)
  rest : Prog Op Ans α

/-- The shared state and every request that has arrived so far. -/
structure Pool (Op : Type u) (Ans : Op → Type u) (Req α σ : Type u) : Type u where
  shared : σ
  threads : List (Thread Op Ans Req α)

/-- One step of a schedule. -/
inductive Action (Req Env : Type u) : Type u where
  | arrive (r : Req)
  | step (i : Nat)
  | disturb (e : Env)

namespace Pool

/-- Thread `i`, which is `t` with next call `o`, makes that call. -/
def perform (S : System Op Ans Req α σ Env) (p : Pool Op Ans Req α σ) (i : Nat)
    (t : Thread Op Ans Req α) (o : Op) (k : Ans o → Prog Op Ans α) : Pool Op Ans Req α σ where
  shared := (S.exec o p.shared).2
  threads := p.threads.set i
    { request := t.request
      trace := t.trace ++ [⟨o, (S.exec o p.shared).1⟩]
      rest := k (S.exec o p.shared).1 }

/-- A step of a thread that does not exist or has ended does nothing. -/
def act (S : System Op Ans Req α σ Env) (p : Pool Op Ans Req α σ) :
    Action Req Env → Pool Op Ans Req α σ
  | .arrive r => { p with threads := p.threads ++ [⟨r, [], S.program r⟩] }
  | .step i =>
    match p.threads[i]? with
    | none => p
    | some t =>
      match t.rest with
      | .ret _ => p
      | .abort => p
      | .call o k => p.perform S i t o k
  | .disturb e => { p with shared := S.disturb e p.shared }

/-- Follow a schedule. -/
def run (S : System Op Ans Req α σ Env) (p : Pool Op Ans Req α σ)
    (schedule : List (Action Req Env)) : Pool Op Ans Req α σ :=
  schedule.foldl (act S) p

/-- No request has arrived. -/
def idle (s : σ) : Pool Op Ans Req α σ := ⟨s, []⟩

variable {S : System Op Ans Req α σ Env} {p q : Pool Op Ans Req α σ}

@[simp] theorem run_nil : p.run S [] = p := rfl

@[simp] theorem run_cons (a : Action Req Env) (as : List (Action Req Env)) :
    p.run S (a :: as) = (p.act S a).run S as := rfl

theorem run_append (as bs : List (Action Req Env)) :
    p.run S (as ++ bs) = (p.run S as).run S bs := List.foldl_append

theorem run_concat (as : List (Action Req Env)) (a : Action Req Env) :
    p.run S (as ++ [a]) = (p.run S as).act S a := by
  rw [run_append, run_cons, run_nil]

/-- What a step can do: nothing, or the next call of the thread it names. -/
theorem act_step (i : Nat) :
    p.act S (.step i) = p ∨ ∃ t o k, p.threads[i]? = some t ∧ t.rest = .call o k ∧
      p.act S (.step i) = p.perform S i t o k := by
  simp only [act]
  cases hi : p.threads[i]? with
  | none => exact .inl rfl
  | some t =>
    obtain ⟨r, tr, rest⟩ := t
    cases rest with
    | ret a => exact .inl rfl
    | abort => exact .inl rfl
    | call o k => exact .inr ⟨_, o, k, rfl, rfl, rfl⟩

/-- A thread with a next call makes it. -/
theorem act_step_call {i : Nat} {t : Thread Op Ans Req α} {o : Op} {k : Ans o → Prog Op Ans α}
    (hi : p.threads[i]? = some t) (hr : t.rest = .call o k) :
    p.act S (.step i) = p.perform S i t o k := by
  obtain ⟨r, tr, rest⟩ := t
  cases hr
  simp only [act, hi]

/-! ## Which threads there are after an action -/

/-- After a call, a thread is the one that moved or was there before. -/
theorem mem_perform {i : Nat} {t t' : Thread Op Ans Req α} {o : Op} {k : Ans o → Prog Op Ans α}
    (h : t' ∈ (p.perform S i t o k).threads) :
    t' ∈ p.threads ∨ t' = ⟨t.request, t.trace ++ [⟨o, (S.exec o p.shared).1⟩],
      k (S.exec o p.shared).1⟩ :=
  List.mem_or_eq_of_mem_set h

/-- The thread that moved is there. -/
theorem moved_mem_perform {i : Nat} {t : Thread Op Ans Req α} {o : Op} {k : Ans o → Prog Op Ans α}
    (hi : p.threads[i]? = some t) :
    ⟨t.request, t.trace ++ [⟨o, (S.exec o p.shared).1⟩], k (S.exec o p.shared).1⟩ ∈
      (p.perform S i t o k).threads :=
  List.mem_set (List.getElem?_eq_some_iff.mp hi).1 _

/-- A thread that was there is the one that moves, or is still there. -/
theorem exists_mem_perform {i : Nat} {t : Thread Op Ans Req α} {o : Op}
    {k : Ans o → Prog Op Ans α} {Q : Thread Op Ans Req α → Prop} (hi : p.threads[i]? = some t)
    (h : ∃ t' ∈ p.threads, Q t') : Q t ∨ ∃ t' ∈ (p.perform S i t o k).threads, Q t' := by
  obtain ⟨t', ht', hQ⟩ := h
  obtain ⟨j, hj⟩ := List.mem_iff_getElem?.mp ht'
  by_cases hij : i = j
  · subst hij
    cases hi.symm.trans hj
    exact .inl hQ
  · refine .inr ⟨t', List.mem_iff_getElem?.mpr ⟨j, ?_⟩, hQ⟩
    simp only [perform]
    rw [List.getElem?_set_ne hij, hj]

/-- A thread lives on, with a trace that has only grown. -/
def Extends (p q : Pool Op Ans Req α σ) : Prop :=
  ∀ t ∈ p.threads, ∃ t' ∈ q.threads, t'.request = t.request ∧ t.trace <+: t'.trace

theorem Extends.refl (p : Pool Op Ans Req α σ) : p.Extends p :=
  fun t ht => ⟨t, ht, rfl, List.prefix_rfl⟩

theorem perform_extends {i : Nat} {t : Thread Op Ans Req α} {o : Op} {k : Ans o → Prog Op Ans α}
    (hi : p.threads[i]? = some t) : p.Extends (p.perform S i t o k) := by
  intro t' ht'
  rcases exists_mem_perform hi ⟨t', ht', rfl⟩ with rfl | ⟨t'', ht'', rfl⟩
  · exact ⟨_, moved_mem_perform hi, rfl, List.prefix_append _ _⟩
  · exact ⟨_, ht'', rfl, List.prefix_rfl⟩

theorem act_extends (a : Action Req Env) : p.Extends (p.act S a) := by
  cases a with
  | arrive r =>
    intro t ht
    exact ⟨t, List.mem_append_left _ ht, rfl, List.prefix_rfl⟩
  | step i =>
    rcases act_step (S := S) (p := p) i with h | ⟨t, o, k, hi, -, h⟩
    · rw [h]; exact Extends.refl p
    · rw [h]; exact perform_extends hi
  | disturb e => exact Extends.refl p

/-- The requests that a schedule lets arrive. -/
def arrivals (as : List (Action Req Env)) : List Req :=
  as.filterMap fun
    | .arrive r => some r
    | _ => none

/-- There is one thread for each request that has arrived, in order. -/
theorem requests_run (as : List (Action Req Env)) :
    (p.run S as).threads.map Thread.request = p.threads.map Thread.request ++ arrivals as := by
  induction as generalizing p with
  | nil => simp [arrivals]
  | cons a as ih =>
    rw [run_cons, ih]
    cases a with
    | arrive r => simp [act, arrivals]
    | step i =>
      rcases act_step (S := S) (p := p) i with h | ⟨t, o, k, hi, -, h⟩
      · rw [h]
        rfl
      · have hsame : (p.perform S i t o k).threads.map Thread.request =
            p.threads.map Thread.request := by
          obtain ⟨hlt, hget⟩ := List.getElem?_eq_some_iff.mp hi
          apply List.ext_getElem?
          intro j
          by_cases hij : i = j
          · subst hij
            simp [perform, hlt, hget]
          · simp [perform, hij]
        rw [h, hsame]
        rfl
    | disturb d => rfl

/-! ## The invariant rule -/

/-- Every thread is what `Prog.Always` left of its program. -/
def Sound (Φ : Req → List (Event Ans) → Op → Prop) (Ψ : Req → List (Event Ans) → α → Prop)
    (p : Pool Op Ans Req α σ) : Prop :=
  ∀ t ∈ p.threads, t.rest.Always (Φ t.request) (Ψ t.request) t.trace

variable {Φ : Req → List (Event Ans) → Op → Prop} {Ψ : Req → List (Event Ans) → α → Prop}

theorem Sound.idle (s : σ) : Sound Φ Ψ (Pool.idle s : Pool Op Ans Req α σ) := by
  intro t ht
  cases ht

theorem Sound.act (hprog : ∀ r, (S.program r).Always (Φ r) (Ψ r) []) (hp : p.Sound Φ Ψ)
    (a : Action Req Env) : (p.act S a).Sound Φ Ψ := by
  cases a with
  | arrive r =>
    intro t ht
    rcases List.mem_append.mp ht with ht | ht
    · exact hp t ht
    · cases List.mem_singleton.mp ht
      exact hprog r
  | step i =>
    rcases act_step (S := S) (p := p) i with h | ⟨t, o, k, hi, hr, h⟩
    · rw [h]; exact hp
    · rw [h]
      intro t' ht'
      rcases mem_perform ht' with ht' | rfl
      · exact hp t' ht'
      · have ht := hp t (List.mem_of_getElem? hi)
        rw [hr] at ht
        exact ht.2 _
  | disturb e => exact hp

theorem Sound.run (hprog : ∀ r, (S.program r).Always (Φ r) (Ψ r) []) (hp : p.Sound Φ Ψ)
    (as : List (Action Req Env)) : (p.run S as).Sound Φ Ψ := by
  induction as generalizing p with
  | nil => exact hp
  | cons a as ih => exact ih (hp.act hprog a)

/-- What holds everywhere in the programs holds of all threads. -/
theorem run_everywhere {Θ : Req → List (Event Ans) → Prog Op Ans α → Prop}
    (hprog : ∀ r, (S.program r).Everywhere (Θ r) [])
    (hp : ∀ t ∈ p.threads, t.rest.Everywhere (Θ t.request) t.trace)
    (as : List (Action Req Env)) :
    ∀ t ∈ (p.run S as).threads, t.rest.Everywhere (Θ t.request) t.trace := by
  induction as generalizing p with
  | nil => exact hp
  | cons a as ih =>
    apply ih
    cases a with
    | arrive r =>
      intro t ht
      rcases List.mem_append.mp ht with ht | ht
      · exact hp t ht
      · cases List.mem_singleton.mp ht
        exact hprog r
    | step i =>
      rcases act_step (S := S) (p := p) i with h | ⟨t, o, k, hi, hr, h⟩
      · rw [h]; exact hp
      · rw [h]
        intro t' ht'
        rcases mem_perform ht' with ht' | rfl
        · exact hp t' ht'
        · have ht := hp t (List.mem_of_getElem? hi)
          rw [hr] at ht
          exact ht.2 _
    | disturb e => exact hp

/-- Every thread has stepped along its trace. -/
theorem run_steps (s : σ) (as : List (Action Req Env)) :
    ∀ t ∈ ((idle s).run S as).threads, (S.program t.request).Steps t.trace t.rest := by
  intro t ht
  have heverywhere := run_everywhere (S := S)
    (fun r => (Prog.Steps.refl (S.program r)).everywhere) (p := idle s)
    (fun _ ht => absurd ht List.not_mem_nil) as t ht
  exact heverywhere.here

/-- Every action of the schedule satisfies `C` in the pool it is taken in. -/
def Follows (S : System Op Ans Req α σ Env) (C : Pool Op Ans Req α σ → Action Req Env → Prop) :
    Pool Op Ans Req α σ → List (Action Req Env) → Prop
  | _, [] => True
  | p, a :: as => C p a ∧ Follows S C (p.act S a) as

instance decidableFollows {C : Pool Op Ans Req α σ → Action Req Env → Prop}
    [∀ p a, Decidable (C p a)] (p : Pool Op Ans Req α σ) (as : List (Action Req Env)) :
    Decidable (Follows S C p as) :=
  match as with
  | [] => isTrue trivial
  | a :: as =>
    @instDecidableAnd (C p a) (Follows S C (p.act S a) as) _ (decidableFollows (p.act S a) as)

theorem follows_of_forall {C : Pool Op Ans Req α σ → Action Req Env → Prop}
    {as : List (Action Req Env)} (h : ∀ p, ∀ a ∈ as, C p a) : Follows S C p as := by
  induction as generalizing p with
  | nil => trivial
  | cons a as ih =>
    exact ⟨h p a List.mem_cons_self, ih fun p b hb => h p b (List.mem_cons_of_mem _ hb)⟩

theorem Follows.and {C D : Pool Op Ans Req α σ → Action Req Env → Prop}
    {as : List (Action Req Env)} (hC : Follows S C p as) (hD : Follows S D p as) :
    Follows S (fun p a => C p a ∧ D p a) p as := by
  induction as generalizing p with
  | nil => trivial
  | cons a as ih => exact ⟨⟨hC.1, hD.1⟩, ih hC.2 hD.2⟩

/-- **The invariant rule.** `C` restricts the schedules considered. In the step case the next call is
one that `Φ` allows after the trace of the thread that makes it. -/
theorem run_invariant (hprog : ∀ r, (S.program r).Always (Φ r) (Ψ r) [])
    {C : Pool Op Ans Req α σ → Action Req Env → Prop} {I : Pool Op Ans Req α σ → Prop}
    (hp : p.Sound Φ Ψ) (hI : I p)
    (harrive : ∀ p r, C p (.arrive r) → I p → I (p.act S (.arrive r)))
    (hstep : ∀ p i t o k, p.threads[i]? = some t → t.rest = .call o k → C p (.step i) →
      Φ t.request t.trace o → I p → I (p.perform S i t o k))
    (hdisturb : ∀ p e, C p (.disturb e) → I p → I (p.act S (.disturb e)))
    (as : List (Action Req Env)) (hC : Follows S C p as) : I (p.run S as) := by
  induction as generalizing p with
  | nil => exact hI
  | cons a as ih =>
    obtain ⟨ha, has⟩ := hC
    refine ih (hp.act hprog a) ?_ has
    cases a with
    | arrive r => exact harrive p r ha hI
    | step i =>
      rcases act_step (S := S) (p := p) i with h | ⟨t, o, k, hi, hr, h⟩
      · rw [h]; exact hI
      · rw [h]
        have ht := hp t (List.mem_of_getElem? hi)
        rw [hr] at ht
        exact hstep p i t o k hi hr ha ht.1 hI
    | disturb e => exact hdisturb p e ha hI

/-- **The provenance rule.** If nothing is there at first, and a call that brings `x` about is one
whose thread satisfies `Q x` afterwards, then whatever is there was brought about by such a
thread. -/
theorem run_written {β : Type*} {X : σ → β → Prop} {Q : β → Req → List (Event Ans) → Prop}
    (hprog : ∀ r, (S.program r).Always (Φ r) (Ψ r) [])
    (hmono : ∀ x r tr tr', tr <+: tr' → Q x r tr → Q x r tr')
    (hcall : ∀ o s x, X (S.exec o s).2 x → X s x ∨
      ∀ r tr, Φ r tr o → Q x r (tr ++ [⟨o, (S.exec o s).1⟩]))
    (hdisturb : ∀ e s x, X (S.disturb e s) x → X s x)
    {s : σ} (hs : ∀ x, ¬ X s x) (as : List (Action Req Env)) (x : β)
    (hx : X ((idle s).run S as).shared x) :
    ∃ t ∈ ((idle s).run S as).threads, Q x t.request t.trace := by
  -- threads only grow, so a thread found once is found again
  have hlive : ∀ (p q : Pool Op Ans Req α σ) x, p.Extends q →
      (∃ t ∈ p.threads, Q x t.request t.trace) → ∃ t ∈ q.threads, Q x t.request t.trace := by
    rintro p q x hpq ⟨t, ht, hQ⟩
    obtain ⟨t', ht', hr, htr⟩ := hpq t ht
    exact ⟨t', ht', hr ▸ hmono x _ _ _ htr hQ⟩
  refine run_invariant (S := S) (C := fun _ _ => True)
    (I := fun p => ∀ x, X p.shared x → ∃ t ∈ p.threads, Q x t.request t.trace)
    hprog (Sound.idle s) (fun x h => absurd h (hs x)) ?_ ?_ ?_ as
    (follows_of_forall fun _ _ _ => trivial) x hx
  · intro p r _ hI x h
    exact hlive _ _ x (act_extends _) (hI x h)
  · intro p i t o k hi _ _ hΦ hI x h
    rcases hcall o p.shared x h with h | h
    · exact hlive _ _ x (perform_extends hi) (hI x h)
    · exact ⟨_, moved_mem_perform hi, h _ _ hΦ⟩
  · intro p e _ hI x h
    exact hI x (hdisturb e _ x h)

/-- **Provenance of what was read.** If what is there was always brought about by a thread that
satisfies `Q`, and `Y e x` says that the call `e` found `x` there, then whatever any thread has found
was brought about by such a thread. -/
theorem run_read {β : Type*} {X : σ → β → Prop} {Y : Event Ans → β → Prop}
    {Q : β → Req → List (Event Ans) → Prop} {s : σ}
    (hwritten : ∀ as x, X ((idle s).run S as).shared x →
      ∃ t ∈ ((idle s).run S as).threads, Q x t.request t.trace)
    (hmono : ∀ x r tr tr', tr <+: tr' → Q x r tr → Q x r tr')
    (hread : ∀ o s x, Y ⟨o, (S.exec o s).1⟩ x → X s x) (as : List (Action Req Env)) :
    ∀ t ∈ ((idle s).run S as).threads, ∀ e ∈ t.trace, ∀ x, Y e x →
      ∃ t ∈ ((idle s).run S as).threads, Q x t.request t.trace := by
  induction as using List.reverseRecOn with
  | nil =>
    intro t ht
    cases ht
  | append_singleton as a ih =>
    -- who brought `x` about before the last action is still there after it
    have hlive : ∀ x, (∃ t ∈ ((idle s).run S as).threads, Q x t.request t.trace) →
        ∃ t ∈ ((idle s).run S (as ++ [a])).threads, Q x t.request t.trace := by
      rintro x ⟨t, ht, hQ⟩
      rw [run_concat]
      obtain ⟨t', ht', hr, htr⟩ := act_extends (S := S) a t ht
      exact ⟨t', ht', hr ▸ hmono x _ _ _ htr hQ⟩
    intro t ht e he x hY
    apply hlive
    rw [run_concat] at ht
    cases a with
    | arrive r =>
      rcases List.mem_append.mp ht with ht | ht
      · exact ih t ht e he x hY
      · rw [List.mem_singleton.mp ht] at he
        cases he
    | step i =>
      rcases act_step (S := S) (p := (idle s).run S as) i with h | ⟨t₀, o, k, hi, -, h⟩
      · rw [h] at ht
        exact ih t ht e he x hY
      · rw [h] at ht
        rcases mem_perform ht with ht | rfl
        · exact ih t ht e he x hY
        · rcases List.mem_append.mp he with he | he
          · exact ih t₀ (List.mem_of_getElem? hi) e he x hY
          · rw [List.mem_singleton.mp he] at hY
            exact hwritten as x (hread o _ x hY)
    | disturb d => exact ih t ht e he x hY

/-- **Lasting answers.** If a call establishes `F` of its answer and nothing ever undoes `F`, then
`F` holds of all calls in all traces. -/
theorem run_lasting {F : Event Ans → σ → Prop}
    (hnew : ∀ o s, F ⟨o, (S.exec o s).1⟩ (S.exec o s).2)
    (hcall : ∀ e o s, F e s → F e (S.exec o s).2)
    (hdisturb : ∀ e d s, F e s → F e (S.disturb d s))
    (hp : ∀ t ∈ p.threads, ∀ e ∈ t.trace, F e p.shared) (as : List (Action Req Env)) :
    ∀ t ∈ (p.run S as).threads, ∀ e ∈ t.trace, F e (p.run S as).shared := by
  induction as generalizing p with
  | nil => exact hp
  | cons a as ih =>
    apply ih
    cases a with
    | arrive r =>
      intro t ht e he
      rcases List.mem_append.mp ht with ht | ht
      · exact hp t ht e he
      · cases List.mem_singleton.mp ht
        cases he
    | step i =>
      rcases act_step (S := S) (p := p) i with h | ⟨t, o, k, hi, -, h⟩
      · rw [h]; exact hp
      · rw [h]
        intro t' ht' e he
        rcases mem_perform ht' with ht' | rfl
        · exact hcall e o _ (hp t' ht' e he)
        · rcases List.mem_append.mp he with he | he
          · exact hcall e o _ (hp t (List.mem_of_getElem? hi) e he)
          · cases List.mem_singleton.mp he
            exact hnew o _
    | disturb d => exact fun t ht e he => hdisturb e d _ (hp t ht e he)

end Pool

/-! ## Serving requests one after the other -/

/-- A request that was served alone: the state it found and how it ended. -/
structure Served (Req α σ : Type u) : Type u where
  before : σ
  request : Req
  outcome : Outcome α

namespace System

variable (S : System Op Ans Req α σ Env)

/-- Serve one request to its end. -/
def serve (s : σ) (r : Req) : Outcome α × σ := (S.program r).run S.exec s

/-- The state after serving `rs` in order. -/
def final (s : σ) (rs : List Req) : σ := rs.foldl (fun s r => (S.serve s r).2) s

/-- What happened to each of `rs`, in order. -/
def history : σ → List Req → List (Served Req α σ)
  | _, [] => []
  | s, r :: rs => ⟨s, r, (S.serve s r).1⟩ :: history (S.serve s r).2 rs

variable {S} {s : σ}

@[simp] theorem final_nil : S.final s [] = s := rfl

@[simp] theorem final_cons (r : Req) (rs : List Req) :
    S.final s (r :: rs) = S.final (S.serve s r).2 rs := rfl

theorem final_append (rs qs : List Req) :
    S.final s (rs ++ qs) = S.final (S.final s rs) qs := List.foldl_append

theorem final_concat (rs : List Req) (r : Req) :
    S.final s (rs ++ [r]) = (S.serve (S.final s rs) r).2 := by
  rw [final_append, final_cons, final_nil]

theorem history_append (rs qs : List Req) :
    S.history s (rs ++ qs) = S.history s rs ++ S.history (S.final s rs) qs := by
  induction rs generalizing s with
  | nil => rfl
  | cons r rs ih => exact congrArg (List.cons _) ih

theorem history_concat (rs : List Req) (r : Req) :
    S.history s (rs ++ [r]) =
      S.history s rs ++ [⟨S.final s rs, r, (S.serve (S.final s rs) r).1⟩] :=
  history_append rs [r]

/-- What every single service keeps, a whole run keeps. The service may be judged by the entry it
leaves in the history. -/
theorem final_invariant {A : Served Req α σ → Prop} {I : σ → Prop}
    (hserve : ∀ s r, A ⟨s, r, (S.serve s r).1⟩ → I s → I (S.serve s r).2)
    (rs : List Req) (hA : ∀ e ∈ S.history s rs, A e) (hs : I s) : I (S.final s rs) := by
  induction rs generalizing s with
  | nil => exact hs
  | cons r rs ih =>
    exact ih (fun e he => hA e (List.mem_cons_of_mem _ he))
      (hserve s r (hA _ List.mem_cons_self) hs)

/-! ### A sequential run is a schedule -/

/-- The last thread of a pool runs to its end when only it is scheduled. -/
theorem exists_steps (p : Pool Op Ans Req α σ) (r : Req) (tr : List (Event Ans))
    (q : Prog Op Ans α) :
    ∃ (as : List (Action Req Env)) (tr' : List (Event Ans)) (q' : Prog Op Ans α),
      (⟨p.shared, p.threads ++ [⟨r, tr, q⟩]⟩ : Pool Op Ans Req α σ).run S as =
        ⟨(q.run S.exec p.shared).2, p.threads ++ [⟨r, tr', q'⟩]⟩ := by
  induction q generalizing p tr with
  | ret a => exact ⟨[], tr, .ret a, rfl⟩
  | abort => exact ⟨[], tr, .abort, rfl⟩
  | call o k ih =>
    obtain ⟨as, tr', q', h⟩ := ih (S.exec o p.shared).1 ⟨(S.exec o p.shared).2, p.threads⟩
      (tr ++ [⟨o, (S.exec o p.shared).1⟩])
    refine ⟨.step p.threads.length :: as, tr', q', ?_⟩
    rw [Pool.run_cons, Pool.act_step_call List.getElem?_concat_length rfl]
    simp only [Pool.perform, List.set_append_right _ _ (Nat.le_refl _), Nat.sub_self,
      List.set_cons_zero]
    exact h

/-- **A sequential run is a schedule**: some schedule from the same state ends in the same state. -/
theorem exists_schedule (s : σ) (rs : List Req) :
    ∃ as : List (Action Req Env), ((Pool.idle s).run S as).shared = S.final s rs := by
  suffices h : ∀ (p : Pool Op Ans Req α σ), ∃ as : List (Action Req Env),
      (p.run S as).shared = S.final p.shared rs from h (Pool.idle s)
  induction rs with
  | nil => exact fun p => ⟨[], rfl⟩
  | cons r rs ih =>
    intro p
    obtain ⟨as, tr', q', h⟩ := exists_steps (S := S) p r [] (S.program r)
    obtain ⟨bs, hbs⟩ := ih ⟨((S.program r).run S.exec p.shared).2, p.threads ++ [⟨r, tr', q'⟩]⟩
    refine ⟨.arrive r :: as ++ bs, ?_⟩
    rw [Pool.run_append, Pool.run_cons]
    simp only [Pool.act]
    rw [h, hbs]
    rfl

end System

end Atomic
