import Mathlib.Order.Lattice
import Mathlib.Tactic.Common
import Mathlib.Data.List.Induction
import Mathlib.Data.List.Nodup

/-!
# Calls that share one initialisation

A register that many calls want to set, each to its own value, with the calls merged in the way of a
single-flight cache. A call that finds no initialisation under way looks at the current value: it
either returns that value or starts to initialise. A call that finds another one initialising waits
for it and returns what *that* one inserted, without looking at any value itself.

Calls are named by an arbitrary type `ι`, call `i` brings the value `init i`, and a schedule is any
list of calls that make their next step. When the values are ordered and a call replaces what is
worth less than its own, the register ends at the greatest value exactly as long as no call waits for
one that is worth less (`Safe`): that is `Inv` and `run_inv`, and `run_waited` is the other
direction.

A safe schedule is also linearizable (`run_linear`): each call gets what an atomic one (`put`) would
get at its place in the order in which the calls take effect, where one that waits takes effect right
after the insertion that it waits for.
-/

namespace SingleFlight

universe u v w

variable {ι : Type u} {β : Type v}

/-- How far a call is. -/
inductive Phase (ι : Type u) (β : Type v) where
  | idle
  | initializing
  | waiting (on : ι)
  | returned (entry : β)

/-- The call initialises, or has returned. -/
def Phase.Committed : Phase ι β → Prop
  | .initializing => True
  | .returned _ => True
  | _ => False

/-- The value held, the call that is initialising, and how far each call is. -/
structure State (ι : Type u) (β : Type v) where
  current : Option β
  initializing : Option ι
  phase : ι → Phase ι β

def start : State ι β := ⟨none, none, fun _ => .idle⟩

section Put

variable (replaceIf : β → β → Bool)

/-- What an atomic call returns, and leaves in the register. -/
def put (current : Option β) (own : β) : β :=
  match current with
  | none => own
  | some existing => if replaceIf own existing then own else existing

theorem put_of_replaces {current : Option β} {own : β}
    (h : ∀ e, current = some e → replaceIf own e = true) : put replaceIf current own = own := by
  cases current with
  | none => rfl
  | some e => exact if_pos (h e rfl)

theorem put_of_keeps {existing own : β} (h : replaceIf own existing = false) :
    put replaceIf (some existing) own = existing := by
  simp [put, h]

end Put

section Step

variable [DecidableEq ι] (init : ι → β) (replaceIf : β → β → Bool)

namespace State

variable (s : State ι β)

/-- Call `i` moves on to a phase. -/
def enter (i : ι) (p : Phase ι β) : State ι β := { s with phase := Function.update s.phase i p }

/-- The first step of a call. -/
def begin (i : ι) : State ι β :=
  match s.initializing with
  | some j => s.enter i (.waiting j)
  | none =>
    match s.current with
    | none => { s.enter i .initializing with initializing := some i }
    | some existing =>
      if replaceIf (init i) existing then { s.enter i .initializing with initializing := some i }
      else s.enter i (.returned existing)

/-- The last step of a call that initialises. -/
def finish (i : ι) : State ι β :=
  { s.enter i (.returned (init i)) with current := some (init i), initializing := none }

/-- The next step of call `i`; it makes none while the call it waits for has not returned. -/
def step (i : ι) : State ι β :=
  match s.phase i with
  | .idle => s.begin init replaceIf i
  | .initializing => s.finish init i
  | .waiting j =>
    match s.phase j with
    | .returned _ => s.enter i (.returned (init j))
    | _ => s
  | .returned _ => s

end State

/-- The state after a schedule. -/
def run (schedule : List ι) : State ι β :=
  schedule.foldl (fun s i => s.step init replaceIf i) start

theorem run_concat (schedule : List ι) (i : ι) :
    run init replaceIf (schedule ++ [i]) =
      (run init replaceIf schedule).step init replaceIf i := by
  unfold run
  rw [List.foldl_append]
  rfl

/-- **What a step can do.** -/
theorem step_cases (s : State ι β) (i : ι) :
    (∃ j, s.phase i = .idle ∧ s.initializing = some j ∧
      s.step init replaceIf i = s.enter i (.waiting j)) ∨
    (s.phase i = .idle ∧ s.initializing = none ∧
      (∀ e, s.current = some e → replaceIf (init i) e = true) ∧
      s.step init replaceIf i = { s.enter i .initializing with initializing := some i }) ∨
    (∃ e, s.phase i = .idle ∧ s.initializing = none ∧ s.current = some e ∧
      replaceIf (init i) e = false ∧ s.step init replaceIf i = s.enter i (.returned e)) ∨
    (s.phase i = .initializing ∧ s.step init replaceIf i = s.finish init i) ∨
    (∃ j e, s.phase i = .waiting j ∧ s.phase j = .returned e ∧
      s.step init replaceIf i = s.enter i (.returned (init j))) ∨
    ((s.phase i ≠ .idle ∧ s.phase i ≠ .initializing) ∧ s.step init replaceIf i = s) := by
  cases hphase : s.phase i with
  | idle =>
    have hstep : s.step init replaceIf i = s.begin init replaceIf i := by
      simp only [State.step, hphase]
    rw [hstep]
    cases hinit : s.initializing with
    | some j =>
      refine .inl ⟨j, rfl, rfl, ?_⟩
      simp only [State.begin, hinit]
    | none =>
      cases hcurrent : s.current with
      | none =>
        refine .inr (.inl ⟨rfl, rfl, by simp, ?_⟩)
        simp only [State.begin, hinit, hcurrent]
      | some e =>
        cases hreplace : replaceIf (init i) e with
        | true =>
          refine .inr (.inl ⟨rfl, rfl, by simp [hreplace], ?_⟩)
          simp only [State.begin, hinit, hcurrent, hreplace, if_true]
        | false =>
          refine .inr (.inr (.inl ⟨e, rfl, rfl, rfl, hreplace, ?_⟩))
          simp [State.begin, hinit, hcurrent, hreplace]
  | initializing =>
    refine .inr (.inr (.inr (.inl ⟨rfl, ?_⟩)))
    simp only [State.step, hphase]
  | waiting j =>
    cases hj : s.phase j with
    | returned e =>
      refine .inr (.inr (.inr (.inr (.inl ⟨j, e, rfl, hj, ?_⟩))))
      simp only [State.step, hphase, hj]
    | _ =>
      refine .inr (.inr (.inr (.inr (.inr ⟨⟨by simp, by simp⟩, ?_⟩))))
      simp only [State.step, hphase, hj]
  | returned e =>
    refine .inr (.inr (.inr (.inr (.inr ⟨⟨by simp, by simp⟩, ?_⟩))))
    simp only [State.step, hphase]

theorem enter_phase_self (s : State ι β) (i : ι) (p : Phase ι β) : (s.enter i p).phase i = p := by
  show Function.update s.phase i p i = p
  exact Function.update_self i p s.phase

theorem enter_phase_of_ne (s : State ι β) {i k : ι} (p : Phase ι β) (hne : k ≠ i) :
    (s.enter i p).phase k = s.phase k := by
  show Function.update s.phase i p k = s.phase k
  exact Function.update_of_ne hne p s.phase

theorem enter_phase_cases {s : State ι β} {i k : ι} {p q : Phase ι β}
    (h : (s.enter i p).phase k = q) : (k = i ∧ p = q) ∨ (k ≠ i ∧ s.phase k = q) := by
  by_cases hki : k = i
  · subst hki
    rw [enter_phase_self] at h
    exact .inl ⟨rfl, h⟩
  · rw [enter_phase_of_ne s p hki] at h
    exact .inr ⟨hki, h⟩

/-- A call on its own that replaces the value held. -/
theorem alone_replaces {s : State ι β} {i : ι} (hidle : s.phase i = .idle)
    (hfree : s.initializing = none)
    (hreplace : ∀ e, s.current = some e → replaceIf (init i) e = true) :
    (s.step init replaceIf i).step init replaceIf i =
      { s.enter i (.returned (init i)) with current := some (init i) } := by
  have hbegin : s.step init replaceIf i =
      { s.enter i .initializing with initializing := some i } := by
    simp only [State.step, hidle, State.begin, hfree]
    cases hcurrent : s.current with
    | none => rfl
    | some e => exact if_pos (hreplace e hcurrent)
  rw [hbegin]
  simp only [State.step, State.enter, State.finish, Function.update_self, Function.update_idem,
    hfree]

/-- A call on its own that returns the value held. -/
theorem alone_keeps {s : State ι β} {i : ι} {e : β} (hidle : s.phase i = .idle)
    (hfree : s.initializing = none) (hcurrent : s.current = some e)
    (hkeep : replaceIf (init i) e = false) :
    (s.step init replaceIf i).step init replaceIf i = s.enter i (.returned e) := by
  have hbegin : s.step init replaceIf i = s.enter i (.returned e) := by
    simp [State.step, hidle, State.begin, hfree, hcurrent, hkeep]
  have hphase := enter_phase_self s i (.returned e)
  rw [hbegin]
  simp only [State.step, hphase]

/-- A call on its own is an atomic one. -/
theorem alone_puts {s : State ι β} {i : ι} (hidle : s.phase i = .idle)
    (hfree : s.initializing = none) :
    let s' := (s.step init replaceIf i).step init replaceIf i
    s'.initializing = none ∧ s'.current = some (put replaceIf s.current (init i)) ∧
      s'.phase i = .returned (put replaceIf s.current (init i)) := by
  intro s'
  by_cases hreplace : ∀ e, s.current = some e → replaceIf (init i) e = true
  · have hs' : s' = { s.enter i (.returned (init i)) with current := some (init i) } :=
      alone_replaces init replaceIf hidle hfree hreplace
    rw [hs', put_of_replaces replaceIf hreplace]
    exact ⟨hfree, rfl, enter_phase_self s i _⟩
  · simp only [not_forall] at hreplace
    obtain ⟨e, hcurrent, hkeep⟩ := hreplace
    rw [Bool.not_eq_true] at hkeep
    have hs' : s' = s.enter i (.returned e) :=
      alone_keeps init replaceIf hidle hfree hcurrent hkeep
    rw [hs', hcurrent, put_of_keeps replaceIf hkeep]
    exact ⟨hfree, hcurrent, enter_phase_self s i _⟩

end Step

/-! ## Values in order -/

section Ordered

variable {γ : Type w} [LinearOrder γ] (value : β → γ) (init : ι → β)

/-- A call replaces what is worth less than its own value. -/
def outbids (own existing : β) : Bool := value existing < value own

theorem outbids_eq_true {own existing : β} :
    outbids value own existing = true ↔ value existing < value own := by
  simp [outbids]

theorem outbids_eq_false {own existing : β} :
    outbids value own existing = false ↔ value own ≤ value existing := by
  simp [outbids]

/-- What holds as long as no call waits for one that is worth less. -/
structure Inv (s : State ι β) : Prop where
  initializing_phase : ∀ i, s.initializing = some i → s.phase i = .initializing
  phase_initializing : ∀ i, s.phase i = .initializing → s.initializing = some i
  beats : ∀ i e, s.initializing = some i → s.current = some e → value e < value (init i)
  returned : ∀ i e, s.phase i = .returned e →
    value (init i) ≤ value e ∧ ∃ c, s.current = some c ∧ value e ≤ value c
  waiting : ∀ i j, s.phase i = .waiting j →
    value (init i) ≤ value (init j) ∧ (s.phase j).Committed
  held : ∀ c, s.current = some c → ∃ i, c = init i

theorem inv_start : Inv value init (start : State ι β) := by
  constructor <;> intros <;> contradiction

variable [DecidableEq ι]

/-- Every call that begins while another one initialises is worth at most as much. -/
def Safe (schedule : List ι) : Prop :=
  ∀ before i, before ++ [i] <+: schedule →
    (run init (outbids value) before).phase i = .idle →
    ∀ j, (run init (outbids value) before).initializing = some j → value (init i) ≤ value (init j)

variable {value init} {s : State ι β} {i : ι}

theorem Safe.restrict {before schedule : List ι} (h : Safe value init schedule)
    (hbefore : before <+: schedule) : Safe value init before :=
  fun before' i hi => h before' i (hi.trans hbefore)

theorem committed_enter {p : Phase ι β} (hp : (s.phase i).Committed → p.Committed) {j : ι}
    (h : (s.phase j).Committed) : ((s.enter i p).phase j).Committed := by
  by_cases hji : j = i
  · subst hji
    rw [enter_phase_self]
    exact hp h
  · rw [enter_phase_of_ne s p hji]
    exact h

/-- A call that neither starts nor ends an initialisation. -/
theorem Inv.enter (h : Inv value init s) {p : Phase ι β} (hi : s.phase i ≠ .initializing)
    (hp : p ≠ .initializing) (hcommitted : (s.phase i).Committed → p.Committed)
    (hreturned : ∀ e, p = .returned e →
      value (init i) ≤ value e ∧ ∃ c, s.current = some c ∧ value e ≤ value c)
    (hwaiting : ∀ j, p = .waiting j → value (init i) ≤ value (init j) ∧ (s.phase j).Committed) :
    Inv value init (s.enter i p) := by
  refine ⟨?_, ?_, h.beats, ?_, ?_, h.held⟩
  · intro k hk
    have hphase := h.initializing_phase k hk
    have hki : k ≠ i := by
      rintro rfl
      exact hi hphase
    rw [enter_phase_of_ne s p hki]
    exact hphase
  · intro k hk
    rcases enter_phase_cases hk with ⟨-, heq⟩ | ⟨-, hphase⟩
    · exact absurd heq hp
    · exact h.phase_initializing k hphase
  · intro k e hk
    rcases enter_phase_cases hk with ⟨rfl, heq⟩ | ⟨-, hphase⟩
    · exact hreturned e heq
    · exact h.returned k e hphase
  · intro k j hk
    rcases enter_phase_cases hk with ⟨rfl, heq⟩ | ⟨-, hphase⟩
    · obtain ⟨hle, hj⟩ := hwaiting j heq
      exact ⟨hle, committed_enter hcommitted hj⟩
    · obtain ⟨hle, hj⟩ := h.waiting k j hphase
      exact ⟨hle, committed_enter hcommitted hj⟩

/-- A call starts to initialise. -/
theorem Inv.start (h : Inv value init s) (hfree : s.initializing = none)
    (hbeats : ∀ e, s.current = some e → value e < value (init i)) :
    Inv value init { s.enter i .initializing with initializing := some i } := by
  refine ⟨?_, ?_, ?_, ?_, ?_, h.held⟩
  · intro k hk
    cases hk
    exact enter_phase_self s i _
  · intro k hk
    rcases enter_phase_cases (s := s) (i := i) hk with ⟨rfl, -⟩ | ⟨-, hphase⟩
    · rfl
    · rw [h.phase_initializing k hphase] at hfree
      cases hfree
  · intro k e hk he
    cases hk
    exact hbeats e he
  · intro k e hk
    rcases enter_phase_cases (s := s) (i := i) hk with ⟨-, heq⟩ | ⟨-, hphase⟩
    · cases heq
    · exact h.returned k e hphase
  · intro k j hk
    rcases enter_phase_cases (s := s) (i := i) hk with ⟨-, heq⟩ | ⟨-, hphase⟩
    · cases heq
    · obtain ⟨hle, hj⟩ := h.waiting k j hphase
      exact ⟨hle, committed_enter (p := .initializing) (fun _ => trivial) hj⟩

/-- A call ends its initialisation. -/
theorem Inv.finish (h : Inv value init s) (hinit : s.phase i = .initializing) :
    Inv value init (s.finish init i) := by
  have hi := h.phase_initializing i hinit
  refine ⟨?_, ?_, ?_, ?_, ?_, ?_⟩
  · intro k hk
    cases hk
  · intro k hk
    rcases enter_phase_cases (s := s) (i := i) hk with ⟨-, heq⟩ | ⟨hki, hphase⟩
    · cases heq
    · -- no two calls initialise at a time
      cases hi.symm.trans (h.phase_initializing k hphase)
      exact absurd rfl hki
  · intro k e hk
    cases hk
  · intro k e hk
    rcases enter_phase_cases (s := s) (i := i) hk with ⟨rfl, heq⟩ | ⟨-, hphase⟩
    · cases heq
      exact ⟨le_refl _, init k, rfl, le_refl _⟩
    · obtain ⟨hle, c, hc, hec⟩ := h.returned k e hphase
      exact ⟨hle, init i, rfl, hec.trans (h.beats i c hi hc).le⟩
  · intro k j hk
    rcases enter_phase_cases (s := s) (i := i) hk with ⟨-, heq⟩ | ⟨-, hphase⟩
    · cases heq
    · obtain ⟨hle, hj⟩ := h.waiting k j hphase
      exact ⟨hle, committed_enter (p := .returned (init i)) (fun _ => trivial) hj⟩
  · intro c hc
    cases hc
    exact ⟨i, rfl⟩

/-- **One step keeps the invariant**, unless it makes a call wait for one that is worth less. -/
theorem Inv.step (h : Inv value init s)
    (hsafe : s.phase i = .idle → ∀ j, s.initializing = some j → value (init i) ≤ value (init j)) :
    Inv value init (s.step init (outbids value) i) := by
  rcases step_cases init (outbids value) s i with
    ⟨j, hidle, hinit, hs⟩ | ⟨hidle, hfree, hreplace, hs⟩ | ⟨e, hidle, hfree, hcurrent, hkeep, hs⟩ |
    ⟨hinit, hs⟩ | ⟨j, e, hwaiting, hj, hs⟩ | ⟨-, hs⟩
  · rw [hs]
    apply h.enter (by simp [hidle]) (by simp) (by simp [hidle, Phase.Committed]) (by simp)
    intro j' hj'
    cases hj'
    refine ⟨hsafe hidle j hinit, ?_⟩
    rw [h.initializing_phase j hinit]
    trivial
  · rw [hs]
    apply h.start hfree
    intro e he
    exact (outbids_eq_true value).mp (hreplace e he)
  · rw [hs]
    refine h.enter (by simp [hidle]) (by simp) (fun _ => trivial) ?_ (by simp)
    intro e' he'
    cases he'
    exact ⟨(outbids_eq_false value).mp hkeep, e, hcurrent, le_refl _⟩
  · rw [hs]
    exact h.finish hinit
  · rw [hs]
    refine h.enter (by simp [hwaiting]) (by simp) (fun _ => trivial) ?_ (by simp)
    intro e' he'
    cases he'
    -- what the other call inserted was held when it returned, and only grew since
    obtain ⟨hle, c, hc, hec⟩ := h.returned j e hj
    exact ⟨(h.waiting i j hwaiting).1, c, hc, hle.trans hec⟩
  · rw [hs]
    exact h

/-- **A safe schedule keeps the invariant.** -/
theorem run_inv {schedule : List ι} (hsafe : Safe value init schedule) :
    Inv value init (run init (outbids value) schedule) := by
  induction schedule using List.reverseRecOn with
  | nil => exact inv_start value init
  | append_singleton schedule i ih =>
    rw [run_concat]
    exact (ih (hsafe.restrict (List.prefix_append _ _))).step
      (hsafe schedule i List.prefix_rfl)

end Ordered

/-! ## What a call that waited returns -/

section Waited

variable [DecidableEq ι] {init : ι → β} {replaceIf : β → β → Bool}

/-- The call waits for `j`, or has returned what `j` inserted. -/
def Waited (init : ι → β) (s : State ι β) (i j : ι) : Prop :=
  s.phase i = .waiting j ∨ s.phase i = .returned (init j)

/-- A step moves no other call. -/
theorem step_phase_of_ne {s : State ι β} {i k : ι} (hne : i ≠ k) :
    (s.step init replaceIf k).phase i = s.phase i := by
  have henter : ∀ p, (s.enter k p).phase i = s.phase i := by
    intro p
    exact enter_phase_of_ne s p hne
  rcases step_cases init replaceIf s k with
    ⟨j, -, -, hs⟩ | ⟨-, -, -, hs⟩ | ⟨e, -, -, -, -, hs⟩ | ⟨-, hs⟩ | ⟨j, e, -, -, hs⟩ | ⟨-, hs⟩
  · rw [hs, henter]
  · rw [hs]
    exact henter _
  · rw [hs, henter]
  · rw [hs]
    exact henter _
  · rw [hs, henter]
  · rw [hs]

theorem Waited.step {s : State ι β} {i j : ι} (h : Waited init s i j) (k : ι) :
    Waited init (s.step init replaceIf k) i j := by
  unfold Waited at h ⊢
  by_cases hik : i = k
  · subst hik
    rcases step_cases init replaceIf s i with
      ⟨_, hidle, -⟩ | ⟨hidle, -⟩ | ⟨_, hidle, -⟩ | ⟨hinit, -⟩ | ⟨j', e, hwaiting, -, hs⟩ | ⟨-, hs⟩
    · simp [hidle] at h
    · simp [hidle] at h
    · simp [hidle] at h
    · simp [hinit] at h
    · have hj : j' = j := by simpa [hwaiting] using h
      rw [hs, enter_phase_self, hj]
      exact .inr rfl
    · rw [hs]
      exact h
  · rw [step_phase_of_ne hik]
    exact h

/-- **A call that began while `j` initialised** waits for `j`, and returns what `j` inserted. -/
theorem run_waited {before rest : List ι} {i j : ι}
    (hidle : (run init replaceIf before).phase i = .idle)
    (hinit : (run init replaceIf before).initializing = some j) :
    Waited init (run init replaceIf (before ++ i :: rest)) i j := by
  induction rest using List.reverseRecOn with
  | nil =>
    rw [run_concat]
    rcases step_cases init replaceIf (run init replaceIf before) i with
      ⟨j', -, hinit', hs⟩ | ⟨-, hfree, -⟩ | ⟨_, -, hfree, -⟩ | ⟨hphase, -⟩ | ⟨_, _, hphase, -⟩ |
      ⟨⟨hphase, -⟩, -⟩
    · cases hinit.symm.trans hinit'
      rw [hs]
      unfold Waited
      rw [enter_phase_self]
      exact .inl rfl
    · cases hinit.symm.trans hfree
    · cases hinit.symm.trans hfree
    · cases hidle.symm.trans hphase
    · cases hidle.symm.trans hphase
    · exact absurd hidle hphase
  | append_singleton rest k ih =>
    have hcons : before ++ i :: (rest ++ [k]) = (before ++ i :: rest) ++ [k] := by simp
    rw [hcons, run_concat]
    exact ih.step k

end Waited

/-! ## One call after the other -/

section InOrder

variable (init : ι → β) (replaceIf : β → β → Bool)

/-- The value held after atomic calls. -/
def inOrder (order : List ι) : Option β :=
  order.foldl (fun c i => some (put replaceIf c (init i))) none

theorem inOrder_concat (order : List ι) (i : ι) :
    inOrder init replaceIf (order ++ [i]) =
      some (put replaceIf (inOrder init replaceIf order) (init i)) := by
  unfold inOrder
  rw [List.foldl_append]
  rfl

/-- A run with the order in which its calls take effect. `queue` are the calls that wait for the one
that is initialising. -/
structure Ordered (ι : Type u) (β : Type v) where
  state : State ι β
  queue : List ι
  order : List ι

variable [DecidableEq ι]

/-- A call takes effect when it returns the value held, or when it inserts its own; then those that
wait for it take effect right after it. -/
def Ordered.step (t : Ordered ι β) (i : ι) : Ordered ι β where
  state := t.state.step init replaceIf i
  queue :=
    match t.state.phase i, (t.state.step init replaceIf i).phase i with
    | .idle, .waiting _ => t.queue ++ [i]
    | .initializing, _ => []
    | _, _ => t.queue
  order :=
    match t.state.phase i, (t.state.step init replaceIf i).phase i with
    | .idle, .returned _ => t.order ++ [i]
    | .initializing, _ => t.order ++ i :: t.queue
    | _, _ => t.order

def ordered (schedule : List ι) : Ordered ι β :=
  schedule.foldl (fun t i => t.step init replaceIf i) ⟨start, [], []⟩

theorem ordered_concat (schedule : List ι) (i : ι) :
    ordered init replaceIf (schedule ++ [i]) =
      (ordered init replaceIf schedule).step init replaceIf i := by
  unfold ordered
  rw [List.foldl_append]
  rfl

theorem ordered_state (schedule : List ι) :
    (ordered init replaceIf schedule).state = run init replaceIf schedule := by
  induction schedule using List.reverseRecOn with
  | nil => rfl
  | append_singleton schedule i ih =>
    rw [ordered_concat, run_concat, ← ih]
    rfl

theorem Ordered.order_step_grows (t : Ordered ι β) (i : ι) :
    t.order <+: (t.step init replaceIf i).order := by
  simp only [Ordered.step]
  split
  · exact List.prefix_append _ _
  · exact List.prefix_append _ _
  · exact List.prefix_rfl

/-- What has taken effect stays as it is. -/
theorem order_grows {before schedule : List ι} (h : before <+: schedule) :
    (ordered init replaceIf before).order <+: (ordered init replaceIf schedule).order := by
  obtain ⟨later, rfl⟩ := h
  induction later using List.reverseRecOn with
  | nil => simp only [List.append_nil, List.prefix_rfl]
  | append_singleton later i ih =>
    rw [← List.append_assoc, ordered_concat]
    exact ih.trans (Ordered.order_step_grows init replaceIf _ i)

end InOrder

/-! ## Safe schedules are linearizable -/

section Linearizable

variable {γ : Type w} [LinearOrder γ] {value : β → γ} {init : ι → β}

/-- The call has returned `e`, or is about to. -/
def Gets (init : ι → β) (s : State ι β) (i : ι) (e : β) : Prop :=
  s.phase i = .returned e ∨ ∃ j, s.phase i = .waiting j ∧ init j = e

/-- Each call gets what it would get as an atomic one at its place in the order. -/
def Agrees (value : β → γ) (init : ι → β) (s : State ι β) (order : List ι) : Prop :=
  ∀ l i, l ++ [i] <+: order →
    Gets init s i (put (outbids value) (inOrder init (outbids value) l) (init i))

/-- The order of a run explains its state. -/
structure Linear (value : β → γ) (init : ι → β) (t : Ordered ι β) : Prop where
  nodup : (t.order ++ t.queue).Nodup
  current : t.state.current = inOrder init (outbids value) t.order
  agrees : Agrees value init t.state t.order
  returned : ∀ i e, t.state.phase i = .returned e → i ∈ t.order
  waiting : ∀ i j, t.state.phase i = .waiting j → i ∈ t.order ∨ i ∈ t.queue
  queued : ∀ i ∈ t.queue, ∃ j, t.state.initializing = some j ∧ t.state.phase i = .waiting j

variable {s s' : State ι β} {order : List ι} {t : Ordered ι β} {i : ι}

theorem Agrees.concat (h : Agrees value init s order)
    (hi : Gets init s i (put (outbids value) (inOrder init (outbids value) order) (init i))) :
    Agrees value init s (order ++ [i]) := by
  intro l k hk
  rcases List.prefix_concat_iff.mp hk with heq | hbefore
  · obtain ⟨rfl, rfl⟩ := List.append_singleton_inj.mp heq
    exact hi
  · exact h l k hbefore

theorem mem_of_prefix_concat {l : List ι} {k : ι} (h : l ++ [k] <+: order) : k ∈ order :=
  h.subset (List.mem_append_right _ (List.mem_singleton_self k))

/-- A step of a call that has not taken effect. -/
theorem Agrees.congr (h : Agrees value init s order)
    (hsame : ∀ k ∈ order, s'.phase k = s.phase k) : Agrees value init s' order := by
  intro l k hk
  unfold Gets
  rw [hsame k (mem_of_prefix_concat hk)]
  exact h l k hk

/-- A call that has taken effect waits or has returned. -/
theorem Agrees.begun (h : Agrees value init s order) (hi : i ∈ order) :
    s.phase i ≠ .idle ∧ s.phase i ≠ .initializing := by
  obtain ⟨l, l', rfl⟩ := List.append_of_mem hi
  have hgets := h l i ⟨l', by simp⟩
  rcases hgets with hreturned | ⟨j, hwaiting, -⟩
  · simp [hreturned]
  · simp [hwaiting]

theorem Linear.begun (h : Linear value init t) (hi : i ∈ t.order ∨ i ∈ t.queue) :
    t.state.phase i ≠ .idle ∧ t.state.phase i ≠ .initializing := by
  rcases hi with hi | hi
  · exact h.agrees.begun hi
  · obtain ⟨j, -, hwaiting⟩ := h.queued i hi
    simp [hwaiting]

theorem Linear.ne_of_mem (h : Linear value init t) {k : ι}
    (hi : t.state.phase i = .idle ∨ t.state.phase i = .initializing)
    (hk : k ∈ t.order ∨ k ∈ t.queue) : k ≠ i := by
  rintro rfl
  obtain ⟨hidle, hinit⟩ := h.begun hk
  exact hi.elim hidle hinit

theorem Linear.not_mem (h : Linear value init t)
    (hi : t.state.phase i = .idle ∨ t.state.phase i = .initializing) : i ∉ t.order ++ t.queue := by
  intro hmem
  exact h.ne_of_mem hi (List.mem_append.mp hmem) rfl

theorem linear_start : Linear value init ⟨start, [], []⟩ := by
  refine ⟨List.nodup_nil, rfl, ?_, ?_, ?_, ?_⟩
  · intro l k hk
    simp at hk
  · intro k e hk
    cases hk
  · intro k j hk
    cases hk
  · intro k hk
    cases hk

/-- The calls that wait for `i` take effect right after it. -/
theorem Agrees.queue (h : Agrees value init s (order ++ [i]))
    (hheld : inOrder init (outbids value) (order ++ [i]) = some (init i)) (queue : List ι)
    (hqueue : ∀ k ∈ queue, s.phase k = .waiting i ∧ value (init k) ≤ value (init i)) :
    inOrder init (outbids value) (order ++ i :: queue) = some (init i) ∧
      Agrees value init s (order ++ i :: queue) := by
  induction queue using List.reverseRecOn with
  | nil => exact ⟨hheld, h⟩
  | append_singleton queue k ih =>
    obtain ⟨hbefore, hagrees⟩ := ih fun k' hk' => hqueue k' (List.mem_append_left _ hk')
    obtain ⟨hwaiting, hle⟩ := hqueue k (List.mem_append_right _ (List.mem_singleton_self k))
    -- the value that `i` has inserted stays
    have hput : put (outbids value) (inOrder init (outbids value) (order ++ i :: queue)) (init k) =
        init i := by
      rw [hbefore]
      exact put_of_keeps _ ((outbids_eq_false value).mpr hle)
    rw [← List.cons_append, ← List.append_assoc]
    refine ⟨?_, hagrees.concat ?_⟩
    · rw [inOrder_concat, hput]
    · rw [hput]
      exact .inr ⟨i, hwaiting, rfl⟩

theorem Linear.queue_eq_nil (h : Linear value init t) (hfree : t.state.initializing = none) :
    t.queue = [] := by
  refine List.eq_nil_iff_forall_not_mem.mpr ?_
  intro k hk
  obtain ⟨j, hinit, -⟩ := h.queued k hk
  cases hfree.symm.trans hinit

variable [DecidableEq ι]

/-- What has taken effect is not touched by a call that has not. -/
theorem Linear.agrees_enter (h : Linear value init t) {p : Phase ι β}
    (hi : t.state.phase i = .idle ∨ t.state.phase i = .initializing) :
    Agrees value init (t.state.enter i p) t.order := by
  refine h.agrees.congr ?_
  intro k hk
  exact enter_phase_of_ne _ _ (h.ne_of_mem hi (.inl hk))

/-- A call goes to sleep behind the one that is initialising. -/
theorem Linear.wait (h : Linear value init t) {j : ι} (hidle : t.state.phase i = .idle)
    (hinit : t.state.initializing = some j) :
    Linear value init ⟨t.state.enter i (.waiting j), t.queue ++ [i], t.order⟩ := by
  refine ⟨?_, h.current, h.agrees_enter (.inl hidle), ?_, ?_, ?_⟩
  · rw [← List.append_assoc, ← List.concat_eq_append]
    exact List.Nodup.concat (h.not_mem (.inl hidle)) h.nodup
  · intro k e hk
    rcases enter_phase_cases hk with ⟨-, heq⟩ | ⟨-, hphase⟩
    · cases heq
    · exact h.returned k e hphase
  · intro k j' hk
    rcases enter_phase_cases hk with ⟨rfl, -⟩ | ⟨-, hphase⟩
    · exact .inr List.mem_concat_self
    · exact (h.waiting k j' hphase).imp_right (List.mem_append_left _)
  · intro k hk
    rcases List.mem_append.mp hk with hk | hk
    · obtain ⟨j', hinit', hwaiting⟩ := h.queued k hk
      refine ⟨j', hinit', ?_⟩
      rw [← hwaiting]
      exact enter_phase_of_ne _ _ (h.ne_of_mem (.inl hidle) (.inr hk))
    · cases List.mem_singleton.mp hk
      exact ⟨j, hinit, enter_phase_self _ _ _⟩

/-- A call starts to initialise. -/
theorem Linear.start (h : Linear value init t) (hidle : t.state.phase i = .idle)
    (hfree : t.state.initializing = none) :
    Linear value init
      ⟨{ t.state.enter i .initializing with initializing := some i }, t.queue, t.order⟩ := by
  refine ⟨h.nodup, h.current, h.agrees_enter (.inl hidle), ?_, ?_, ?_⟩
  · intro k e hk
    rcases enter_phase_cases (s := t.state) (i := i) hk with ⟨-, heq⟩ | ⟨-, hphase⟩
    · cases heq
    · exact h.returned k e hphase
  · intro k j hk
    rcases enter_phase_cases (s := t.state) (i := i) hk with ⟨-, heq⟩ | ⟨-, hphase⟩
    · cases heq
    · exact h.waiting k j hphase
  · intro k hk
    have hk : k ∈ t.queue := hk
    rw [h.queue_eq_nil hfree] at hk
    cases hk

/-- A call returns the value held. -/
theorem Linear.keep (h : Linear value init t) {e : β} (hidle : t.state.phase i = .idle)
    (hfree : t.state.initializing = none) (hcurrent : t.state.current = some e)
    (hkeep : outbids value (init i) e = false) :
    Linear value init ⟨t.state.enter i (.returned e), t.queue, t.order ++ [i]⟩ := by
  have hput : put (outbids value) (inOrder init (outbids value) t.order) (init i) = e := by
    rw [← h.current, hcurrent]
    exact put_of_keeps _ hkeep
  have hqueue := h.queue_eq_nil hfree
  refine ⟨?_, ?_, ?_, ?_, ?_, ?_⟩
  · have hnodup := List.Nodup.concat (h.not_mem (.inl hidle)) h.nodup
    rw [hqueue, List.append_nil, List.concat_eq_append] at hnodup
    show (t.order ++ [i] ++ t.queue).Nodup
    rw [hqueue, List.append_nil]
    exact hnodup
  · show t.state.current = inOrder init (outbids value) (t.order ++ [i])
    rw [inOrder_concat, hput, hcurrent]
  · apply (h.agrees_enter (.inl hidle)).concat
    rw [hput]
    exact .inl (enter_phase_self _ _ _)
  · intro k e' hk
    rcases enter_phase_cases hk with ⟨rfl, -⟩ | ⟨-, hphase⟩
    · exact List.mem_concat_self
    · exact List.mem_append_left _ (h.returned k e' hphase)
  · intro k j hk
    rcases enter_phase_cases hk with ⟨-, heq⟩ | ⟨-, hphase⟩
    · cases heq
    · exact (h.waiting k j hphase).imp_left (List.mem_append_left _)
  · intro k hk
    have hk : k ∈ t.queue := hk
    rw [hqueue] at hk
    cases hk

/-- A call inserts its value, and those that wait for it take effect. -/
theorem Linear.finish (h : Linear value init t) (hinv : Inv value init t.state)
    (hphase : t.state.phase i = .initializing) :
    Linear value init ⟨t.state.finish init i, [], t.order ++ i :: t.queue⟩ := by
  have hinit := hinv.phase_initializing i hphase
  have hput : put (outbids value) (inOrder init (outbids value) t.order) (init i) = init i := by
    rw [← h.current]
    apply put_of_replaces
    intro e he
    exact (outbids_eq_true value).mpr (hinv.beats i e hinit he)
  have hheld : inOrder init (outbids value) (t.order ++ [i]) = some (init i) := by
    rw [inOrder_concat, hput]
  have hbefore : Agrees value init (t.state.finish init i) (t.order ++ [i]) := by
    refine Agrees.concat (h.agrees_enter (.inr hphase)) ?_
    rw [hput]
    exact .inl (enter_phase_self _ _ _)
  obtain ⟨hcurrent, hagrees⟩ := hbefore.queue hheld t.queue (by
    intro k hk
    obtain ⟨j, hinit', hwaiting⟩ := h.queued k hk
    cases hinit.symm.trans hinit'
    refine ⟨?_, (hinv.waiting k i hwaiting).1⟩
    rw [← hwaiting]
    exact enter_phase_of_ne _ _ (h.ne_of_mem (.inr hphase) (.inr hk)))
  refine ⟨?_, hcurrent.symm, hagrees, ?_, ?_, ?_⟩
  · show (t.order ++ i :: t.queue ++ []).Nodup
    rw [List.append_nil]
    exact List.nodup_middle.mpr (List.nodup_cons.mpr ⟨h.not_mem (.inr hphase), h.nodup⟩)
  · intro k e hk
    show k ∈ t.order ++ i :: t.queue
    rcases enter_phase_cases (s := t.state) (i := i) hk with ⟨rfl, -⟩ | ⟨-, hphase⟩
    · exact List.mem_append_right _ List.mem_cons_self
    · exact List.mem_append_left _ (h.returned k e hphase)
  · intro k j hk
    left
    show k ∈ t.order ++ i :: t.queue
    rcases enter_phase_cases (s := t.state) (i := i) hk with ⟨-, heq⟩ | ⟨-, hphase⟩
    · cases heq
    · rcases h.waiting k j hphase with hmem | hmem
      · exact List.mem_append_left _ hmem
      · exact List.mem_append_right _ (List.mem_cons_of_mem _ hmem)
  · intro k hk
    cases hk

/-- A call returns what the one that it waited for has inserted; it took effect then. -/
theorem Linear.wake (h : Linear value init t) (hinv : Inv value init t.state) {j : ι} {e : β}
    (hwaiting : t.state.phase i = .waiting j) (hj : t.state.phase j = .returned e) :
    Linear value init ⟨t.state.enter i (.returned (init j)), t.queue, t.order⟩ := by
  have hnot : i ∉ t.queue := by
    intro hmem
    obtain ⟨j', hinit, hwaiting'⟩ := h.queued i hmem
    cases hwaiting.symm.trans hwaiting'
    have hphase := hinv.initializing_phase j hinit
    cases hj.symm.trans hphase
  have hmem : i ∈ t.order := (h.waiting i j hwaiting).resolve_right hnot
  refine ⟨h.nodup, h.current, ?_, ?_, ?_, ?_⟩
  · intro l k hk
    by_cases hki : k = i
    · subst hki
      rcases h.agrees l k hk with hreturned | ⟨j', hwaiting', hput⟩
      · cases hwaiting.symm.trans hreturned
      · cases hwaiting.symm.trans hwaiting'
        rw [← hput]
        exact .inl (enter_phase_self _ _ _)
    · show Gets init (t.state.enter i _) k _
      unfold Gets
      rw [enter_phase_of_ne _ _ hki]
      exact h.agrees l k hk
  · intro k e' hk
    rcases enter_phase_cases hk with ⟨rfl, -⟩ | ⟨-, hphase⟩
    · exact hmem
    · exact h.returned k e' hphase
  · intro k j' hk
    rcases enter_phase_cases hk with ⟨-, heq⟩ | ⟨-, hphase⟩
    · cases heq
    · exact h.waiting k j' hphase
  · intro k hk
    obtain ⟨j', hinit, hwaiting'⟩ := h.queued k hk
    refine ⟨j', hinit, ?_⟩
    rw [← hwaiting']
    apply enter_phase_of_ne
    rintro rfl
    exact hnot hk

theorem Linear.step (h : Linear value init t) (hinv : Inv value init t.state) (i : ι) :
    Linear value init (t.step init (outbids value) i) := by
  rcases step_cases init (outbids value) t.state i with
    ⟨j, hidle, hinit, hs⟩ | ⟨hidle, hfree, -, hs⟩ | ⟨e, hidle, hfree, hcurrent, hkeep, hs⟩ |
    ⟨hphase, hs⟩ | ⟨j, e, hwaiting, hj, hs⟩ | ⟨⟨hidle, hinit⟩, hs⟩
  · have hstep : t.step init (outbids value) i =
        ⟨t.state.enter i (.waiting j), t.queue ++ [i], t.order⟩ := by
      simp only [Ordered.step, hidle, hs, enter_phase_self]
    rw [hstep]
    exact h.wait hidle hinit
  · have hstep : t.step init (outbids value) i =
        ⟨{ t.state.enter i .initializing with initializing := some i }, t.queue, t.order⟩ := by
      simp only [Ordered.step, hidle, hs, enter_phase_self]
    rw [hstep]
    exact h.start hidle hfree
  · have hstep : t.step init (outbids value) i =
        ⟨t.state.enter i (.returned e), t.queue, t.order ++ [i]⟩ := by
      simp only [Ordered.step, hidle, hs, enter_phase_self]
    rw [hstep]
    exact h.keep hidle hfree hcurrent hkeep
  · have hstep : t.step init (outbids value) i =
        ⟨t.state.finish init i, [], t.order ++ i :: t.queue⟩ := by
      simp only [Ordered.step, hphase, hs]
    rw [hstep]
    exact h.finish hinv hphase
  · have hstep : t.step init (outbids value) i =
        ⟨t.state.enter i (.returned (init j)), t.queue, t.order⟩ := by
      simp only [Ordered.step, hwaiting, hs]
    rw [hstep]
    exact h.wake hinv hwaiting hj
  · have hstep : t.step init (outbids value) i = t := by
      cases hphase : t.state.phase i with
      | idle => exact absurd hphase hidle
      | initializing => exact absurd hphase hinit
      | waiting j => simp only [Ordered.step, hphase, hs]
      | returned e => simp only [Ordered.step, hphase, hs]
    rw [hstep]
    exact h

/-- **A safe schedule is linearizable**: its calls get what they would get as atomic ones, in the
order in which they take effect. -/
theorem run_linear {schedule : List ι} (hsafe : Safe value init schedule) :
    Linear value init (ordered init (outbids value) schedule) := by
  induction schedule using List.reverseRecOn with
  | nil => exact linear_start
  | append_singleton schedule i ih =>
    have hbefore := hsafe.restrict (List.prefix_append schedule [i])
    have hinv := run_inv hbefore
    rw [← ordered_state] at hinv
    rw [ordered_concat]
    exact (ih hbefore).step hinv i

end Linearizable

end SingleFlight
