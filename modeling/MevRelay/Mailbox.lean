import Mathlib.Algebra.GroupWithZero.Nat
import Mathlib.Data.List.Nodup
import Mathlib.Tactic.Common

/-!
# A service behind a channel

Callers send commands into an unbounded channel, each with a one-shot channel for the reply. The
service takes commands off the channel when it is polled, as many as it is given time for, and
replies to each with a *future*: a request that it is left to the caller to make. A caller may give up
at any time, and the service may go away.

A `State` has the channel, the phase of every call, and the journal of the requests made outside;
a run is any sequence of actions of the callers, the service and the outside.

* `Invariant` — whatever the order, a call gets the reply to its own command and makes its request
  once; it fails only if the service is gone (`invariant_run`).
* `settled_of_polls` — the channel is first come, first served: a call that has `n` commands before
  its own has its reply after the service has been polled for `n + 1` commands.
-/

namespace Mailbox

universe u

/-- A service: which command a call sends, which request it is answered with, and what a call is told
when the service is gone. -/
structure Service (Call Command Request ε : Type) where
  command : Call → Command
  future : Command → Request
  closed : ε

/-- How far a call is. -/
inductive Phase (Request : Type) (Answer : Request → Type) (ε : Type) where
  | idle
  | waiting
  | handed (request : Request)
  | asking (request : Request)
  | returned (request : Request) (answer : Answer request)
  | failed (e : ε)
  | cancelled

/-- What happens outside on behalf of a call. -/
inductive Entry (Request : Type) (Answer : Request → Type) where
  | asked (request : Request)
  | answered (request : Request) (answer : Answer request)

/-- The channel holds the commands, each with the call that waits at its one-shot channel. -/
structure State (Command Request : Type) (Answer : Request → Type) (ε : Type) where
  alive : Bool
  channel : List (Nat × Command)
  phase : Nat → Phase Request Answer ε
  journal : List (Nat × Entry Request Answer)

/-- `answer` says what the outside answers, for whatever request the call has made. -/
inductive Action (Request : Type) (Answer : Request → Type) where
  | send (i : Nat)
  | poll (budget : Nat)
  | ask (i : Nat)
  | answer (i : Nat) (outside : (request : Request) → Answer request)
  | cancel (i : Nat)
  | shutDown

variable {Call Command Request ε : Type} {Answer : Request → Type}

namespace State

def initial : State Command Request Answer ε := ⟨true, [], fun _ => .idle, []⟩

variable (S : Service Call Command Request ε) (calls : Nat → Call)
  (s : State Command Request Answer ε)

def setPhase (i : Nat) (p : Phase Request Answer ε) : State Command Request Answer ε :=
  { s with phase := Function.update s.phase i p }

/-- The reply to a command is lost if nobody waits for it any more. -/
def reply (entry : Nat × Command) : State Command Request Answer ε :=
  match s.phase entry.1 with
  | .waiting => s.setPhase entry.1 (.handed (S.future entry.2))
  | _ => s

/-- One action. What is not possible in the phase of the call has no effect. -/
def act : Action Request Answer → State Command Request Answer ε
  | .send i =>
    match s.phase i with
    | .idle =>
      if s.alive then
        { s.setPhase i .waiting with channel := s.channel ++ [(i, S.command (calls i))] }
      else s.setPhase i (.failed S.closed)
    | _ => s
  | .poll budget =>
    (s.channel.take budget).foldl (reply S) { s with channel := s.channel.drop budget }
  | .ask i =>
    match s.phase i with
    | .handed request =>
      { s.setPhase i (.asking request) with journal := s.journal ++ [(i, .asked request)] }
    | _ => s
  | .answer i outside =>
    match s.phase i with
    | .asking request =>
      { s.setPhase i (.returned request (outside request)) with
        journal := s.journal ++ [(i, .answered request (outside request))] }
    | _ => s
  | .cancel i =>
    match s.phase i with
    | .returned _ _ => s
    | .failed _ => s
    | _ => s.setPhase i .cancelled
  | .shutDown =>
    { s with
      alive := false
      channel := []
      phase := fun i =>
        match s.phase i with
        | .waiting => .failed S.closed
        | p => p }

def run (as : List (Action Request Answer)) : State Command Request Answer ε :=
  as.foldl (act S calls) s

/-- What happened on behalf of a call, in order. -/
def journalOf (i : Nat) : List (Entry Request Answer) :=
  s.journal.filterMap fun e => if e.1 = i then some e.2 else none

variable {S calls s}

@[simp] theorem run_nil : s.run S calls [] = s := rfl

@[simp] theorem run_cons (a : Action Request Answer) (as : List (Action Request Answer)) :
    s.run S calls (a :: as) = (s.act S calls a).run S calls as := rfl

@[simp] theorem setPhase_alive (i : Nat) (p : Phase Request Answer ε) :
    (s.setPhase i p).alive = s.alive := rfl

@[simp] theorem setPhase_channel (i : Nat) (p : Phase Request Answer ε) :
    (s.setPhase i p).channel = s.channel := rfl

@[simp] theorem setPhase_phase (i : Nat) (p : Phase Request Answer ε) :
    (s.setPhase i p).phase = Function.update s.phase i p := rfl

@[simp] theorem setPhase_journal (i : Nat) (p : Phase Request Answer ε) :
    (s.setPhase i p).journal = s.journal := rfl

/-! ## Replies -/

/-- A reply touches nothing but the phase of its call. -/
theorem reply_cases (entry : Nat × Command) :
    (s.phase entry.1 = .waiting ∧
      s.reply S entry = s.setPhase entry.1 (.handed (S.future entry.2))) ∨
    (s.phase entry.1 ≠ .waiting ∧ s.reply S entry = s) := by
  unfold reply
  cases h : s.phase entry.1 with
  | waiting => exact .inl ⟨rfl, rfl⟩
  | _ => exact .inr ⟨nofun, rfl⟩

@[simp] theorem reply_channel (entry : Nat × Command) : (s.reply S entry).channel = s.channel := by
  rcases s.reply_cases (S := S) entry with ⟨-, h⟩ | ⟨-, h⟩ <;> rw [h]
  rfl

/-- The service takes one command off the channel and replies to it. -/
def serveOne (S : Service Call Command Request ε) (s : State Command Request Answer ε)
    (entry : Nat × Command) (rest : List (Nat × Command)) : State Command Request Answer ε :=
  { s with channel := rest }.reply S entry

theorem poll_zero : s.act S calls (.poll 0) = s := rfl

theorem poll_nil {n : Nat} (h : s.channel = []) : s.act S calls (.poll n) = s := by
  obtain ⟨alive, channel, phase, journal⟩ := s
  cases h
  simp [act]

/-- To be polled for several commands is to be polled for one at a time. -/
theorem poll_succ {n : Nat} {entry : Nat × Command} {rest : List (Nat × Command)}
    (h : s.channel = entry :: rest) :
    s.act S calls (.poll (n + 1)) = (s.serveOne S entry rest).act S calls (.poll n) := by
  have hreply : ∀ t t' : State Command Request Answer ε, t.phase = t'.phase →
      t.alive = t'.alive → t.journal = t'.journal → ∀ channel,
      { t.reply S entry with channel := channel } =
        { t' with channel := channel }.reply S entry := by
    rintro ⟨alive, c, phase, journal⟩ ⟨_, c', _, _⟩ rfl rfl rfl channel
    unfold reply
    dsimp only
    cases phase entry.1 <;> rfl
  simp only [act, h, List.take_succ_cons, List.foldl_cons, List.drop_succ_cons, serveOne,
    reply_channel]
  rw [hreply { s with channel := rest } s rfl rfl rfl]

end State

/-! ## What holds in every run -/

/-- What the phase of call `i` says: which request it was handed, and what has happened outside. -/
def Honest (S : Service Call Command Request ε) (calls : Nat → Call)
    (s : State Command Request Answer ε) (i : Nat) : Prop :=
  match s.phase i with
  | .idle => s.journalOf i = []
  | .waiting => s.journalOf i = []
  | .handed request => request = S.future (S.command (calls i)) ∧ s.journalOf i = []
  | .asking request =>
    request = S.future (S.command (calls i)) ∧ s.journalOf i = [.asked request]
  | .returned request answer =>
    request = S.future (S.command (calls i)) ∧
      s.journalOf i = [.asked request, .answered request answer]
  | .failed e => e = S.closed ∧ s.alive = false ∧ s.journalOf i = []
  | .cancelled =>
    s.journalOf i = [] ∨ s.journalOf i = [.asked (S.future (S.command (calls i)))]

/-- The channel holds one command for each call that waits, and else only commands of calls that have
given up. -/
structure Invariant (S : Service Call Command Request ε) (calls : Nat → Call)
    (s : State Command Request Answer ε) : Prop where
  honest : ∀ i, Honest S calls s i
  own_command : ∀ i command, (i, command) ∈ s.channel →
    command = S.command (calls i) ∧ (s.phase i = .waiting ∨ s.phase i = .cancelled)
  queued : ∀ i, s.phase i = .waiting → i ∈ s.channel.map Prod.fst
  once : (s.channel.map Prod.fst).Nodup
  closed : s.alive = false → s.channel = []

section Invariant

variable {S : Service Call Command Request ε} {calls : Nat → Call}
  {s s' : State Command Request Answer ε}

/-- What is honest stays so if nothing is done about the call. -/
theorem Honest.congr {i : Nat} (h : Honest S calls s i) (hphase : s'.phase i = s.phase i)
    (hjournal : s'.journalOf i = s.journalOf i) (halive : s.alive = false → s'.alive = false) :
    Honest S calls s' i := by
  unfold Honest at h ⊢
  rw [hphase, hjournal]
  cases hp : s.phase i with
  | failed e =>
    rw [hp] at h
    exact ⟨h.1, halive h.2.1, h.2.2⟩
  | _ =>
    rw [hp] at h
    exact h

theorem journalOf_concat_self {i : Nat} {e : Entry Request Answer}
    (h : s'.journal = s.journal ++ [(i, e)]) : s'.journalOf i = s.journalOf i ++ [e] := by
  simp [State.journalOf, h]

theorem journalOf_concat_ne {i j : Nat} {e : Entry Request Answer}
    (h : s'.journal = s.journal ++ [(i, e)]) (hij : i ≠ j) : s'.journalOf j = s.journalOf j := by
  simp [State.journalOf, h, hij]

theorem invariant_initial :
    Invariant S calls (State.initial : State Command Request Answer ε) where
  honest := fun _ => rfl
  own_command := fun _ _ h => by cases h
  queued := fun _ h => by cases h
  once := List.nodup_nil
  closed := fun _ => rfl

/-- A call moves on from a phase in which it does not wait, to one in which it does not wait either. -/
theorem Invariant.move (h : Invariant S calls s) {i : Nat} (hnot : s.phase i ≠ .waiting)
    (hchannel : s'.channel = s.channel) (halive : s'.alive = s.alive)
    (hphase : ∀ j, j ≠ i → s'.phase j = s.phase j)
    (hjournal : ∀ j, j ≠ i → s'.journalOf j = s.journalOf j)
    (hwaiting : s'.phase i ≠ .waiting) (hcancelled : s.phase i = .cancelled → s'.phase i = .cancelled)
    (hhonest : Honest S calls s' i) : Invariant S calls s' where
  honest := by
    intro j
    by_cases hj : j = i
    · rw [hj]
      exact hhonest
    · exact (h.honest j).congr (hphase j hj) (hjournal j hj) (fun hdead => halive.trans hdead)
  own_command := by
    -- a command that call `i` has left behind stays one of a call that has given up
    intro j command hmem
    rw [hchannel] at hmem
    obtain ⟨hcommand, hwait⟩ := h.own_command j command hmem
    refine ⟨hcommand, ?_⟩
    by_cases hj : j = i
    · subst hj
      rcases hwait with hwait | hwait
      · exact absurd hwait hnot
      · exact .inr (hcancelled hwait)
    · rw [hphase j hj]
      exact hwait
  queued := by
    intro j hwait
    have hj : j ≠ i := by
      rintro rfl
      exact hwaiting hwait
    rw [hphase j hj] at hwait
    rw [hchannel]
    exact h.queued j hwait
  once := hchannel ▸ h.once
  closed := by
    intro hdead
    rw [hchannel]
    exact h.closed (halive.symm.trans hdead)

theorem Invariant.serveOne (h : Invariant S calls s) {entry : Nat × Command}
    {rest : List (Nat × Command)} (hchannel : s.channel = entry :: rest) :
    Invariant S calls (s.serveOne S entry rest) := by
  obtain ⟨i, command⟩ := entry
  have hmem : (i, command) ∈ s.channel := hchannel ▸ List.mem_cons_self
  obtain ⟨hcommand, hwait⟩ := h.own_command i command hmem
  have honce := h.once
  rw [hchannel, List.map_cons, List.nodup_cons] at honce
  -- no call has a second command in the channel
  have hrest : ∀ j c, (j, c) ∈ rest → j ≠ i ∧ (j, c) ∈ s.channel := by
    intro j c hjc
    refine ⟨?_, hchannel ▸ List.mem_cons_of_mem _ hjc⟩
    rintro rfl
    exact honce.1 (List.mem_map.mpr ⟨_, hjc, rfl⟩)
  have hqueued : ∀ j, j ≠ i → s.phase j = .waiting → j ∈ rest.map Prod.fst := by
    intro j hj hjwait
    have hjmem := h.queued j hjwait
    rw [hchannel, List.map_cons, List.mem_cons] at hjmem
    exact hjmem.resolve_left hj
  have hclosed : s.alive = false → rest = [] := by
    intro hdead
    have hnil := h.closed hdead
    rw [hchannel] at hnil
    cases hnil
  rcases ({ s with channel := rest } : State Command Request Answer ε).reply_cases (S := S)
    (i, command) with ⟨hwaiting, hreply⟩ | ⟨hnot, hreply⟩
  · -- the call waits, and gets its future
    rw [State.serveOne, hreply]
    have hhonest := h.honest i
    refine ⟨?_, ?_, ?_, honce.2, hclosed⟩
    · intro j
      by_cases hj : j = i
      · subst hj
        unfold Honest at hhonest ⊢
        rw [show s.phase j = .waiting from hwaiting] at hhonest
        rw [State.setPhase_phase, Function.update_self]
        exact ⟨congrArg S.future hcommand, hhonest⟩
      · exact (h.honest j).congr (Function.update_of_ne hj _ _) rfl id
    · intro j c hjc
      obtain ⟨hj, hjmem⟩ := hrest j c hjc
      rw [State.setPhase_phase, Function.update_of_ne hj]
      exact h.own_command j c hjmem
    · intro j hjwait
      by_cases hj : j = i
      · subst hj
        rw [State.setPhase_phase, Function.update_self] at hjwait
        cases hjwait
      · rw [State.setPhase_phase, Function.update_of_ne hj] at hjwait
        exact hqueued j hj hjwait
  · -- the call has given up, and the reply is lost
    rw [State.serveOne, hreply]
    refine ⟨fun j => (h.honest j).congr rfl rfl id, ?_, ?_, honce.2, hclosed⟩
    · intro j c hjc
      exact h.own_command j c (hrest j c hjc).2
    · intro j hjwait
      refine hqueued j ?_ hjwait
      rintro rfl
      exact hnot hjwait

theorem Invariant.poll (h : Invariant S calls s) (n : Nat) :
    Invariant S calls (s.act S calls (.poll n)) := by
  induction n generalizing s with
  | zero =>
    rw [State.poll_zero]
    exact h
  | succ n ih =>
    cases hchannel : s.channel with
    | nil =>
      rw [State.poll_nil hchannel]
      exact h
    | cons entry rest =>
      rw [State.poll_succ hchannel]
      exact ih (h.serveOne hchannel)

theorem Invariant.send (h : Invariant S calls s) (i : Nat) :
    Invariant S calls (s.act S calls (.send i)) := by
  simp only [State.act]
  cases hphase : s.phase i with
  | idle =>
    have hhonest := h.honest i
    unfold Honest at hhonest
    rw [hphase] at hhonest
    cases halive : s.alive with
    | false =>
      -- the service is gone, and the call is told so
      refine h.move (i := i) (by rw [hphase]; nofun) rfl rfl ?_ (fun _ _ => rfl) ?_ ?_ ?_
      · intro j hj
        exact Function.update_of_ne hj _ _
      · simp
      · rw [hphase]
        nofun
      · unfold Honest
        simp only [Bool.false_eq_true, if_false, State.setPhase_phase, Function.update_self]
        exact ⟨trivial, halive, hhonest⟩
    | true =>
      -- nothing of an idle call is in the channel yet
      have hnew : ∀ command, (i, command) ∉ s.channel := by
        intro command hmem
        rcases (h.own_command i command hmem).2 with hwait | hwait
        · cases hphase.symm.trans hwait
        · cases hphase.symm.trans hwait
      simp only [if_true]
      refine ⟨?_, ?_, ?_, ?_, ?_⟩
      · intro j
        by_cases hj : j = i
        · subst hj
          unfold Honest
          simp only [State.setPhase_phase, Function.update_self]
          exact hhonest
        · exact (h.honest j).congr (Function.update_of_ne hj _ _) rfl id
      · intro j command hmem
        simp only [State.setPhase_phase]
        rcases List.mem_append.mp hmem with hold | hlast
        · have hj : j ≠ i := by
            rintro rfl
            exact hnew command hold
          rw [Function.update_of_ne hj]
          exact h.own_command j command hold
        · cases List.mem_singleton.mp hlast
          exact ⟨rfl, .inl (Function.update_self _ _ _)⟩
      · intro j hjwait
        rw [List.map_append, List.mem_append]
        by_cases hj : j = i
        · exact .inr (List.mem_singleton.mpr hj)
        · simp only [State.setPhase_phase] at hjwait
          rw [Function.update_of_ne hj] at hjwait
          exact .inl (h.queued j hjwait)
      · rw [List.map_append]
        refine List.nodup_append.mpr ⟨h.once, List.nodup_singleton _, ?_⟩
        rintro j hj j' hj' rfl
        cases List.mem_singleton.mp hj'
        obtain ⟨⟨_, command⟩, hmem, rfl⟩ := List.mem_map.mp hj
        exact hnew command hmem
      · intro hdead
        cases halive.symm.trans hdead
  | _ => exact h

theorem Invariant.cancel (h : Invariant S calls s) (i : Nat) :
    Invariant S calls (s.act S calls (.cancel i)) := by
  have hhonest := h.honest i
  unfold Honest at hhonest
  -- a call that gives up leaves its command in the channel
  have hgiveUp : Honest S calls (s.setPhase i .cancelled) i →
      Invariant S calls (s.setPhase i .cancelled) := by
    intro hcancelled
    refine ⟨?_, ?_, ?_, h.once, h.closed⟩
    · intro j
      by_cases hj : j = i
      · rw [hj]
        exact hcancelled
      · exact (h.honest j).congr (Function.update_of_ne hj _ _) rfl id
    · intro j command hmem
      obtain ⟨hcommand, hwait⟩ := h.own_command j command hmem
      refine ⟨hcommand, ?_⟩
      by_cases hj : j = i
      · rw [hj]
        exact .inr (Function.update_self _ _ _)
      · rw [State.setPhase_phase, Function.update_of_ne hj]
        exact hwait
    · intro j hjwait
      by_cases hj : j = i
      · rw [hj, State.setPhase_phase, Function.update_self] at hjwait
        cases hjwait
      · rw [State.setPhase_phase, Function.update_of_ne hj] at hjwait
        exact h.queued j hjwait
  have hcancelled : (s.journalOf i = [] ∨
      s.journalOf i = [.asked (S.future (S.command (calls i)))]) →
      Honest S calls (s.setPhase i .cancelled) i := by
    intro hjournal
    unfold Honest
    simp only [State.setPhase_phase, Function.update_self]
    exact hjournal
  simp only [State.act]
  cases hphase : s.phase i with
  | returned request answer => exact h
  | failed e => exact h
  | idle =>
    rw [hphase] at hhonest
    exact hgiveUp (hcancelled (.inl hhonest))
  | waiting =>
    rw [hphase] at hhonest
    exact hgiveUp (hcancelled (.inl hhonest))
  | handed request =>
    rw [hphase] at hhonest
    exact hgiveUp (hcancelled (.inl hhonest.2))
  | asking request =>
    rw [hphase] at hhonest
    exact hgiveUp (hcancelled (.inr (hhonest.1 ▸ hhonest.2)))
  | cancelled =>
    rw [hphase] at hhonest
    exact hgiveUp (hcancelled hhonest)

/-- A call moves on and one thing is recorded of it. -/
theorem Invariant.record (h : Invariant S calls s) {i : Nat} (p : Phase Request Answer ε)
    {e : Entry Request Answer} (hnot : s.phase i ≠ .waiting) (hlives : s.phase i ≠ .cancelled)
    (hp : p ≠ .waiting) (hphase : s'.phase = Function.update s.phase i p)
    (hjournal : s'.journal = s.journal ++ [(i, e)]) (hchannel : s'.channel = s.channel)
    (halive : s'.alive = s.alive)
    (hhonest : s'.phase i = p → s'.journalOf i = s.journalOf i ++ [e] → Honest S calls s' i) :
    Invariant S calls s' := by
  have hself : s'.phase i = p := by
    rw [hphase, Function.update_self]
  refine h.move hnot hchannel halive ?_ ?_ (hself ▸ hp) (fun hgone => absurd hgone hlives)
    (hhonest hself (journalOf_concat_self hjournal))
  · intro j hj
    rw [hphase, Function.update_of_ne hj]
  · intro j hj
    exact journalOf_concat_ne hjournal (Ne.symm hj)

theorem Invariant.ask (h : Invariant S calls s) (i : Nat) :
    Invariant S calls (s.act S calls (.ask i)) := by
  have hhonest := h.honest i
  unfold Honest at hhonest
  simp only [State.act]
  cases hphase : s.phase i with
  | handed request =>
    rw [hphase] at hhonest
    refine h.record (.asking request) (by rw [hphase]; nofun) (by rw [hphase]; nofun) nofun rfl rfl
      rfl rfl ?_
    intro hself hjournal
    unfold Honest
    rw [hself, hjournal, hhonest.2]
    exact ⟨hhonest.1, rfl⟩
  | _ => exact h

theorem Invariant.answer (h : Invariant S calls s) (i : Nat)
    (outside : (request : Request) → Answer request) :
    Invariant S calls (s.act S calls (.answer i outside)) := by
  have hhonest := h.honest i
  unfold Honest at hhonest
  simp only [State.act]
  cases hphase : s.phase i with
  | asking request =>
    rw [hphase] at hhonest
    refine h.record (.returned request (outside request)) (by rw [hphase]; nofun)
      (by rw [hphase]; nofun) nofun rfl rfl rfl rfl ?_
    intro hself hjournal
    unfold Honest
    rw [hself, hjournal, hhonest.2]
    exact ⟨hhonest.1, rfl⟩
  | _ => exact h

theorem Invariant.shutDown (h : Invariant S calls s) :
    Invariant S calls (s.act S calls .shutDown) := by
  refine ⟨?_, ?_, ?_, List.nodup_nil, fun _ => rfl⟩
  · intro i
    have hhonest := h.honest i
    unfold Honest at hhonest ⊢
    simp only [State.act]
    cases hphase : s.phase i with
    | waiting =>
      -- whoever waits is told, and has asked for nothing
      rw [hphase] at hhonest
      exact ⟨rfl, trivial, hhonest⟩
    | failed e =>
      rw [hphase] at hhonest
      exact ⟨hhonest.1, trivial, hhonest.2.2⟩
    | _ =>
      rw [hphase] at hhonest
      exact hhonest
  · intro i command hmem
    cases hmem
  · intro i hwait
    simp only [State.act] at hwait
    cases hphase : s.phase i with
    | waiting => simp [hphase] at hwait
    | _ => simp [hphase] at hwait

theorem Invariant.act (h : Invariant S calls s) (a : Action Request Answer) :
    Invariant S calls (s.act S calls a) := by
  cases a with
  | send i => exact h.send i
  | poll budget => exact h.poll budget
  | ask i => exact h.ask i
  | answer i outside => exact h.answer i outside
  | cancel i => exact h.cancel i
  | shutDown => exact h.shutDown

/-- **The invariant holds in every run.** -/
theorem invariant_run (S : Service Call Command Request ε) (calls : Nat → Call)
    (as : List (Action Request Answer)) : Invariant S calls (State.initial.run S calls as) := by
  suffices h : ∀ s : State Command Request Answer ε, Invariant S calls s →
      Invariant S calls (s.run S calls as) from h _ invariant_initial
  induction as with
  | nil => exact fun _ => id
  | cons a as ih => exact fun s hs => ih _ (hs.act a)

/-! ## First come, first served -/

/-- The call has its future, and may have used it. -/
def Handed (request : Request) (p : Phase Request Answer ε) : Prop :=
  p = .handed request ∨ p = .asking request ∨ ∃ answer, p = .returned request answer

/-- How many commands the service is polled for. -/
def Action.budget : Action Request Answer → Nat
  | .poll budget => budget
  | _ => 0

theorem serveOne_phase_of_ne {entry : Nat × Command} {rest : List (Nat × Command)} {i : Nat}
    (h : s.phase i ≠ .waiting ∨ entry.1 ≠ i) : (s.serveOne S entry rest).phase i = s.phase i := by
  rcases ({ s with channel := rest } : State Command Request Answer ε).reply_cases (S := S)
    entry with ⟨hwaiting, hreply⟩ | ⟨-, hreply⟩
  · have hi : i ≠ entry.1 := by
      rintro rfl
      exact h.elim (fun hnot => hnot hwaiting) (fun hne => hne rfl)
    rw [State.serveOne, hreply]
    exact Function.update_of_ne hi _ _
  · rw [State.serveOne, hreply]

/-- A poll is of no concern to a call that does not wait. -/
theorem poll_phase {n : Nat} {i : Nat} (h : s.phase i ≠ .waiting) :
    (s.act S calls (.poll n)).phase i = s.phase i := by
  induction n generalizing s with
  | zero => rfl
  | succ n ih =>
    cases hchannel : s.channel with
    | nil => rw [State.poll_nil hchannel]
    | cons entry rest =>
      have hsame : (s.serveOne S entry rest).phase i = s.phase i := serveOne_phase_of_ne (.inl h)
      rw [State.poll_succ hchannel, ih (by rwa [hsame]), hsame]

/-- A call that has its future keeps it. -/
theorem Handed.act {request : Request} {i : Nat} {a : Action Request Answer}
    (hcancel : a ≠ .cancel i) (h : Handed request (s.phase i)) :
    Handed request ((s.act S calls a).phase i) := by
  have hwaiting : s.phase i ≠ .waiting := by
    intro hp
    rw [hp] at h
    rcases h with h | h | ⟨_, h⟩ <;> cases h
  cases a with
  | poll budget =>
    rw [poll_phase hwaiting]
    exact h
  | send j =>
    -- a call with a future does not send again
    simp only [State.act]
    cases hp : s.phase j with
    | idle =>
      have hj : i ≠ j := by
        rintro rfl
        rw [hp] at h
        rcases h with h | h | ⟨_, h⟩ <;> cases h
      dsimp only
      split
      · simpa [Function.update_of_ne hj] using h
      · simpa [Function.update_of_ne hj] using h
    | _ => exact h
  | ask j =>
    -- the future that is used is its own, or that of another call
    simp only [State.act]
    cases hp : s.phase j with
    | handed other =>
      by_cases hj : i = j
      · subst hj
        rw [hp] at h
        rcases h with h | h | ⟨_, h⟩ <;> cases h
        exact .inr (.inl (Function.update_self _ _ _))
      · simpa [Function.update_of_ne hj] using h
    | _ => exact h
  | answer j outside =>
    simp only [State.act]
    cases hp : s.phase j with
    | asking other =>
      by_cases hj : i = j
      · subst hj
        rw [hp] at h
        rcases h with h | h | ⟨_, h⟩ <;> cases h
        exact .inr (.inr ⟨_, Function.update_self _ _ _⟩)
      · simpa [Function.update_of_ne hj] using h
    | _ => exact h
  | cancel j =>
    have hj : i ≠ j := by
      rintro rfl
      exact hcancel rfl
    simp only [State.act]
    cases hp : s.phase j <;> first | exact h | simpa [Function.update_of_ne hj] using h
  | shutDown =>
    simp only [State.act]
    rcases h with h | h | ⟨answer, h⟩
    · rw [h]
      exact .inl rfl
    · rw [h]
      exact .inr (.inl rfl)
    · rw [h]
      exact .inr (.inr ⟨answer, rfl⟩)

/-- Being polled for more commands than there are before it, the service gets to the call; else it
gets so much closer. -/
theorem poll_progress (h : Invariant S calls s) {i : Nat} {before after : List Nat} (n : Nat)
    (hwait : s.phase i = .waiting) (hchannel : s.channel.map Prod.fst = before ++ i :: after) :
    (before.length < n ∧
      Handed (S.future (S.command (calls i))) ((s.act S calls (.poll n)).phase i)) ∨
    (n ≤ before.length ∧ (s.act S calls (.poll n)).phase i = .waiting ∧
      (s.act S calls (.poll n)).channel.map Prod.fst = before.drop n ++ i :: after) := by
  induction n generalizing s before with
  | zero => exact .inr ⟨Nat.zero_le _, hwait, hchannel⟩
  | succ n ih =>
    cases hc : s.channel with
    | nil =>
      rw [hc] at hchannel
      simp at hchannel
    | cons entry rest =>
      have hserve := h.serveOne hc
      rw [State.poll_succ hc]
      rw [hc, List.map_cons] at hchannel
      cases before with
      | nil =>
        -- its own command is the next one
        obtain ⟨hi, -⟩ := List.cons.inj hchannel
        obtain ⟨j, command⟩ := entry
        obtain rfl : j = i := hi
        have hcommand := (h.own_command j command (hc ▸ List.mem_cons_self)).1
        have hphase : (s.serveOne S (j, command) rest).phase j =
            .handed (S.future (S.command (calls j))) := by
          rcases ({ s with channel := rest } : State Command Request Answer ε).reply_cases (S := S)
            (j, command) with ⟨-, hreply⟩ | ⟨hnot, -⟩
          · rw [State.serveOne, hreply, ← hcommand]
            exact Function.update_self _ _ _
          · exact absurd hwait hnot
        refine .inl ⟨Nat.succ_pos n, ?_⟩
        rw [poll_phase (by rw [hphase]; nofun), hphase]
        exact .inl rfl
      | cons j before =>
        -- the command of another call is taken off
        obtain ⟨hj, hrest⟩ := List.cons.inj hchannel
        have hne : entry.1 ≠ i := by
          rintro rfl
          have honce := h.once
          rw [hc, List.map_cons, List.nodup_cons, hrest] at honce
          exact honce.1 (List.mem_append_right _ List.mem_cons_self)
        have hphase : (s.serveOne S entry rest).phase i = .waiting := by
          rw [serveOne_phase_of_ne (.inr hne), hwait]
        have hchannel' : (s.serveOne S entry rest).channel.map Prod.fst = before ++ i :: after := by
          rw [State.serveOne, State.reply_channel]
          exact hrest
        rw [List.length_cons]
        rcases ih hserve hphase hchannel' with ⟨hlt, hhanded⟩ | ⟨hle, hrest⟩
        · exact .inl ⟨Nat.succ_lt_succ hlt, hhanded⟩
        · exact .inr ⟨Nat.succ_le_succ hle, hrest⟩

/-- What else happens leaves a waiting call where it is. -/
theorem act_waiting {i : Nat} {a : Action Request Answer} (hcancel : a ≠ .cancel i)
    (hshut : a ≠ .shutDown) (hpoll : ∀ n, a ≠ .poll n) (hwait : s.phase i = .waiting) :
    (s.act S calls a).phase i = .waiting ∧
      ∃ more, (s.act S calls a).channel = s.channel ++ more := by
  -- the action is about another call, or has no effect
  have hne : ∀ {j : Nat} {p : Phase Request Answer ε}, s.phase j = p → p ≠ .waiting → i ≠ j := by
    rintro j p hp hnot rfl
    exact hnot (hp.symm.trans hwait)
  have hsame : ∃ more, s.channel = s.channel ++ more := ⟨[], (List.append_nil _).symm⟩
  cases a with
  | poll n => exact absurd rfl (hpoll n)
  | shutDown => exact absurd rfl hshut
  | send j =>
    simp only [State.act]
    cases hp : s.phase j with
    | idle =>
      have hj := hne hp nofun
      dsimp only
      split
      · exact ⟨(Function.update_of_ne hj _ _).trans hwait, _, rfl⟩
      · exact ⟨(Function.update_of_ne hj _ _).trans hwait, hsame⟩
    | _ => exact ⟨hwait, hsame⟩
  | ask j =>
    simp only [State.act]
    cases hp : s.phase j with
    | handed request => exact ⟨(Function.update_of_ne (hne hp nofun) _ _).trans hwait, hsame⟩
    | _ => exact ⟨hwait, hsame⟩
  | answer j outside =>
    simp only [State.act]
    cases hp : s.phase j with
    | asking request => exact ⟨(Function.update_of_ne (hne hp nofun) _ _).trans hwait, hsame⟩
    | _ => exact ⟨hwait, hsame⟩
  | cancel j =>
    have hj : i ≠ j := by
      rintro rfl
      exact hcancel rfl
    simp only [State.act]
    cases hp : s.phase j <;>
      first
      | exact ⟨hwait, hsame⟩
      | exact ⟨(Function.update_of_ne hj _ _).trans hwait, hsame⟩

theorem Handed.run {request : Request} {i : Nat} {as : List (Action Request Answer)}
    (has : ∀ a ∈ as, a ≠ .cancel i ∧ a ≠ .shutDown) (h : Handed request (s.phase i)) :
    Handed request ((s.run S calls as).phase i) := by
  induction as generalizing s with
  | nil => exact h
  | cons a as ih =>
    exact ih (fun b hb => has b (List.mem_cons_of_mem _ hb)) (h.act (has a List.mem_cons_self).1)

/-- **First come, first served.** A call that waits behind `before` has its future as soon as the
service has been polled for more commands than these, whatever else is sent meanwhile. -/
theorem settled_of_polls (h : Invariant S calls s) {i : Nat} {before after : List Nat}
    (hwait : s.phase i = .waiting) (hchannel : s.channel.map Prod.fst = before ++ i :: after)
    (as : List (Action Request Answer)) (has : ∀ a ∈ as, a ≠ .cancel i ∧ a ≠ .shutDown)
    (hbudget : before.length < (as.map Action.budget).sum) :
    Handed (S.future (S.command (calls i))) ((s.run S calls as).phase i) := by
  induction as generalizing s before after with
  | nil => exact absurd hbudget (Nat.not_lt_zero _)
  | cons a as ih =>
    have hrest : ∀ b ∈ as, b ≠ .cancel i ∧ b ≠ .shutDown :=
      fun b hb => has b (List.mem_cons_of_mem _ hb)
    obtain ⟨hcancel, hshut⟩ := has a List.mem_cons_self
    rw [List.map_cons, List.sum_cons] at hbudget
    rw [State.run_cons]
    -- a poll brings the call nearer or settles it; anything else only adds commands behind it
    rcases Classical.em (∃ n, a = .poll n) with ⟨n, rfl⟩ | hpoll
    · rcases poll_progress h n hwait hchannel with ⟨-, hhanded⟩ | ⟨hle, hwait', hchannel'⟩
      · exact hhanded.run hrest
      · refine ih (h.poll n) hwait' hchannel' hrest ?_
        have hbudget' : before.length < n + (as.map Action.budget).sum := hbudget
        rw [List.length_drop]
        omega
    · have hnot : ∀ n, a ≠ .poll n := fun n heq => hpoll ⟨n, heq⟩
      obtain ⟨hwait', more, hmore⟩ : (s.act S calls a).phase i = .waiting ∧
          ∃ more, (s.act S calls a).channel = s.channel ++ more :=
        act_waiting hcancel hshut hnot hwait
      have hzero : a.budget = 0 := by
        cases a with
        | poll n => exact absurd rfl (hnot n)
        | _ => rfl
      have hchannel' : (s.act S calls a).channel.map Prod.fst =
          before ++ i :: (after ++ more.map Prod.fst) := by
        rw [hmore, List.map_append, hchannel, List.append_assoc, List.cons_append]
      exact ih (h.act a) hwait' hchannel' hrest (by omega)

end Invariant

end Mailbox
