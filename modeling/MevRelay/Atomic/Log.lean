import MevRelay.Atomic.Pool

/-!
# The log of an interleaved run

The calls of all threads and the acts of the environment, in the order in which the shared state saw
them. The state is a function of the log (`shared_eq_replay`), a thread has seen exactly its own
entries of it (`trace_eq_callsOf`), and every entry was made in the state that the entries before it
had left (`exists_split`). What is to be shown of an interleaved run is therefore a statement about
one sequence of atomic calls, with the threads as labels on it.
-/

namespace Atomic

universe u

variable {Op : Type u} {Ans : Op → Type u} {Req α σ Env : Type u}

/-- What the shared state sees of an action. -/
inductive LogEntry {Op : Type u} (Ans : Op → Type u) (Env : Type u) : Type u where
  | call (i : Nat) (e : Event Ans)
  | disturb (d : Env)

namespace LogEntry

/-- The effect of an entry. -/
def apply (S : System Op Ans Req α σ Env) : LogEntry Ans Env → σ → σ
  | .call _ e, s => (S.exec e.op s).2
  | .disturb d, s => S.disturb d s

/-- The call of an entry, if thread `i` made it. -/
def callOf (i : Nat) : LogEntry Ans Env → Option (Event Ans)
  | .call j e => if j = i then some e else none
  | .disturb _ => none

end LogEntry

/-- The calls of thread `i`, in order. -/
def callsOf (i : Nat) (log : List (LogEntry Ans Env)) : List (Event Ans) :=
  log.filterMap (LogEntry.callOf i)

/-- The state after the entries of a log. -/
def replay (S : System Op Ans Req α σ Env) (log : List (LogEntry Ans Env)) (s : σ) : σ :=
  log.foldl (fun s e => e.apply S s) s

/-- Every answer of the log is, up to `Alike`, the one of the state at its place. -/
def Valid (S : System Op Ans Req α σ Env) (Alike : (o : Op) → Ans o → Ans o → Prop) :
    σ → List (LogEntry Ans Env) → Prop
  | _, [] => True
  | s, .call i e :: log =>
    Alike e.op e.ans (S.exec e.op s).1 ∧ Valid S Alike ((LogEntry.call i e).apply S s) log
  | s, .disturb d :: log => Valid S Alike ((LogEntry.disturb d).apply S s) log

/-- **The erasure rule.** Drop calls from a log that leave the state as it was, up to `Sim`. If `Sim`
is kept by every entry and related states answer alike, what is left is a log that leads to the same
state and gives the same answers. -/
theorem Valid.erase {S : System Op Ans Req α σ Env} {Alike : (o : Op) → Ans o → Ans o → Prop}
    (Sim : σ → σ → Prop) {keep : LogEntry Ans Env → Bool}
    (hexec : ∀ o s t, Sim s t →
      Alike o (S.exec o s).1 (S.exec o t).1 ∧ Sim (S.exec o s).2 (S.exec o t).2)
    (hdisturb : ∀ d s t, Sim s t → Sim (S.disturb d s) (S.disturb d t))
    (hkeep : ∀ d, keep (.disturb d) = true) {log : List (LogEntry Ans Env)}
    (hquiet : ∀ i o s t, keep (.call i ⟨o, (S.exec o s).1⟩) = false →
      .call i ⟨o, (S.exec o s).1⟩ ∈ log → Sim s t → Sim (S.exec o s).2 t)
    {s t : σ} (h : Valid S (fun _ => Eq) s log) (hsim : Sim s t) :
    Sim (replay S log s) (replay S (log.filter keep) t) ∧
      Valid S Alike t (log.filter keep) := by
  induction log generalizing s t with
  | nil => exact ⟨hsim, trivial⟩
  | cons e log ih =>
    have htail : ∀ i o s t, keep (.call i ⟨o, (S.exec o s).1⟩) = false →
        .call i ⟨o, (S.exec o s).1⟩ ∈ log → Sim s t → Sim (S.exec o s).2 t :=
      fun i o s t hdrop hmem => hquiet i o s t hdrop (List.mem_cons_of_mem _ hmem)
    cases e with
    | disturb d =>
      rw [List.filter_cons_of_pos (hkeep d)]
      exact ih htail h (hdisturb d s t hsim)
    | call i e =>
      obtain ⟨o, ans⟩ := e
      obtain ⟨hans, hrest⟩ := h
      have hans : ans = (S.exec o s).1 := hans
      subst hans
      cases hk : keep (.call i ⟨o, (S.exec o s).1⟩) with
      | true =>
        rw [List.filter_cons_of_pos hk]
        obtain ⟨hsame, hvalid⟩ := ih htail hrest (hexec o s t hsim).2
        exact ⟨hsame, (hexec o s t hsim).1, hvalid⟩
      | false =>
        rw [List.filter_cons_of_neg (by simp [hk])]
        exact ih htail hrest (hquiet i o s t hk List.mem_cons_self hsim)

section callsOf

variable {log : List (LogEntry Ans Env)} {i j : Nat} {e : Event Ans}

theorem callsOf_concat_self : callsOf i (log ++ [.call i e]) = callsOf i log ++ [e] := by
  simp [callsOf, LogEntry.callOf]

theorem callsOf_concat_ne (h : j ≠ i) : callsOf i (log ++ [.call j e]) = callsOf i log := by
  simp [callsOf, LogEntry.callOf, h]

theorem callsOf_concat_disturb (d : Env) : callsOf i (log ++ [.disturb d]) = callsOf i log := by
  simp [callsOf, LogEntry.callOf]

theorem mem_callsOf : e ∈ callsOf i log ↔ .call i e ∈ log := by
  unfold callsOf
  rw [List.mem_filterMap]
  constructor
  · rintro ⟨entry, hmem, hcall⟩
    cases entry with
    | call j e' =>
      simp only [LogEntry.callOf, Option.ite_none_right_eq_some, Option.some.injEq] at hcall
      obtain ⟨rfl, rfl⟩ := hcall
      exact hmem
    | disturb d => cases hcall
  · intro h
    exact ⟨_, h, by simp [LogEntry.callOf]⟩

end callsOf

namespace Pool

variable (S : System Op Ans Req α σ Env)

/-- What the shared state sees of the action: nothing when a request arrives, or when there is
nothing left to do for the thread that is to move. -/
def entry (p : Pool Op Ans Req α σ) : Action Req Env → Option (LogEntry Ans Env)
  | .arrive _ => none
  | .step i =>
    match p.threads[i]? with
    | none => none
    | some t =>
      match t.rest with
      | .ret _ => none
      | .abort => none
      | .call o _ => some (.call i ⟨o, (S.exec o p.shared).1⟩)
  | .disturb d => some (.disturb d)

/-- The entries of a schedule. -/
def log : Pool Op Ans Req α σ → List (Action Req Env) → List (LogEntry Ans Env)
  | _, [] => []
  | p, a :: as => (p.entry S a).toList ++ log (p.act S a) as

variable {S} {p : Pool Op Ans Req α σ}

theorem log_append (as bs : List (Action Req Env)) :
    p.log S (as ++ bs) = p.log S as ++ (p.run S as).log S bs := by
  induction as generalizing p with
  | nil => rfl
  | cons a as ih =>
    simp only [List.cons_append, log, ih, run_cons, List.append_assoc]

theorem log_concat (as : List (Action Req Env)) (a : Action Req Env) :
    p.log S (as ++ [a]) = p.log S as ++ ((p.run S as).entry S a).toList := by
  rw [log_append]
  simp only [log, List.append_nil]

/-- What a step can do, with its entry: nothing, or the next call of the thread it names. -/
theorem entry_step (i : Nat) :
    (p.entry S (.step i) = none ∧ p.act S (.step i) = p) ∨
    ∃ t o k, p.threads[i]? = some t ∧ t.rest = .call o k ∧
      p.entry S (.step i) = some (.call i ⟨o, (S.exec o p.shared).1⟩) ∧
      p.act S (.step i) = p.perform S i t o k := by
  simp only [entry, act]
  cases hi : p.threads[i]? with
  | none => exact .inl ⟨rfl, rfl⟩
  | some t =>
    obtain ⟨r, tr, rest⟩ := t
    cases rest with
    | ret a => exact .inl ⟨rfl, rfl⟩
    | abort => exact .inl ⟨rfl, rfl⟩
    | call o k => exact .inr ⟨_, o, k, rfl, rfl, rfl, rfl⟩

/-- What made an entry. -/
theorem entry_eq_some {a : Action Req Env} {e : LogEntry Ans Env} (h : p.entry S a = some e) :
    (∃ i t o k, a = .step i ∧ p.threads[i]? = some t ∧ t.rest = .call o k ∧
      e = .call i ⟨o, (S.exec o p.shared).1⟩ ∧ p.act S a = p.perform S i t o k) ∨
    ∃ d, a = .disturb d ∧ e = .disturb d := by
  cases a with
  | arrive r => cases h
  | step i =>
    rcases entry_step (S := S) (p := p) i with ⟨hnone, -⟩ | ⟨t, o, k, hi, hr, hsome, hact⟩
    · cases hnone.symm.trans h
    · cases hsome.symm.trans h
      exact .inl ⟨i, t, o, k, rfl, hi, hr, rfl, hact⟩
  | disturb d =>
    cases h
    exact .inr ⟨d, rfl, rfl⟩

/-- Only the environment's own actions show as such. -/
theorem disturb_mem_of_mem_log {as : List (Action Req Env)} {d : Env}
    (h : .disturb d ∈ p.log S as) : .disturb d ∈ as := by
  induction as generalizing p with
  | nil => cases h
  | cons a as ih =>
    rcases List.mem_append.mp h with h | h
    · rcases entry_eq_some (Option.mem_toList.mp h) with ⟨_, _, _, _, -, -, -, he, -⟩ | ⟨_, rfl, he⟩
      · cases he
      · cases he
        exact List.mem_cons_self
    · exact List.mem_cons_of_mem _ (ih h)

/-! ## The state is what the log makes of it -/

theorem act_shared (a : Action Req Env) :
    (p.act S a).shared = replay S (p.entry S a).toList p.shared := by
  cases a with
  | arrive r => rfl
  | step i =>
    rcases entry_step (S := S) (p := p) i with ⟨hentry, hact⟩ | ⟨t, o, k, -, -, hentry, hact⟩
    · rw [hentry, hact]
      rfl
    · rw [hentry, hact]
      rfl
  | disturb d => rfl

/-- **The shared state is the replay of the log.** -/
theorem shared_eq_replay (as : List (Action Req Env)) :
    (p.run S as).shared = replay S (p.log S as) p.shared := by
  induction as generalizing p with
  | nil => rfl
  | cons a as ih =>
    rw [run_cons, ih, act_shared]
    simp only [log, replay, List.foldl_append]

theorem valid_log (as : List (Action Req Env)) :
    Valid S (fun _ => Eq) p.shared (p.log S as) := by
  induction as generalizing p with
  | nil => trivial
  | cons a as ih =>
    have hrest := ih (p := p.act S a)
    rw [act_shared] at hrest
    simp only [log]
    cases hentry : p.entry S a with
    | none =>
      rw [hentry] at hrest
      exact hrest
    | some e =>
      rw [hentry] at hrest
      rcases entry_eq_some hentry with ⟨i, t, o, k, -, -, -, rfl, -⟩ | ⟨d, -, rfl⟩
      · exact ⟨rfl, hrest⟩
      · exact hrest

/-- Every entry was made at some point of the schedule, after the entries before it. -/
theorem exists_split {as : List (Action Req Env)} {l l' : List (LogEntry Ans Env)}
    {e : LogEntry Ans Env} (h : p.log S as = l ++ e :: l') :
    ∃ as₁ a as₂, as = as₁ ++ a :: as₂ ∧ p.log S as₁ = l ∧ (p.run S as₁).entry S a = some e ∧
      (p.run S (as₁ ++ [a])).log S as₂ = l' := by
  induction as generalizing p l with
  | nil =>
    have hlen := congrArg List.length h
    simp [log] at hlen
  | cons a as ih =>
    simp only [log] at h
    cases hentry : p.entry S a with
    | none =>
      rw [hentry] at h
      obtain ⟨as₁, b, as₂, rfl, hlog, hb, hrest⟩ := ih h
      refine ⟨a :: as₁, b, as₂, rfl, ?_, hb, hrest⟩
      simp only [log, hentry, Option.toList_none, List.nil_append, hlog]
    | some e' =>
      rw [hentry] at h
      cases l with
      | nil =>
        obtain ⟨rfl, hrest⟩ := List.cons.inj h
        exact ⟨[], a, as, rfl, rfl, hentry, hrest⟩
      | cons x l =>
        obtain ⟨rfl, hrest⟩ := List.cons.inj h
        obtain ⟨as₁, b, as₂, rfl, hlog, hb, hrest⟩ := ih hrest
        refine ⟨a :: as₁, b, as₂, rfl, ?_, hb, hrest⟩
        simp only [log, hentry, Option.toList_some, hlog, List.cons_append, List.nil_append]

/-! ## A thread has seen its entries -/

/-- Every thread's trace is its part of the log, and no other thread has made a call. -/
def Logged (l : List (LogEntry Ans Env)) (p : Pool Op Ans Req α σ) : Prop :=
  ∀ i, callsOf i l = ((p.threads[i]?).map Thread.trace).getD []

theorem Logged.idle (s : σ) : Logged ([] : List (LogEntry Ans Env)) (Pool.idle s : Pool Op Ans Req α σ) :=
  fun _ => rfl

theorem Logged.act {l : List (LogEntry Ans Env)} (h : p.Logged l) (a : Action Req Env) :
    (p.act S a).Logged (l ++ (p.entry S a).toList) := by
  cases a with
  | arrive r =>
    intro i
    simp only [entry, Option.toList_none, List.append_nil, h i, Pool.act]
    rcases Nat.lt_trichotomy i p.threads.length with hlt | rfl | hgt
    · rw [List.getElem?_append_left hlt]
    · rw [List.getElem?_concat_length, List.getElem?_eq_none (Nat.le_refl _)]
      rfl
    · rw [List.getElem?_eq_none (Nat.le_of_lt hgt), List.getElem?_eq_none]
      simp only [List.length_append, List.length_singleton]
      omega
  | step j =>
    rcases entry_step (S := S) (p := p) j with ⟨hentry, hact⟩ | ⟨t, o, k, hj, -, hentry, hact⟩
    · rw [hentry, hact]
      simpa only [Option.toList_none, List.append_nil] using h
    · rw [hentry, hact]
      have hlt : j < p.threads.length := (List.getElem?_eq_some_iff.mp hj).1
      intro i
      by_cases hij : j = i
      · subst hij
        rw [Option.toList_some, callsOf_concat_self, h j, hj]
        simp only [perform, List.getElem?_set_self hlt, Option.map_some, Option.getD_some]
      · rw [Option.toList_some, callsOf_concat_ne hij, h i]
        simp only [perform, List.getElem?_set_ne hij]
  | disturb d =>
    intro i
    simp only [entry, Option.toList_some, callsOf_concat_disturb, h i, Pool.act]

theorem logged_run (s : σ) (as : List (Action Req Env)) :
    ((idle s : Pool Op Ans Req α σ).run S as).Logged ((idle s).log S as) := by
  induction as using List.reverseRecOn with
  | nil => exact Logged.idle s
  | append_singleton as a ih =>
    rw [log_concat, run_concat]
    exact ih.act a

/-- **A thread has seen exactly its own entries of the log.** -/
theorem trace_eq_callsOf {s : σ} {as : List (Action Req Env)} {i : Nat}
    {t : Thread Op Ans Req α} (ht : ((idle s).run S as).threads[i]? = some t) :
    t.trace = callsOf i ((idle s).log S as) := by
  rw [logged_run s as i, ht]
  rfl

/-! ## Invariants of log and state -/

variable {Φ : Req → List (Event Ans) → Op → Prop} {Ψ : Req → List (Event Ans) → α → Prop}

/-- **The log rule.** An invariant of the log and the state is checked against single entries. A call
is one that `Φ` allows after what the log shows of its thread. -/
theorem run_log (hprog : ∀ r, (S.program r).Always (Φ r) (Ψ r) [])
    {J : List (LogEntry Ans Env) → σ → Prop} {s : σ} (hs : J [] s)
    (hcall : ∀ l s i r o, Φ r (callsOf i l) o → J l s →
      J (l ++ [.call i ⟨o, (S.exec o s).1⟩]) (S.exec o s).2)
    (hdisturb : ∀ l s d, J l s → J (l ++ [.disturb d]) (S.disturb d s))
    (as : List (Action Req Env)) : J ((idle s).log S as) ((idle s).run S as).shared := by
  induction as using List.reverseRecOn with
  | nil => exact hs
  | append_singleton as a ih =>
    rw [log_concat, run_concat]
    cases a with
    | arrive r => simpa only [entry, Pool.act, Option.toList_none, List.append_nil] using ih
    | step i =>
      rcases entry_step (S := S) (p := (idle s).run S as) i with
        ⟨hentry, hact⟩ | ⟨t, o, k, hi, hr, hentry, hact⟩
      · rw [hentry, hact]
        simpa only [Option.toList_none, List.append_nil] using ih
      · rw [hentry, hact]
        have ht := (Sound.idle s).run hprog as t (List.mem_of_getElem? hi)
        rw [hr, trace_eq_callsOf hi] at ht
        exact hcall _ _ i t.request o ht.1 ih
    | disturb d => exact hdisturb _ _ d ih

end Pool

end Atomic
