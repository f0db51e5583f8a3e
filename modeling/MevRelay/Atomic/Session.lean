import MevRelay.Atomic.Log
import Mathlib.Data.List.Forall2

/-!
# Sessions of requests

A session makes requests one after the other, and what it asks next may depend on what the requests
before have returned. Its `Script` is a program whose calls are requests; put the program of every
request in its place (`Prog.expand`), and what comes out runs over the shared state itself.

Sessions are no more than their requests: for every schedule of a pool of sessions there is one of a
pool of the requests alone that makes the same calls in the same order and reaches the same state
(`sessions_refine`). What holds in every reachable state of the requests therefore holds in every
reachable state of the sessions.
-/

namespace Atomic

universe u

variable {Op : Type u} {Ans : Op → Type u} {Req Sess α β σ Env : Type u}

/-- What a session does: it makes requests, each answered by an `α`. -/
abbrev Script (Req α β : Type u) : Type u := Prog Req (fun _ => α) β

namespace Prog

variable (program : Req → Prog Op Ans α)

/-- The script with the program of each request in its place. -/
def expand : Script Req α β → Prog Op Ans β
  | .ret b => .ret b
  | .abort => .abort
  | .call r k => program r >>= fun a => (k a).expand

/-- The requests that a session makes before it has to wait: those that return without a call, and the
first one that does not. -/
def opens : Script Req α β → List Req
  | .ret _ => []
  | .abort => []
  | .call r k =>
    r :: match program r with
      | .ret a => (k a).opens
      | .abort => []
      | .call _ _ => []

@[simp] theorem expand_ret (b : β) : (ret b : Script Req α β).expand program = .ret b := rfl

@[simp] theorem expand_call (r : Req) (k : α → Script Req α β) :
    (call r k).expand program = (program r >>= fun a => (k a).expand program) := rfl

theorem expand_bind {γ : Type u} (q : Script Req α β) (f : β → Script Req α γ) :
    (q >>= f).expand program = (q.expand program >>= fun b => (f b).expand program) := by
  induction q with
  | ret b => rfl
  | abort => rfl
  | call r k ih =>
    show (program r >>= fun a => (k a >>= f).expand program) = _
    rw [expand_call, bind_assoc]
    exact congrArg (program r >>= ·) (funext ih)

theorem expand_map {γ : Type u} (f : β → γ) (q : Script Req α β) :
    (f <$> q).expand program = f <$> q.expand program := by
  rw [← bind_pure_comp, expand_bind, ← bind_pure_comp]
  rfl

/-- Whatever the requests return that `Q` allows: the session makes only requests in `P`, and does not
abort itself. -/
def Expects (Q : Req → α → Prop) (P : Req → Prop) : Script Req α β → Prop
  | .ret _ => True
  | .abort => False
  | .call r k => P r ∧ ∀ a, Q r a → Expects Q P (k a)

variable {program} {Q : Req → α → Prop} {P P' : Req → Prop}

theorem Expects.map {γ : Type u} {f : β → γ} {q : Script Req α β} (h : q.Expects Q P) :
    (f <$> q).Expects Q P := by
  rw [← bind_pure_comp]
  induction q with
  | ret b => trivial
  | abort => exact h
  | call r k ih => exact ⟨h.1, fun a ha => ih a (h.2 a ha)⟩

theorem Expects.mono (hP : ∀ r, P r → P' r) {q : Script Req α β} (h : q.Expects Q P) :
    q.Expects Q P' := by
  induction q with
  | ret b => trivial
  | abort => exact h
  | call r k ih => exact ⟨hP r h.1, fun a ha => ih a (h.2 a ha)⟩

end Prog

/-- Sessions over the same state as the requests they make. -/
def System.sessions (S : System Op Ans Req α σ Env) (script : Sess → Script Req α β) :
    System Op Ans Sess β σ Env where
  exec := S.exec
  program := fun x => (script x).expand S.program
  disturb := S.disturb

/-! ## One session and its requests -/

/-- The thread of a request that has just arrived. -/
def System.fresh (S : System Op Ans Req α σ Env) (r : Req) : Thread Op Ans Req α :=
  ⟨r, [], S.program r⟩

/-- The requests that a session has made, as threads of their own. All have returned but for the last
one, unless the session has ended. What the session has called is what they have called, and what is
left of it is what is left of the last one and of the script. -/
inductive Made (S : System Op Ans Req α σ Env) :
    Script Req α β → List (Thread Op Ans Req α) → List (Event Ans) → Prog Op Ans β → Prop
  | ended (b : β) : Made S (.ret b) [] [] (.ret b)
  | aborted : Made S .abort [] [] .abort
  | returned {r : Req} {k : α → Script Req α β} {a : α} {tr tr' : List (Event Ans)}
      {ts : List (Thread Op Ans Req α)} {rest : Prog Op Ans β} (h : Made S (k a) ts tr' rest) :
      Made S (.call r k) (⟨r, tr, .ret a⟩ :: ts) (tr ++ tr') rest
  | running {r : Req} {k : α → Script Req α β} {tr : List (Event Ans)} {p : Prog Op Ans α}
      (hp : ∀ a, p ≠ .ret a) :
      Made S (.call r k) [⟨r, tr, p⟩] tr (p >>= fun a => (k a).expand S.program)

namespace Made

variable {S : System Op Ans Req α σ Env}

/-- A session starts with the requests that it opens. -/
theorem opening (q : Script Req α β) :
    Made S q ((q.opens S.program).map S.fresh) [] (q.expand S.program) := by
  induction q with
  | ret b => exact .ended b
  | abort => exact .aborted
  | call r k ih =>
    cases hr : S.program r with
    | ret a =>
      have h : Made S (.call r k) (⟨r, [], .ret a⟩ :: ((k a).opens S.program).map S.fresh) ([] ++ [])
          ((k a).expand S.program) := .returned (ih a)
      simpa [Prog.opens, System.fresh, hr] using h
    | abort =>
      have h : Made S (.call r k) [⟨r, [], .abort⟩] []
          (.abort >>= fun a => (k a).expand S.program) := .running (fun a ha => by cases ha)
      simpa [Prog.opens, System.fresh, hr] using h
    | call o k' =>
      have h : Made S (.call r k) [⟨r, [], .call o k'⟩] []
          (.call o k' >>= fun a => (k a).expand S.program) := .running (fun a ha => by cases ha)
      simpa [Prog.opens, System.fresh, hr] using h

/-- **A step of a session** is a step of its last request, after which the session may open more. -/
theorem step {q : Script Req α β} {ts : List (Thread Op Ans Req α)} {tr : List (Event Ans)}
    {rest : Prog Op Ans β} (h : Made S q ts tr rest) {o : Op} {k : Ans o → Prog Op Ans β}
    (hrest : rest = .call o k) :
    ∃ before t k', ts = before ++ [t] ∧ t.rest = .call o k' ∧ ∀ a, ∃ more : List Req,
      Made S q (before ++ [⟨t.request, t.trace ++ [⟨o, a⟩], k' a⟩] ++ more.map S.fresh)
        (tr ++ [⟨o, a⟩]) (k a) := by
  induction h with
  | ended b => cases hrest
  | aborted => cases hrest
  | @returned r kq a₀ tr tr' ts rest h ih =>
    obtain ⟨before, t, k', rfl, hcall, hstep⟩ := ih hrest
    refine ⟨⟨r, tr, .ret a₀⟩ :: before, t, k', rfl, hcall, ?_⟩
    intro a
    obtain ⟨more, hmore⟩ := hstep a
    refine ⟨more, ?_⟩
    rw [List.append_assoc tr]
    exact .returned hmore
  | @running r kq tr p hp =>
    cases p with
    | ret a => exact absurd rfl (hp a)
    | abort => cases hrest
    | call o' k' =>
      cases hrest
      refine ⟨[], _, k', rfl, rfl, ?_⟩
      intro a
      cases ha : k' a with
      | ret b =>
        -- the request has returned: the session goes on with its value
        refine ⟨(kq b).opens S.program, ?_⟩
        have hnext : Made S (.call r kq) (⟨r, tr ++ [⟨o, a⟩], .ret b⟩ ::
            ((kq b).opens S.program).map S.fresh) (tr ++ [⟨o, a⟩] ++ [])
            ((kq b).expand S.program) := .returned (opening (kq b))
        rw [List.append_nil] at hnext
        show Made S _ _ _ (k' a >>= fun b => (kq b).expand S.program)
        rw [ha]
        exact hnext
      | abort =>
        refine ⟨[], ?_⟩
        show Made S _ _ _ (k' a >>= fun b => (kq b).expand S.program)
        rw [ha]
        exact .running (fun b hb => by cases hb)
      | call o'' k'' =>
        refine ⟨[], ?_⟩
        show Made S _ _ _ (k' a >>= fun b => (kq b).expand S.program)
        rw [ha]
        exact .running (fun b hb => by cases hb)

/-- A session has called what its requests have called. -/
theorem trace_eq {q : Script Req α β} {ts : List (Thread Op Ans Req α)} {tr : List (Event Ans)}
    {rest : Prog Op Ans β} (h : Made S q ts tr rest) : tr = ts.flatMap Thread.trace := by
  induction h with
  | ended b => rfl
  | aborted => rfl
  | returned h ih => rw [List.flatMap_cons, ← ih]
  | running hp => rw [List.flatMap_cons, List.flatMap_nil, List.append_nil]

/-- Mapping the result of a session does not change its requests. -/
theorem of_map {γ : Type u} {f : β → γ} {q : Script Req α β} {ts : List (Thread Op Ans Req α)}
    {tr : List (Event Ans)} {rest : Prog Op Ans γ} (h : Made S (f <$> q) ts tr rest) :
    ∃ rest', Made S q ts tr rest' ∧ rest = f <$> rest' := by
  rw [← bind_pure_comp] at h
  induction q generalizing ts tr rest with
  | ret b =>
    cases h
    exact ⟨_, .ended b, rfl⟩
  | abort =>
    cases h
    exact ⟨_, .aborted, rfl⟩
  | call r k ih =>
    cases h with
    | returned h =>
      obtain ⟨rest', hmade, hrest⟩ := ih _ h
      exact ⟨rest', .returned hmade, hrest⟩
    | @running _ _ _ p hp =>
      refine ⟨_, .running hp, ?_⟩
      rw [← bind_pure_comp, bind_assoc]
      exact congrArg (p >>= ·) (funext fun a => Prog.expand_bind S.program (k a) fun b => pure (f b))

/-- A session that has ended, ended with its script. -/
theorem returned_of_call {r : Req} {k : α → Script Req α β} {ts : List (Thread Op Ans Req α)}
    {tr : List (Event Ans)} {b : β} (h : Made S (.call r k) ts tr (.ret b)) :
    ∃ a tr₁ tr₂ ts', ts = ⟨r, tr₁, .ret a⟩ :: ts' ∧ Made S (k a) ts' tr₂ (.ret b) := by
  generalize hrest : (Prog.ret b : Prog Op Ans β) = rest at h
  cases h with
  | returned h =>
    subst hrest
    exact ⟨_, _, _, _, rfl, h⟩
  | @running _ _ _ p hp =>
    cases p with
    | ret a => exact absurd rfl (hp a)
    | abort => cases hrest
    | call o k' => cases hrest

/-- A session makes the requests that it is expected to make, and aborts only if one of them does. -/
theorem of_expects {Q : Req → α → Prop} {P : Req → Prop} {q : Script Req α β}
    {ts : List (Thread Op Ans Req α)} {tr : List (Event Ans)} {rest : Prog Op Ans β}
    (h : Made S q ts tr rest) (hq : q.Expects Q P)
    (hts : ∀ t ∈ ts, ∀ a, t.rest = .ret a → Q t.request a) :
    (∀ t ∈ ts, P t.request) ∧ (rest = .abort → ∃ t ∈ ts, t.rest = .abort) := by
  induction h with
  | ended b => exact ⟨fun t ht => absurd ht List.not_mem_nil, fun h => by cases h⟩
  | aborted => exact absurd hq id
  | @returned r k a tr tr' ts rest h ih =>
    have ha : Q r a := hts _ List.mem_cons_self a rfl
    obtain ⟨hrequests, haborts⟩ :=
      ih (hq.2 a ha) fun t ht => hts t (List.mem_cons_of_mem _ ht)
    refine ⟨List.forall_mem_cons.mpr ⟨hq.1, hrequests⟩, fun hrest => ?_⟩
    obtain ⟨t, ht, habort⟩ := haborts hrest
    exact ⟨t, List.mem_cons_of_mem _ ht, habort⟩
  | @running r k tr p hp =>
    refine ⟨List.forall_mem_singleton.mpr hq.1, fun hrest => ⟨_, List.mem_cons_self, ?_⟩⟩
    cases p with
    | ret a => exact absurd rfl (hp a)
    | abort => rfl
    | call o k' => cases hrest

end Made

/-! ## Threads by their owner -/

section Owned

variable {ι : Type u} {owners owners' : List Nat} {ts ts' : List ι}

/-- The threads that belong to session `j`, where `owners` has the session of each thread. -/
def owned (owners : List Nat) (ts : List ι) (j : Nat) : List ι :=
  (owners.zip ts).filterMap fun x => if x.1 = j then some x.2 else none

theorem owned_append (h : owners.length = ts.length) (j : Nat) :
    owned (owners ++ owners') (ts ++ ts') j = owned owners ts j ++ owned owners' ts' j := by
  simp only [owned, List.zip_append h, List.filterMap_append]

theorem owned_replicate_self (j : Nat) (ts : List ι) :
    owned (List.replicate ts.length j) ts j = ts := by
  induction ts with
  | nil => rfl
  | cons t ts ih =>
    simp only [owned, List.length_cons, List.replicate_succ, List.zip_cons_cons,
      List.filterMap_cons, if_true] at ih ⊢
    rw [ih]

theorem owned_eq_nil {j : Nat} (h : j ∉ owners) : owned owners ts j = [] := by
  unfold owned
  rw [List.filterMap_eq_nil_iff]
  intro x hx
  have hne : x.1 ≠ j := by
    intro heq
    exact h (heq ▸ (List.of_mem_zip hx).1)
  rw [if_neg hne]

theorem mem_of_mem_owned {j : Nat} {t : ι} (h : t ∈ owned owners ts j) : t ∈ ts := by
  obtain ⟨x, hx, hxt⟩ := List.mem_filterMap.mp h
  split at hxt
  · cases hxt
    exact (List.of_mem_zip hx).2
  · cases hxt

theorem exists_owned (h : owners.length = ts.length) {t : ι} (ht : t ∈ ts) :
    ∃ j ∈ owners, t ∈ owned owners ts j := by
  obtain ⟨i, hi, rfl⟩ := List.getElem_of_mem ht
  have hlt : i < owners.length := h ▸ hi
  refine ⟨owners[i], List.getElem_mem hlt, ?_⟩
  unfold owned
  rw [List.mem_filterMap]
  refine ⟨(owners[i], ts[i]), ?_, if_pos rfl⟩
  rw [← List.getElem_zip (h := by rw [List.length_zip]; omega)]
  exact List.getElem_mem _

/-- A thread of a session is somewhere among all; what becomes of it concerns no other session. -/
theorem exists_of_owned {j : Nat} {before after : List ι} {t : ι}
    (h : owned owners ts j = before ++ t :: after) :
    ∃ i, ts[i]? = some t ∧ owners[i]? = some j ∧
      (∀ t', owned owners (ts.set i t') j = before ++ t' :: after) ∧
      ∀ t' j', j' ≠ j → owned owners (ts.set i t') j' = owned owners ts j' := by
  induction owners generalizing ts before with
  | nil =>
    have hlen := congrArg List.length h
    simp [owned] at hlen
  | cons o owners ih =>
    cases ts with
    | nil =>
      have hlen := congrArg List.length h
      simp [owned] at hlen
    | cons t₀ ts =>
      by_cases ho : o = j
      · subst ho
        have hhead : owned (o :: owners) (t₀ :: ts) o = t₀ :: owned owners ts o := by
          simp [owned]
        rw [hhead] at h
        cases before with
        | nil =>
          obtain ⟨rfl, hrest⟩ := List.cons.inj h
          refine ⟨0, rfl, rfl, ?_, ?_⟩
          · intro t'
            simp [owned, ← hrest]
          · intro t' j' hj
            simp [owned, Ne.symm hj]
        | cons b before =>
          obtain ⟨rfl, hrest⟩ := List.cons.inj h
          obtain ⟨i, hget, howner, hself, hother⟩ := ih hrest
          refine ⟨i + 1, hget, howner, ?_, ?_⟩
          · intro t'
            have hi := hself t'
            simp only [owned] at hi ⊢
            simp [hi]
          · intro t' j' hj
            have hi := hother t' j' hj
            simp only [owned] at hi ⊢
            simp [hi, Ne.symm hj]
      · have hhead : owned (o :: owners) (t₀ :: ts) j = owned owners ts j := by
          simp [owned, ho]
        rw [hhead] at h
        obtain ⟨i, hget, howner, hself, hother⟩ := ih h
        refine ⟨i + 1, hget, howner, ?_, ?_⟩
        · intro t'
          have hi := hself t'
          simp only [owned] at hi ⊢
          simp [hi, ho]
        · intro t' j' hj
          have hi := hother t' j' hj
          simp only [owned] at hi ⊢
          simp only [List.set_cons_succ, List.zip_cons_cons, List.filterMap_cons, hi]

end Owned

/-! ## Pools of sessions -/

/-- The same entry, made by a request and by the session that it belongs to. -/
inductive LogEntry.OfSession (owners : List Nat) : LogEntry Ans Env → LogEntry Ans Env → Prop
  | call {i j : Nat} (e : Event Ans) (h : owners[i]? = some j) :
      OfSession owners (.call i e) (.call j e)
  | disturb (d : Env) : OfSession owners (.disturb d) (.disturb d)

theorem LogEntry.OfSession.append {owners : List Nat} {e e' : LogEntry Ans Env}
    (h : OfSession owners e e') (more : List Nat) : OfSession (owners ++ more) e e' := by
  cases h with
  | call e h =>
    apply OfSession.call
    rw [List.getElem?_append_left (List.getElem?_eq_some_iff.mp h).1]
    exact h
  | disturb d => exact .disturb d

namespace Pool

variable {S : System Op Ans Req α σ Env} {script : Sess → Script Req α β}

/-- The sessions of `p` are made of the requests of `q`: both pools share one state, every request
belongs to a session, and every session is its requests. -/
structure MadeOf (S : System Op Ans Req α σ Env) (script : Sess → Script Req α β)
    (owners : List Nat) (p : Pool Op Ans Sess β σ) (q : Pool Op Ans Req α σ) : Prop where
  shared : q.shared = p.shared
  length : owners.length = q.threads.length
  owners_lt : ∀ j ∈ owners, j < p.threads.length
  made : ∀ (j : Nat) u, p.threads[j]? = some u →
    Made S (script u.request) (owned owners q.threads j) u.trace u.rest

variable {owners : List Nat} {p : Pool Op Ans Sess β σ} {q : Pool Op Ans Req α σ}

/-- The session that a request belongs to. -/
theorem MadeOf.exists_session (h : MadeOf S script owners p q) {t : Thread Op Ans Req α}
    (ht : t ∈ q.threads) : ∃ (j : Nat) (u : Thread Op Ans Sess β), p.threads[j]? = some u ∧
      t ∈ owned owners q.threads j := by
  obtain ⟨j, hj, howned⟩ := exists_owned h.length ht
  exact ⟨j, p.threads.get ⟨j, h.owners_lt j hj⟩, List.getElem?_eq_getElem (h.owners_lt j hj), howned⟩

/-! ### Arrivals -/

theorem run_arrivals (rs : List Req) :
    q.run S (rs.map .arrive) = { q with threads := q.threads ++ rs.map S.fresh } := by
  induction rs generalizing q with
  | nil => simp
  | cons r rs ih =>
    rw [List.map_cons, run_cons, ih]
    simp [act, System.fresh]

theorem log_arrivals (rs : List Req) : q.log S (rs.map .arrive) = [] := by
  induction rs generalizing q with
  | nil => rfl
  | cons r rs ih => exact ih

/-! ### What an action of the sessions is for the requests -/

/-- A session arrives with the requests that it opens. -/
theorem MadeOf.arrive (h : MadeOf S script owners p q) (x : Sess) :
    ∃ more : List Nat, MadeOf S script (owners ++ more) (p.act (S.sessions script) (.arrive x))
      { q with threads := q.threads ++ ((script x).opens S.program).map S.fresh } := by
  refine ⟨List.replicate (((script x).opens S.program).map S.fresh).length p.threads.length,
    h.shared, ?_, ?_, ?_⟩
  · rw [List.length_append, List.length_append, h.length, List.length_replicate]
  · intro j hj
    simp only [act, List.length_append, List.length_singleton]
    rcases List.mem_append.mp hj with hj | hj
    · exact Nat.lt_succ_of_lt (h.owners_lt j hj)
    · rw [List.eq_of_mem_replicate hj]
      exact Nat.lt_succ_self _
  · intro j u hu
    simp only [act] at hu
    rw [owned_append h.length]
    rcases Nat.lt_trichotomy j p.threads.length with hlt | rfl | hgt
    · rw [List.getElem?_append_left hlt] at hu
      have hnot : j ∉ List.replicate (((script x).opens S.program).map S.fresh).length
          p.threads.length := by
        intro hj
        exact absurd (List.eq_of_mem_replicate hj) (Nat.ne_of_lt hlt)
      rw [owned_eq_nil hnot, List.append_nil]
      exact h.made j u hu
    · rw [List.getElem?_concat_length] at hu
      cases hu
      have hnot : p.threads.length ∉ owners := by
        intro hj
        exact absurd (h.owners_lt _ hj) (Nat.lt_irrefl _)
      rw [owned_eq_nil hnot, owned_replicate_self]
      exact Made.opening (script x)
    · rw [List.getElem?_eq_none (by simp only [List.length_append, List.length_singleton]; omega)]
        at hu
      cases hu

/-- **A step of a session** is a step of one of its requests, and the arrival of what it then opens. -/
theorem MadeOf.step (h : MadeOf S script owners p q) {j : Nat} {u : Thread Op Ans Sess β} {o : Op}
    {k : Ans o → Prog Op Ans β} (hj : p.threads[j]? = some u) (hu : u.rest = .call o k) :
    ∃ (i : Nat) (t : Thread Op Ans Req α) (k' : Ans o → Prog Op Ans α) (rs : List Req)
      (more : List Nat), q.threads[i]? = some t ∧ t.rest = .call o k' ∧ owners[i]? = some j ∧
      MadeOf S script (owners ++ more) (p.perform (S.sessions script) j u o k)
        { q.perform S i t o k' with
          threads := (q.perform S i t o k').threads ++ rs.map S.fresh } := by
  obtain ⟨before, t, k', howned, ht, hstep⟩ := (h.made j u hj).step hu
  obtain ⟨rs, hrs⟩ := hstep (S.exec o q.shared).1
  obtain ⟨i, hi, howner, hself, hother⟩ := exists_of_owned howned
  have hlt : j < p.threads.length := (List.getElem?_eq_some_iff.mp hj).1
  refine ⟨i, t, k', rs, List.replicate (rs.map S.fresh).length j, hi, ht, howner, ?_, ?_, ?_, ?_⟩
  · show (S.exec o q.shared).2 = (S.exec o p.shared).2
    rw [h.shared]
  · simp only [perform, List.length_append, List.length_set, List.length_replicate, h.length]
  · intro j' hj'
    simp only [perform, List.length_set]
    rcases List.mem_append.mp hj' with hj' | hj'
    · exact h.owners_lt j' hj'
    · rw [List.eq_of_mem_replicate hj']
      exact hlt
  · intro j' u' hu'
    have hlength : owners.length = (q.perform S i t o k').threads.length := by
      simp only [perform, List.length_set, h.length]
    rw [owned_append hlength]
    simp only [perform] at hu' ⊢
    by_cases hjj : j' = j
    · subst hjj
      rw [List.getElem?_set_self hlt] at hu'
      cases hu'
      rw [hself, owned_replicate_self]
      show Made S _ _ (u.trace ++ [⟨o, (S.exec o p.shared).1⟩]) (k (S.exec o p.shared).1)
      rw [← h.shared]
      exact hrs
    · rw [List.getElem?_set_ne (Ne.symm hjj)] at hu'
      have hnot : j' ∉ List.replicate (rs.map S.fresh).length j := by
        intro hmem
        exact hjj (List.eq_of_mem_replicate hmem)
      rw [hother _ _ hjj, owned_eq_nil hnot, List.append_nil]
      exact h.made j' u' hu'

/-- **Sessions refine their requests.** For every schedule of the sessions there is one of the requests
on their own that leads to the same state, by the same calls in the same order. -/
theorem sessions_refine (script : Sess → Script Req α β) (s : σ) (as : List (Action Sess Env)) :
    ∃ (bs : List (Action Req Env)) (owners : List Nat),
      MadeOf S script owners ((idle s).run (S.sessions script) as) ((idle s).run S bs) ∧
      List.Forall₂ (LogEntry.OfSession owners) ((idle s : Pool Op Ans Req α σ).log S bs)
        ((idle s : Pool Op Ans Sess β σ).log (S.sessions script) as) := by
  induction as using List.reverseRecOn with
  | nil =>
    refine ⟨[], [], ⟨rfl, rfl, ?_, ?_⟩, .nil⟩
    · intro j hj
      cases hj
    · intro j u hu
      cases hu
  | append_singleton as a ih =>
    obtain ⟨bs, owners, hmade, hlog⟩ := ih
    simp only [run_concat, log_concat]
    cases a with
    | arrive x =>
      obtain ⟨more, hnext⟩ := hmade.arrive x
      refine ⟨bs ++ ((script x).opens S.program).map .arrive, owners ++ more, ?_, ?_⟩
      · rw [run_append, run_arrivals]
        exact hnext
      · rw [log_append, log_arrivals, List.append_nil]
        simp only [entry, Option.toList_none, List.append_nil]
        exact hlog.imp fun _ _ he => he.append _
    | step j =>
      rcases entry_step (S := S.sessions script) (p := (idle s).run (S.sessions script) as) j with
        ⟨hentry, hact⟩ | ⟨u, o, k, hj, hu, hentry, hact⟩
      · rw [hentry, hact, Option.toList_none, List.append_nil]
        exact ⟨bs, owners, hmade, hlog⟩
      · obtain ⟨i, t, k', rs, more, hi, ht, howner, hnext⟩ := hmade.step hj hu
        refine ⟨bs ++ [.step i] ++ rs.map .arrive, owners ++ more, ?_, ?_⟩
        · rw [run_append, run_arrivals, run_concat, act_step_call hi ht, hact]
          exact hnext
        · have hcall : ((idle s).run S bs).entry S (.step i) =
              some (.call i ⟨o, (S.exec o ((idle s).run S bs).shared).1⟩) := by
            simp only [entry, hi, ht]
          rw [log_append, log_arrivals, List.append_nil, log_concat, hentry, hcall, hmade.shared]
          refine List.rel_append (hlog.imp fun _ _ he => he.append _) ?_
          exact .cons ((LogEntry.OfSession.call _ howner).append _) .nil
    | disturb d =>
      refine ⟨bs ++ [.disturb d], owners, ?_, ?_⟩
      · rw [run_concat]
        refine ⟨?_, hmade.length, hmade.owners_lt, hmade.made⟩
        show S.disturb d ((idle s).run S bs).shared = S.disturb d _
        rw [hmade.shared]
      · rw [log_concat]
        exact List.rel_append hlog (.cons (.disturb d) .nil)

end Pool

end Atomic
