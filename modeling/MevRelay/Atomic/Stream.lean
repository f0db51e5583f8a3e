import MevRelay.Atomic.Prog

/-!
# Streams of messages

A stream handler takes the messages of a stream one after the other and sends one answer for each. An
error in the stream is passed on and ends it; a panic of the program for a message ends it too, and
nothing more is sent.

Other programs may run between two messages: `others n` is what they do to the state before message
`n`. `visits` lists the messages with the states they find. If the program returns on all of them,
the answers are what it returned, in order (`serve_of_returned`); if not, some message remains
without an answer (`serve_of_aborted`).
-/

namespace Atomic

universe u

variable {Op : Type u} {Ans : Op → Type u} {α : Type*} {β ε σ : Type u}

/-- What came of a stream: the items sent, whether a panic ended it, and the state afterwards. -/
structure StreamResult (β σ : Type u) where
  sent : List β
  aborted : Bool
  final : σ

section

variable (exec : (o : Op) → σ → Ans o × σ) (handle : α → Prog Op Ans (Except ε β))
  (others : Nat → σ → σ)

/-- Work through a stream, of which `n` messages have been handled. The receiver stays open. -/
def serve (n : Nat) : List (Except ε α) → σ → StreamResult (Except ε β) σ
  | [], s => ⟨[], false, s⟩
  | .error e :: _, s => ⟨[.error e], false, s⟩
  | .ok msg :: rest, s =>
    match (handle msg).run exec (others n s) with
    | (.returned answer, s') =>
      let served := serve (n + 1) rest s'
      { served with sent := answer :: served.sent }
    | (.aborted, s') => ⟨[], true, s'⟩

/-- Each message with the state that it finds. -/
def visits (n : Nat) : List α → σ → List (σ × α)
  | [], _ => []
  | msg :: rest, s =>
    (others n s, msg) :: visits (n + 1) rest ((handle msg).run exec (others n s)).2

/-- The state after the messages. -/
def stateAfter (n : Nat) : List α → σ → σ
  | [], s => s
  | msg :: rest, s => stateAfter (n + 1) rest ((handle msg).run exec (others n s)).2

end

variable {exec : (o : Op) → σ → Ans o × σ} {handle : α → Prog Op Ans (Except ε β)}
  {others : Nat → σ → σ}

theorem map_snd_visits (n : Nat) (msgs : List α) (s : σ) :
    (visits exec handle others n msgs s).map Prod.snd = msgs := by
  induction msgs generalizing n s with
  | nil => rfl
  | cons msg rest ih => exact congrArg (msg :: ·) (ih _ _)

/-- A message finds what those before it left. -/
theorem getElem?_visits (n : Nat) (msgs : List α) (s : σ) (i : Nat) :
    (visits exec handle others n msgs s)[i]? = msgs[i]?.map fun msg =>
      (others (n + i) (stateAfter exec handle others n (msgs.take i) s), msg) := by
  induction msgs generalizing n s i with
  | nil => rfl
  | cons msg rest ih =>
    cases i with
    | zero => rfl
    | succ i =>
      simp only [visits, List.getElem?_cons_succ, ih, List.take_succ_cons, stateAfter,
        Nat.add_assoc, Nat.add_comm 1]

/-- What the program and the others keep, holds whenever a message is taken. -/
theorem visits_invariant {I : σ → Prop} (hothers : ∀ n s, I s → I (others n s))
    (hhandle : ∀ msg s, I s → I ((handle msg).run exec s).2) {n : Nat} {msgs : List α} {s : σ}
    (hs : I s) : ∀ v ∈ visits exec handle others n msgs s, I v.1 := by
  induction msgs generalizing n s with
  | nil =>
    intro v hv
    cases hv
  | cons msg rest ih =>
    intro v hv
    rcases List.mem_cons.mp hv with rfl | hv
    · exact hothers n s hs
    · exact ih (hhandle msg _ (hothers n s hs)) v hv

/-- The program returns on all messages: their answers are sent, then the rest of the stream is
worked through. -/
theorem serve_of_returned {n : Nat} {msgs : List α} {s : σ} (rest : List (Except ε α))
    (h : ∀ v ∈ visits exec handle others n msgs s, ((handle v.2).run exec v.1).1 ≠ .aborted) :
    ∃ answers, List.Forall₂ (fun v answer => ((handle v.2).run exec v.1).1 = .returned answer)
        (visits exec handle others n msgs s) answers ∧
      serve exec handle others n (msgs.map .ok ++ rest) s =
        let served := serve exec handle others (n + msgs.length) rest
          (stateAfter exec handle others n msgs s)
        { served with sent := answers ++ served.sent } := by
  induction msgs generalizing n s with
  | nil => exact ⟨[], .nil, rfl⟩
  | cons msg msgs ih =>
    obtain ⟨hfirst, hlater⟩ := List.forall_mem_cons.mp h
    cases hrun : (handle msg).run exec (others n s) with
    | mk outcome s' =>
      cases outcome with
      | aborted =>
        rw [hrun] at hfirst
        exact absurd rfl hfirst
      | returned answer =>
        rw [hrun] at hlater
        obtain ⟨answers, hanswers, hserve⟩ := ih hlater
        refine ⟨answer :: answers, ?_, ?_⟩
        · refine .cons (congrArg Prod.fst hrun) ?_
          rw [hrun]
          exact hanswers
        · simp only [List.map_cons, List.cons_append, serve, hrun, hserve, stateAfter,
            List.length_cons, Nat.add_assoc, Nat.add_comm 1]

/-- The program panics on some message: this one and those after it remain without an answer. -/
theorem serve_of_aborted {n : Nat} {msgs : List α} {s : σ} (rest : List (Except ε α))
    (h : ∃ v ∈ visits exec handle others n msgs s, ((handle v.2).run exec v.1).1 = .aborted) :
    (serve exec handle others n (msgs.map .ok ++ rest) s).aborted = true ∧
      (serve exec handle others n (msgs.map .ok ++ rest) s).sent.length < msgs.length := by
  induction msgs generalizing n s with
  | nil =>
    obtain ⟨v, hv, -⟩ := h
    cases hv
  | cons msg msgs ih =>
    obtain ⟨v, hv, hpanic⟩ := h
    cases hrun : (handle msg).run exec (others n s) with
    | mk outcome s' =>
      cases outcome with
      | aborted => simp [serve, hrun]
      | returned answer =>
        rcases List.mem_cons.mp hv with rfl | hv
        · rw [hrun] at hpanic
          cases hpanic
        · rw [hrun] at hv
          obtain ⟨haborted, hshort⟩ := ih ⟨v, hv, hpanic⟩
          simp only [List.map_cons, List.cons_append, serve, hrun, List.length_cons]
          exact ⟨haborted, Nat.succ_lt_succ hshort⟩

end Atomic
