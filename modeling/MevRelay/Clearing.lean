import MevRelay.Linearization

/-!
# When a slot is closed

A submission reads the head and the payload attributes before it bids, and it bids on what it has
read: by then the head may have moved. So a slot does not close with the head. It closes when, in
addition, every submission has ended that still saw the slot as the next one (`slot_closes`).

`execute_clears` says what a submission has read when it bids.
-/

namespace MevRelay

open Atomic

/-! ## What a submission has read when it bids -/

namespace SubmitBidUseCase

/-- A bid is made only when it is cleared. -/
def ClearsBids (R : Relay) (tr : List StoreEvent) (o : StoreOp) : Prop :=
  ∀ slot bid, o = .compareAndBid slot bid → Cleared R bid tr

theorem execute_clears (R : Relay) (bid : BidSubmission) :
    (execute R bid).Always (ClearsBids R) (fun _ _ => True) [] := by
  refine (execute_stages R bid).always ?_ (fun _ _ _ => trivial)
  intro tr o k hstage slot bid' heq
  subst heq
  cases hstage with
  | checking checks read => exact absurd read id
  | bidding checks cleared => exact cleared

end SubmitBidUseCase

open SubmitBidUseCase

namespace Relay

/-- A frontend all of whose bids are cleared. -/
def Frontend.Clears {R : Relay} {Req α : Type} (F : R.Frontend Req α) : Prop :=
  ∀ r, (F.program r).Always (ClearsBids R) (fun _ _ => True) []

/-- A request that makes no bid clears all its bids. -/
theorem clears_of_calls {R : Relay} {α : Type} {p : StoreProg α} {c : Request}
    {Ψ : List StoreEvent → α → Prop} {tr : List StoreEvent} (hc : ∀ bid, c ≠ .submitBid bid)
    (h : p.Always (c.Calls R) Ψ tr) : p.Always (ClearsBids R) (fun _ _ => True) tr := by
  refine h.mono ?_ (fun _ _ _ => trivial)
  rintro tr o ho slot bid rfl
  exact absurd (Request.calls_compareAndBid ho).1 (hc bid)

theorem frontend_clears (R : Relay) : R.frontend.Clears := by
  intro r
  cases r with
  | submitBid bid =>
    apply Prog.Always.map
    exact execute_clears R bid
  | registerValidator registration =>
    exact clears_of_calls (c := .registerValidator registration) nofun (R.program_always _)
  | getHeader slot parentHash proposerPubkey =>
    exact clears_of_calls (c := .getHeader slot parentHash proposerPubkey) nofun
      (R.program_always _)
  | unblindBlock slot proposerIndex blockHash signature =>
    exact clears_of_calls (c := .unblindBlock slot proposerIndex blockHash signature) nofun
      (R.program_always _)
  | background task => exact clears_of_calls (c := .background task) nofun (R.program_always _)

namespace Frontend

variable {R : Relay} {Req α : Type} {F : R.Frontend Req α} {whitelist : List BlsPublicKey}
  {slot : UInt64}

/-- The task has read a head that `slot` comes right after. -/
def SawNext (R : Relay) (slot : UInt64) (tr : List StoreEvent) : Prop :=
  ∃ head, ⟨.readHeadSlot, head⟩ ∈ tr ∧ head.isNextSlot R.build slot = some true

/-- Nobody is about to bid for `slot`: whoever saw it as the next one has ended. -/
def Drained (slot : UInt64) (F : R.Frontend Req α)
    (p : Pool StoreOp StoreOp.Ans Req α Store) : Prop :=
  ∀ t ∈ p.threads, ∀ bid, F.serves t.request = some (.submitBid bid) →
    bid.message.slot = slot → SawNext R slot t.trace → ∀ o k, t.rest ≠ .call o k

/-- The head is not the one that `slot` comes right after. -/
def NotNext (R : Relay) (slot : UInt64) (s : Store) : Prop :=
  s.storage.headSlot.isNextSlot R.build slot ≠ some true

instance (R : Relay) (slot : UInt64) (s : Store) : Decidable (NotNext R slot s) :=
  inferInstanceAs (Decidable (_ ≠ _))

/-- A call made while `slot` is not next does not change who saw it as next. -/
theorem sawNext_concat {s : Store} (hnext : NotNext R slot s) {tr : List StoreEvent} {o : StoreOp}
    (h : SawNext R slot (tr ++ [⟨o, (Store.exec o s).1⟩])) : SawNext R slot tr := by
  obtain ⟨head, hmem, hhead⟩ := h
  rcases List.mem_append.mp hmem with hmem | hmem
  · exact ⟨head, hmem, hhead⟩
  · obtain ⟨rfl, hans⟩ := Store.exec_of_event_eq (List.mem_singleton.mp hmem).symm
    have heq : s.storage.headSlot = head := hans
    exact absurd (heq ▸ hhead) hnext

theorem drained_perform {p : Pool StoreOp StoreOp.Ans Req α Store} {i : Nat}
    {t : Thread StoreOp StoreOp.Ans Req α} {o : StoreOp} {k : o.Ans → StoreProg α}
    (hi : p.threads[i]? = some t) (hr : t.rest = .call o k) (hnext : NotNext R slot p.shared)
    (h : Drained slot F p) : Drained slot F (p.perform F.system i t o k) := by
  intro t' ht' bid hsubmits hslot hsaw
  rcases Pool.mem_perform ht' with ht' | rfl
  · exact h t' ht' bid hsubmits hslot hsaw
  · exact absurd hr (h t (List.mem_of_getElem? hi) bid hsubmits hslot (sawNext_concat hnext hsaw) o k)

/-- In a drained pool a call does not change the best bid of the slot. -/
theorem best_perform {p : Pool StoreOp StoreOp.Ans Req α Store} {i : Nat}
    {t : Thread StoreOp StoreOp.Ans Req α} {o : StoreOp} {k : o.Ans → StoreProg α}
    (hi : p.threads[i]? = some t) (hr : t.rest = .call o k)
    (hcalls : ∃ c ∈ F.serves t.request, c.Calls R t.trace o) (hclears : ClearsBids R t.trace o)
    (h : Drained slot F p) :
    (p.perform F.system i t o k).shared.best slot = p.shared.best slot := by
  rcases Store.exec_best o p.shared with hsame | ⟨slot', bid, rfl, -, -, hnew⟩
  · exact congrFun hsame slot
  · obtain ⟨c, hc, hcalls⟩ := hcalls
    obtain ⟨rfl, rfl, -⟩ := Request.calls_compareAndBid hcalls
    have hne : slot ≠ bid.message.slot := by
      rintro rfl
      exact h t (List.mem_of_getElem? hi) bid hc rfl (hclears _ _ rfl).next_slot _ k hr
    exact (congrFun hnew slot).trans (Function.update_of_ne hne _ _)

/-- From a drained pool on, while the slot is not next, its best bid can only expire. -/
theorem best_of_drained (hF : F.Clears) {p : Pool StoreOp StoreOp.Ans Req α Store}
    (hsound : p.Sound (fun r tr o => (∃ c ∈ F.serves r, c.Calls R tr o) ∧ ClearsBids R tr o)
      (fun r tr a => F.Returns r tr a ∧ True))
    (hdrained : Drained slot F p) {later : List (Action Req UInt64)}
    (hpassed : p.Follows F.system (fun q _ => NotNext R slot q.shared) later) :
    (p.run F.system later).shared.best slot = p.shared.best slot ∨
      (.disturb slot ∈ later ∧ (p.run F.system later).shared.best slot = none) := by
  suffices h : Drained slot F (p.run F.system later) ∧
      ((p.run F.system later).shared.best slot = p.shared.best slot ∨
        (.disturb slot ∈ later ∧ (p.run F.system later).shared.best slot = none)) from h.2
  refine Pool.run_invariant (S := F.system)
    (C := fun q a => NotNext R slot q.shared ∧ a ∈ later)
    (I := fun q => Drained slot F q ∧ (q.shared.best slot = p.shared.best slot ∨
      (.disturb slot ∈ later ∧ q.shared.best slot = none)))
    (fun r => (F.always r).and (hF r)) hsound ⟨hdrained, .inl rfl⟩ ?_ ?_ ?_ later
    (hpassed.and (Pool.follows_of_forall fun _ _ => id))
  · rintro q r - ⟨hq, hbest⟩
    refine ⟨?_, hbest⟩
    intro t ht bid hsubmits hslot hsaw
    rcases List.mem_append.mp ht with ht | ht
    · exact hq t ht bid hsubmits hslot hsaw
    · -- a new request has read nothing yet
      cases List.mem_singleton.mp ht
      obtain ⟨head, hmem, -⟩ := hsaw
      cases hmem
  · rintro q i t o k hi hr ⟨hnext, -⟩ ⟨hcalls, hclears⟩ ⟨hq, hbest⟩
    refine ⟨drained_perform hi hr hnext hq, ?_⟩
    rw [best_perform hi hr hcalls hclears hq]
    exact hbest
  · rintro q slot' ⟨-, hmem⟩ ⟨hq, hbest⟩
    refine ⟨hq, ?_⟩
    simp only [Pool.act, system]
    rw [Store.expire_best]
    by_cases hslot : slot = slot'
    · subst hslot
      exact .inr ⟨hmem, if_pos rfl⟩
    · rw [if_neg hslot]
      exact hbest

end Frontend

end Relay

namespace Sample

/-- The task has returned or panicked. -/
def ended (t : Thread StoreOp StoreOp.Ans Request Response) : Bool :=
  match t.rest with
  | .call _ _ => false
  | _ => true

theorem rest_ne_call {t : Thread StoreOp StoreOp.Ans Request Response} (h : ended t = true)
    (o : StoreOp) (k : o.Ans → StoreProg Response) : t.rest ≠ .call o k := by
  intro hrest
  simp only [ended, hrest] at h
  cases h

end Sample

namespace Relay

/-- **A slot closes.** Once every submission for the slot that saw it as the next one has ended, and
as long as the head is not the one before it, no interleaving of requests changes the best bid of the
slot: it stays, or its cache entry expires. -/
theorem slot_closes (R : Relay) (whitelist : List BlsPublicKey)
    (earlier later : List (Action Request UInt64)) (slot : UInt64)
    (hdrained : Frontend.Drained slot R.frontend (R.frontend.after whitelist earlier))
    (hpassed : (R.frontend.after whitelist earlier).Follows R.frontend.system
      (fun p _ => Frontend.NotNext R slot p.shared) later) :
    (R.frontend.after whitelist (earlier ++ later)).shared.best slot =
        (R.frontend.after whitelist earlier).shared.best slot ∨
      (.disturb slot ∈ later ∧
        (R.frontend.after whitelist (earlier ++ later)).shared.best slot = none) := by
  have hrun : R.frontend.after whitelist (earlier ++ later) =
      (R.frontend.after whitelist earlier).run R.frontend.system later :=
    Pool.run_append earlier later
  rw [hrun]
  refine Frontend.best_of_drained R.frontend_clears ?_ hdrained hpassed
  exact (Pool.Sound.idle _).run
    (fun r => (R.frontend.always r).and (R.frontend_clears r)) earlier

/-- A bid for slot 2 was accepted and the head has moved on to slot 2. A higher bid for slot 2 comes
too late. -/
theorem slot_closes_late :
    (Sample.relay.frontend.after Sample.whitelist
        (Sample.inTurn (Sample.ready ++ [.submitBid (Sample.bid 2 1 1), Sample.head 2]) ++
          (.arrive (.submitBid (Sample.bid 2 2 2)) :: List.replicate 8 (.step 4)))).shared.best 2 =
      some (Sample.bid 2 1 1) := by
  have hdrained : Frontend.Drained 2 Sample.relay.frontend (Sample.relay.frontend.after
      Sample.whitelist
      (Sample.inTurn (Sample.ready ++ [.submitBid (Sample.bid 2 1 1), Sample.head 2]))) := by
    have hended : (Sample.relay.frontend.after Sample.whitelist
        (Sample.inTurn (Sample.ready ++ [.submitBid (Sample.bid 2 1 1), Sample.head 2]))).threads.all
          Sample.ended = true := by decide +kernel
    intro t ht bid _ _ _
    exact Sample.rest_ne_call (List.all_eq_true.mp hended t ht)
  rcases slot_closes Sample.relay Sample.whitelist
    (Sample.inTurn (Sample.ready ++ [.submitBid (Sample.bid 2 1 1), Sample.head 2]))
    (.arrive (.submitBid (Sample.bid 2 2 2)) :: List.replicate 8 (.step 4)) 2 hdrained
    (by decide +kernel) with hsame | ⟨hmem, -⟩
  · rw [hsame]
    decide +kernel
  · simp at hmem

end Relay

end MevRelay
