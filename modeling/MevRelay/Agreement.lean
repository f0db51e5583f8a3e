import MevRelay.System

/-!
# Whether cache and stored payload agree

`SubmitBid` wins the auction in one step and stores its payload in another. Any number of
submissions for one slot and one duty may run at once; when no submission is between the two steps,
the stored payload should be that of the bid in the cache.

It is, in every run in which nobody stores after the submission that holds the cache has stored
(`stores_agree`). Nothing in the code sees to that: a submission that was outbid between its two
steps may store last (`stores_disagree`).
-/

namespace MevRelay

open Atomic

/-- A request of the relay being served. -/
abbrev RelayThread := Thread StoreOp StoreOp.Ans Request Response

/-- The relay with all requests that have arrived. -/
abbrev RelayPool := Pool StoreOp StoreOp.Ans Request Response Store

namespace Agreement

/-! ## Where a submission stands -/

/-- A bid that was accepted. -/
def wins : StoreEvent → Bool
  | ⟨.compareAndBid _ _, .ok _⟩ => true
  | _ => false

/-- A payload that was stored. -/
def stores : StoreEvent → Bool
  | ⟨.setBlindedBlockResponse _ _, _⟩ => true
  | _ => false

/-- The bid was accepted and the payload is not stored yet. -/
def between (t : RelayThread) : Bool := t.trace.any wins && !t.trace.any stores

/-- The submission has returned `Ok`. -/
def returnedOk (t : RelayThread) : Bool :=
  match t.rest with
  | .ret (.submitBid (.ok ())) => true
  | _ => false

/-- The thread is a submission of `bid`. -/
def submits (bid : BidSubmission) (t : RelayThread) : Bool :=
  match t.request with
  | .submitBid b => b = bid
  | _ => false

/-- The next call of the thread stores its payload. -/
def storesNext (t : RelayThread) : Bool :=
  match t.rest with
  | .call (.setBlindedBlockResponse _ _) _ => true
  | _ => false

/-- Submissions for `slot` arrive and move, nothing else happens. -/
def onlyBids (slot : UInt64) : Action Request UInt64 → Bool
  | .arrive (.submitBid bid) => bid.message.slot = slot
  | .step _ => true
  | _ => false

/-- If this action is to store a payload, the submission whose bid is in the cache has not stored
its own yet. -/
def StoresInTime (slot : UInt64) (p : RelayPool) : Action Request UInt64 → Prop
  | .step i => ∀ t ∈ p.threads[i]?, storesNext t → ∀ best ∈ p.shared.best slot,
      ∃ t' ∈ p.threads, submits best t' ∧ between t'
  | _ => True

instance (slot : UInt64) (p : RelayPool) : DecidablePred (StoresInTime slot p)
  | .arrive _ => isTrue trivial
  | .step i => inferInstanceAs (Decidable (∀ t ∈ p.threads[i]?, _))
  | .disturb _ => isTrue trivial

/-- At rest, with a bid accepted, the payload stored for the duty is that of the best bid. -/
def StoresAgree (slot : UInt64) (duty : ProposerDuty) (p : RelayPool) : Prop :=
  (∃ t ∈ p.threads, returnedOk t) → (∀ t ∈ p.threads, between t = false) →
    ∃ best, p.shared.best slot = some best ∧
      p.shared.storage.readBlindedBlockResponse duty.pubkey = some best.toBlindedBlockResponse

/-! ## Traces of submissions -/

theorem submits_iff {bid : BidSubmission} {t : RelayThread} :
    submits bid t = true ↔ t.request = .submitBid bid := by
  unfold submits
  cases t.request with
  | submitBid b => simp
  | _ => simp

theorem stores_eq_true {e : StoreEvent} (h : stores e = true) :
    ∃ proposer resp, e = ⟨.setBlindedBlockResponse proposer resp, ()⟩ := by
  obtain ⟨o, ans⟩ := e
  cases o with
  | setBlindedBlockResponse proposer resp => exact ⟨proposer, resp, rfl⟩
  | _ => cases h

theorem wins_eq_true {e : StoreEvent} (h : wins e = true) :
    ∃ slot bid, e = ⟨.compareAndBid slot bid, .ok ()⟩ := by
  obtain ⟨o, ans⟩ := e
  cases o with
  | compareAndBid slot bid =>
    cases ans with
    | ok u => exact ⟨slot, bid, rfl⟩
    | error e => cases h
  | _ => cases h

theorem between_of_concat {t : RelayThread} {e : StoreEvent} {rest : StoreProg Response}
    (h : between t = true) (he : stores e = false) :
    between ⟨t.request, t.trace ++ [e], rest⟩ = true := by
  simp only [between, Bool.and_eq_true, Bool.not_eq_true'] at h ⊢
  simp [List.any_append, h.1, h.2, he]

/-! ## The invariant -/

/-- What holds while submissions for `slot` run. The last field is the point: the submission whose
bid is in the cache is still to store, or the payload stored is its own. -/
structure Inv (slot : UInt64) (duty : ProposerDuty) (p : RelayPool) : Prop where
  duty_found : p.shared.storage.findDutyBySlot slot = some duty
  bids : ∀ t ∈ p.threads, ∃ bid, t.request = .submitBid bid ∧ bid.message.slot = slot
  duty_read : ∀ t ∈ p.threads, ∀ d, ⟨.findDutyBySlot slot, some d⟩ ∈ t.trace → d = duty
  held : ∀ t ∈ p.threads, t.trace.any wins = true → ∃ best, p.shared.best slot = some best
  winner : ∀ best, p.shared.best slot = some best →
    (∃ t ∈ p.threads, submits best t = true ∧ between t = true) ∨
      p.shared.storage.readBlindedBlockResponse duty.pubkey = some best.toBlindedBlockResponse

variable {R : Relay} {slot : UInt64} {duty : ProposerDuty} {p : RelayPool} {i : Nat}
  {t : RelayThread} {o : StoreOp} {k : o.Ans → StoreProg Response}

theorem Inv.arrive {r : Request} (hr : onlyBids slot (.arrive r) = true) (h : Inv slot duty p) :
    Inv slot duty (p.act R.system (.arrive r)) := by
  have hold : ∀ t ∈ (p.act R.system (.arrive r)).threads, t ∈ p.threads ∨
      t = ⟨r, [], R.program r⟩ := by
    intro t ht
    rcases List.mem_append.mp ht with ht | ht
    · exact .inl ht
    · exact .inr (List.mem_singleton.mp ht)
  refine ⟨h.duty_found, ?_, ?_, ?_, ?_⟩
  · intro t ht
    rcases hold t ht with ht | rfl
    · exact h.bids t ht
    · cases r with
      | submitBid bid => exact ⟨bid, rfl, of_decide_eq_true hr⟩
      | _ => cases hr
  · intro t ht d hd
    rcases hold t ht with ht | rfl
    · exact h.duty_read t ht d hd
    · cases hd
  · intro t ht hwins
    rcases hold t ht with ht | rfl
    · exact h.held t ht hwins
    · cases hwins
  · intro best hbest
    rcases h.winner best hbest with ⟨t, ht, hwinner⟩ | hstored
    · exact .inl ⟨t, List.mem_append_left _ ht, hwinner⟩
    · exact .inr hstored

/-- A bid in the cache is only ever replaced by another one. -/
theorem best_persists {s : Store} (h : ∃ best, s.best slot = some best) :
    ∃ best, (Store.exec o s).2.best slot = some best := by
  rcases Store.exec_best o s with hsame | ⟨slot', bid, -, -, -, hnew⟩
  · rw [hsame]
    exact h
  · rw [hnew]
    by_cases hs : slot = slot'
    · exact ⟨bid, by rw [hs, Function.update_self]⟩
    · rw [Function.update_of_ne hs]
      exact h

/-- The submission of `best` is still to store, or the payload stored is its own. -/
def Pending (duty : ProposerDuty) (best : BidSubmission) (p : RelayPool) : Prop :=
  (∃ t ∈ p.threads, submits best t = true ∧ between t = true) ∨
    p.shared.storage.readBlindedBlockResponse duty.pubkey = some best.toBlindedBlockResponse

/-- A call that stores, made in time: it is that of the submission that holds the cache, or that one
is still to come. -/
theorem Inv.pending_store {proposer : BlsPublicKey} {resp : BlindedBlockResponse}
    {k : StoreOp.Ans (.setBlindedBlockResponse proposer resp) → StoreProg Response}
    (hi : p.threads[i]? = some t) (hr : t.rest = .call (.setBlindedBlockResponse proposer resp) k)
    (hwhen : StoresInTime slot p (.step i))
    (hcalls : t.request.Calls R t.trace (.setBlindedBlockResponse proposer resp))
    (h : Inv slot duty p) {best : BidSubmission} (hbest : p.shared.best slot = some best) :
    Pending duty best (p.perform R.system i t (.setBlindedBlockResponse proposer resp) k) := by
  have hstores : storesNext t = true := by simp only [storesNext, hr]
  have hwinner := hwhen t hi hstores best hbest
  rcases Pool.exists_mem_perform hi hwinner with ⟨hsubmits, -⟩ | hthere
  · -- it is the submission that stores now
    have ht := List.mem_of_getElem? hi
    obtain ⟨bid, hreq, rfl, ⟨d, hchecked, rfl⟩, -⟩ := Request.calls_setBlindedBlockResponse hcalls
    cases hreq.symm.trans (submits_iff.mp hsubmits)
    obtain ⟨bid', hreq', hslot⟩ := h.bids t ht
    cases hreq.symm.trans hreq'
    have hread : ⟨.findDutyBySlot slot, some d⟩ ∈ t.trace := hslot ▸ hchecked.duty_read
    have hd : d = duty := h.duty_read t ht d hread
    right
    simp only [Pool.perform, Relay.system, Store.exec]
    rw [MemoryStorage.readBlindedBlockResponse_set, hd, if_pos rfl]
  · exact .inl hthere

/-- A call that neither stores nor changes the best bid. -/
theorem Inv.pending_other (hi : p.threads[i]? = some t)
    (hset : ¬ ∃ proposer resp, o = .setBlindedBlockResponse proposer resp)
    (h : Inv slot duty p) {best : BidSubmission} (hbest : p.shared.best slot = some best) :
    Pending duty best (p.perform R.system i t o k) := by
  have hevent : stores ⟨o, (R.system.exec o p.shared).1⟩ = false := by
    rw [Bool.eq_false_iff]
    intro he
    obtain ⟨proposer, resp, he⟩ := stores_eq_true he
    exact hset ⟨proposer, resp, congrArg Event.op he⟩
  rcases h.winner best hbest with hwinner | hstored
  · left
    rcases Pool.exists_mem_perform hi hwinner with ⟨hsubmits, hbetween⟩ | hthere
    · exact ⟨_, Pool.moved_mem_perform hi, submits_iff.mpr (submits_iff.mp hsubmits),
        between_of_concat hbetween hevent⟩
    · exact hthere
  · right
    rcases Store.exec_blindedBlocks o p.shared with hkept | hset'
    · simp only [Pool.perform, Relay.system, MemoryStorage.readBlindedBlockResponse, hkept]
      exact hstored
    · exact absurd hset' hset

/-- A bid that moves into the cache belongs to the thread that moves, which has not stored. -/
theorem Inv.pending_new {bid : BidSubmission}
    {k : StoreOp.Ans (.compareAndBid slot bid) → StoreProg Response}
    (hi : p.threads[i]? = some t) (hcalls : t.request.Calls R t.trace (.compareAndBid slot bid))
    (hok : (p.shared.compareAndBid slot bid).1 = .ok ()) :
    Pending duty bid (p.perform R.system i t (.compareAndBid slot bid) k) := by
  obtain ⟨hreq, -⟩ := Request.calls_compareAndBid hcalls
  rw [hreq] at hcalls
  obtain ⟨-, -, -, hnotStored⟩ := hcalls
  have hnone : t.trace.any stores = false := by
    rw [Bool.eq_false_iff, Ne, List.any_eq_true]
    rintro ⟨e, he, hstore⟩
    obtain ⟨proposer, resp, rfl⟩ := stores_eq_true hstore
    exact hnotStored proposer resp he
  refine .inl ⟨_, Pool.moved_mem_perform hi, submits_iff.mpr hreq, ?_⟩
  simp [between, List.any_append, hnone, wins, stores, Relay.system, Store.exec, hok]

/-- Who holds the cache after a call, and whether it has stored. -/
theorem Inv.winner_perform (hi : p.threads[i]? = some t) (hr : t.rest = .call o k)
    (hwhen : StoresInTime slot p (.step i)) (hcalls : t.request.Calls R t.trace o)
    (h : Inv slot duty p) {best : BidSubmission}
    (hbest : (p.perform R.system i t o k).shared.best slot = some best) :
    Pending duty best (p.perform R.system i t o k) := by
  rcases Store.exec_best o p.shared with hsame | ⟨slot', bid, rfl, -, hok, hnew⟩
  · -- the bid in the cache was there before the call
    have hbest₀ : p.shared.best slot = some best := hsame ▸ hbest
    by_cases hset : ∃ proposer resp, o = .setBlindedBlockResponse proposer resp
    · obtain ⟨proposer, resp, rfl⟩ := hset
      exact h.pending_store hi hr hwhen hcalls hbest₀
    · exact h.pending_other hi hset hbest₀
  · -- all bids are for the one slot, so this one is the best bid now
    obtain ⟨hreq, hslot', -⟩ := Request.calls_compareAndBid hcalls
    obtain ⟨bid', hreq', hslot⟩ := h.bids t (List.mem_of_getElem? hi)
    cases hreq.symm.trans hreq'
    have hs : slot' = slot := hslot'.trans hslot
    subst hs
    have hheld : (p.perform R.system i t (.compareAndBid slot' bid) k).shared.best slot' =
        some bid := (congrFun hnew slot').trans (Function.update_self ..)
    cases hheld.symm.trans hbest
    exact Inv.pending_new hi hcalls hok

theorem Inv.perform (hi : p.threads[i]? = some t) (hr : t.rest = .call o k)
    (hwhen : StoresInTime slot p (.step i)) (hcalls : t.request.Calls R t.trace o)
    (h : Inv slot duty p) : Inv slot duty (p.perform R.system i t o k) := by
  have ht := List.mem_of_getElem? hi
  obtain ⟨bid, hreq, hslot⟩ := h.bids t ht
  refine ⟨?_, ?_, ?_, ?_, fun best hbest => h.winner_perform hi hr hwhen hcalls hbest⟩
  · rcases Store.exec_proposerDuties o p.shared with hsame | ⟨duties, rfl⟩
    · simp only [Pool.perform, Relay.system, MemoryStorage.findDutyBySlot, hsame]
      exact h.duty_found
    · rw [hreq] at hcalls
      exact absurd hcalls id
  · intro t' ht'
    rcases Pool.mem_perform ht' with ht' | rfl
    · exact h.bids t' ht'
    · exact ⟨bid, hreq, hslot⟩
  · intro t' ht' d hd
    rcases Pool.mem_perform ht' with ht' | rfl
    · exact h.duty_read t' ht' d hd
    · rcases List.mem_append.mp hd with hd | hd
      · exact h.duty_read t ht d hd
      · obtain ⟨-, hans⟩ := Store.exec_of_event_eq (List.mem_singleton.mp hd).symm
        exact (Option.some.inj (h.duty_found.symm.trans hans)).symm
  · intro t' ht' hwins
    rcases Pool.mem_perform ht' with ht' | rfl
    · exact best_persists (h.held t' ht' hwins)
    · rw [List.any_append, Bool.or_eq_true] at hwins
      rcases hwins with hwins | hwins
      · exact best_persists (h.held t ht hwins)
      · -- the call itself won, so its bid is in the cache now
        rw [List.any_cons, List.any_nil, Bool.or_false] at hwins
        obtain ⟨slot', bid', he⟩ := wins_eq_true hwins
        obtain ⟨rfl, hok⟩ := Store.exec_of_event_eq he
        obtain ⟨hreq', hslot', -⟩ := Request.calls_compareAndBid hcalls
        cases hreq.symm.trans hreq'
        rw [hslot] at hslot'
        rcases Store.compareAndBid_cases p.shared slot' bid with
          ⟨-, -, hnew⟩ | ⟨-, ⟨e, hlost⟩, -⟩
        · refine ⟨bid, ?_⟩
          rw [← hslot']
          exact (congrFun hnew slot').trans (Function.update_self ..)
        · cases hlost.symm.trans hok

/-! ## Agreement -/

theorem Inv.agree (hsound : p.Sound (Request.Calls R) (Request.Returns R))
    (h : Inv slot duty p) : StoresAgree slot duty p := by
  rintro ⟨t, ht, hreturned⟩ hquiet
  obtain ⟨bid, hreq, -⟩ := h.bids t ht
  have hwins : t.trace.any wins = true := by
    have hreturns := hsound t ht
    unfold returnedOk at hreturned
    split at hreturned
    · next hrest =>
      rw [hrest, hreq] at hreturns
      exact List.any_eq_true.mpr ⟨_, hreturns rfl, rfl⟩
    · cases hreturned
  obtain ⟨best, hbest⟩ := h.held t ht hwins
  refine ⟨best, hbest, ?_⟩
  rcases h.winner best hbest with ⟨t', ht', -, hbetween⟩ | hstored
  · cases (hquiet t' ht').symm.trans hbetween
  · exact hstored

/-- **The two stores agree** in every run of submissions for one slot and one duty in which nobody
stores after the submission that holds the cache. -/
theorem stores_agree (R : Relay) (s : Store) (slot : UInt64) (duty : ProposerDuty)
    (schedule : List (Action Request UInt64)) (hfree : s.best slot = none)
    (hduty : s.storage.findDutyBySlot slot = some duty)
    (hbids : ∀ a ∈ schedule, onlyBids slot a = true)
    (hwhen : (Pool.idle s).Follows R.system (StoresInTime slot) schedule) :
    StoresAgree slot duty ((Pool.idle s).run R.system schedule) := by
  have hinit : Inv slot duty (Pool.idle s) := by
    refine ⟨hduty, fun t ht => absurd ht List.not_mem_nil, fun t ht => absurd ht List.not_mem_nil,
      fun t ht => absurd ht List.not_mem_nil, ?_⟩
    intro best hbest
    cases hfree.symm.trans hbest
  apply Inv.agree (R := R) (Pool.Sound.run R.program_always (Pool.Sound.idle s) schedule)
  refine Pool.run_invariant (S := R.system)
    (C := fun p a => onlyBids slot a = true ∧ StoresInTime slot p a) R.program_always
    (Pool.Sound.idle s) hinit (fun p r hr h => h.arrive hr.1)
    (fun p i t o k hi hrest hC hcalls h => h.perform hi hrest hC.2 hcalls)
    (fun p e he => absurd he.1 Bool.false_ne_true) schedule ?_
  exact (Pool.follows_of_forall fun _ => hbids).and hwhen

/-- The relay of the examples, with slot 2 next and no bid yet. -/
def start : Store := Sample.relay.system.final (Store.new Sample.whitelist) Sample.ready

/-- The duty of slot 2. -/
def dutyTwo : ProposerDuty := ⟨Sample.prims.skToPk Sample.proposer, 5, 2⟩

/-- A bid of value 1 and one of value 2 arrive; the steps are given by thread. -/
def race (steps : List Nat) : List (Action Request UInt64) :=
  .arrive (.submitBid (Sample.bid 2 1 1)) :: .arrive (.submitBid (Sample.bid 2 2 2)) ::
    steps.map .step

/-- The lower bid gets in first and stores between the two steps of the higher one. -/
theorem stores_agree_race :
    StoresAgree 2 dutyTwo
      ((Pool.idle start).run Sample.relay.system (race [0, 0, 0, 0, 0, 1, 1, 1, 1, 1, 0, 1])) :=
  stores_agree Sample.relay start 2 dutyTwo (race [0, 0, 0, 0, 0, 1, 1, 1, 1, 1, 0, 1]) rfl rfl
    (by decide) (by decide +kernel)

/-- The lower bid gets in first and stores after the higher one has stored: the cache holds the
higher bid, the payload is that of the lower one. -/
theorem stores_disagree :
    ¬ ∀ (R : Relay) (s : Store) (slot : UInt64) (duty : ProposerDuty)
      (schedule : List (Action Request UInt64)), s.best slot = none →
      s.storage.findDutyBySlot slot = some duty →
      (∀ a ∈ schedule, onlyBids slot a = true) →
      StoresAgree slot duty ((Pool.idle s).run R.system schedule) := by
  intro h
  have hagree := h Sample.relay start 2 dutyTwo (race [0, 0, 0, 0, 0, 1, 1, 1, 1, 1, 1, 0]) rfl
    rfl (by decide)
  obtain ⟨best, hbest, hstored⟩ := hagree (by decide +kernel) (by decide +kernel)
  have hhigh : ((Pool.idle start).run Sample.relay.system
      (race [0, 0, 0, 0, 0, 1, 1, 1, 1, 1, 1, 0])).shared.best 2 = some (Sample.bid 2 2 2) := by
    decide +kernel
  rw [Option.some.inj (hbest.symm.trans hhigh)] at hstored
  exact absurd hstored (by decide +kernel)

end Agreement

end MevRelay
