import MevRelay.Api.Services

/-!
# Whether a retrieved response is about one bid

A `Retrieve` reads the best bid twice: `GetHeader` reads it to build the header, and the handler
reads it again for payload and blobs. If no bid gets in between the two reads, the whole response is
about the first one (`retrieved_from_one_bid`); nothing keeps a bid out (`retrieved_from_two_bids`).
-/

namespace MevRelay

open Atomic

namespace Retrieve

/-! ## Where a request stands -/

/-- The response that was sent. -/
def sent (t : RpcThread) : Option Proto.RetrieveResponse :=
  match t.rest with
  | .ret (.retrieve (.ok resp)) => some resp
  | _ => none

/-- The thread has read the best bid of `slot` and is about to read it again. -/
def readsAgain (slot : UInt64) (t : RpcThread) : Bool :=
  match t.rest, t.trace.getLast? with
  | .call (.getBestBid slot') _, some ⟨.getBestBid _, .ok _⟩ => slot' = slot
  | _, _ => false

/-- The bid that the next call puts up, with its slot. -/
def bidsNext (t : RpcThread) : Option (UInt64 × BidSubmission) :=
  match t.rest with
  | .call (.compareAndBid slot bid) _ => some (slot, bid)
  | _ => none

/-- If this action puts up a bid for a slot whose best bid some request is about to read again, the
bid in the cache is worth at least as much. -/
def KeepsBest (p : RpcPool) : Action Rpc.Request UInt64 → Prop
  | .step i => ∀ t ∈ p.threads[i]?, ∀ call ∈ bidsNext t,
      (∃ t' ∈ p.threads, readsAgain call.1 t' = true) →
        ∃ best ∈ p.shared.best call.1, call.2.message.value ≤ best.message.value
  | _ => True

instance (p : RpcPool) : DecidablePred (KeepsBest p)
  | .arrive _ => isTrue trivial
  | .step i => inferInstanceAs (Decidable (∀ t ∈ p.threads[i]?, _))
  | .disturb _ => isTrue trivial

/-- Header, payload and blobs of a response that has a payload are those of the bid that `GetHeader`
read. -/
def OneBid (R : Relay) (serde : Serde) (p : RpcPool) : Prop :=
  ∀ t ∈ p.threads, ∀ resp, sent t = some resp → resp.executionPayload ≠ [] →
    ∃ slot bid, (∃ pre last, t.trace = pre ++ [⟨.getBestBid slot, .ok bid⟩, last]) ∧
      resp.signedHeader = unwrapOrDefault (serde.header (GetHeaderUseCase.signedHeader R bid.val)) ∧
      resp.executionPayload = unwrapOrDefault (serde.payload bid.val.executionPayload) ∧
      resp.blobsBundle = unwrapOrDefault (serde.blobs bid.val.blobsBundle)

/-! ## The invariant -/

/-- The last call of the trace read `bid` as the best one of `slot`. -/
def LastRead (slot : UInt64) (bid : Arc BidSubmission) (tr : List StoreEvent) : Prop :=
  ∃ pre, tr = pre ++ [⟨.getBestBid slot, .ok bid⟩]

theorem readsAgain_of_lastRead {slot : UInt64} {bid : Arc BidSubmission} {t : RpcThread}
    {k : StoreOp.Ans (.getBestBid slot) → StoreProg Rpc.Output} (htr : LastRead slot bid t.trace)
    (hrest : t.rest = .call (.getBestBid slot) k) : readsAgain slot t = true := by
  obtain ⟨pre, hpre⟩ := htr
  have hlast : t.trace.getLast? = some ⟨.getBestBid slot, .ok bid⟩ := by
    rw [hpre, List.getLast?_concat]
  simp only [readsAgain, hrest, hlast, decide_true]

/-- What was read is still the best bid when it is read again, and was when it was. -/
structure Inv (p : RpcPool) : Prop where
  pending : ∀ t ∈ p.threads, ∀ slot first k, LastRead slot first t.trace →
    t.rest = .call (.getBestBid slot) k → ∀ b, p.shared.best slot = some b → b = first.val
  done : ∀ t ∈ p.threads, ∀ slot first second tr, LastRead slot first tr →
    t.trace = tr ++ [⟨.getBestBid slot, .ok second⟩] → second.val = first.val

/-- The last event of a trace that grew by one call. -/
theorem concat_event_eq {o o' : StoreOp} {ans : o'.Ans} {s : Store} {tr tr' : List StoreEvent}
    (h : tr ++ [⟨o, (Store.exec o s).1⟩] = tr' ++ [⟨o', ans⟩]) :
    tr = tr' ∧ o = o' ∧ (Store.exec o' s).1 = ans := by
  have htr : tr = tr' := List.append_inj_left' h rfl
  have hlast := List.append_inj_right' h rfl
  exact ⟨htr, Store.exec_of_event_eq (List.cons.inj hlast).1⟩

variable {R : Relay} {serde : Serde} {p : RpcPool} {i : Nat} {t : RpcThread} {o : StoreOp}
  {k : o.Ans → StoreProg Rpc.Output}

/-- The best bid of a slot stays what it is while a request for it is about to read it again. -/
theorem best_of_readsAgain (hi : p.threads[i]? = some t) (hr : t.rest = .call o k)
    (hwhen : KeepsBest p (.step i)) {slot : UInt64} {t' : RpcThread} (ht' : t' ∈ p.threads)
    (hagain : readsAgain slot t' = true) :
    (Store.exec o p.shared).2.best slot = p.shared.best slot := by
  rcases Store.exec_best o p.shared with hsame | ⟨slot', bid, rfl, hbeats, -, hnew⟩
  · rw [hsame]
  · rw [hnew]
    apply Function.update_of_ne
    intro hs
    subst hs
    have hcall : bidsNext t = some (slot, bid) := by simp only [bidsNext, hr]
    obtain ⟨best, hbest, hle⟩ := hwhen t hi _ hcall ⟨t', ht', hagain⟩
    have hlt := Store.beats_iff.mp hbeats best hbest
    exact absurd hlt (not_lt.mpr hle)

theorem Inv.perform (hi : p.threads[i]? = some t) (hr : t.rest = .call o k)
    (hwhen : KeepsBest p (.step i)) (h : Inv p) :
    Inv (p.perform (R.api serde).system i t o k) := by
  have ht := List.mem_of_getElem? hi
  constructor
  · intro t' ht' slot first k' htr hrest b hb
    rcases Pool.mem_perform ht' with hold | rfl
    · have hkept := best_of_readsAgain hi hr hwhen hold (readsAgain_of_lastRead htr hrest)
      have hb₀ : p.shared.best slot = some b := by
        rw [← hkept]
        exact hb
      exact h.pending t' hold slot first k' htr hrest b hb₀
    · -- the thread that moves has just read what it read
      obtain ⟨pre, hpre⟩ := htr
      obtain ⟨-, rfl, hans⟩ := concat_event_eq hpre
      have hbest : p.shared.best slot = some first.val := Store.best_of_getBestBid hans
      exact Option.some.inj (hb.symm.trans hbest)
  · intro t' ht' slot first second tr htr htr'
    rcases Pool.mem_perform ht' with hold | rfl
    · exact h.done t' hold slot first second tr htr htr'
    · -- the second read: before it the thread was waiting for it
      obtain ⟨htr₀, rfl, hans⟩ := concat_event_eq htr'
      have hbest : p.shared.best slot = some second.val := Store.best_of_getBestBid hans
      rw [← htr₀] at htr
      exact h.pending t ht slot first k htr hr second.val hbest

theorem Inv.arrive (r : Rpc.Request) (h : Inv p) :
    Inv (p.act (R.api serde).system (.arrive r)) := by
  constructor
  · intro t ht slot first k htr hrest
    rcases List.mem_append.mp ht with ht | ht
    · exact h.pending t ht slot first k htr hrest
    · obtain ⟨pre, hpre⟩ := htr
      rw [List.mem_singleton.mp ht] at hpre
      simp at hpre
  · intro t ht slot first second tr htr htr'
    rcases List.mem_append.mp ht with ht | ht
    · exact h.done t ht slot first second tr htr htr'
    · rw [List.mem_singleton.mp ht] at htr'
      simp at htr'

theorem Inv.disturb (slot : UInt64) (h : Inv p) :
    Inv (p.act (R.api serde).system (.disturb slot)) := by
  refine ⟨?_, h.done⟩
  intro t ht slot' first k htr hrest b hb
  have hb' : (p.shared.expire slot).best slot' = some b := hb
  rw [Store.expire_best] at hb'
  split at hb'
  · cases hb'
  · exact h.pending t ht slot' first k htr hrest b hb'

/-! ## One bid -/

theorem Inv.oneBid (hsound : p.Sound (fun r tr o => ∃ c ∈ Rpc.serves R r, c.Calls R tr o)
    (Rpc.Returns R serde)) (h : Inv p) : OneBid R serde p := by
  intro t ht resp hsent hnonempty
  have hrest : t.rest = .ret (.retrieve (.ok resp)) := by
    unfold sent at hsent
    split at hsent
    · next hrest =>
      cases hsent
      exact hrest
    · cases hsent
  have hreturns := hsound t ht
  rw [hrest] at hreturns
  obtain ⟨msg, first, second, -, hretrieved⟩ := Rpc.returns_retrieve hreturns
  obtain ⟨parentHash, proposerPubkey, tr₁, -, hserved, htr⟩ := hretrieved.served
  obtain ⟨pre, hpre⟩ := hserved.best_last
  cases second with
  | error e =>
    -- without a second bid the payload is empty
    rw [hretrieved.resp_eq] at hnonempty
    exact absurd rfl hnonempty
  | ok second =>
    have hsame : second.val = first.val := h.done t ht msg.slot first second tr₁ ⟨pre, hpre⟩ htr
    refine ⟨msg.slot, first, ⟨pre, ⟨.getBestBid msg.slot, .ok second⟩, ?_⟩, ?_⟩
    · rw [htr, hpre, List.append_assoc]
      rfl
    · rw [hretrieved.resp_eq, ← hsame]
      exact ⟨by rw [hsame]; rfl, rfl, rfl⟩

/-- **A response is about one bid** in every run in which no bid gets in between the two reads of a
request for its slot. Any other requests may run, and entries may expire. -/
theorem retrieved_from_one_bid (R : Relay) (serde : Serde) (s : Store)
    (schedule : List (Action Rpc.Request UInt64))
    (hwhen : (Pool.idle s).Follows (R.api serde).system KeepsBest schedule) :
    OneBid R serde ((Pool.idle s).run (R.api serde).system schedule) := by
  have hprog := Rpc.program_always R serde
  have hinit : Inv (Pool.idle s) :=
    ⟨fun t ht => absurd ht List.not_mem_nil, fun t ht => absurd ht List.not_mem_nil⟩
  apply Inv.oneBid (Pool.Sound.run hprog (Pool.Sound.idle s) schedule)
  exact Pool.run_invariant (S := (R.api serde).system) (C := KeepsBest) hprog
    (Pool.Sound.idle s) hinit (fun p r _ h => h.arrive r)
    (fun p i t o k hi hr hC _ h => h.perform hi hr hC) (fun p slot _ h => h.disturb slot)
    schedule hwhen

/-- A bid between the two reads that is not accepted does no harm. -/
theorem retrieved_from_one_bid_race :
    OneBid Sample.relay Sample.serde ((Pool.idle (Sample.withBid 2 2)).run
      (Sample.relay.api Sample.serde).system
      (Sample.retrieveRace 1 1 [0, 0, 0, 0, 1, 1, 1, 1, 1, 0])) :=
  retrieved_from_one_bid Sample.relay Sample.serde (Sample.withBid 2 2)
    (Sample.retrieveRace 1 1 [0, 0, 0, 0, 1, 1, 1, 1, 1, 0]) (by decide +kernel)

/-- A higher bid is accepted between the two reads: the header is that of the first bid, the payload
that of the second. -/
theorem retrieved_from_two_bids :
    ¬ ∀ (R : Relay) (serde : Serde) (s : Store) (schedule : List (Action Rpc.Request UInt64)),
      OneBid R serde ((Pool.idle s).run (R.api serde).system schedule) := by
  intro h
  have hone := h Sample.relay Sample.serde (Sample.withBid 1 1)
    (Sample.retrieveRace 2 2 [0, 0, 0, 0, 1, 1, 1, 1, 1, 1, 0])
  have hsent : ∃ t ∈ ((Pool.idle (Sample.withBid 1 1)).run (Sample.relay.api Sample.serde).system
      (Sample.retrieveRace 2 2 [0, 0, 0, 0, 1, 1, 1, 1, 1, 1, 0])).threads,
      sent t = some ⟨List.replicate 32 1, List.replicate 32 2, [0]⟩ := by
    decide +kernel
  obtain ⟨t, ht, hresp⟩ := hsent
  obtain ⟨slot, bid, -, hheader, hpayload, -⟩ := hone t ht _ hresp (by decide)
  -- both fields are the block hash of one payload
  have heq : List.replicate 32 (1 : UInt8) = List.replicate 32 2 := hheader.trans hpayload.symm
  exact absurd heq (by decide)

end Retrieve

end MevRelay
