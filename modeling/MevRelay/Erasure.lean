import MevRelay.Linearization

/-!
# Requests that fail leave no trace

A bid that is refused, a registration with a bad signature, an unblinding that is turned down, a
header request: take their calls out of the log of any interleaved run, and what is left is a run
that ends in the same store and in which every other request was answered the same. Only the
addresses of the bids differ, since a refused bid was allocated too.

The background task is not among them: a duty sync that panics has moved the head before.
-/

namespace MevRelay

open Atomic

/-! ## Stores that hold the same -/

/-- The stores hold the same bids and the same data, whatever addresses the bids are at. -/
structure Store.Same (s t : Store) : Prop where
  storage_eq : s.storage = t.storage
  best_eq : s.best = t.best

/-- The answers are the same, but for the address of a bid. -/
def StoreOp.Alike : (o : StoreOp) → o.Ans → o.Ans → Prop
  | .getBestBid _, a, b => a.map Arc.val = b.map Arc.val
  | _, a, b => a = b

namespace Store

variable {s t : Store}

theorem getBestBid_map_val (slot : UInt64) (s : Store) :
    (s.auctioneer.getBestBid slot).map Arc.val =
      match s.best slot with
      | some bid => .ok bid
      | none => .error (.bidNotFound slot) := by
  unfold MemoryAuctioneer.getBestBid best
  cases s.auctioneer.cache.lookup slot <;> rfl

/-- What a bid is told depends on the values alone. -/
theorem compareAndBid_answer (slot : UInt64) (bid : BidSubmission) (s : Store) :
    (s.compareAndBid slot bid).1 =
      match s.best slot with
      | some held =>
        if bid.message.value ≤ held.message.value then
          .error (.bidValueNotHighEnough bid.message.value.toString held.message.value.toString)
        else .ok ()
      | none => .ok () := by
  rcases s.bidWith_cases slot bid with ⟨hbeats, h⟩ | ⟨e, he, hle, h⟩
  · rw [show (s.compareAndBid slot bid).1 = .ok () from congrArg Prod.fst h]
    rw [beats_iff] at hbeats
    cases hbest : s.best slot with
    | none => rfl
    | some held => exact (if_neg (not_le.mpr (hbeats held hbest))).symm
  · have hbest : s.best slot = some e.val := by simp only [best, he, Option.map_some]
    rw [hbest]
    exact (congrArg Prod.fst h).trans (if_pos hle).symm

theorem compareAndBid_best (slot : UInt64) (bid : BidSubmission) (s : Store) :
    (s.compareAndBid slot bid).2.best =
      if (s.compareAndBid slot bid).1 = .ok () then Function.update s.best slot (some bid)
      else s.best := by
  rcases compareAndBid_cases s slot bid with ⟨-, hok, hbest⟩ | ⟨-, ⟨e, he⟩, hsame⟩
  · rw [hbest, hok, if_pos rfl]
  · rw [best_congr hsame, he, if_neg (fun h => by cases h)]

theorem Same.exec (h : Same s t) (o : StoreOp) :
    o.Alike (exec o s).1 (exec o t).1 ∧ Same (exec o s).2 (exec o t).2 := by
  obtain ⟨hstorage, hbest⟩ := h
  cases o with
  | compareAndBid slot bid =>
    have hans : (s.compareAndBid slot bid).1 = (t.compareAndBid slot bid).1 := by
      rw [compareAndBid_answer, compareAndBid_answer, hbest]
    refine ⟨hans, hstorage, ?_⟩
    simp only [Store.exec]
    rw [compareAndBid_best, compareAndBid_best, hans, hbest]
  | getBestBid slot =>
    refine ⟨?_, hstorage, hbest⟩
    simp only [StoreOp.Alike, Store.exec]
    rw [getBestBid_map_val, getBestBid_map_val, hbest]
  | _ => exact ⟨by simp only [StoreOp.Alike, Store.exec, hstorage], by
      simp only [Store.exec, hstorage], hbest⟩

theorem Same.expire (h : Same s t) (slot : UInt64) : Same (s.expire slot) (t.expire slot) := by
  refine ⟨h.storage_eq, ?_⟩
  funext slot'
  rw [expire_best, expire_best, h.best_eq]

end Store

/-! ## Calls that change nothing -/

/-- A read, or a bid that was refused. -/
def Harmless : StoreEvent → Prop
  | ⟨.compareAndBid _ _, .error _⟩ => True
  | ⟨o, _⟩ => o.IsRead

theorem Store.Same.of_harmless {s t : Store} {o : StoreOp}
    (hharmless : Harmless ⟨o, (Store.exec o s).1⟩) (h : Store.Same s t) :
    Store.Same (Store.exec o s).2 t := by
  cases o with
  | compareAndBid slot bid =>
    rcases Store.compareAndBid_cases s slot bid with ⟨-, hok, -⟩ | ⟨-, -, hsame⟩
    · simp only [Harmless, Store.exec, hok] at hharmless
      exact absurd hharmless id
    · exact ⟨h.storage_eq, (Store.best_congr hsame).trans h.best_eq⟩
  | readHeadSlot => exact h
  | readPayloadAttributes => exact h
  | readValidatorRegistration key => exact h
  | emptyValidatorRegs => exact h
  | isWhitelistedBuilder key => exact h
  | findDutyBySlot slot => exact h
  | readBlindedBlockResponse proposer => exact h
  | getBestBid slot => exact h
  | _ => exact absurd hharmless id

theorem harmless_of_isRead {o : StoreOp} (h : o.IsRead) (ans : o.Ans) : Harmless ⟨o, ans⟩ := by
  cases o <;> first | exact h | exact absurd h id

/-! ## Requests that fail -/

def Response.isError : Response → Bool
  | .registerValidator (.error _) => true
  | .submitBid (.error _) => true
  | .getHeader (.error _) => true
  | .unblindBlock (.error _) => true
  | _ => false

/-- The request is a header request, or it has failed: with an error or a panic. -/
def Request.invisible : Request → StoreProg Response → Bool
  | .background _, _ => false
  | .getHeader _ _ _, _ => true
  | _, .ret resp => resp.isError
  | _, .abort => true
  | _, .call _ _ => false

namespace SubmitBidUseCase

/-- A submission that fails has only read, or was refused. -/
def FailsHarmlessly (tr : List StoreEvent) (rest : StoreProg (Except UseCaseError Unit)) : Prop :=
  match rest with
  | .ret (.ok _) => True
  | .call _ _ => True
  | _ => ∀ e ∈ tr, Harmless e

theorem execute_failsHarmlessly (R : Relay) (bid : BidSubmission) :
    (execute R bid).Everywhere FailsHarmlessly [] := by
  have hreads : ∀ {tr}, Checking R bid tr → ∀ e ∈ tr, Harmless e :=
    fun checks e he => harmless_of_isRead (checks.reads e he) e.ans
  have hconcat : ∀ {tr e'}, Checking R bid tr → Harmless e' → ∀ e ∈ tr ++ [e'], Harmless e := by
    intro tr e' checks hharmless e he
    rcases List.mem_append.mp he with he | he
    · exact hreads checks e he
    · rw [List.mem_singleton.mp he]
      exact hharmless
  refine (execute_stages R bid).mono ?_
  intro tr rest hstage
  cases hstage with
  | rejected checks => exact hreads checks
  | panicked checks overflow => exact hconcat checks (harmless_of_isRead (o := .readHeadSlot) trivial _)
  | outbid checks => exact hconcat checks trivial
  | _ => trivial

end SubmitBidUseCase

theorem UnblindBlockUseCase.calls_cases {R : Relay} {slot proposerIndex : UInt64} {blockHash : B256}
    {signature : BlsSignature} {tr : List StoreEvent} {o : StoreOp}
    (h : Calls R slot proposerIndex blockHash signature tr o) :
    o.IsRead ∨ ∃ blockHash, o = .setDeliveredBlocks blockHash := by
  cases o with
  | setDeliveredBlocks blockHash => exact .inr ⟨blockHash, rfl⟩
  | _ => exact .inl h

namespace Relay

/-- **A request that fails has changed nothing**, whatever answers it got on its way. -/
theorem program_failsHarmlessly (R : Relay) (r : Request) :
    (R.program r).Everywhere (fun tr rest => r.invisible rest = true → ∀ e ∈ tr, Harmless e) [] := by
  cases r with
  | registerValidator registration =>
    apply Prog.Everywhere.map
    unfold RegisterValidatorUseCase.execute
    cases registration.verifySignature R.prims R.builderDomain with
    | false =>
      intro _ e he
      cases he
    | true =>
      refine ⟨?_, ?_⟩
      · intro h
        cases h
      · intro _ h
        cases h
  | submitBid bid =>
    apply Prog.Everywhere.map
    refine (SubmitBidUseCase.execute_failsHarmlessly R bid).mono ?_
    intro tr rest h hinvisible
    cases rest with
    | ret result =>
      cases result with
      | error e => exact h
      | ok done => cases hinvisible
    | abort => exact h
    | call o k => cases hinvisible
  | getHeader slot parentHash proposerPubkey =>
    have hreads : (R.program (.getHeader slot parentHash proposerPubkey)).Everywhere
        (fun tr _ => ∀ e ∈ tr, Harmless e) [] := by
      refine (R.program_always _).everywhere ?_ (fun e he => by cases he)
      intro tr o ans ho htr e he
      rcases List.mem_append.mp he with he | he
      · exact htr e he
      · rw [List.mem_singleton.mp he]
        exact harmless_of_isRead ho ans
    exact hreads.mono fun tr rest h _ => h
  | unblindBlock slot proposerIndex blockHash signature =>
    -- an unblinding writes nothing but its delivery, and that only when it succeeds
    have hcalls : (R.program (.unblindBlock slot proposerIndex blockHash signature)).Everywhere
        (fun tr _ => ∀ e ∈ tr, Harmless e ∨ (deliveryOf e).isSome) [] := by
      refine (R.program_always _).everywhere ?_ (fun e he => by cases he)
      intro tr o ans ho htr e he
      rcases List.mem_append.mp he with he | he
      · exact htr e he
      · rw [List.mem_singleton.mp he]
        rcases UnblindBlockUseCase.calls_cases ho with hread | ⟨h, rfl⟩
        · exact .inl (harmless_of_isRead hread ans)
        · exact .inr rfl
    refine ((R.program_records _).and hcalls).mono ?_
    rintro tr rest ⟨hrecords, hcalls⟩ hinvisible e he
    have hnone : deliveriesIn tr = [] := by
      rw [hrecords]
      cases rest with
      | ret resp =>
        cases resp with
        | unblindBlock result =>
          cases result with
          | error e => rfl
          | ok resp => cases hinvisible
        | _ => rfl
      | abort => rfl
      | call o k => rfl
    rcases hcalls e he with hharmless | hdelivery
    · exact hharmless
    · rw [List.filterMap_eq_nil_iff.mp hnone e he] at hdelivery
      cases hdelivery
  | background task =>
    have htrue := (R.program_always (.background task)).everywhere (I := fun _ => True)
      (fun _ _ _ _ _ => trivial) trivial
    exact htrue.mono fun tr rest _ h => by cases h

/-- The entry is not a call of an invisible request. -/
def visible (p : Pool StoreOp StoreOp.Ans Request Response Store) : StoreEntry → Bool
  | .call i _ => !(p.threads[i]?).any fun t => t.request.invisible t.rest
  | .disturb _ => true

/-- **Failures leave no trace.** Drop from the log of any interleaved run all calls of header
requests and of requests that have failed. What is left leads from the initial store to the same data
and the same bids, and every request in it was answered as if the others had never come. -/
theorem failures_leave_no_trace (R : Relay) (whitelist : List BlsPublicKey)
    (schedule : List (Action Request UInt64)) :
    (R.frontend.after whitelist schedule).shared.Same
      (replay R.frontend.system ((R.frontend.log whitelist schedule).filter
        (visible (R.frontend.after whitelist schedule))) (Store.new whitelist)) ∧
    Valid R.frontend.system StoreOp.Alike (Store.new whitelist)
      ((R.frontend.log whitelist schedule).filter
        (visible (R.frontend.after whitelist schedule))) := by
  have hreplay : (R.frontend.after whitelist schedule).shared =
      replay R.frontend.system (R.frontend.log whitelist schedule) (Store.new whitelist) :=
    Pool.shared_eq_replay schedule
  have hvalid : Valid R.frontend.system (fun _ => Eq) (Store.new whitelist)
      (R.frontend.log whitelist schedule) :=
    Pool.valid_log (p := Pool.idle (Store.new whitelist)) schedule
  rw [hreplay]
  refine Valid.erase Store.Same (fun o s t h => h.exec o) (fun slot s t h => h.expire slot)
    (fun _ => rfl) ?_ hvalid ⟨rfl, rfl⟩
  intro i o s t hdropped hmem hsame
  refine Store.Same.of_harmless ?_ hsame
  -- the call is in the trace of an invisible request
  obtain ⟨u, hu, hinvisible⟩ : ∃ u, (R.frontend.after whitelist schedule).threads[i]? = some u ∧
      u.request.invisible u.rest = true := by
    simpa [visible, Option.any_eq_true] using hdropped
  have hharmless := (Pool.run_everywhere (S := R.frontend.system) R.program_failsHarmlessly
    (p := Pool.idle (Store.new whitelist)) (fun _ ht => absurd ht List.not_mem_nil) schedule u
    (List.mem_of_getElem? hu)).here
  apply hharmless hinvisible
  rw [Pool.trace_eq_callsOf hu]
  exact mem_callsOf.mpr hmem

end Relay

end MevRelay
