import MevRelay.Provenance
import Mathlib.Data.List.Induction

/-!
# One request after the other

What a single request does to the store when nothing happens in between, and from it what a whole
sequential run leaves there:

* the bid held for a slot is the last one accepted for it (`after_best`);
* the response stored for a proposer is that of the last bid accepted for a duty of that proposer,
  *of whatever slot* (`after_blinded`);
* the recorded deliveries are the block hashes of the successful unblindings (`after_delivered`).
-/

namespace MevRelay

open Atomic

/-! ## The last item with a key -/

section LastBy

variable {β κ : Type} [DecidableEq κ] (key : β → κ)

/-- The last item whose key is `k`. -/
def lastBy (k : κ) (items : List β) : Option β := (items.filter fun x => key x = k).getLast?

theorem lastBy_concat (k : κ) (items : List β) (x : β) :
    lastBy key k (items ++ [x]) = if key x = k then some x else lastBy key k items := by
  unfold lastBy
  by_cases h : key x = k
  · simp [h]
  · simp [h]

/-- The last item of a list in two parts: look at the second part first. -/
theorem lastBy_append (k : κ) (items others : List β) :
    lastBy key k (items ++ others) = (lastBy key k others).or (lastBy key k items) := by
  unfold lastBy
  rw [List.filter_append, List.getLast?_append]

/-- Items of other keys do not change the last one. -/
theorem lastBy_append_of_ne {k : κ} (items : List β) {others : List β}
    (h : ∀ x ∈ others, key x ≠ k) : lastBy key k (items ++ others) = lastBy key k items := by
  have hnone : (others.filter fun x => key x = k) = [] := by
    simpa using h
  unfold lastBy
  rw [List.filter_append, hnone, List.append_nil]

theorem lastBy_mem {k : κ} {items : List β} {x : β} (h : lastBy key k items = some x) :
    x ∈ items ∧ key x = k := by
  have hx := List.mem_of_getLast? h
  simpa using hx

end LastBy

theorem filterMap_concat {β γ : Type} (f : β → Option γ) (items : List β) (x : β) :
    (items ++ [x]).filterMap f = items.filterMap f ++ (f x).toList := by
  rw [List.filterMap_append]
  cases h : f x <;> simp [h]

/-- An item that occurs only at the end of a list comes after all the others. -/
theorem eq_of_prefix_concat {β : Type} {items before : List β} {x y : β}
    (h : before ++ [y] <+: items ++ [x]) (hy : y ∉ items) : before = items ∧ y = x := by
  rcases List.prefix_concat_iff.mp h with heq | hinside
  · simpa using heq
  · exact absurd (hinside.subset (by simp)) hy

/-! ## What one request does -/

/-- A request that was served alone. -/
abbrev Entry := Served Request Response Store

/-- The bid that a request got accepted, with the pubkey of the duty it was accepted for. -/
def accepted (e : Entry) : Option (BidSubmission × BlsPublicKey) :=
  match e.request, e.outcome with
  | .submitBid bid, .returned (.submitBid (.ok ())) =>
    (e.before.storage.findDutyBySlot bid.message.slot).map fun duty => (bid, duty.pubkey)
  | _, _ => none

/-- The block hash that a request got delivered. -/
def delivered (e : Entry) : Option B256 :=
  match e.request, e.outcome with
  | .unblindBlock _ _ blockHash _, .returned (.unblindBlock (.ok _)) => some blockHash
  | _, _ => none

namespace Relay

variable (R : Relay) (s : Store)

@[simp] theorem system_exec : R.system.exec = Store.exec := rfl

theorem serve_submitBid (bid : BidSubmission) :
    (∃ duty, SubmitBidUseCase.Admits R s bid duty ∧
      R.system.serve s (.submitBid bid) =
        (.returned (.submitBid (.ok ())), s.accept bid duty.pubkey)) ∨
    ((∀ duty, ¬ SubmitBidUseCase.Admits R s bid duty) ∧
      (R.system.serve s (.submitBid bid)).1 ≠ .returned (.submitBid (.ok ())) ∧
      (R.system.serve s (.submitBid bid)).2.storage = s.storage ∧
      (R.system.serve s (.submitBid bid)).2.auctioneer = s.auctioneer) := by
  have hserve : R.system.serve s (.submitBid bid) = _ :=
    Prog.run_map (SubmitBidUseCase.execute R bid) Response.submitBid s
  rw [hserve, system_exec]
  rcases SubmitBidUseCase.run_execute R s bid with ⟨duty, hadmits, h⟩ | ⟨hnot, hout, -, hst, hau⟩
  · exact .inl ⟨duty, hadmits, by rw [h]; rfl⟩
  · refine .inr ⟨hnot, ?_, hst, hau⟩
    intro h
    obtain ⟨result, hresult, heq⟩ := Outcome.map_eq_returned h
    cases heq
    exact hout hresult

theorem serve_getHeader (slot : UInt64) (parentHash : B256) (proposerPubkey : BlsPublicKey) :
    (∃ best, GetHeaderUseCase.Serves R s slot parentHash proposerPubkey best ∧
      R.system.serve s (.getHeader slot parentHash proposerPubkey) =
        (.returned (.getHeader (.ok (GetHeaderUseCase.signedHeader R best))), s)) ∨
    ((∀ best, ¬ GetHeaderUseCase.Serves R s slot parentHash proposerPubkey best) ∧
      (∀ v, (R.system.serve s (.getHeader slot parentHash proposerPubkey)).1 ≠
        .returned (.getHeader (.ok v))) ∧
      (R.system.serve s (.getHeader slot parentHash proposerPubkey)).2 = s) := by
  have hserve : R.system.serve s (.getHeader slot parentHash proposerPubkey) = _ :=
    Prog.run_map (GetHeaderUseCase.execute R slot parentHash proposerPubkey) Response.getHeader s
  rw [hserve, system_exec]
  rcases GetHeaderUseCase.run_execute R s slot parentHash proposerPubkey with
    ⟨best, hserves, h⟩ | ⟨hnot, hout, -, hs⟩
  · exact .inl ⟨best, hserves, by rw [h]; rfl⟩
  · refine .inr ⟨hnot, ?_, hs⟩
    intro v h
    obtain ⟨result, hresult, heq⟩ := Outcome.map_eq_returned h
    cases heq
    exact hout v hresult

theorem serve_unblindBlock (slot proposerIndex : UInt64) (blockHash : B256)
    (signature : BlsSignature) :
    (∃ duty resp, UnblindBlockUseCase.Releases R slot proposerIndex blockHash signature s.storage
        duty resp ∧
      R.system.serve s (.unblindBlock slot proposerIndex blockHash signature) =
        (.returned (.unblindBlock (.ok resp)),
          { s with storage := s.storage.setDeliveredBlocks blockHash })) ∨
    ((∀ duty resp, ¬ UnblindBlockUseCase.Releases R slot proposerIndex blockHash signature
        s.storage duty resp) ∧
      ∃ e, R.system.serve s (.unblindBlock slot proposerIndex blockHash signature) =
        (.returned (.unblindBlock (.error e)), s)) := by
  have hserve : R.system.serve s (.unblindBlock slot proposerIndex blockHash signature) = _ :=
    Prog.run_map (UnblindBlockUseCase.execute R slot proposerIndex blockHash signature)
      Response.unblindBlock s
  rw [hserve, system_exec]
  rcases UnblindBlockUseCase.run_execute R slot proposerIndex blockHash signature s with
    ⟨duty, resp, hreleases, h⟩ | ⟨hnot, e, h⟩
  · exact .inl ⟨duty, resp, hreleases, by rw [h]; rfl⟩
  · exact .inr ⟨hnot, e, by rw [h]; rfl⟩

theorem serve_background (task : RelayService.Task) :
    (R.system.serve s (.background task)).2 = RelayService.afterTask R s task := by
  have hserve : R.system.serve s (.background task) = _ :=
    Prog.run_map (RelayService.handle R task) Response.background s
  rw [hserve]
  exact RelayService.run_handle R task s

theorem serve_registerValidator (registration : SignedValidatorRegistration) :
    (R.system.serve s (.registerValidator registration)).2.storage =
      if registration.verifySignature R.prims R.builderDomain = true then
        s.storage.setValidatorRegistration registration.message.pubkey registration.message
      else s.storage := by
  have hserve : R.system.serve s (.registerValidator registration) = _ :=
    Prog.run_map (RegisterValidatorUseCase.execute R registration) Response.registerValidator s
  rw [hserve, system_exec]
  unfold RegisterValidatorUseCase.execute
  cases registration.verifySignature R.prims R.builderDomain with
  | false => rfl
  | true => rfl

/-- Only a submission writes the cache or the stored responses. -/
theorem serve_keeps_bids {r : Request} (hr : ∀ bid, r ≠ .submitBid bid) :
    (R.system.serve s r).2.auctioneer = s.auctioneer ∧
      (R.system.serve s r).2.storage.blindedBlocks = s.storage.blindedBlocks := by
  refine (R.program_always r).run_keeps (I := fun s' : Store => s'.auctioneer = s.auctioneer ∧
    s'.storage.blindedBlocks = s.storage.blindedBlocks) ?_ ⟨rfl, rfl⟩
  rintro tr o s' hcalls ⟨hau, hbl⟩
  constructor
  · rcases Store.exec_auctioneer o s' with h | ⟨slot, bid, rfl⟩
    · exact h.trans hau
    · exact absurd (Request.calls_compareAndBid hcalls).1 (hr bid)
  · rcases Store.exec_blindedBlocks o s' with h | ⟨proposer, resp, rfl⟩
    · exact h.trans hbl
    · obtain ⟨bid, h, -⟩ := Request.calls_setBlindedBlockResponse hcalls
      exact absurd h (hr bid)

/-- **What a request does to the bids**: it gets one accepted, or leaves cache and stored responses
as they are. -/
theorem serve_bids (r : Request) :
    (∃ bid duty, r = .submitBid bid ∧ SubmitBidUseCase.Admits R s bid duty ∧
      accepted ⟨s, r, (R.system.serve s r).1⟩ = some (bid, duty.pubkey) ∧
      (R.system.serve s r).2 = s.accept bid duty.pubkey) ∨
    (accepted ⟨s, r, (R.system.serve s r).1⟩ = none ∧
      (R.system.serve s r).2.auctioneer = s.auctioneer ∧
      (R.system.serve s r).2.storage.blindedBlocks = s.storage.blindedBlocks) := by
  cases r with
  | submitBid bid =>
    rcases serve_submitBid R s bid with ⟨duty, hadmits, h⟩ | ⟨-, hout, hst, hau⟩
    · refine .inl ⟨bid, duty, rfl, hadmits, ?_, by rw [h]⟩
      rw [h]
      simp only [accepted, hadmits.duty_found, Option.map_some]
    · refine .inr ⟨?_, hau, congrArg _ hst⟩
      unfold accepted
      split
      · next h => exact absurd h hout
      · rfl
  | _ => exact .inr ⟨rfl, serve_keeps_bids R s (by simp)⟩

/-- Only an unblinding records deliveries. -/
theorem serve_keeps_delivered {r : Request}
    (hr : ∀ slot proposerIndex blockHash signature,
      r ≠ .unblindBlock slot proposerIndex blockHash signature) :
    (R.system.serve s r).2.storage.deliveredBlocks = s.storage.deliveredBlocks := by
  refine (R.program_always r).run_keeps (I := fun s' : Store => s'.storage.deliveredBlocks =
    s.storage.deliveredBlocks) ?_ rfl
  intro tr o s' hcalls hs'
  rcases Store.exec_deliveredBlocks o s' with h | ⟨blockHash, rfl⟩
  · exact h.trans hs'
  · obtain ⟨_, _, _, h, -⟩ := Request.calls_setDeliveredBlocks hcalls
    exact absurd h (hr _ _ _ _)

/-- What a request does to the recorded deliveries. -/
theorem serve_delivered (r : Request) :
    (R.system.serve s r).2.storage.deliveredBlocks =
      s.storage.deliveredBlocks ++ (delivered ⟨s, r, (R.system.serve s r).1⟩).toList := by
  cases r with
  | unblindBlock slot proposerIndex blockHash signature =>
    rcases serve_unblindBlock R s slot proposerIndex blockHash signature with
      ⟨duty, resp, -, h⟩ | ⟨-, e, h⟩
    · rw [h]
      rfl
    · rw [h]
      exact (List.append_nil _).symm
  | _ =>
    refine (serve_keeps_delivered R s ?_).trans (List.append_nil _).symm
    intro _ _ _ _ h
    cases h

/-- The use cases leave alone what the background task writes. -/
theorem serve_keeps_background {r : Request} (hr : ∀ task, r ≠ .background task) :
    (R.system.serve s r).2.storage.headSlot = s.storage.headSlot ∧
      (R.system.serve s r).2.storage.payloadAttributes = s.storage.payloadAttributes ∧
      (R.system.serve s r).2.storage.proposerDuties = s.storage.proposerDuties := by
  refine (R.program_always r).run_keeps (I := fun s' : Store =>
    s'.storage.headSlot = s.storage.headSlot ∧
      s'.storage.payloadAttributes = s.storage.payloadAttributes ∧
      s'.storage.proposerDuties = s.storage.proposerDuties) ?_ ⟨rfl, rfl, rfl⟩
  intro tr o s' hcalls hs'
  rcases Store.exec_background o s' with ⟨hhead, hattrs, hduties⟩ | hwrites
  · exact ⟨hhead.trans hs'.1, hattrs.trans hs'.2.1, hduties.trans hs'.2.2⟩
  · obtain ⟨task, h⟩ := Request.calls_background hcalls hwrites
    exact absurd h (hr task)

/-- Only `RegisterValidator` writes registrations. -/
theorem serve_keeps_registrations {r : Request}
    (hr : ∀ registration, r ≠ .registerValidator registration) :
    (R.system.serve s r).2.storage.validatorRegistrations =
      s.storage.validatorRegistrations := by
  refine (R.program_always r).run_keeps (I := fun s' : Store =>
    s'.storage.validatorRegistrations = s.storage.validatorRegistrations) ?_ rfl
  intro tr o s' hcalls hs'
  rcases Store.exec_validatorRegistrations o s' with h | ⟨key, reg, rfl⟩
  · exact h.trans hs'
  · obtain ⟨registration, h, -⟩ := Request.calls_setValidatorRegistration hcalls
    exact absurd h (hr registration)

/-! ## What a run leaves in the store -/

variable {R} {whitelist : List BlsPublicKey}

/-- The store after a sequential run from the start. -/
def after (R : Relay) (whitelist : List BlsPublicKey) (rs : List Request) : Store :=
  R.system.final (Store.new whitelist) rs

/-- What happened to the requests of a sequential run from the start. -/
def historyOf (R : Relay) (whitelist : List BlsPublicKey) (rs : List Request) : List Entry :=
  R.system.history (Store.new whitelist) rs

/-- The bids accepted while `rs` are served from `s`, in order, each with the pubkey of its duty. -/
def acceptedFrom (R : Relay) (s : Store) (rs : List Request) :
    List (BidSubmission × BlsPublicKey) :=
  (R.system.history s rs).filterMap accepted

/-- The bids accepted in a run from the start. -/
def acceptedBids (R : Relay) (whitelist : List BlsPublicKey) (rs : List Request) :
    List (BidSubmission × BlsPublicKey) :=
  R.acceptedFrom (Store.new whitelist) rs

theorem after_concat (rs : List Request) (r : Request) :
    R.after whitelist (rs ++ [r]) = (R.system.serve (R.after whitelist rs) r).2 :=
  System.final_concat rs r

theorem after_append (rs qs : List Request) :
    R.after whitelist (rs ++ qs) = R.system.final (R.after whitelist rs) qs :=
  System.final_append rs qs

theorem historyOf_concat (rs : List Request) (r : Request) :
    R.historyOf whitelist (rs ++ [r]) = R.historyOf whitelist rs ++
      [⟨R.after whitelist rs, r, (R.system.serve (R.after whitelist rs) r).1⟩] :=
  System.history_concat rs r

theorem acceptedBids_concat (rs : List Request) (r : Request) :
    R.acceptedBids whitelist (rs ++ [r]) = R.acceptedBids whitelist rs ++
      (accepted ⟨R.after whitelist rs, r, (R.system.serve (R.after whitelist rs) r).1⟩).toList := by
  unfold acceptedBids acceptedFrom
  rw [System.history_concat, filterMap_concat]
  rfl

theorem acceptedBids_append (rs qs : List Request) :
    R.acceptedBids whitelist (rs ++ qs) =
      R.acceptedBids whitelist rs ++ R.acceptedFrom (R.after whitelist rs) qs := by
  unfold acceptedBids acceptedFrom
  rw [System.history_append, List.filterMap_append]
  rfl

/-- The slot a bid was accepted for. -/
def acceptedSlot (a : BidSubmission × BlsPublicKey) : UInt64 := a.1.message.slot

/-- **The cache is a function of the accepted bids.** -/
theorem after_best (rs : List Request) (slot : UInt64) :
    (R.after whitelist rs).best slot =
      (lastBy acceptedSlot slot (R.acceptedBids whitelist rs)).map Prod.fst := by
  induction rs using List.reverseRecOn with
  | nil => rfl
  | append_singleton rs r ih =>
    rw [after_concat, acceptedBids_concat]
    rcases serve_bids R (R.after whitelist rs) r with
      ⟨bid, duty, -, hadmits, hacc, hs⟩ | ⟨hacc, hau, -⟩
    · rw [hs, hacc, Store.accept_best _ hadmits.beats, Option.toList_some, lastBy_concat]
      by_cases h : slot = bid.message.slot
      · subst h
        simp [acceptedSlot]
      · have hslot : acceptedSlot (bid, duty.pubkey) ≠ slot := Ne.symm h
        rw [Function.update_of_ne h, if_neg hslot, ih]
    · rw [hacc, Option.toList_none, List.append_nil, Store.best_congr hau, ih]

/-- **The stored responses are a function of the accepted bids**, by the proposer alone. -/
theorem after_blinded (rs : List Request) (proposer : BlsPublicKey) :
    (R.after whitelist rs).storage.readBlindedBlockResponse proposer =
      (lastBy Prod.snd proposer (R.acceptedBids whitelist rs)).map
        fun a => a.1.toBlindedBlockResponse := by
  induction rs using List.reverseRecOn with
  | nil => rfl
  | append_singleton rs r ih =>
    rw [after_concat, acceptedBids_concat]
    rcases serve_bids R (R.after whitelist rs) r with ⟨bid, duty, -, -, hacc, hs⟩ | ⟨hacc, -, hbl⟩
    · rw [hs, hacc, Option.toList_some, lastBy_concat, Store.accept_storage,
        MemoryStorage.readBlindedBlockResponse_set]
      by_cases h : proposer = duty.pubkey
      · rw [if_pos h, if_pos h.symm]
        rfl
      · rw [if_neg h, if_neg (Ne.symm h), ih]
    · rw [hacc, Option.toList_none, List.append_nil, ← ih]
      simp only [MemoryStorage.readBlindedBlockResponse, hbl]

/-- **The recorded deliveries are those of the run**, in order and with multiplicity. -/
theorem after_delivered (rs : List Request) :
    (R.after whitelist rs).storage.deliveredBlocks =
      (R.historyOf whitelist rs).filterMap delivered := by
  induction rs using List.reverseRecOn with
  | nil => rfl
  | append_singleton rs r ih =>
    rw [after_concat, historyOf_concat, serve_delivered, filterMap_concat, ih]

/-- In a sequential run, too, the validator of every listed duty is registered. -/
theorem after_duty_registered (rs : List Request) {duty : ProposerDuty}
    (h : duty ∈ (R.after whitelist rs).storage.proposerDuties) :
    ∃ reg, (R.after whitelist rs).storage.readValidatorRegistration duty.pubkey = some reg := by
  obtain ⟨schedule, hschedule⟩ :=
    System.exists_schedule (S := R.system) (Store.new whitelist) rs
  unfold after at h ⊢
  rw [← hschedule] at h ⊢
  exact Frontend.duty_registered (F := R.frontend) h

end Relay

end MevRelay
