import MevRelay.System

/-!
# Where the contents of the store come from

For every interleaving of requests, with cache entries expiring at any time: whatever the store
holds was written by some request that had arrived, and what that request had read before entitled
it to write. Each part of the store gets one `*_written` lemma, an instance of the provenance rule;
`lasting` says which answers stay true once they were given. They hold for every frontend.
-/

namespace MevRelay

open Atomic

/-! ## Answers that stay true -/

/-- The whitelist never changes and a registration is never removed. -/
def Lasting : StoreEvent → Store → Prop
  | ⟨.isWhitelistedBuilder key, true⟩, s => key ∈ s.storage.whitelist
  | ⟨.readValidatorRegistration key, some _⟩, s =>
    ∃ reg, s.storage.readValidatorRegistration key = some reg
  | _, _ => True

theorem Store.exec_registered {key : BlsPublicKey} (o : StoreOp) {s : Store}
    (h : ∃ reg, s.storage.readValidatorRegistration key = some reg) :
    ∃ reg, (Store.exec o s).2.storage.readValidatorRegistration key = some reg := by
  rcases Store.exec_validatorRegistrations o s with hsame | ⟨key', reg', rfl⟩
  · simpa only [MemoryStorage.readValidatorRegistration, hsame] using h
  · simp only [Store.exec, MemoryStorage.readValidatorRegistration_set]
    split
    · exact ⟨reg', rfl⟩
    · exact h

theorem lasting_new (o : StoreOp) (s : Store) :
    Lasting ⟨o, (Store.exec o s).1⟩ (Store.exec o s).2 := by
  cases o with
  | isWhitelistedBuilder key =>
    cases h : s.storage.isWhitelistedBuilder key with
    | false => simp only [Store.exec, h, Lasting]
    | true =>
      simp only [Store.exec, h, Lasting]
      exact List.contains_iff_mem.mp h
  | readValidatorRegistration key =>
    cases h : s.storage.readValidatorRegistration key with
    | none => simp only [Store.exec, h, Lasting]
    | some reg =>
      simp only [Store.exec, h, Lasting]
      exact ⟨reg, rfl⟩
  | _ => trivial

theorem lasting_exec (e : StoreEvent) (o : StoreOp) (s : Store) (h : Lasting e s) :
    Lasting e (Store.exec o s).2 := by
  unfold Lasting at h ⊢
  split at h
  · rw [Store.exec_whitelist]
    exact h
  · exact Store.exec_registered o h
  · exact h

theorem lasting_expire (e : StoreEvent) (slot : UInt64) (s : Store) (h : Lasting e s) :
    Lasting e (s.expire slot) := by
  unfold Lasting at h ⊢
  split at h <;> exact h

namespace Relay.Frontend

variable {R : Relay} {Req α : Type} (F : R.Frontend Req α) (whitelist : List BlsPublicKey)

/-- A run of the frontend from `MemoryStorage::new(whitelist)` and an empty cache. -/
def after (schedule : List (Action Req UInt64)) : Pool StoreOp StoreOp.Ans Req α Store :=
  (Pool.idle (Store.new whitelist)).run F.system schedule

variable {F whitelist} {schedule : List (Action Req UInt64)}
  {t : Thread StoreOp StoreOp.Ans Req α}

theorem lasting {e : StoreEvent} (ht : t ∈ (F.after whitelist schedule).threads)
    (he : e ∈ t.trace) : Lasting e (F.after whitelist schedule).shared :=
  Pool.run_lasting (S := F.system) lasting_new lasting_exec lasting_expire
    (fun _ ht => absurd ht List.not_mem_nil) schedule t ht e he

theorem whitelist_after : (F.after whitelist schedule).shared.storage.whitelist = whitelist := by
  refine Pool.run_invariant (S := F.system) (C := fun _ _ => True)
    (I := fun p => p.shared.storage.whitelist = whitelist) F.always (Pool.Sound.idle _) rfl
    (fun _ _ _ h => h) ?_ (fun _ _ _ h => h) schedule
    (Pool.follows_of_forall fun _ _ _ => trivial)
  intro p i t o k _ _ _ _ h
  exact (Store.exec_whitelist o p.shared).trans h

/-- The answer of a whitelist check, as a fact about the initial whitelist. -/
theorem mem_whitelist {key : BlsPublicKey} (ht : t ∈ (F.after whitelist schedule).threads)
    (he : ⟨.isWhitelistedBuilder key, true⟩ ∈ t.trace) : key ∈ whitelist := by
  have h := lasting ht he
  simp only [Lasting, whitelist_after] at h
  exact h

theorem registered {key : BlsPublicKey} {reg : ValidatorRegistration}
    (ht : t ∈ (F.after whitelist schedule).threads)
    (he : ⟨.readValidatorRegistration key, some reg⟩ ∈ t.trace) :
    ∃ reg, (F.after whitelist schedule).shared.storage.readValidatorRegistration key = some reg :=
  lasting ht he

/-- What a request that has returned says about its trace. -/
theorem returns_of_ret (ht : t ∈ (F.after whitelist schedule).threads) {out : α}
    (hrest : t.rest = .ret out) : F.Returns t.request t.trace out := by
  have hsound := (Pool.Sound.idle (Store.new whitelist)).run (S := F.system) F.always schedule t ht
  rw [hrest] at hsound
  exact hsound

end Relay.Frontend

/-! ## Checks survive a growing trace -/

theorem SubmitBidUseCase.Checked.mono {R : Relay} {bid : BidSubmission} {tr tr' : List StoreEvent}
    {duty : ProposerDuty} (htr : tr <+: tr') (h : Checked R bid tr duty) :
    Checked R bid tr' duty where
  value_ne := h.value_ne
  whitelisted := htr.subset h.whitelisted
  duty_read := htr.subset h.duty_read
  signed := h.signed

theorem UnblindBlockUseCase.Checked.mono {R : Relay} {slot proposerIndex : UInt64}
    {blockHash : B256} {signature : BlsSignature} {tr tr' : List StoreEvent} {duty : ProposerDuty}
    {resp : BlindedBlockResponse} (htr : tr <+: tr')
    (h : Checked R slot proposerIndex blockHash signature tr duty resp) :
    Checked R slot proposerIndex blockHash signature tr' duty resp where
  duty_read := htr.subset h.duty_read
  index_eq := h.index_eq
  registered := h.registered.imp fun _ hreg => htr.subset hreg
  signed := h.signed
  resp_read := htr.subset h.resp_read
  hash_eq := h.hash_eq

/-! ## Who wrote what -/

/-- A request that submitted `bid`, passed all checks with `duty` and won the auction. -/
structure Won (R : Relay) (bid : BidSubmission) (duty : ProposerDuty) (r : Option Request)
    (tr : List StoreEvent) : Prop where
  submits : r = some (.submitBid bid)
  checked : SubmitBidUseCase.Checked R bid tr duty
  won : ⟨.compareAndBid bid.message.slot bid, .ok ()⟩ ∈ tr

theorem Won.mono {R : Relay} {bid : BidSubmission} {duty : ProposerDuty} {r : Option Request}
    {tr tr' : List StoreEvent} (htr : tr <+: tr') (h : Won R bid duty r tr) :
    Won R bid duty r tr' :=
  ⟨h.submits, h.checked.mono htr, htr.subset h.won⟩

namespace Relay.Frontend

variable {R : Relay} {Req α : Type} {F : R.Frontend Req α} {whitelist : List BlsPublicKey}
  {schedule : List (Action Req UInt64)}

/-- A bid in the cache was put there by a submission that won, under its own slot. -/
theorem best_written {slot : UInt64} {bid : BidSubmission}
    (h : (F.after whitelist schedule).shared.best slot = some bid) :
    slot = bid.message.slot ∧ ∃ t ∈ (F.after whitelist schedule).threads,
      ∃ duty, Won R bid duty (F.serves t.request) t.trace := by
  have hwritten := Pool.run_written (S := F.system) (Φ := fun r tr o => ∃ c ∈ F.serves r, c.Calls R tr o)
    (X := fun s (x : UInt64 × BidSubmission) => s.best x.1 = some x.2)
    (Q := fun x r tr => x.1 = x.2.message.slot ∧ ∃ duty, Won R x.2 duty (F.serves r) tr)
    F.always ?_ ?_ ?_ ?_ schedule (slot, bid) h
  · obtain ⟨t, ht, hslot, hwon⟩ := hwritten
    exact ⟨hslot, t, ht, hwon⟩
  · rintro x r tr tr' htr ⟨hslot, duty, hwon⟩
    exact ⟨hslot, duty, hwon.mono htr⟩
  · intro o s x hx
    rcases Store.exec_best o s with hsame | ⟨slot', bid', rfl, -, hok, hnew⟩
    · exact .inl (hsame ▸ hx)
    · simp only [system] at hx
      rw [hnew] at hx
      by_cases hslot : x.1 = slot'
      · rw [hslot, Function.update_self] at hx
        cases hx
        right
        rintro r tr ⟨c, hc, hcalls⟩
        obtain ⟨rfl, rfl, duty, hchecked⟩ := Request.calls_compareAndBid hcalls
        refine ⟨hslot, duty, hc, hchecked.mono (List.prefix_append _ _), ?_⟩
        simp [system, Store.exec, hok]
      · rw [Function.update_of_ne hslot] at hx
        exact .inl hx
  · intro slot' s x hx
    simp only [system] at hx
    rw [Store.expire_best] at hx
    split at hx
    · cases hx
    · exact hx
  · intro x hx
    cases hx

/-- A stored response is that of a submission that won and whose duty lookup named the key it is
stored under. -/
theorem blinded_written {proposer : BlsPublicKey} {resp : BlindedBlockResponse}
    (h : (F.after whitelist schedule).shared.storage.readBlindedBlockResponse proposer =
      some resp) :
    ∃ t ∈ (F.after whitelist schedule).threads, ∃ bid duty,
      resp = bid.toBlindedBlockResponse ∧ duty.pubkey = proposer ∧
        Won R bid duty (F.serves t.request) t.trace := by
  refine Pool.run_written (S := F.system) (Φ := fun r tr o => ∃ c ∈ F.serves r, c.Calls R tr o)
    (X := fun s (x : BlsPublicKey × BlindedBlockResponse) =>
      s.storage.readBlindedBlockResponse x.1 = some x.2)
    (Q := fun x r tr => ∃ bid duty, x.2 = bid.toBlindedBlockResponse ∧ duty.pubkey = x.1 ∧
      Won R bid duty (F.serves r) tr)
    F.always ?_ ?_ (fun _ _ _ => id) (fun _ hx => by cases hx) schedule (proposer, resp) h
  · rintro x r tr tr' htr ⟨bid, duty, hresp, hkey, hwon⟩
    exact ⟨bid, duty, hresp, hkey, hwon.mono htr⟩
  · intro o s x hx
    rcases Store.exec_blindedBlocks o s with hsame | ⟨proposer', resp', rfl⟩
    · simp only [system, MemoryStorage.readBlindedBlockResponse, hsame] at hx
      exact .inl hx
    · simp only [system, Store.exec, MemoryStorage.readBlindedBlockResponse_set] at hx
      split at hx
      next hkey =>
        cases hx
        right
        rintro r tr ⟨c, hc, hcalls⟩
        obtain ⟨bid, rfl, hresp, ⟨duty, hchecked, hduty⟩, hwon⟩ :=
          Request.calls_setBlindedBlockResponse hcalls
        exact ⟨bid, duty, hresp, hduty.trans hkey.symm,
          Won.mono (List.prefix_append _ _) ⟨hc, hchecked, hwon⟩⟩
      next => exact .inl hx

/-- A bid that was ever read as the best one of a slot is a bid for that slot, and one that won. -/
theorem best_read {t : Thread StoreOp StoreOp.Ans Req α} {slot : UInt64} {bid : Arc BidSubmission}
    (ht : t ∈ (F.after whitelist schedule).threads)
    (he : ⟨.getBestBid slot, .ok bid⟩ ∈ t.trace) :
    slot = bid.val.message.slot ∧ ∃ t ∈ (F.after whitelist schedule).threads, ∃ duty,
      Won R bid.val duty (F.serves t.request) t.trace := by
  have hread := Pool.run_read (S := F.system)
    (X := fun s (x : UInt64 × BidSubmission) => s.best x.1 = some x.2)
    (Y := fun e x => ∃ bid, e = ⟨.getBestBid x.1, .ok bid⟩ ∧ bid.val = x.2)
    (Q := fun x r tr => x.1 = x.2.message.slot ∧ ∃ duty, Won R x.2 duty (F.serves r) tr)
    ?_ ?_ ?_ schedule t ht _ he (slot, bid.val) ⟨bid, rfl, rfl⟩
  · obtain ⟨t', ht', hslot, hwon⟩ := hread
    exact ⟨hslot, t', ht', hwon⟩
  · intro as x h
    obtain ⟨hslot, t', ht', hwon⟩ := best_written (F := F) h
    exact ⟨t', ht', hslot, hwon⟩
  · rintro x r tr tr' htr ⟨hslot, duty, hwon⟩
    exact ⟨hslot, duty, hwon.mono htr⟩
  · rintro o s x ⟨bid, he, hbid⟩
    obtain ⟨rfl, hans⟩ := Store.exec_of_event_eq he
    rw [← hbid]
    exact Store.best_of_getBestBid hans

/-- A response that was ever read is that of a bid that won. -/
theorem blinded_read {t : Thread StoreOp StoreOp.Ans Req α} {proposer : BlsPublicKey}
    {resp : BlindedBlockResponse} (ht : t ∈ (F.after whitelist schedule).threads)
    (he : ⟨.readBlindedBlockResponse proposer, some resp⟩ ∈ t.trace) :
    ∃ t ∈ (F.after whitelist schedule).threads, ∃ bid duty,
      resp = bid.toBlindedBlockResponse ∧ Won R bid duty (F.serves t.request) t.trace := by
  refine Pool.run_read (S := F.system)
    (X := fun s (x : BlindedBlockResponse) =>
      ∃ proposer, s.storage.readBlindedBlockResponse proposer = some x)
    (Y := fun e x => ∃ proposer, e = ⟨.readBlindedBlockResponse proposer, some x⟩)
    (Q := fun x r tr => ∃ bid duty, x = bid.toBlindedBlockResponse ∧
      Won R bid duty (F.serves r) tr) ?_ ?_ ?_ schedule t ht _ he resp ⟨proposer, rfl⟩
  · rintro as x ⟨proposer, h⟩
    obtain ⟨t, ht, bid, duty, hresp, -, hwon⟩ := blinded_written (F := F) h
    exact ⟨t, ht, bid, duty, hresp, hwon⟩
  · rintro x r tr tr' htr ⟨bid, duty, hresp, hwon⟩
    exact ⟨bid, duty, hresp, hwon.mono htr⟩
  · rintro o s x ⟨proposer, he⟩
    obtain ⟨-, hans⟩ := Store.exec_of_event_eq he
    exact ⟨proposer, hans⟩

/-- A registration was submitted with a signature under its own key, and is stored under it. -/
theorem registration_written {key : BlsPublicKey} {reg : ValidatorRegistration}
    (h : (F.after whitelist schedule).shared.storage.readValidatorRegistration key = some reg) :
    ∃ t ∈ (F.after whitelist schedule).threads, ∃ registration,
      F.serves t.request = some (.registerValidator registration) ∧ registration.message = reg ∧
        reg.pubkey = key ∧ registration.verifySignature R.prims R.builderDomain = true := by
  refine Pool.run_written (S := F.system) (Φ := fun r tr o => ∃ c ∈ F.serves r, c.Calls R tr o)
    (X := fun s (x : BlsPublicKey × ValidatorRegistration) =>
      s.storage.readValidatorRegistration x.1 = some x.2)
    (Q := fun x r _ => ∃ registration, F.serves r = some (.registerValidator registration) ∧
      registration.message = x.2 ∧ x.2.pubkey = x.1 ∧
        registration.verifySignature R.prims R.builderDomain = true)
    F.always (fun _ _ _ _ _ => id) ?_ (fun _ _ _ => id) (fun _ hx => by cases hx) schedule
    (key, reg) h
  intro o s x hx
  rcases Store.exec_validatorRegistrations o s with hsame | ⟨key', reg', rfl⟩
  · simp only [system, MemoryStorage.readValidatorRegistration, hsame] at hx
    exact .inl hx
  · simp only [system, Store.exec, MemoryStorage.readValidatorRegistration_set] at hx
    split at hx
    next hkey =>
      cases hx
      right
      rintro r tr ⟨c, hc, hcalls⟩
      obtain ⟨registration, rfl, hk, hreg, hsigned⟩ :=
        Request.calls_setValidatorRegistration hcalls
      refine ⟨registration, hc, hreg.symm, ?_, hsigned⟩
      rw [hreg, hkey, hk]
    next => exact .inl hx

/-- The validator of a listed duty is registered: it was when the table was written, and it stays
so. -/
theorem duty_registered {duty : ProposerDuty}
    (h : duty ∈ (F.after whitelist schedule).shared.storage.proposerDuties) :
    ∃ reg, (F.after whitelist schedule).shared.storage.readValidatorRegistration duty.pubkey =
      some reg := by
  have hwritten := Pool.run_written (S := F.system)
    (Φ := fun r tr o => ∃ c ∈ F.serves r, c.Calls R tr o)
    (X := fun s (d : ProposerDuty) => d ∈ s.storage.proposerDuties)
    (Q := fun d _ tr => ∃ reg, ⟨.readValidatorRegistration d.pubkey, some reg⟩ ∈ tr)
    F.always ?_ ?_ (fun _ _ _ => id) (fun _ hx => by cases hx) schedule duty h
  · obtain ⟨t, ht, reg, he⟩ := hwritten
    exact registered ht he
  · rintro d r tr tr' htr ⟨reg, he⟩
    exact ⟨reg, htr.subset he⟩
  · intro o s d hd
    rcases Store.exec_proposerDuties o s with hsame | ⟨duties, rfl⟩
    · simp only [system, hsame] at hd
      exact .inl hd
    · right
      rintro r tr ⟨c, hc, hcalls⟩
      obtain ⟨reg, he⟩ := Request.calls_setProposerDuties hcalls d hd
      exact ⟨reg, List.mem_append_left _ he⟩

/-- A recorded delivery was recorded by an unblinding of that hash, after its checks. -/
theorem delivered_written {blockHash : B256}
    (h : blockHash ∈ (F.after whitelist schedule).shared.storage.deliveredBlocks) :
    ∃ t ∈ (F.after whitelist schedule).threads, ∃ slot proposerIndex signature,
      F.serves t.request = some (.unblindBlock slot proposerIndex blockHash signature) ∧
        ∃ duty resp, UnblindBlockUseCase.Checked R slot proposerIndex blockHash signature
          t.trace duty resp := by
  refine Pool.run_written (S := F.system) (Φ := fun r tr o => ∃ c ∈ F.serves r, c.Calls R tr o)
    (X := fun s (x : B256) => x ∈ s.storage.deliveredBlocks)
    (Q := fun x r tr => ∃ slot proposerIndex signature,
      F.serves r = some (.unblindBlock slot proposerIndex x signature) ∧
        ∃ duty resp, UnblindBlockUseCase.Checked R slot proposerIndex x signature tr duty resp)
    F.always ?_ ?_ (fun _ _ _ => id) (fun _ hx => by cases hx) schedule blockHash h
  · rintro x r tr tr' htr ⟨slot, proposerIndex, signature, hr, duty, resp, hchecked⟩
    exact ⟨slot, proposerIndex, signature, hr, duty, resp, hchecked.mono htr⟩
  · intro o s x hx
    rcases Store.exec_deliveredBlocks o s with hsame | ⟨blockHash', rfl⟩
    · simp only [system, hsame] at hx
      exact .inl hx
    · rcases List.mem_append.mp hx with hx | hx
      · exact .inl hx
      · cases List.mem_singleton.mp hx
        right
        rintro r tr ⟨c, hc, hcalls⟩
        obtain ⟨slot, proposerIndex, signature, rfl, duty, resp, hchecked⟩ :=
          Request.calls_setDeliveredBlocks hcalls
        exact ⟨slot, proposerIndex, signature, hc, duty, resp,
          hchecked.mono (List.prefix_append _ _)⟩

end Relay.Frontend

/-! ## The invariant of the relay -/

/-- What admission to the auction has checked of a bid. -/
structure Authentic (R : Relay) (whitelist : List BlsPublicKey) (bid : BidSubmission) : Prop where
  value_ne : bid.message.value ≠ 0
  whitelisted : bid.message.builderPubkey ∈ whitelist
  signed : bid.message.verifySignature R.prims bid.signature R.builderDomain = true

theorem Relay.Frontend.authentic_of_won {R : Relay} {Req α : Type} {F : R.Frontend Req α}
    {whitelist : List BlsPublicKey} {schedule : List (Action Req UInt64)}
    {t : Thread StoreOp StoreOp.Ans Req α} {bid : BidSubmission} {duty : ProposerDuty}
    (ht : t ∈ (F.after whitelist schedule).threads)
    (h : Won R bid duty (F.serves t.request) t.trace) : Authentic R whitelist bid where
  value_ne := h.checked.value_ne
  whitelisted := mem_whitelist ht h.checked.whitelisted
  signed := h.checked.signed

/-- Everything in the store can be traced back to a request that was entitled to put it there. -/
structure Justified (R : Relay) (whitelist : List BlsPublicKey)
    (p : Pool StoreOp StoreOp.Ans Request Response Store) : Prop where
  cached : ∀ slot bid, p.shared.best slot = some bid →
    bid.message.slot = slot ∧ Authentic R whitelist bid
  blinded : ∀ proposer resp, p.shared.storage.readBlindedBlockResponse proposer = some resp →
    ∃ t ∈ p.threads, ∃ bid duty, t.request = .submitBid bid ∧ Authentic R whitelist bid ∧
      resp.executionPayload = bid.executionPayload ∧ resp.blobsBundle = some bid.blobsBundle ∧
      ⟨.findDutyBySlot bid.message.slot, some duty⟩ ∈ t.trace ∧ duty.pubkey = proposer
  registrations : ∀ key reg, p.shared.storage.readValidatorRegistration key = some reg →
    reg.pubkey = key ∧ ∃ t ∈ p.threads, ∃ registration,
      t.request = .registerValidator registration ∧ registration.message = reg ∧
        R.prims.verify registration.signature key
          (signingRoot R.prims (reg.treeHashRoot R.prims) R.builderDomain).bytes = true
  duties : ∀ duty ∈ p.shared.storage.proposerDuties,
    ∃ reg, p.shared.storage.readValidatorRegistration duty.pubkey = some reg
  delivered : ∀ blockHash ∈ p.shared.storage.deliveredBlocks,
    ∃ t ∈ p.threads, ∃ slot proposerIndex signature duty reg resp,
      t.request = .unblindBlock slot proposerIndex blockHash signature ∧
      ⟨.findDutyBySlot slot, some duty⟩ ∈ t.trace ∧ duty.validatorIndex = proposerIndex ∧
      ⟨.readValidatorRegistration duty.pubkey, some reg⟩ ∈ t.trace ∧
      R.verifiesBlinded duty.pubkey slot proposerIndex blockHash signature = true ∧
      ⟨.readBlindedBlockResponse duty.pubkey, some resp⟩ ∈ t.trace ∧
      resp.executionPayload.blockHash = blockHash

/-- **Provenance.** In every state that any interleaving of requests reaches, entries expiring or
not, everything in the store is justified. -/
theorem justified_of_run (R : Relay) (whitelist : List BlsPublicKey)
    (schedule : List (Action Request UInt64)) :
    Justified R whitelist ((Pool.idle (Store.new whitelist)).run R.system schedule) where
  cached := by
    intro slot bid h
    obtain ⟨hslot, t, ht, duty, hwon⟩ := Relay.Frontend.best_written (F := R.frontend) h
    exact ⟨hslot.symm, Relay.Frontend.authentic_of_won ht hwon⟩
  blinded := by
    intro proposer resp h
    obtain ⟨t, ht, bid, duty, rfl, hkey, hwon⟩ :=
      Relay.Frontend.blinded_written (F := R.frontend) h
    exact ⟨t, ht, bid, duty, Option.some.inj hwon.submits,
      Relay.Frontend.authentic_of_won ht hwon, rfl, rfl, hwon.checked.duty_read, hkey⟩
  registrations := by
    intro key reg h
    obtain ⟨t, ht, registration, hr, rfl, rfl, hsigned⟩ :=
      Relay.Frontend.registration_written (F := R.frontend) h
    exact ⟨rfl, t, ht, registration, Option.some.inj hr, rfl, hsigned⟩
  duties := fun duty h => Relay.Frontend.duty_registered (F := R.frontend) h
  delivered := by
    intro blockHash h
    obtain ⟨t, ht, slot, proposerIndex, signature, hr, duty, resp, hchecked⟩ :=
      Relay.Frontend.delivered_written (F := R.frontend) h
    obtain ⟨reg, hreg⟩ := hchecked.registered
    exact ⟨t, ht, slot, proposerIndex, signature, duty, reg, resp, Option.some.inj hr,
      hchecked.duty_read, hchecked.index_eq, hreg, hchecked.signed, hchecked.resp_read,
      hchecked.hash_eq⟩

end MevRelay
