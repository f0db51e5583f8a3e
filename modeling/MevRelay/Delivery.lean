import MevRelay.Sequential

/-!
# What is delivered

`UnblindBlock` over whole sequential runs: the record of deliveries, when a call succeeds, what two
successful calls for one slot have in common, and for which slot the delivered payload was bid. The
record is written and never read, so nothing but the stored payload decides what a call returns; and
that payload is stored without its slot.
-/

namespace MevRelay

open Atomic

namespace Relay

variable {R : Relay} {whitelist : List BlsPublicKey}

/-- A successful unblinding hands out what is stored for the proposer of the slot. -/
theorem releases_of_serve {s : Store} {slot proposerIndex : UInt64} {blockHash : B256}
    {signature : BlsSignature} {resp : BlindedBlockResponse}
    (h : (R.system.serve s (.unblindBlock slot proposerIndex blockHash signature)).1 =
      .returned (.unblindBlock (.ok resp))) :
    ∃ duty, UnblindBlockUseCase.Releases R slot proposerIndex blockHash signature s.storage duty
      resp := by
  rcases serve_unblindBlock R s slot proposerIndex blockHash signature with
    ⟨duty, resp', hreleases, hserve⟩ | ⟨-, e, hserve⟩
  · rw [hserve] at h
    cases h
    exact ⟨duty, hreleases⟩
  · rw [hserve] at h
    cases h

/-- An unblinding that the store releases succeeds. -/
theorem serve_of_releases {s : Store} {slot proposerIndex : UInt64} {blockHash : B256}
    {signature : BlsSignature} {duty : ProposerDuty} {resp : BlindedBlockResponse}
    (h : UnblindBlockUseCase.Releases R slot proposerIndex blockHash signature s.storage duty
      resp) :
    (R.system.serve s (.unblindBlock slot proposerIndex blockHash signature)).1 =
      .returned (.unblindBlock (.ok resp)) := by
  rcases serve_unblindBlock R s slot proposerIndex blockHash signature with
    ⟨duty', resp', hreleases, hserve⟩ | ⟨hnot, -⟩
  · have hd : duty' = duty := Option.some.inj (hreleases.duty_found.symm.trans h.duty_found)
    subst hd
    cases hreleases.resp_stored.symm.trans h.resp_stored
    rw [hserve]
  · exact absurd h (hnot duty resp)

/-- **The delivery log and the authorisation of unblinding.** At every point of every sequential
run. -/
theorem unblind_delivers (R : Relay) (whitelist : List BlsPublicKey) (rs : List Request) :
    (R.after whitelist rs).storage.deliveredBlocks =
      (R.historyOf whitelist rs).filterMap delivered ∧
    ∀ slot proposerIndex blockHash signature,
      let s := R.after whitelist rs
      let served := R.system.serve s (.unblindBlock slot proposerIndex blockHash signature)
      -- it returns, and returns the stored response exactly if all checks hold now
      (∃ result, served.1 = .returned (.unblindBlock result)) ∧
      (∀ resp, served.1 = .returned (.unblindBlock (.ok resp)) ↔
        ∃ duty, (s.storage.proposerDuties.find? fun d => d.slot == slot) = some duty ∧
          duty.validatorIndex = proposerIndex ∧
          (∃ reg, s.storage.readValidatorRegistration duty.pubkey = some reg) ∧
          R.prims.verify signature duty.pubkey (blindedBlockSigningRoot R.prims slot proposerIndex
            blockHash R.proposerDomain) = true ∧
          s.storage.readBlindedBlockResponse duty.pubkey = some resp ∧
          resp.executionPayload.blockHash = blockHash) ∧
      -- it changes nothing but the log, and that only if it succeeds
      (∀ e, served.1 = .returned (.unblindBlock (.error e)) → served.2 = s) ∧
      (∀ resp, served.1 = .returned (.unblindBlock (.ok resp)) →
        served.2 = { s with storage :=
          { s.storage with deliveredBlocks := s.storage.deliveredBlocks ++ [blockHash] } }) := by
  refine ⟨after_delivered rs, ?_⟩
  intro slot proposerIndex blockHash signature s served
  have hserve := serve_unblindBlock R s slot proposerIndex blockHash signature
  refine ⟨?_, ?_, ?_, ?_⟩
  · rcases hserve with ⟨duty, resp, -, hserve⟩ | ⟨-, e, hserve⟩
    · exact ⟨.ok resp, congrArg Prod.fst hserve⟩
    · exact ⟨.error e, congrArg Prod.fst hserve⟩
  · intro resp
    constructor
    · intro h
      obtain ⟨duty, h⟩ := releases_of_serve h
      exact ⟨duty, h.duty_found, h.index_eq, h.registered, h.signed, h.resp_stored, h.hash_eq⟩
    · rintro ⟨duty, hduty, hindex, hreg, hsigned, hresp, hhash⟩
      exact serve_of_releases ⟨hduty, hindex, hreg, hsigned, hresp, hhash⟩
  · intro e h
    rcases hserve with ⟨duty, resp, -, hserve⟩ | ⟨-, e', hserve⟩
    · cases (congrArg Prod.fst hserve).symm.trans h
    · exact congrArg Prod.snd hserve
  · intro resp h
    rcases hserve with ⟨duty, resp', -, hserve⟩ | ⟨-, e, hserve⟩
    · exact congrArg Prod.snd hserve
    · cases (congrArg Prod.fst hserve).symm.trans h

/-! ## Two deliveries for one slot -/

/-- An unblinding accepts no bid. -/
theorem acceptedFrom_unblind (s : Store) (slot proposerIndex : UInt64) (blockHash : B256)
    (signature : BlsSignature) (rs : List Request) :
    R.acceptedFrom s (.unblindBlock slot proposerIndex blockHash signature :: rs) =
      R.acceptedFrom
        (R.system.serve s (.unblindBlock slot proposerIndex blockHash signature)).2 rs := rfl

/-- **One proposer, no new bid, one block.** Two successful unblindings for a slot agree if the slot
belongs to the same proposer both times and no bid was accepted for that proposer in between. -/
theorem unblind_agrees (R : Relay) (whitelist : List BlsPublicKey) (rs between : List Request)
    (slot index₁ index₂ : UInt64) (hash₁ hash₂ : B256) (sig₁ sig₂ : BlsSignature)
    (resp₁ resp₂ : BlindedBlockResponse) (duty₁ duty₂ : ProposerDuty)
    (hfirst : (R.system.serve (R.after whitelist rs)
      (.unblindBlock slot index₁ hash₁ sig₁)).1 = .returned (.unblindBlock (.ok resp₁)))
    (hsecond : (R.system.serve
      (R.after whitelist (rs ++ .unblindBlock slot index₁ hash₁ sig₁ :: between))
      (.unblindBlock slot index₂ hash₂ sig₂)).1 = .returned (.unblindBlock (.ok resp₂)))
    (hduty₁ : (R.after whitelist rs).storage.findDutyBySlot slot = some duty₁)
    (hduty₂ : (R.after whitelist
      (rs ++ .unblindBlock slot index₁ hash₁ sig₁ :: between)).storage.findDutyBySlot slot =
        some duty₂)
    (hsame : duty₂.pubkey = duty₁.pubkey)
    (hnone : ∀ a ∈ R.acceptedFrom
      (R.after whitelist (rs ++ [.unblindBlock slot index₁ hash₁ sig₁])) between,
      a.2 ≠ duty₁.pubkey) :
    hash₁ = hash₂ ∧ resp₁ = resp₂ := by
  obtain ⟨d₁, h₁⟩ := releases_of_serve hfirst
  obtain ⟨d₂, h₂⟩ := releases_of_serve hsecond
  cases h₁.duty_found.symm.trans hduty₁
  cases h₂.duty_found.symm.trans hduty₂
  -- both read the response of the last bid accepted for the proposer, which is the same one
  have hresp : some resp₁ = some resp₂ := by
    rw [← h₁.resp_stored, ← h₂.resp_stored, hsame, after_blinded, after_blinded,
      acceptedBids_append, acceptedFrom_unblind]
    rw [after_concat] at hnone
    rw [lastBy_append_of_ne _ _ hnone]
  cases hresp
  exact ⟨h₁.hash_eq.symm.trans h₂.hash_eq, rfl⟩

/-- The proposer asks twice, with another header request in between. -/
theorem unblind_agrees_twice :
    (Sample.relay.system.serve
      (Sample.relay.after Sample.whitelist (Sample.ready ++ [.submitBid (Sample.bid 2 1 1),
        Sample.unblind 2 1, Sample.askHeader 2])) (Sample.unblind 2 1)).1 =
      .returned (.unblindBlock (.ok (Sample.bid 2 1 1).toBlindedBlockResponse)) ∧
    (.repeatByte 1 : B256) = .repeatByte 1 ∧
      (Sample.bid 2 1 1).toBlindedBlockResponse = (Sample.bid 2 1 1).toBlindedBlockResponse :=
  ⟨rfl, unblind_agrees Sample.relay Sample.whitelist
    (Sample.ready ++ [.submitBid (Sample.bid 2 1 1)]) [Sample.askHeader 2] 2 5 5 (.repeatByte 1)
    (.repeatByte 1) (Sample.commitment 2 1) (Sample.commitment 2 1) _ _
    ⟨Sample.prims.skToPk Sample.proposer, 5, 2⟩ ⟨Sample.prims.skToPk Sample.proposer, 5, 2⟩
    rfl rfl rfl rfl rfl (by decide)⟩

/-- A higher bid in between replaces the payload, and the proposer's second commitment is served
from it: two different blocks for one slot. -/
theorem unblind_twice_differs :
    ¬ ∀ (R : Relay) (whitelist : List BlsPublicKey) (rs between : List Request)
      (slot index₁ index₂ : UInt64) (hash₁ hash₂ : B256) (sig₁ sig₂ : BlsSignature)
      (resp₁ resp₂ : BlindedBlockResponse),
      (R.system.serve (R.after whitelist rs) (.unblindBlock slot index₁ hash₁ sig₁)).1 =
        .returned (.unblindBlock (.ok resp₁)) →
      (R.system.serve (R.after whitelist (rs ++ .unblindBlock slot index₁ hash₁ sig₁ :: between))
        (.unblindBlock slot index₂ hash₂ sig₂)).1 = .returned (.unblindBlock (.ok resp₂)) →
      hash₁ = hash₂ ∧ resp₁.executionPayload = resp₂.executionPayload := by
  intro h
  have heq := (h Sample.relay Sample.whitelist
    (Sample.ready ++ [.submitBid (Sample.bid 2 1 1)]) [.submitBid (Sample.bid 2 2 2)]
    2 5 5 (.repeatByte 1) (.repeatByte 2) (Sample.commitment 2 1) (Sample.commitment 2 2)
    (Sample.bid 2 1 1).toBlindedBlockResponse (Sample.bid 2 2 2).toBlindedBlockResponse rfl rfl).1
  exact absurd heq (by decide)

/-! ## Deliveries for another slot -/

/-- Every unblinding of the run that carries the index and the commitment of the slot's proposer, and
the hash of the payload that was last accepted for that proposer, asks for the slot of that
payload. -/
def AsksForHeldSlot (R : Relay) (whitelist : List BlsPublicKey) (rs : List Request) : Prop :=
  ∀ before slot proposerIndex blockHash signature,
    before ++ [.unblindBlock slot proposerIndex blockHash signature] <+: rs →
    ∀ duty, (R.after whitelist before).storage.findDutyBySlot slot = some duty →
      duty.validatorIndex = proposerIndex →
      R.verifiesBlinded duty.pubkey slot proposerIndex blockHash signature = true →
      ∀ last, lastBy Prod.snd duty.pubkey (R.acceptedBids whitelist before) = some last →
        last.1.executionPayload.blockHash = blockHash → last.1.message.slot = slot

/-- What a successful unblinding hands out was accepted last for the proposer of the slot. -/
theorem releases_last {rs : List Request} {slot proposerIndex : UInt64} {blockHash : B256}
    {signature : BlsSignature} {duty : ProposerDuty} {resp : BlindedBlockResponse}
    (h : UnblindBlockUseCase.Releases R slot proposerIndex blockHash signature
      (R.after whitelist rs).storage duty resp) :
    ∃ last, lastBy Prod.snd duty.pubkey (R.acceptedBids whitelist rs) = some last ∧
      last.1.toBlindedBlockResponse = resp := by
  have hstored := h.resp_stored
  rw [after_blinded] at hstored
  exact Option.map_eq_some_iff.mp hstored

/-- **A payload goes out for the slot it was bid for**, in every run in which the proposers ask for
the slots of the payloads that are held for them. -/
theorem unblind_own_slot (R : Relay) (whitelist : List BlsPublicKey) (rs : List Request)
    (hrun : R.AsksForHeldSlot whitelist rs)
    (before : List Request) (slot proposerIndex : UInt64) (blockHash : B256)
    (signature : BlsSignature) (resp : BlindedBlockResponse)
    (hcall : before ++ [.unblindBlock slot proposerIndex blockHash signature] <+: rs)
    (hok : (R.system.serve (R.after whitelist before)
      (.unblindBlock slot proposerIndex blockHash signature)).1 =
        .returned (.unblindBlock (.ok resp))) :
    ∃ a ∈ R.acceptedBids whitelist before, a.1.message.slot = slot ∧
      a.1.executionPayload = resp.executionPayload := by
  obtain ⟨duty, h⟩ := releases_of_serve hok
  obtain ⟨last, hlast, hresp⟩ := releases_last h
  have hpayload : last.1.executionPayload = resp.executionPayload :=
    congrArg BlindedBlockResponse.executionPayload hresp
  have hhash : last.1.executionPayload.blockHash = blockHash := by
    rw [hpayload, h.hash_eq]
  have hslot : last.1.message.slot = slot :=
    hrun before slot proposerIndex blockHash signature hcall duty h.duty_found h.index_eq h.signed
      last hlast hhash
  exact ⟨last, (lastBy_mem Prod.snd hlast).1, hslot, hpayload⟩

theorem acceptedBids_sample :
    Sample.relay.acceptedBids Sample.whitelist
      (Sample.ready ++ [.submitBid (Sample.bid 2 1 1)]) =
        [(Sample.bid 2 1 1, Sample.prims.skToPk Sample.proposer)] := rfl

/-- The proposer of slots 2 and 3 asks for slot 2, for which the one bid was made. -/
theorem unblind_own_slot_sample :
    ∃ a ∈ Sample.relay.acceptedBids Sample.whitelist
        (Sample.ready ++ [.submitBid (Sample.bid 2 1 1)]),
      a.1.message.slot = 2 ∧
        a.1.executionPayload = (Sample.bid 2 1 1).toBlindedBlockResponse.executionPayload := by
  refine unblind_own_slot Sample.relay Sample.whitelist
    (Sample.ready ++ [.submitBid (Sample.bid 2 1 1), Sample.unblind 2 1]) ?_
    (Sample.ready ++ [.submitBid (Sample.bid 2 1 1)]) 2 5 (.repeatByte 1) (Sample.commitment 2 1)
    _ (List.prefix_refl _) rfl
  intro before slot proposerIndex blockHash signature hcall duty _ _ _ last hlast _
  -- the run has one unblinding, its last request
  have hcall_last : before ++ [.unblindBlock slot proposerIndex blockHash signature] <+:
      (Sample.ready ++ [.submitBid (Sample.bid 2 1 1)]) ++ [Sample.unblind 2 1] := hcall
  obtain ⟨rfl, hunblind⟩ := eq_of_prefix_concat hcall_last (by simp [Sample.ready, Sample.head])
  cases hunblind
  have hmem : last ∈ Sample.relay.acceptedBids Sample.whitelist
      (Sample.ready ++ [.submitBid (Sample.bid 2 1 1)]) := (lastBy_mem Prod.snd hlast).1
  rw [acceptedBids_sample, List.mem_singleton] at hmem
  rw [hmem]
  rfl

/-- The one bid of the run is for slot 2; the proposer, which also has the duty of slot 3, gets its
payload for slot 3. -/
theorem unblind_other_slot :
    ¬ ∀ (R : Relay) (whitelist : List BlsPublicKey) (rs : List Request)
      (slot proposerIndex : UInt64) (blockHash : B256) (signature : BlsSignature)
      (resp : BlindedBlockResponse),
      (R.system.serve (R.after whitelist rs)
        (.unblindBlock slot proposerIndex blockHash signature)).1 =
          .returned (.unblindBlock (.ok resp)) →
      ∃ a ∈ R.acceptedBids whitelist rs, a.1.message.slot = slot ∧
        a.1.executionPayload = resp.executionPayload := by
  intro h
  obtain ⟨a, ha, hslot, -⟩ := h Sample.relay Sample.whitelist
    (Sample.ready ++ [.submitBid (Sample.bid 2 1 1)]) 3 5 (.repeatByte 1) (Sample.commitment 3 1)
    (Sample.bid 2 1 1).toBlindedBlockResponse rfl
  rw [acceptedBids_sample, List.mem_singleton] at ha
  rw [ha] at hslot
  exact absurd hslot (by decide)

end Relay

end MevRelay
