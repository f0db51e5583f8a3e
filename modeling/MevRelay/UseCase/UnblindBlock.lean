import MevRelay.UseCase.Error

/-!
# UnblindBlock

The proposer commits to a block hash with its signature and gets the full payload back. The payload
is looked up by the proposer's pubkey alone, and the delivery is recorded.

`execute_always` says what has been read when a delivery is recorded; `run_execute` when an
unblinding on its own succeeds.
-/

namespace MevRelay

open Atomic

/-- `blinded_block_signing_root`. -/
def blindedBlockSigningRoot (P : Primitives) (slot proposerIndex : UInt64) (blockHash domain : B256) :
    List UInt8 :=
  let data := leBytes 8 slot.toNat ++ leBytes 8 proposerIndex.toNat ++ blockHash.bytes
  (P.keccak256 ((P.keccak256 data).bytes ++ domain.bytes)).bytes

/-- `signature` is one of `pubkey` over the blinded block in the relay's proposer domain. -/
def Relay.verifiesBlinded (R : Relay) (pubkey : BlsPublicKey) (slot proposerIndex : UInt64)
    (blockHash : B256) (signature : BlsSignature) : Bool :=
  R.prims.verify signature pubkey
    (blindedBlockSigningRoot R.prims slot proposerIndex blockHash R.proposerDomain)

namespace UnblindBlockUseCase

/-- `UnblindBlockUseCase::execute`. -/
def execute (R : Relay) (slot proposerIndex : UInt64) (blockHash : B256)
    (signature : BlsSignature) : StoreProg (Except UseCaseError BlindedBlockResponse) := do
  let some duty ← storage (.findDutyBySlot slot) | return .error .dutyNotFound
  if duty.validatorIndex ≠ proposerIndex then
    return .error (.proposerIndexMismatch duty.validatorIndex proposerIndex)
  if (← storage (.readValidatorRegistration duty.pubkey)).isNone then
    return .error .unauthorizedSubmission
  if !R.verifiesBlinded duty.pubkey slot proposerIndex blockHash signature then
    return .error .invalidValidatorSignature
  let some resp ← storage (.readBlindedBlockResponse duty.pubkey)
    | return .error .noBlindedBlockResponse
  if resp.executionPayload.blockHash ≠ blockHash then
    return .error .blockHashMismatch
  storage (.setDeliveredBlocks blockHash)
  return .ok resp

variable (R : Relay) (slot proposerIndex : UInt64) (blockHash : B256) (signature : BlsSignature)

/-! ## What has been read when a delivery is recorded -/

/-- The trace of an unblinding that is about to hand out `resp`. -/
structure Checked (tr : List StoreEvent) (duty : ProposerDuty) (resp : BlindedBlockResponse) :
    Prop where
  duty_read : ⟨.findDutyBySlot slot, some duty⟩ ∈ tr
  index_eq : duty.validatorIndex = proposerIndex
  registered : ∃ reg, ⟨.readValidatorRegistration duty.pubkey, some reg⟩ ∈ tr
  signed : R.verifiesBlinded duty.pubkey slot proposerIndex blockHash signature = true
  resp_read : ⟨.readBlindedBlockResponse duty.pubkey, some resp⟩ ∈ tr
  hash_eq : resp.executionPayload.blockHash = blockHash

/-- An unblinding writes one delivery, after all its checks. -/
def Calls (tr : List StoreEvent) : StoreOp → Prop
  | .setDeliveredBlocks h =>
    h = blockHash ∧ ∃ duty resp, Checked R slot proposerIndex blockHash signature tr duty resp
  | o => o.IsRead

/-- What is returned is what the checks were made on, and the delivery has been recorded. -/
def Returns (tr : List StoreEvent) (result : Except UseCaseError BlindedBlockResponse) : Prop :=
  ∀ resp, result = .ok resp → ⟨.setDeliveredBlocks blockHash, ()⟩ ∈ tr ∧
    ∃ duty, Checked R slot proposerIndex blockHash signature tr duty resp

theorem execute_always :
    (execute R slot proposerIndex blockHash signature).Always
      (Calls R slot proposerIndex blockHash signature)
      (Returns R slot proposerIndex blockHash signature) [] := by
  have herr : ∀ tr e, Returns R slot proposerIndex blockHash signature tr (.error e) := by
    intro tr e resp h
    cases h
  unfold execute
  simp only [Prog.op_bind, Prog.pure_eq]
  refine ⟨trivial, ?_⟩
  intro found
  cases found with
  | none => exact herr _ _
  | some duty =>
  by_cases hindex : duty.validatorIndex ≠ proposerIndex
  · simp only [if_pos hindex]
    exact herr _ _
  simp only [if_neg hindex]
  refine ⟨trivial, ?_⟩
  intro registration
  cases registration with
  | none => exact herr _ _
  | some reg =>
  cases hsigned : R.verifiesBlinded duty.pubkey slot proposerIndex blockHash signature with
  | false => exact herr _ _
  | true =>
  refine ⟨trivial, ?_⟩
  intro stored
  cases stored with
  | none => exact herr _ _
  | some resp =>
  by_cases hhash : resp.executionPayload.blockHash ≠ blockHash
  · simp only [if_pos hhash]
    exact herr _ _
  simp only [if_neg hhash]
  have hchecked : ∀ tr', Checked R slot proposerIndex blockHash signature
      ([⟨.findDutyBySlot slot, some duty⟩, ⟨.readValidatorRegistration duty.pubkey, some reg⟩,
        ⟨.readBlindedBlockResponse duty.pubkey, some resp⟩] ++ tr') duty resp := fun tr' =>
    ⟨by simp, not_not.mp hindex, ⟨reg, by simp⟩, hsigned, by simp, not_not.mp hhash⟩
  refine ⟨⟨rfl, duty, resp, hchecked []⟩, ?_⟩
  intro _ resp' h
  cases h
  exact ⟨by simp, duty, hchecked _⟩

/-! ## An unblinding on its own -/

/-- The store hands out `resp`, held for the proposer of the first duty listed for `slot`. -/
structure Releases (st : MemoryStorage) (duty : ProposerDuty) (resp : BlindedBlockResponse) :
    Prop where
  duty_found : st.findDutyBySlot slot = some duty
  index_eq : duty.validatorIndex = proposerIndex
  registered : ∃ reg, st.readValidatorRegistration duty.pubkey = some reg
  signed : R.verifiesBlinded duty.pubkey slot proposerIndex blockHash signature = true
  resp_stored : st.readBlindedBlockResponse duty.pubkey = some resp
  hash_eq : resp.executionPayload.blockHash = blockHash

/-- **What an unblinding can do on its own**: hand out the stored response and record the block
hash, or fail and leave the store as it is. -/
theorem run_execute (s : Store) :
    (∃ duty resp, Releases R slot proposerIndex blockHash signature s.storage duty resp ∧
      (execute R slot proposerIndex blockHash signature).run Store.exec s =
        (.returned (.ok resp), { s with storage := s.storage.setDeliveredBlocks blockHash })) ∨
    ((∀ duty resp, ¬ Releases R slot proposerIndex blockHash signature s.storage duty resp) ∧
      ∃ e, (execute R slot proposerIndex blockHash signature).run Store.exec s =
        (.returned (.error e), s)) := by
  unfold execute
  simp only [Prog.op_bind, Prog.pure_eq]
  cases hduty : s.storage.findDutyBySlot slot with
  | none =>
    rw [Prog.run_call_of (Store.exec_findDutyBySlot hduty)]
    refine .inr ⟨?_, _, rfl⟩
    intro d resp h
    cases hduty.symm.trans h.duty_found
  | some duty =>
  rw [Prog.run_call_of (Store.exec_findDutyBySlot hduty)]
  have hsame : ∀ d resp, Releases R slot proposerIndex blockHash signature s.storage d resp →
      d = duty := fun d resp h => Option.some.inj (h.duty_found.symm.trans hduty)
  by_cases hindex : duty.validatorIndex ≠ proposerIndex
  · simp only [if_pos hindex]
    refine .inr ⟨?_, _, rfl⟩
    intro d resp h
    cases hsame d resp h
    exact hindex h.index_eq
  simp only [if_neg hindex]
  cases hreg : s.storage.readValidatorRegistration duty.pubkey with
  | none =>
    rw [Prog.run_call_of (Store.exec_readValidatorRegistration hreg)]
    refine .inr ⟨?_, _, rfl⟩
    intro d resp h
    cases hsame d resp h
    obtain ⟨reg, h'⟩ := h.registered
    cases hreg.symm.trans h'
  | some reg =>
  rw [Prog.run_call_of (Store.exec_readValidatorRegistration hreg)]
  simp only [Option.isNone_some, Bool.false_eq_true, if_false]
  cases hsigned : R.verifiesBlinded duty.pubkey slot proposerIndex blockHash signature with
  | false =>
    refine .inr ⟨?_, _, rfl⟩
    intro d resp h
    cases hsame d resp h
    cases hsigned.symm.trans h.signed
  | true =>
  simp only [Bool.not_true, Bool.false_eq_true, if_false]
  cases hresp : s.storage.readBlindedBlockResponse duty.pubkey with
  | none =>
    rw [Prog.run_call_of (Store.exec_readBlindedBlockResponse hresp)]
    refine .inr ⟨?_, _, rfl⟩
    intro d resp h
    cases hsame d resp h
    cases hresp.symm.trans h.resp_stored
  | some resp =>
  rw [Prog.run_call_of (Store.exec_readBlindedBlockResponse hresp)]
  by_cases hhash : resp.executionPayload.blockHash ≠ blockHash
  · simp only [if_pos hhash]
    refine .inr ⟨?_, _, rfl⟩
    intro d resp' h
    cases hsame d resp' h
    cases hresp.symm.trans h.resp_stored
    exact hhash h.hash_eq
  simp only [if_neg hhash]
  exact .inl ⟨duty, resp, ⟨hduty, not_not.mp hindex, ⟨reg, hreg⟩, hsigned, hresp,
    not_not.mp hhash⟩, rfl⟩

end UnblindBlockUseCase

end MevRelay
