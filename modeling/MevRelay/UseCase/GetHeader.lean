import MevRelay.UseCase.Error

/-!
# GetHeader

The header goes to a registered validator that holds the duty of the next slot. The requested parent
hash is compared with the best bid's *trace*; the header is built from its *payload*.

`execute_always` says what a request has read when it succeeds; `run_execute` when it succeeds on
its own, and that it never writes.
-/

namespace MevRelay

open Atomic

namespace GetHeaderUseCase

/-- The answer for a best bid: its header, signed by the relay. -/
def signedHeader (R : Relay) (bestBid : BidSubmission) : Versioned SignedHeader where
  version := R.signer.forkName
  data :=
    { message := SignedHeader.buildHeader R.prims bestBid
      signature := R.signer.sign R.prims
        ((SignedHeader.buildHeader R.prims bestBid).treeHashRoot R.prims) }

/-- `GetHeaderUseCase::execute`. -/
def execute (R : Relay) (slot : UInt64) (parentHash : B256) (proposerPubkey : BlsPublicKey) :
    StoreProg (Except UseCaseError (Versioned SignedHeader)) := do
  if (← storage (.readValidatorRegistration proposerPubkey)).isNone then
    return .error .unauthorizedGetHeader
  let some duty ← storage (.findDutyBySlot slot) | return .error .dutyNotFound
  if duty.pubkey ≠ proposerPubkey then
    return .error .unauthorizedGetHeader
  let headSlot ← storage .readHeadSlot
  if !(← orPanic (headSlot.isNextSlot R.build slot)) then
    return .error .invalidSlot
  match ← auctioneer (.getBestBid slot) with
  | .error e => return .error (.auctioneerError e)
  | .ok bestBid =>
    if bestBid.val.message.parentHash ≠ parentHash then
      return .error .noBidFound
    return .ok (signedHeader R bestBid.val)

/-! ## What a successful request has read -/

/-- The trace of a request that was served from `best`: the read of `best` is its last call. -/
structure ServedFrom (R : Relay) (slot : UInt64) (parentHash : B256)
    (proposerPubkey : BlsPublicKey) (tr : List StoreEvent) (best : Arc BidSubmission) : Prop where
  registered : ∃ reg, ⟨.readValidatorRegistration proposerPubkey, some reg⟩ ∈ tr
  duty_read : ∃ duty, ⟨.findDutyBySlot slot, some duty⟩ ∈ tr ∧ duty.pubkey = proposerPubkey
  next_slot : ∃ head, ⟨.readHeadSlot, head⟩ ∈ tr ∧ head.isNextSlot R.build slot = some true
  best_last : ∃ pre, tr = pre ++ [⟨.getBestBid slot, .ok best⟩]
  parent_eq : best.val.message.parentHash = parentHash

theorem ServedFrom.best_mem {R : Relay} {slot : UInt64} {parentHash : B256}
    {proposerPubkey : BlsPublicKey} {tr : List StoreEvent} {best : Arc BidSubmission}
    (h : ServedFrom R slot parentHash proposerPubkey tr best) :
    ⟨.getBestBid slot, .ok best⟩ ∈ tr := by
  obtain ⟨pre, rfl⟩ := h.best_last
  exact List.mem_concat_self

/-- A header is that of the best bid read last. -/
def Returns (R : Relay) (slot : UInt64) (parentHash : B256) (proposerPubkey : BlsPublicKey)
    (tr : List StoreEvent) (result : Except UseCaseError (Versioned SignedHeader)) : Prop :=
  ∀ v, result = .ok v →
    ∃ best, ServedFrom R slot parentHash proposerPubkey tr best ∧ v = signedHeader R best.val

theorem execute_always (R : Relay) (slot : UInt64) (parentHash : B256)
    (proposerPubkey : BlsPublicKey) :
    (execute R slot parentHash proposerPubkey).Always (fun _ o => o.IsRead)
      (Returns R slot parentHash proposerPubkey) [] := by
  have herr : ∀ tr e, Returns R slot parentHash proposerPubkey tr (.error e) := by
    intro tr e v h
    cases h
  unfold execute
  simp only [Prog.op_bind, Prog.pure_eq]
  refine ⟨trivial, ?_⟩
  intro registration
  cases registration with
  | none => exact herr _ _
  | some reg =>
  refine ⟨trivial, ?_⟩
  intro found
  cases found with
  | none => exact herr _ _
  | some duty =>
  by_cases hpubkey : duty.pubkey ≠ proposerPubkey
  · simp only [if_pos hpubkey]
    exact herr _ _
  simp only [if_neg hpubkey]
  refine ⟨trivial, ?_⟩
  intro headSlot
  apply Prog.always_ofOption_bind
  intro isNext hnext
  cases isNext with
  | false => exact herr _ _
  | true =>
  refine ⟨trivial, ?_⟩
  intro found
  cases found with
  | error e => exact herr _ _
  | ok best =>
  by_cases hparent : best.val.message.parentHash ≠ parentHash
  · simp only [if_pos hparent]
    exact herr _ _
  simp only [if_neg hparent]
  intro v hv
  cases hv
  exact ⟨best, ⟨⟨reg, by simp⟩, ⟨duty, by simp, not_not.mp hpubkey⟩, ⟨headSlot, by simp, hnext⟩,
    ⟨_, rfl⟩, not_not.mp hparent⟩, rfl⟩

/-! ## A request on its own -/

/-- The store serves a header of `best` to `proposerPubkey`. -/
structure Serves (R : Relay) (s : Store) (slot : UInt64) (parentHash : B256)
    (proposerPubkey : BlsPublicKey) (best : BidSubmission) : Prop where
  registered : ∃ reg, s.storage.readValidatorRegistration proposerPubkey = some reg
  duty_found : ∃ duty, s.storage.findDutyBySlot slot = some duty ∧ duty.pubkey = proposerPubkey
  next_slot : s.storage.readHeadSlot.isNextSlot R.build slot = some true
  best_eq : s.best slot = some best
  parent_eq : best.message.parentHash = parentHash

/-- The request gets to the slot check, and the slot after the head overflows. -/
structure Overflows (R : Relay) (s : Store) (slot : UInt64) (proposerPubkey : BlsPublicKey) :
    Prop where
  registered : ∃ reg, s.storage.readValidatorRegistration proposerPubkey = some reg
  duty_found : ∃ duty, s.storage.findDutyBySlot slot = some duty ∧ duty.pubkey = proposerPubkey
  overflow : s.storage.readHeadSlot.isNextSlot R.build slot = none

/-- **What a request can do on its own**: return the header of the best bid, or fail; the store
stays as it is. To fail is to return an error, but for an overflow, which is a panic. -/
theorem run_execute (R : Relay) (s : Store) (slot : UInt64) (parentHash : B256)
    (proposerPubkey : BlsPublicKey) :
    (∃ best, Serves R s slot parentHash proposerPubkey best ∧
      (execute R slot parentHash proposerPubkey).run Store.exec s =
        (.returned (.ok (signedHeader R best)), s)) ∨
    ((∀ best, ¬ Serves R s slot parentHash proposerPubkey best) ∧
      (∀ v, ((execute R slot parentHash proposerPubkey).run Store.exec s).1 ≠ .returned (.ok v)) ∧
      (((execute R slot parentHash proposerPubkey).run Store.exec s).1 = .aborted ↔
        Overflows R s slot proposerPubkey) ∧
      ((execute R slot parentHash proposerPubkey).run Store.exec s).2 = s) := by
  have herror : ∀ e : UseCaseError, ¬ Overflows R s slot proposerPubkey →
      ((.returned (.error e) : Outcome (Except UseCaseError (Versioned SignedHeader))) =
        .aborted ↔ Overflows R s slot proposerPubkey) := by
    intro e hno
    refine iff_of_false ?_ hno
    intro h
    cases h
  unfold execute
  simp only [Prog.op_bind, Prog.pure_eq]
  cases hreg : s.storage.readValidatorRegistration proposerPubkey with
  | none =>
    rw [Prog.run_call_of (Store.exec_readValidatorRegistration hreg)]
    refine .inr ⟨?_, Outcome.error_ne_ok _, herror _ ?_, rfl⟩
    · intro best h
      obtain ⟨reg, h⟩ := h.registered
      cases hreg.symm.trans h
    · intro h
      obtain ⟨reg, h⟩ := h.registered
      cases hreg.symm.trans h
  | some reg =>
  rw [Prog.run_call_of (Store.exec_readValidatorRegistration hreg)]
  simp only [Option.isNone_some, Bool.false_eq_true, if_false]
  cases hduty : s.storage.findDutyBySlot slot with
  | none =>
    rw [Prog.run_call_of (Store.exec_findDutyBySlot hduty)]
    refine .inr ⟨?_, Outcome.error_ne_ok _, herror _ ?_, rfl⟩
    · intro best h
      obtain ⟨duty, h, -⟩ := h.duty_found
      cases hduty.symm.trans h
    · intro h
      obtain ⟨duty, h, -⟩ := h.duty_found
      cases hduty.symm.trans h
  | some duty =>
  rw [Prog.run_call_of (Store.exec_findDutyBySlot hduty)]
  by_cases hpubkey : duty.pubkey ≠ proposerPubkey
  · simp only [if_pos hpubkey]
    refine .inr ⟨?_, Outcome.error_ne_ok _, herror _ ?_, rfl⟩
    · intro best h
      obtain ⟨duty', h, h'⟩ := h.duty_found
      cases hduty.symm.trans h
      exact hpubkey h'
    · intro h
      obtain ⟨duty', h, h'⟩ := h.duty_found
      cases hduty.symm.trans h
      exact hpubkey h'
  simp only [if_neg hpubkey]
  rw [Prog.run_call_of Store.exec_readHeadSlot]
  cases hnext : s.storage.readHeadSlot.isNextSlot R.build slot with
  | none =>
    refine .inr ⟨?_, fun v => Outcome.aborted_ne_returned _, ?_, rfl⟩
    · intro best h
      cases hnext.symm.trans h.next_slot
    · exact iff_of_true rfl ⟨⟨reg, hreg⟩, ⟨duty, hduty, not_not.mp hpubkey⟩, hnext⟩
  | some isNext =>
  have hno : ¬ Overflows R s slot proposerPubkey := by
    intro h
    cases hnext.symm.trans h.overflow
  cases isNext with
  | false =>
    refine .inr ⟨?_, Outcome.error_ne_ok _, herror _ hno, rfl⟩
    intro best h
    cases hnext.symm.trans h.next_slot
  | true =>
  simp only [Prog.ofOption_some, Prog.ret_bind, Bool.not_true, Bool.false_eq_true, if_false]
  cases hbest : s.auctioneer.getBestBid slot with
  | error e =>
    rw [Prog.run_call_of (Store.exec_getBestBid hbest)]
    refine .inr ⟨?_, Outcome.error_ne_ok _, herror _ hno, rfl⟩
    intro best h
    obtain ⟨e', h, -⟩ := Store.getBestBid_of_best h.best_eq
    cases hbest.symm.trans h
  | ok best =>
  rw [Prog.run_call_of (Store.exec_getBestBid hbest)]
  have hheld := Store.best_of_getBestBid hbest
  by_cases hparent : best.val.message.parentHash ≠ parentHash
  · simp only [if_pos hparent]
    refine .inr ⟨?_, Outcome.error_ne_ok _, herror _ hno, rfl⟩
    intro b h
    cases hheld.symm.trans h.best_eq
    exact hparent h.parent_eq
  simp only [if_neg hparent]
  exact .inl ⟨best.val, ⟨⟨reg, hreg⟩, ⟨duty, hduty, not_not.mp hpubkey⟩, hnext, hheld,
    not_not.mp hparent⟩, rfl⟩

theorem run_execute_aborted_iff (R : Relay) (s : Store) (slot : UInt64) (parentHash : B256)
    (proposerPubkey : BlsPublicKey) :
    ((execute R slot parentHash proposerPubkey).run Store.exec s).1 = .aborted ↔
      Overflows R s slot proposerPubkey := by
  rcases run_execute R s slot parentHash proposerPubkey with
    ⟨best, hserves, hrun⟩ | ⟨-, -, haborted, -⟩
  · rw [hrun]
    refine iff_of_false (fun h => by cases h) ?_
    intro h
    cases hserves.next_slot.symm.trans h.overflow
  · exact haborted

end GetHeaderUseCase

end MevRelay
