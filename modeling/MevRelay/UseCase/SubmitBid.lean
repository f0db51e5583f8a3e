import MevRelay.UseCase.Error

/-!
# SubmitBid

Six checks, then the auction, then the payload is stored under the pubkey of the duty that the fifth
check read. Nothing ties the last two steps together, and nothing compares the payload with the
signed trace.

`execute_stages` says all that a submission can have done at any point, whatever happens around it,
and `execute_always` which calls it makes; `run_execute` says what it does when nothing happens in
between.
-/

namespace MevRelay

open Atomic

namespace SubmitBidUseCase

/-- `SubmitBidUseCase::execute`. -/
def execute (R : Relay) (bid : BidSubmission) : StoreProg (Except UseCaseError Unit) := do
  let slot := bid.message.slot
  let builderPubkey := bid.message.builderPubkey
  let value := bid.message.value
  if value = 0 then
    return .error .zeroBid
  if !(← storage (.isWhitelistedBuilder builderPubkey)) then
    return .error .unauthorizedBuilder
  let headSlot ← storage .readHeadSlot
  if !(← orPanic (headSlot.isNextSlot R.build slot)) then
    return .error .invalidSlot
  let attrs ← storage .readPayloadAttributes
  if attrs.prevRandao ≠ bid.executionPayload.prevRandao then
    return .error (.invalidPayloadAttributes "prev_randao mismatch")
  let some duty ← storage (.findDutyBySlot slot) | return .error .dutyNotFound
  if !bid.message.verifySignature R.prims bid.signature R.builderDomain then
    return .error .invalidBuilderSignature
  if let .error e ← auctioneer (.compareAndBid slot bid) then
    return .error (.auctioneerError e)
  storage (.setBlindedBlockResponse duty.pubkey bid.toBlindedBlockResponse)
  return .ok ()

/-! ## Which calls a submission makes -/

/-- The checks before the auction, as seen in the trace: `duty` is what the duty lookup answered. -/
structure Checked (R : Relay) (bid : BidSubmission) (tr : List StoreEvent) (duty : ProposerDuty) :
    Prop where
  value_ne : bid.message.value ≠ 0
  whitelisted : ⟨.isWhitelistedBuilder bid.message.builderPubkey, true⟩ ∈ tr
  duty_read : ⟨.findDutyBySlot bid.message.slot, some duty⟩ ∈ tr
  signed : bid.message.verifySignature R.prims bid.signature R.builderDomain = true

/-- A submission bids only after its checks, and stores only after it won the bid. -/
def Calls (R : Relay) (bid : BidSubmission) (tr : List StoreEvent) : StoreOp → Prop
  | .compareAndBid slot b =>
    slot = bid.message.slot ∧ b = bid ∧ (∃ duty, Checked R bid tr duty) ∧
      ∀ proposer resp, ⟨.setBlindedBlockResponse proposer resp, ()⟩ ∉ tr
  | .setBlindedBlockResponse proposer resp =>
    resp = bid.toBlindedBlockResponse ∧ (∃ duty, Checked R bid tr duty ∧ duty.pubkey = proposer) ∧
      ⟨.compareAndBid bid.message.slot bid, .ok ()⟩ ∈ tr
  | o => o.IsRead

/-- A submission that returns `Ok` has won the bid and stored its payload. -/
def Returns (bid : BidSubmission) (tr : List StoreEvent) (result : Except UseCaseError Unit) :
    Prop :=
  result = .ok () → ⟨.compareAndBid bid.message.slot bid, .ok ()⟩ ∈ tr

theorem calls_of_isRead {R : Relay} {bid : BidSubmission} {tr : List StoreEvent} {o : StoreOp}
    (h : o.IsRead) : Calls R bid tr o := by
  cases o with
  | compareAndBid slot b => exact absurd h id
  | setBlindedBlockResponse proposer resp => exact absurd h id
  | _ => exact h

/-! ## Where a submission stands -/

/-- The reads behind the slot check and the randao check, as seen in the trace. -/
structure Cleared (R : Relay) (bid : BidSubmission) (tr : List StoreEvent) : Prop where
  next_slot : ∃ head, ⟨.readHeadSlot, head⟩ ∈ tr ∧
    head.isNextSlot R.build bid.message.slot = some true
  randao : ∃ attrs, ⟨.readPayloadAttributes, attrs⟩ ∈ tr ∧
    attrs.prevRandao = bid.executionPayload.prevRandao

/-- The submission has only read so far, and no head that it has read made its slot check panic. -/
structure Checking (R : Relay) (bid : BidSubmission) (tr : List StoreEvent) : Prop where
  reads : ∀ e ∈ tr, e.op.IsRead
  heads : ∀ head, ⟨.readHeadSlot, head⟩ ∈ tr → head.isNextSlot R.build bid.message.slot ≠ none

/-- Everything that a submission can have done, and what is left of it then, whatever answers it
gets. -/
inductive Stage (R : Relay) (bid : BidSubmission) :
    List StoreEvent → StoreProg (Except UseCaseError Unit) → Prop
  | checking {tr : List StoreEvent} {o : StoreOp} {k : o.Ans → StoreProg (Except UseCaseError Unit)}
      (checks : Checking R bid tr) (read : o.IsRead) : Stage R bid tr (.call o k)
  | rejected {tr : List StoreEvent} {e : UseCaseError} (checks : Checking R bid tr) :
      Stage R bid tr (.ret (.error e))
  | panicked {tr : List StoreEvent} {head : HeadSlot} (checks : Checking R bid tr)
      (overflow : head.isNextSlot R.build bid.message.slot = none) :
      Stage R bid (tr ++ [⟨.readHeadSlot, head⟩]) .abort
  | bidding {tr : List StoreEvent} {duty : ProposerDuty}
      {k : Except AuctioneerError Unit → StoreProg (Except UseCaseError Unit)}
      (checks : Checking R bid tr) (cleared : Cleared R bid tr) (checked : Checked R bid tr duty) :
      Stage R bid tr (.call (.compareAndBid bid.message.slot bid) k)
  | outbid {tr : List StoreEvent} {e : AuctioneerError} (checks : Checking R bid tr) :
      Stage R bid (tr ++ [⟨.compareAndBid bid.message.slot bid, .error e⟩])
        (.ret (.error (.auctioneerError e)))
  | storing {tr : List StoreEvent} {duty : ProposerDuty}
      {k : Unit → StoreProg (Except UseCaseError Unit)} (checks : Checking R bid tr)
      (checked : Checked R bid (tr ++ [⟨.compareAndBid bid.message.slot bid, .ok ()⟩]) duty) :
      Stage R bid (tr ++ [⟨.compareAndBid bid.message.slot bid, .ok ()⟩])
        (.call (.setBlindedBlockResponse duty.pubkey bid.toBlindedBlockResponse) k)
  | stored {tr : List StoreEvent} {proposer : BlsPublicKey} (checks : Checking R bid tr) :
      Stage R bid (tr ++ [⟨.compareAndBid bid.message.slot bid, .ok ()⟩] ++
        [⟨.setBlindedBlockResponse proposer bid.toBlindedBlockResponse, ()⟩]) (.ret (.ok ()))

theorem Checking.concat {R : Relay} {bid : BidSubmission} {tr : List StoreEvent} {o : StoreOp}
    (h : Checking R bid tr) (ans : o.Ans) (hread : o.IsRead)
    (hhead : ∀ head, (⟨o, ans⟩ : StoreEvent) = ⟨.readHeadSlot, head⟩ →
      head.isNextSlot R.build bid.message.slot ≠ none) : Checking R bid (tr ++ [⟨o, ans⟩]) where
  reads := by
    intro e he
    rcases List.mem_append.mp he with he | he
    · exact h.reads e he
    · rw [List.mem_singleton.mp he]
      exact hread
  heads := by
    intro head hmem
    rcases List.mem_append.mp hmem with hmem | hmem
    · exact h.heads head hmem
    · exact hhead head (List.mem_singleton.mp hmem).symm

/-- **The stages are all there is.** -/
theorem execute_stages (R : Relay) (bid : BidSubmission) :
    (execute R bid).Everywhere (Stage R bid) [] := by
  have hstart : Checking R bid [] := by
    constructor
    · intro e he
      cases he
    · intro head hmem
      cases hmem
  unfold execute
  simp only [Prog.op_bind, Prog.pure_eq]
  by_cases hvalue : bid.message.value = 0
  · rw [if_pos hvalue]
    exact .rejected hstart
  rw [if_neg hvalue]
  refine ⟨.checking hstart trivial, ?_⟩
  intro whitelisted
  have hasked := hstart.concat (o := .isWhitelistedBuilder bid.message.builderPubkey) whitelisted
    trivial nofun
  cases whitelisted with
  | false => exact .rejected hasked
  | true =>
  refine ⟨.checking hasked trivial, ?_⟩
  intro headSlot
  apply Prog.everywhere_ofOption_bind
  · exact .panicked hasked
  intro isNext hnext
  have hhead := hasked.concat (o := .readHeadSlot) headSlot trivial fun head h => by
    cases h
    rw [hnext]
    nofun
  cases isNext with
  | false => exact .rejected hhead
  | true =>
  refine ⟨.checking hhead trivial, ?_⟩
  intro attrs
  have hattrs := hhead.concat (o := .readPayloadAttributes) attrs trivial nofun
  by_cases hrandao : attrs.prevRandao ≠ bid.executionPayload.prevRandao
  · simp only [if_pos hrandao]
    exact .rejected hattrs
  simp only [if_neg hrandao]
  refine ⟨.checking hattrs trivial, ?_⟩
  intro found
  have hduty := hattrs.concat (o := .findDutyBySlot bid.message.slot) found trivial nofun
  cases found with
  | none => exact .rejected hduty
  | some duty =>
  cases hsigned : bid.message.verifySignature R.prims bid.signature R.builderDomain with
  | false => exact .rejected hduty
  | true =>
  -- from here on only the two writes are left
  refine ⟨.bidding hduty ⟨⟨headSlot, by simp, hnext⟩, ⟨attrs, by simp, not_not.mp hrandao⟩⟩
    ⟨hvalue, by simp, List.mem_concat_self, hsigned⟩, ?_⟩
  intro won
  cases won with
  | error e => exact .outbid hduty
  | ok won => exact ⟨.storing hduty ⟨hvalue, by simp, by simp, hsigned⟩, fun _ => .stored hduty⟩

theorem execute_always (R : Relay) (bid : BidSubmission) :
    (execute R bid).Always (Calls R bid) (Returns bid) [] := by
  refine (execute_stages R bid).always ?_ ?_
  · intro tr o k hstage
    cases hstage with
    | checking checks read => exact calls_of_isRead read
    | bidding checks cleared checked =>
      refine ⟨rfl, rfl, ⟨_, checked⟩, ?_⟩
      intro proposer resp hmem
      exact checks.reads _ hmem
    | storing checks checked =>
      exact ⟨rfl, ⟨_, checked, rfl⟩, List.mem_concat_self⟩
  · intro tr result hstage hok
    subst hok
    cases hstage with
    | stored checks => simp

/-! ## A submission on its own -/

/-- The store admits `bid`, with `duty` the first one listed for its slot. -/
structure Admits (R : Relay) (s : Store) (bid : BidSubmission) (duty : ProposerDuty) : Prop where
  value_ne : bid.message.value ≠ 0
  whitelisted : s.storage.isWhitelistedBuilder bid.message.builderPubkey = true
  next_slot : s.storage.readHeadSlot.isNextSlot R.build bid.message.slot = some true
  randao : s.storage.readPayloadAttributes.prevRandao = bid.executionPayload.prevRandao
  duty_found : s.storage.findDutyBySlot bid.message.slot = some duty
  signed : bid.message.verifySignature R.prims bid.signature R.builderDomain = true
  beats : s.auctioneer.Beats bid.message.slot bid

/-- `bid` gets to the slot check, and the slot after the head overflows. -/
structure Overflows (R : Relay) (s : Store) (bid : BidSubmission) : Prop where
  value_ne : bid.message.value ≠ 0
  whitelisted : s.storage.isWhitelistedBuilder bid.message.builderPubkey = true
  overflow : s.storage.readHeadSlot.isNextSlot R.build bid.message.slot = none

/-- **What a submission can do on its own**: be accepted for a duty, or fail and leave storage and
cache as they were. To fail is to return an error, but for an overflow, which is a panic. -/
theorem run_execute (R : Relay) (s : Store) (bid : BidSubmission) :
    (∃ duty, Admits R s bid duty ∧
      (execute R bid).run Store.exec s = (.returned (.ok ()), s.accept bid duty.pubkey)) ∨
    ((∀ duty, ¬ Admits R s bid duty) ∧
      ((execute R bid).run Store.exec s).1 ≠ .returned (.ok ()) ∧
      (((execute R bid).run Store.exec s).1 = .aborted ↔ Overflows R s bid) ∧
      ((execute R bid).run Store.exec s).2.storage = s.storage ∧
      ((execute R bid).run Store.exec s).2.auctioneer = s.auctioneer) := by
  have herror : ∀ e : UseCaseError, ¬ Overflows R s bid →
      ((.returned (.error e) : Outcome (Except UseCaseError Unit)) = .aborted ↔
        Overflows R s bid) := by
    intro e hno
    refine iff_of_false ?_ hno
    intro h
    cases h
  unfold execute
  simp only [Prog.op_bind, Prog.pure_eq]
  by_cases hvalue : bid.message.value = 0
  · rw [if_pos hvalue]
    refine .inr ⟨?_, Outcome.error_ne_ok _ _, herror _ fun h => h.value_ne hvalue, rfl, rfl⟩
    intro duty h
    exact h.value_ne hvalue
  rw [if_neg hvalue]
  cases hwhite : s.storage.isWhitelistedBuilder bid.message.builderPubkey with
  | false =>
    rw [Prog.run_call_of (Store.exec_isWhitelistedBuilder hwhite)]
    refine .inr ⟨?_, Outcome.error_ne_ok _ _, herror _ ?_, rfl, rfl⟩
    · intro duty h
      cases hwhite.symm.trans h.whitelisted
    · intro h
      cases hwhite.symm.trans h.whitelisted
  | true =>
  rw [Prog.run_call_of (Store.exec_isWhitelistedBuilder hwhite)]
  simp only [Bool.not_true, Bool.false_eq_true, if_false]
  rw [Prog.run_call_of Store.exec_readHeadSlot]
  cases hnext : s.storage.readHeadSlot.isNextSlot R.build bid.message.slot with
  | none =>
    refine .inr ⟨?_, Outcome.aborted_ne_returned _, iff_of_true rfl ⟨hvalue, hwhite, hnext⟩, rfl,
      rfl⟩
    intro duty h
    cases hnext.symm.trans h.next_slot
  | some isNext =>
  have hno : ¬ Overflows R s bid := by
    intro h
    cases hnext.symm.trans h.overflow
  cases isNext with
  | false =>
    refine .inr ⟨?_, Outcome.error_ne_ok _ _, herror _ hno, rfl, rfl⟩
    intro duty h
    cases hnext.symm.trans h.next_slot
  | true =>
  simp only [Prog.ofOption_some, Prog.ret_bind, Bool.not_true, Bool.false_eq_true, if_false]
  rw [Prog.run_call_of Store.exec_readPayloadAttributes]
  by_cases hrandao : s.storage.readPayloadAttributes.prevRandao ≠ bid.executionPayload.prevRandao
  · rw [if_pos hrandao]
    refine .inr ⟨?_, Outcome.error_ne_ok _ _, herror _ hno, rfl, rfl⟩
    intro duty h
    exact hrandao h.randao
  rw [if_neg hrandao]
  cases hduty : s.storage.findDutyBySlot bid.message.slot with
  | none =>
    rw [Prog.run_call_of (Store.exec_findDutyBySlot hduty)]
    refine .inr ⟨?_, Outcome.error_ne_ok _ _, herror _ hno, rfl, rfl⟩
    intro duty h
    cases hduty.symm.trans h.duty_found
  | some duty =>
  rw [Prog.run_call_of (Store.exec_findDutyBySlot hduty)]
  cases hsigned : bid.message.verifySignature R.prims bid.signature R.builderDomain with
  | false =>
    refine .inr ⟨?_, Outcome.error_ne_ok _ _, herror _ hno, rfl, rfl⟩
    intro duty h
    cases hsigned.symm.trans h.signed
  | true =>
  simp only [Bool.not_true, Bool.false_eq_true, if_false]
  rcases Store.compareAndBid_cases s bid.message.slot bid with
    ⟨hbeats, hwon, -⟩ | ⟨hnot, ⟨e, hlost⟩, hsame⟩
  · rw [Prog.run_call_of (Store.exec_compareAndBid hwon)]
    exact .inl ⟨duty, ⟨hvalue, hwhite, hnext, not_not.mp hrandao, hduty, hsigned, hbeats⟩, rfl⟩
  · rw [Prog.run_call_of (Store.exec_compareAndBid hlost)]
    refine .inr ⟨?_, Outcome.error_ne_ok _ _, herror _ hno, rfl, hsame⟩
    intro duty h
    exact hnot h.beats

theorem run_execute_aborted_iff (R : Relay) (s : Store) (bid : BidSubmission) :
    ((execute R bid).run Store.exec s).1 = .aborted ↔ Overflows R s bid := by
  rcases run_execute R s bid with ⟨duty, hadmits, hrun⟩ | ⟨-, -, haborted, -⟩
  · rw [hrun]
    refine iff_of_false (fun h => by cases h) ?_
    intro h
    cases hadmits.next_slot.symm.trans h.overflow
  · exact haborted

/-- What a submission leaves of the store when it is accepted for `duty`: the cache changes at the
slot, the stored responses at the proposer of the duty, and nothing else changes. -/
structure Accepted (s s' : Store) (bid : BidSubmission) (duty : ProposerDuty) : Prop where
  best_eq : ∀ slot, s'.best slot = if slot = bid.message.slot then some bid else s.best slot
  response_eq : ∀ proposer, s'.storage.readBlindedBlockResponse proposer =
    if proposer = duty.pubkey then some bid.toBlindedBlockResponse
    else s.storage.readBlindedBlockResponse proposer
  rest_eq : { s'.storage with blindedBlocks := s.storage.blindedBlocks } = s.storage

theorem accepted_of_beats {s : Store} {bid : BidSubmission} (duty : ProposerDuty)
    (h : s.auctioneer.Beats bid.message.slot bid) :
    Accepted s (s.accept bid duty.pubkey) bid duty := by
  refine ⟨?_, ?_, rfl⟩
  · intro slot
    rw [Store.accept_best _ h, Function.update_apply]
  · intro proposer
    rw [Store.accept_storage, MemoryStorage.readBlindedBlockResponse_set]

/-- **`SubmitBid` accepts exactly the valid bids**, and a submission changes the two places it is
about or nothing. -/
theorem submit_bid_exact (R : Relay) (s : Store) (bid : BidSubmission) :
    (((execute R bid).run Store.exec s).1 = .returned (.ok ()) ↔
      bid.message.value ≠ 0 ∧
      s.storage.isWhitelistedBuilder bid.message.builderPubkey = true ∧
      s.storage.readHeadSlot.isNextSlot R.build bid.message.slot = some true ∧
      s.storage.readPayloadAttributes.prevRandao = bid.executionPayload.prevRandao ∧
      (∃ duty, s.storage.findDutyBySlot bid.message.slot = some duty) ∧
      bid.message.verifySignature R.prims bid.signature R.builderDomain = true ∧
      ¬ ∃ held, s.best bid.message.slot = some held ∧ bid.message.value ≤ held.message.value) ∧
    (∀ e, ((execute R bid).run Store.exec s).1 = .returned (.error e) →
      ((execute R bid).run Store.exec s).2.storage = s.storage ∧
      ((execute R bid).run Store.exec s).2.auctioneer = s.auctioneer) ∧
    (((execute R bid).run Store.exec s).1 = .returned (.ok ()) →
      ∃ duty, s.storage.findDutyBySlot bid.message.slot = some duty ∧
        Accepted s ((execute R bid).run Store.exec s).2 bid duty) := by
  have hbeats_iff : s.auctioneer.Beats bid.message.slot bid ↔
      ¬ ∃ held, s.best bid.message.slot = some held ∧ bid.message.value ≤ held.message.value := by
    rw [Store.beats_iff]
    simp only [not_exists, not_and, not_le]
  rcases run_execute R s bid with ⟨duty, h, hrun⟩ | ⟨hnot, hout, -, hstorage, hauctioneer⟩
  · rw [hrun]
    refine ⟨?_, ?_, ?_⟩
    · refine ⟨fun _ => ?_, fun _ => rfl⟩
      exact ⟨h.value_ne, h.whitelisted, h.next_slot, h.randao, ⟨duty, h.duty_found⟩, h.signed,
        hbeats_iff.mp h.beats⟩
    · intro e he
      cases he
    · intro _
      exact ⟨duty, h.duty_found, accepted_of_beats duty h.beats⟩
  · refine ⟨?_, fun _ _ => ⟨hstorage, hauctioneer⟩, fun h => absurd h hout⟩
    constructor
    · intro h
      exact absurd h hout
    · rintro ⟨hvalue, hwhite, hnext, hrandao, ⟨duty, hduty⟩, hsigned, hbest⟩
      exact absurd ⟨hvalue, hwhite, hnext, hrandao, hduty, hsigned, hbeats_iff.mpr hbest⟩
        (hnot duty)

end SubmitBidUseCase

end MevRelay
