import MevRelay.Atomic.Pool
import MevRelay.Datastore.Auctioneer

/-!
# The shared state and its atomic calls

`Store` is everything the relay's tasks share: the storage, the auctioneer, and the allocator behind
`Arc::new`. `StoreOp` lists the atomic calls: every method of the `Storage` trait (one lock
acquisition each) and every method of the `Auctioneer` trait (one cache operation each). The use
cases are programs over these calls.

`SubmitBid` allocates its `Arc` right before it bids with it, and no other task can see the
allocation before the cache does, so `compare_and_bid(slot, Arc::new(bid))` is one call here.
-/

namespace MevRelay

/-- What all tasks of the relay share. Addresses from `nextArc` on are unused. -/
structure Store where
  storage : MemoryStorage
  auctioneer : MemoryAuctioneer
  nextArc : Nat
  /-- A cached `Arc` has been allocated. -/
  allocated : ∀ slot e, auctioneer.cache.lookup slot = some e → e.addr < nextArc

namespace Store

/-- `run_inner` starts from `MemoryStorage::new(config.enabled_builders)` and an empty cache. -/
def new (whitelist : List BlsPublicKey) : Store where
  storage := .new whitelist
  auctioneer := .new
  nextArc := 0
  allocated := by
    intro slot e h
    cases h

variable (s : Store)

/-- `compare_and_bid(slot, Arc::new(bid))`: its answer and the auctioneer after it. -/
def bidWith (slot : UInt64) (bid : BidSubmission) :
    Except AuctioneerError Unit × MemoryAuctioneer :=
  s.auctioneer.compareAndBid slot ⟨s.nextArc, bid⟩

/-- What a bid can do: take the place of a lower one or of none, or be refused. -/
theorem bidWith_cases (slot : UInt64) (bid : BidSubmission) :
    (s.auctioneer.Beats slot bid ∧
      s.bidWith slot bid = (.ok (), ⟨s.auctioneer.cache.insert slot ⟨s.nextArc, bid⟩⟩)) ∨
    (∃ e, s.auctioneer.cache.lookup slot = some e ∧ bid.message.value ≤ e.val.message.value ∧
      s.bidWith slot bid = (.error (.bidValueNotHighEnough bid.message.value.toString
        e.val.message.value.toString), s.auctioneer)) :=
  MemoryAuctioneer.compareAndBid_cases slot ⟨s.nextArc, bid⟩
    fun e he => Nat.ne_of_lt (s.allocated slot e he)

def compareAndBid (slot : UInt64) (bid : BidSubmission) : Except AuctioneerError Unit × Store :=
  ((s.bidWith slot bid).1,
    { storage := s.storage
      auctioneer := (s.bidWith slot bid).2
      nextArc := s.nextArc + 1
      allocated := by
        intro slot' e he
        rcases s.bidWith_cases slot bid with ⟨-, h⟩ | ⟨_, -, -, h⟩
        · rw [h] at he
          by_cases hs : slot' = slot
          · subst hs
            cases (AList.lookup_insert _).symm.trans he
            exact Nat.lt_succ_self _
          · rw [AList.lookup_insert_ne hs] at he
            exact Nat.lt_succ_of_lt (s.allocated slot' e he)
        · rw [h] at he
          exact Nat.lt_succ_of_lt (s.allocated slot' e he) })

/-- The environment: the cache drops the entry of a slot. -/
def expire (slot : UInt64) : Store where
  storage := s.storage
  auctioneer := s.auctioneer.expire slot
  nextArc := s.nextArc
  allocated := by
    intro slot' e he
    by_cases hs : slot' = slot
    · subst hs
      cases (AList.lookup_erase _ _).symm.trans he
    · exact s.allocated slot' e ((AList.lookup_erase_ne hs).symm.trans he)

/-- The bid held for a slot. -/
def best (slot : UInt64) : Option BidSubmission :=
  (s.auctioneer.cache.lookup slot).map Arc.val

/-- The store after `SubmitBid` accepted `bid` for a duty of `proposer`. -/
def accept (bid : BidSubmission) (proposer : BlsPublicKey) : Store :=
  { (s.compareAndBid bid.message.slot bid).2 with
    storage := s.storage.setBlindedBlockResponse proposer bid.toBlindedBlockResponse }

/-! ## What a bid does to the store -/

variable {s}

theorem beats_iff {slot : UInt64} {bid : BidSubmission} :
    s.auctioneer.Beats slot bid ↔
      ∀ b, s.best slot = some b → b.message.value < bid.message.value := by
  simp [MemoryAuctioneer.Beats, best]

theorem getBestBid_of_best {slot : UInt64} {b : BidSubmission} (h : s.best slot = some b) :
    ∃ e : Arc BidSubmission, s.auctioneer.getBestBid slot = .ok e ∧ e.val = b := by
  obtain ⟨e, he, rfl⟩ := Option.map_eq_some_iff.mp h
  exact ⟨e, by simp only [MemoryAuctioneer.getBestBid, he], rfl⟩

theorem best_of_getBestBid {slot : UInt64} {e : Arc BidSubmission}
    (h : s.auctioneer.getBestBid slot = .ok e) : s.best slot = some e.val := by
  unfold MemoryAuctioneer.getBestBid at h
  split at h
  · next he =>
    cases h
    simp only [best, he, Option.map_some]
  · cases h

/-- **What `compare_and_bid` can do to the store**: put the bid in the place of a lower one or of
none, or nothing but use up an address. -/
theorem compareAndBid_cases (s : Store) (slot : UInt64) (bid : BidSubmission) :
    (s.auctioneer.Beats slot bid ∧ (s.compareAndBid slot bid).1 = .ok () ∧
      (s.compareAndBid slot bid).2.best = Function.update s.best slot (some bid)) ∨
    (¬ s.auctioneer.Beats slot bid ∧ (∃ e, (s.compareAndBid slot bid).1 = .error e) ∧
      (s.compareAndBid slot bid).2.auctioneer = s.auctioneer) := by
  rcases s.bidWith_cases slot bid with ⟨hbeats, h⟩ | ⟨e, he, hle, h⟩
  · refine .inl ⟨hbeats, congrArg Prod.fst h, ?_⟩
    funext slot'
    simp only [best, compareAndBid, h]
    by_cases hs : slot' = slot
    · subst hs
      rw [AList.lookup_insert, Function.update_self]
      rfl
    · rw [AList.lookup_insert_ne hs, Function.update_of_ne hs]
      rfl
  · exact .inr ⟨fun hbeats => not_lt.mpr hle (hbeats e he), ⟨_, congrArg Prod.fst h⟩,
      congrArg Prod.snd h⟩

theorem best_congr {s' : Store} (h : s'.auctioneer = s.auctioneer) : s'.best = s.best := by
  funext slot
  simp only [best, h]

@[simp] theorem accept_storage (bid : BidSubmission) (proposer : BlsPublicKey) :
    (s.accept bid proposer).storage =
      s.storage.setBlindedBlockResponse proposer bid.toBlindedBlockResponse := rfl

theorem accept_best {bid : BidSubmission} (proposer : BlsPublicKey)
    (h : s.auctioneer.Beats bid.message.slot bid) :
    (s.accept bid proposer).best = Function.update s.best bid.message.slot (some bid) := by
  rcases compareAndBid_cases s bid.message.slot bid with ⟨-, -, hbest⟩ | ⟨hnot, -⟩
  · exact hbest
  · exact absurd h hnot

theorem expire_best (slot slot' : UInt64) :
    (s.expire slot).best slot' = if slot' = slot then none else s.best slot' := by
  simp only [best, expire, MemoryAuctioneer.expire]
  by_cases h : slot' = slot
  · rw [if_pos h, h, AList.lookup_erase]
    rfl
  · rw [if_neg h, AList.lookup_erase_ne h]

end Store

inductive StoreOp where
  | setHeadSlot (slot : HeadSlot)
  | readHeadSlot
  | setPayloadAttributes (attrs : PayloadAttributes)
  | readPayloadAttributes
  | setValidatorRegistration (key : BlsPublicKey) (reg : ValidatorRegistration)
  | readValidatorRegistration (key : BlsPublicKey)
  | emptyValidatorRegs
  | isWhitelistedBuilder (key : BlsPublicKey)
  | setProposerDuties (duties : List ProposerDuty)
  | findDutyBySlot (slot : UInt64)
  | setBlindedBlockResponse (proposer : BlsPublicKey) (resp : BlindedBlockResponse)
  | readBlindedBlockResponse (proposer : BlsPublicKey)
  | setDeliveredBlocks (blockHash : B256)
  | compareAndBid (slot : UInt64) (bid : BidSubmission)
  | getBestBid (slot : UInt64)

/-- What each call answers. -/
@[reducible] def StoreOp.Ans : StoreOp → Type
  | .setHeadSlot _ => Unit
  | .readHeadSlot => HeadSlot
  | .setPayloadAttributes _ => Unit
  | .readPayloadAttributes => PayloadAttributes
  | .setValidatorRegistration _ _ => Unit
  | .readValidatorRegistration _ => Option ValidatorRegistration
  | .emptyValidatorRegs => Bool
  | .isWhitelistedBuilder _ => Bool
  | .setProposerDuties _ => Unit
  | .findDutyBySlot _ => Option ProposerDuty
  | .setBlindedBlockResponse _ _ => Unit
  | .readBlindedBlockResponse _ => Option BlindedBlockResponse
  | .setDeliveredBlocks _ => Unit
  | .compareAndBid _ _ => Except AuctioneerError Unit
  | .getBestBid _ => Except AuctioneerError (Arc BidSubmission)

/-- What each call does. -/
def Store.exec : (o : StoreOp) → Store → o.Ans × Store
  | .setHeadSlot slot, s => ((), { s with storage := s.storage.setHeadSlot slot })
  | .readHeadSlot, s => (s.storage.readHeadSlot, s)
  | .setPayloadAttributes attrs, s =>
    ((), { s with storage := s.storage.setPayloadAttributes attrs })
  | .readPayloadAttributes, s => (s.storage.readPayloadAttributes, s)
  | .setValidatorRegistration key reg, s =>
    ((), { s with storage := s.storage.setValidatorRegistration key reg })
  | .readValidatorRegistration key, s => (s.storage.readValidatorRegistration key, s)
  | .emptyValidatorRegs, s => (s.storage.emptyValidatorRegs, s)
  | .isWhitelistedBuilder key, s => (s.storage.isWhitelistedBuilder key, s)
  | .setProposerDuties duties, s => ((), { s with storage := s.storage.setProposerDuties duties })
  | .findDutyBySlot slot, s => (s.storage.findDutyBySlot slot, s)
  | .setBlindedBlockResponse proposer resp, s =>
    ((), { s with storage := s.storage.setBlindedBlockResponse proposer resp })
  | .readBlindedBlockResponse proposer, s => (s.storage.readBlindedBlockResponse proposer, s)
  | .setDeliveredBlocks blockHash, s =>
    ((), { s with storage := s.storage.setDeliveredBlocks blockHash })
  | .compareAndBid slot bid, s => s.compareAndBid slot bid
  | .getBestBid slot, s => (s.auctioneer.getBestBid slot, s)

/-! ## Kinds of calls -/

/-- The calls that only read. -/
def StoreOp.IsRead : StoreOp → Prop
  | .readHeadSlot => True
  | .readPayloadAttributes => True
  | .readValidatorRegistration _ => True
  | .emptyValidatorRegs => True
  | .isWhitelistedBuilder _ => True
  | .findDutyBySlot _ => True
  | .readBlindedBlockResponse _ => True
  | .getBestBid _ => True
  | _ => False

/-- The writes of the background task. -/
def StoreOp.IsBackground : StoreOp → Prop
  | .setHeadSlot _ => True
  | .setPayloadAttributes _ => True
  | .setProposerDuties _ => True
  | _ => False

/-! ## What each call can change

One lemma per part of the store: a call leaves the part alone, or it is the one call that writes
it. -/

namespace Store

variable (o : StoreOp) (s : Store)

theorem exec_best :
    (exec o s).2.best = s.best ∨ ∃ slot bid, o = .compareAndBid slot bid ∧
      s.auctioneer.Beats slot bid ∧ (s.compareAndBid slot bid).1 = .ok () ∧
      (exec o s).2.best = Function.update s.best slot (some bid) := by
  cases o with
  | compareAndBid slot bid =>
    rcases compareAndBid_cases s slot bid with ⟨hbeats, hok, h⟩ | ⟨-, -, h⟩
    · exact .inr ⟨slot, bid, rfl, hbeats, hok, h⟩
    · exact .inl (best_congr h)
  | _ => exact .inl rfl

theorem exec_auctioneer :
    (exec o s).2.auctioneer = s.auctioneer ∨ ∃ slot bid, o = .compareAndBid slot bid := by
  cases o with
  | compareAndBid slot bid => exact .inr ⟨slot, bid, rfl⟩
  | _ => exact .inl rfl

theorem exec_blindedBlocks :
    (exec o s).2.storage.blindedBlocks = s.storage.blindedBlocks ∨
      ∃ proposer resp, o = .setBlindedBlockResponse proposer resp := by
  cases o with
  | setBlindedBlockResponse proposer resp => exact .inr ⟨proposer, resp, rfl⟩
  | _ => exact .inl rfl

theorem exec_validatorRegistrations :
    (exec o s).2.storage.validatorRegistrations = s.storage.validatorRegistrations ∨
      ∃ key reg, o = .setValidatorRegistration key reg := by
  cases o with
  | setValidatorRegistration key reg => exact .inr ⟨key, reg, rfl⟩
  | _ => exact .inl rfl

theorem exec_proposerDuties :
    (exec o s).2.storage.proposerDuties = s.storage.proposerDuties ∨
      ∃ duties, o = .setProposerDuties duties := by
  cases o with
  | setProposerDuties duties => exact .inr ⟨duties, rfl⟩
  | _ => exact .inl rfl

theorem exec_deliveredBlocks :
    (exec o s).2.storage.deliveredBlocks = s.storage.deliveredBlocks ∨
      ∃ blockHash, o = .setDeliveredBlocks blockHash := by
  cases o with
  | setDeliveredBlocks blockHash => exact .inr ⟨blockHash, rfl⟩
  | _ => exact .inl rfl

theorem exec_background :
    ((exec o s).2.storage.headSlot = s.storage.headSlot ∧
      (exec o s).2.storage.payloadAttributes = s.storage.payloadAttributes ∧
      (exec o s).2.storage.proposerDuties = s.storage.proposerDuties) ∨ o.IsBackground := by
  cases o <;> first | exact .inl ⟨rfl, rfl, rfl⟩ | exact .inr trivial

theorem exec_whitelist : (exec o s).2.storage.whitelist = s.storage.whitelist := by
  cases o <;> rfl

end Store

/-! ## Calls with a known answer -/

namespace Store

variable {s : Store}

theorem exec_isWhitelistedBuilder {key : BlsPublicKey} {b : Bool}
    (h : s.storage.isWhitelistedBuilder key = b) :
    exec (.isWhitelistedBuilder key) s = (b, s) := congrArg (·, s) h

theorem exec_readHeadSlot : exec .readHeadSlot s = (s.storage.readHeadSlot, s) := rfl

theorem exec_readPayloadAttributes :
    exec .readPayloadAttributes s = (s.storage.readPayloadAttributes, s) := rfl

theorem exec_readValidatorRegistration {key : BlsPublicKey} {r : Option ValidatorRegistration}
    (h : s.storage.readValidatorRegistration key = r) :
    exec (.readValidatorRegistration key) s = (r, s) := congrArg (·, s) h

theorem exec_findDutyBySlot {slot : UInt64} {d : Option ProposerDuty}
    (h : s.storage.findDutyBySlot slot = d) :
    exec (.findDutyBySlot slot) s = (d, s) := congrArg (·, s) h

theorem exec_readBlindedBlockResponse {proposer : BlsPublicKey} {r : Option BlindedBlockResponse}
    (h : s.storage.readBlindedBlockResponse proposer = r) :
    exec (.readBlindedBlockResponse proposer) s = (r, s) := congrArg (·, s) h

theorem exec_getBestBid {slot : UInt64} {r : Except AuctioneerError (Arc BidSubmission)}
    (h : s.auctioneer.getBestBid slot = r) :
    exec (.getBestBid slot) s = (r, s) := congrArg (·, s) h

theorem exec_compareAndBid {slot : UInt64} {bid : BidSubmission}
    {r : Except AuctioneerError Unit} (h : (s.compareAndBid slot bid).1 = r) :
    exec (.compareAndBid slot bid) s = (r, (s.compareAndBid slot bid).2) :=
  congrArg (·, (s.compareAndBid slot bid).2) h

end Store

/-! ## How programs call -/

/-- Programs over the shared state. -/
abbrev StoreProg (α : Type) := Atomic.Prog StoreOp StoreOp.Ans α

/-- A call and its answer, as a task of the relay saw it. -/
abbrev StoreEvent := Atomic.Event StoreOp.Ans

/-- What the event of a call says about the call. -/
theorem Store.exec_of_event_eq {o o' : StoreOp} {ans : o'.Ans} {s : Store}
    (h : (⟨o, (exec o s).1⟩ : StoreEvent) = ⟨o', ans⟩) : o = o' ∧ (exec o' s).1 = ans := by
  injection h with ho hans
  subst ho
  exact ⟨rfl, eq_of_heq hans⟩

/-- `self.storage.method(..)`. -/
abbrev storage (o : StoreOp) : StoreProg o.Ans := Atomic.Prog.op o

/-- `self.auctioneer.method(..).await`. -/
abbrev auctioneer (o : StoreOp) : StoreProg o.Ans := Atomic.Prog.op o

/-- A computation that panics on `none`. -/
abbrev orPanic {α : Type} (o : Option α) : StoreProg α := Atomic.Prog.ofOption o

end MevRelay
