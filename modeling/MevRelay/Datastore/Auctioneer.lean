import MevRelay.Entity
import MevRelay.Datastore.Storage

/-!
# The in-memory auctioneer

`MemoryAuctioneer` keeps one bid per slot in a `moka` cache. A bid is held behind an `Arc`, and
`compare_and_bid` decides whether its own bid got in by comparing *pointers*, not values, so an
`Arc` is modelled with its address. The entry operation of `moka` is taken as atomic per key.
-/

namespace MevRelay

/-- `std::sync::Arc`: a value and the address it was allocated at. -/
structure Arc (α : Type) where
  addr : Nat
  val : α
  deriving DecidableEq, Repr

/-- `Arc::ptr_eq`. -/
def Arc.ptrEq {α : Type} (a b : Arc α) : Bool := a.addr == b.addr

inductive AuctioneerError where
  | bidNotFound (slot : UInt64)
  | bidValueNotHighEnough (provided current : String)
  deriving DecidableEq, Repr

def AuctioneerError.toString : AuctioneerError → String
  | .bidNotFound slot => "bid not found for slot " ++ Nat.repr slot.toNat
  | .bidValueNotHighEnough provided current =>
    "bid value not high enough: provided " ++ provided ++ ", current " ++ current

/-- `moka`'s `entry(key).or_insert_with_if(init, replace_if)`: the value under `key` afterwards,
which is `init` if there was none or `replace_if` held of the old one, and the old one otherwise. -/
def Cache.orInsertWithIf {κ β : Type} [DecidableEq κ] (cache : HashMap κ β) (key : κ) (init : β)
    (replaceIf : β → Bool) : β × HashMap κ β :=
  match cache.lookup key with
  | none => (init, cache.insert key init)
  | some existing =>
    if replaceIf existing then (init, cache.insert key init) else (existing, cache)

structure MemoryAuctioneer where
  cache : HashMap UInt64 (Arc BidSubmission)

namespace MemoryAuctioneer

def new : MemoryAuctioneer := ⟨∅⟩

variable (au : MemoryAuctioneer)

def compareAndBid (slot : UInt64) (bid : Arc BidSubmission) :
    Except AuctioneerError Unit × MemoryAuctioneer :=
  let entry := Cache.orInsertWithIf au.cache slot bid fun existing =>
    bid.val.message.value > existing.val.message.value
  if !Arc.ptrEq entry.1 bid then
    (.error (.bidValueNotHighEnough bid.val.message.value.toString
      entry.1.val.message.value.toString), ⟨entry.2⟩)
  else
    (.ok (), ⟨entry.2⟩)

def getBestBid (slot : UInt64) : Except AuctioneerError (Arc BidSubmission) :=
  match au.cache.lookup slot with
  | some bid => .ok bid
  | none => .error (.bidNotFound slot)

/-- The cache drops the entry of `slot` (`time_to_live`, `time_to_idle`). -/
def expire (slot : UInt64) : MemoryAuctioneer := ⟨au.cache.erase slot⟩

/-! ## What a bid does -/

variable {au}

/-- The bid held for `slot` is worth less than `bid`, or there is none. -/
def Beats (au : MemoryAuctioneer) (slot : UInt64) (bid : BidSubmission) : Prop :=
  ∀ e, au.cache.lookup slot = some e → e.val.message.value < bid.message.value

/-- A bid that beats the one held takes its place. -/
theorem compareAndBid_of_beats {slot : UInt64} {bid : Arc BidSubmission}
    (h : au.Beats slot bid.val) :
    au.compareAndBid slot bid = (.ok (), ⟨au.cache.insert slot bid⟩) := by
  unfold compareAndBid Cache.orInsertWithIf
  cases hc : au.cache.lookup slot with
  | none => simp [Arc.ptrEq]
  | some e =>
    have he := h e hc
    simp [he, Arc.ptrEq]

/-- A bid that does not beat the one held is refused, provided it is a different allocation. -/
theorem compareAndBid_of_le {slot : UInt64} {bid e : Arc BidSubmission}
    (hc : au.cache.lookup slot = some e) (hle : bid.val.message.value ≤ e.val.message.value)
    (hne : e.addr ≠ bid.addr) :
    au.compareAndBid slot bid = (.error (.bidValueNotHighEnough bid.val.message.value.toString
      e.val.message.value.toString), au) := by
  unfold compareAndBid Cache.orInsertWithIf
  simp [hc, not_lt.mpr hle, Arc.ptrEq, hne]

/-- **What `compare_and_bid` can do** with an `Arc` that is not the one in the cache. -/
theorem compareAndBid_cases (slot : UInt64) (bid : Arc BidSubmission)
    (hne : ∀ e, au.cache.lookup slot = some e → e.addr ≠ bid.addr) :
    (au.Beats slot bid.val ∧
      au.compareAndBid slot bid = (.ok (), ⟨au.cache.insert slot bid⟩)) ∨
    (∃ e, au.cache.lookup slot = some e ∧ bid.val.message.value ≤ e.val.message.value ∧
      au.compareAndBid slot bid = (.error (.bidValueNotHighEnough bid.val.message.value.toString
        e.val.message.value.toString), au)) := by
  by_cases h : au.Beats slot bid.val
  · exact .inl ⟨h, compareAndBid_of_beats h⟩
  · simp only [Beats, not_forall, not_lt] at h
    obtain ⟨e, hc, hle⟩ := h
    exact .inr ⟨e, hc, hle, compareAndBid_of_le hc hle (hne e hc)⟩

end MemoryAuctioneer

end MevRelay
