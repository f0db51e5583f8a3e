import MevRelay.Atomic.SingleFlight
import MevRelay.Datastore.Auctioneer

/-!
# Concurrent bids on one slot

`Datastore.Auctioneer` takes `or_insert_with_if` as atomic. Here its calls on one key overlap, as
`moka` merges them: a call that finds another one initialising the key waits for it and gets that
one's bid back, without a look at its own `replace_if`. The pointer comparison after the call then
reports the other bid as too high, whatever the two are worth.

A call that runs alone does what the atomic model says (`alone_eq_compareAndBid`), and so do calls
that overlap, in the order in which they take effect, as long as none begins while one with a lower
bid initialises (`coalesced_bids_linearize`). Without that a higher bid is lost
(`coalesced_bids_settle_iff`).
-/

namespace MevRelay

namespace Coalescing

open SingleFlight

variable {ι : Type}

def bidValue (bid : Arc BidSubmission) : U256 := bid.val.message.value

/-- What `compare_and_bid` returns once it has got `entry`. -/
def report (bid entry : Arc BidSubmission) : Except AuctioneerError Unit :=
  if !Arc.ptrEq entry bid then
    .error (.bidValueNotHighEnough bid.val.message.value.toString
      entry.val.message.value.toString)
  else .ok ()

/-! ## Atomic calls -/

/-- The atomic call puts its bid, and reports what it finds there then. -/
theorem compareAndBid_put (au : MemoryAuctioneer) (slot : UInt64) (bid : Arc BidSubmission) :
    (au.compareAndBid slot bid).1 =
        report bid (put (outbids bidValue) (au.cache.lookup slot) bid) ∧
      (au.compareAndBid slot bid).2.cache.lookup slot =
        some (put (outbids bidValue) (au.cache.lookup slot) bid) := by
  by_cases hbeats : au.Beats slot bid.val
  · have hput : put (outbids bidValue) (au.cache.lookup slot) bid = bid := by
      apply put_of_replaces
      intro e he
      exact (outbids_eq_true bidValue).mpr (hbeats e he)
    rw [MemoryAuctioneer.compareAndBid_of_beats hbeats, hput]
    exact ⟨by simp [report, Arc.ptrEq], AList.lookup_insert au.cache⟩
  · simp only [MemoryAuctioneer.Beats, not_forall, not_lt] at hbeats
    obtain ⟨e, hlookup, hle⟩ := hbeats
    have hput : put (outbids bidValue) (au.cache.lookup slot) bid = e := by
      rw [hlookup]
      exact put_of_keeps _ ((outbids_eq_false bidValue).mpr hle)
    have hcall : au.compareAndBid slot bid = (report bid e, au) := by
      unfold MemoryAuctioneer.compareAndBid Cache.orInsertWithIf report
      rw [hlookup]
      by_cases hsame : Arc.ptrEq e bid = true
      · simp [not_lt.mpr hle, hsame]
      · simp [not_lt.mpr hle, hsame]
    rw [hcall, hput]
    exact ⟨rfl, hlookup⟩

/-- The cache after `compare_and_bid` calls for `slot`, one after the other. -/
def inTurn (bids : ι → Arc BidSubmission) (slot : UInt64) (order : List ι) : MemoryAuctioneer :=
  order.foldl (fun au i => (au.compareAndBid slot (bids i)).2) .new

theorem lookup_inTurn (bids : ι → Arc BidSubmission) (slot : UInt64) (order : List ι) :
    (inTurn bids slot order).cache.lookup slot = inOrder bids (outbids bidValue) order := by
  induction order using List.reverseRecOn with
  | nil => rfl
  | append_singleton order i ih =>
    have hconcat : inTurn bids slot (order ++ [i]) =
        ((inTurn bids slot order).compareAndBid slot (bids i)).2 := by
      unfold inTurn
      rw [List.foldl_append]
      rfl
    rw [hconcat, (compareAndBid_put _ _ _).2, inOrder_concat, ih]

/-! ## Calls that overlap -/

variable [DecidableEq ι]

/-- The slot's entry after a schedule of `compare_and_bid` calls, call `i` with `bids i`. -/
def bidding (bids : ι → Arc BidSubmission) (schedule : List ι) : State ι (Arc BidSubmission) :=
  run bids (outbids bidValue) schedule

/-- `get_best_bid(slot)`, when nothing expires. -/
def getBestBid (slot : UInt64) (s : State ι (Arc BidSubmission)) :
    Except AuctioneerError (Arc BidSubmission) :=
  match s.current with
  | some bid => .ok bid
  | none => .error (.bidNotFound slot)

/-- **A call on its own is the atomic `compare_and_bid`.** -/
theorem alone_eq_compareAndBid (bids : ι → Arc BidSubmission) (au : MemoryAuctioneer)
    (slot : UInt64) (s : State ι (Arc BidSubmission)) (i : ι) (hidle : s.phase i = .idle)
    (hfree : s.initializing = none) (hcurrent : s.current = au.cache.lookup slot) :
    let s' := (s.step bids (outbids bidValue) i).step bids (outbids bidValue) i
    s'.initializing = none ∧
      s'.current = (au.compareAndBid slot (bids i)).2.cache.lookup slot ∧
      ∃ entry, s'.phase i = .returned entry ∧
        report (bids i) entry = (au.compareAndBid slot (bids i)).1 := by
  intro s'
  obtain ⟨hreport, hlookup⟩ := compareAndBid_put au slot (bids i)
  obtain ⟨hfree', hcurrent', hphase⟩ := alone_puts bids (outbids bidValue) hidle hfree
  rw [hcurrent] at hcurrent' hphase
  exact ⟨hfree', hcurrent'.trans hlookup.symm, _, hphase, hreport.symm⟩

/-- **Overlapping calls are linearizable** if no call begins while one with a lower bid initialises:
they take effect in one order, each after it has begun and before it has returned, and each returns
what the atomic `compare_and_bid` returns at its place in this order. -/
theorem coalesced_bids_linearize (bids : ι → Arc BidSubmission) (slot : UInt64)
    (schedule : List ι) (hsafe : Safe bidValue bids schedule) :
    ∃ order : List ι → List ι, ∀ before, before <+: schedule →
      order before <+: order schedule ∧ (order before).Nodup ∧
      (∀ i ∈ order before, (bidding bids before).phase i ≠ .idle) ∧
      (∀ i entry, (bidding bids before).phase i = .returned entry →
        ∃ l, l ++ [i] <+: order before ∧
          report (bids i) entry = ((inTurn bids slot l).compareAndBid slot (bids i)).1) ∧
      getBestBid slot (bidding bids before) = (inTurn bids slot (order before)).getBestBid slot := by
  refine ⟨fun before => (ordered bids (outbids bidValue) before).order, ?_⟩
  intro before hbefore
  have hlinear : Linear bidValue bids (ordered bids (outbids bidValue) before) :=
    run_linear (hsafe.restrict hbefore)
  have hstate : (ordered bids (outbids bidValue) before).state = bidding bids before :=
    ordered_state bids (outbids bidValue) before
  refine ⟨order_grows bids _ hbefore, hlinear.nodup.of_append_left, ?_, ?_, ?_⟩
  · intro i hi
    rw [← hstate]
    exact (hlinear.agrees.begun hi).1
  · intro i entry hentry
    rw [← hstate] at hentry
    obtain ⟨l, l', hsplit⟩ := List.append_of_mem (hlinear.returned i entry hentry)
    have hplace : l ++ [i] <+: (ordered bids (outbids bidValue) before).order :=
      ⟨l', by rw [hsplit]; simp⟩
    refine ⟨l, hplace, ?_⟩
    rw [(compareAndBid_put _ _ _).1, lookup_inTurn]
    rcases hlinear.agrees l i hplace with hreturned | ⟨j, hwaiting, -⟩
    · cases hentry.symm.trans hreturned
      rfl
    · cases hentry.symm.trans hwaiting
  · have hcurrent := hlinear.current
    rw [hstate] at hcurrent
    have hlookup := lookup_inTurn bids slot (ordered bids (outbids bidValue) before).order
    rw [← hcurrent] at hlookup
    cases hheld : (bidding bids before).current with
    | none =>
      rw [hheld] at hlookup
      simp only [getBestBid, MemoryAuctioneer.getBestBid, hlookup, hheld]
    | some best =>
      rw [hheld] at hlookup
      simp only [getBestBid, MemoryAuctioneer.getBestBid, hlookup, hheld]

/-- A call that is refused has lost to the bid it got back. -/
theorem report_error {bid entry : Arc BidSubmission} {e : AuctioneerError}
    (h : report bid entry = .error e) :
    e = .bidValueNotHighEnough bid.val.message.value.toString
      entry.val.message.value.toString := by
  unfold report at h
  split at h
  · cases h
    rfl
  · cases h

theorem report_of_addr_ne {bid entry : Arc BidSubmission} (h : entry.addr ≠ bid.addr) :
    ∃ e, report bid entry = .error e := by
  unfold report Arc.ptrEq
  simp [h]

/-- **When no higher bid is lost**: exactly if every call that begins while another one initialises
bids at most as much. -/
theorem coalesced_bids_settle_iff {ι : Type} [DecidableEq ι] (bids : ι → Arc BidSubmission)
    (hallocated : Function.Injective fun i => (bids i).addr) (slot : UInt64) (schedule : List ι)
    (hdone : ∀ i, ∃ entry, (bidding bids schedule).phase i = .returned entry) :
    ((∀ i, ∃ k, getBestBid slot (bidding bids schedule) = .ok (bids k) ∧
        (bids i).val.message.value ≤ (bids k).val.message.value) ∧
      ∀ i entry, (bidding bids schedule).phase i = .returned entry →
        ∀ e, report (bids i) entry = .error e →
          e = .bidValueNotHighEnough (bids i).val.message.value.toString
            entry.val.message.value.toString ∧
          (bids i).val.message.value ≤ entry.val.message.value) ↔
    (∀ before i, before ++ [i] <+: schedule → (bidding bids before).phase i = .idle →
      ∀ j, (bidding bids before).initializing = some j →
        (bids i).val.message.value ≤ (bids j).val.message.value) := by
  constructor
  · rintro ⟨-, hrefused⟩ before i ⟨rest, rfl⟩ hidle j hinit
    by_cases hij : i = j
    · rw [hij]
    -- the call got the other one's bid back and took it for a higher one: `hrefused` says of a
    -- refused call that its bid is not worth more than the one it got back
    obtain ⟨entry, hentry⟩ := hdone i
    have hbid : entry = bids j := by
      have hwaited : Waited bids (bidding bids (before ++ i :: rest)) i j :=
        run_waited hidle hinit
      rw [← List.append_cons] at hentry
      rcases hwaited with hwaiting | hreturned
      · cases hentry.symm.trans hwaiting
      · cases hentry.symm.trans hreturned
        rfl
    subst hbid
    have hne : (bids j).addr ≠ (bids i).addr := fun h => hij (hallocated h).symm
    obtain ⟨e, he⟩ := report_of_addr_ne hne
    exact (hrefused i (bids j) hentry e he).2
  · intro hsafe
    have hinv : Inv bidValue bids (bidding bids schedule) := run_inv hsafe
    refine ⟨?_, ?_⟩
    · intro i
      obtain ⟨entry, hentry⟩ := hdone i
      obtain ⟨hle, best, hbest, hle'⟩ := hinv.returned i entry hentry
      obtain ⟨k, rfl⟩ := hinv.held best hbest
      exact ⟨k, by simp only [getBestBid, hbest], hle.trans hle'⟩
    · intro i entry hentry e he
      exact ⟨report_error he, (hinv.returned i entry hentry).1⟩

/-- An offer at its own address. -/
def offer (addr : Nat) (value : U256) : Arc BidSubmission :=
  ⟨addr, { (default : BidSubmission) with
    message := { (default : BidTrace) with value := value } }⟩

/-- Two calls: `false` bids 1, `true` bids 2. -/
def twoBids : Bool → Arc BidSubmission
  | false => offer 0 1
  | true => offer 1 2

theorem twoBids_allocated : Function.Injective fun i => (twoBids i).addr := by
  have hdistinct : ∀ i j, (twoBids i).addr = (twoBids j).addr → i = j := by decide
  intro i j h
  exact hdistinct i j h

/-- The lower bid begins while the higher one is being inserted: the slot ends at the higher one. -/
theorem coalesced_bids_settle_overlapping :
    ∃ k, getBestBid 2 (bidding twoBids [true, false, true, false]) = .ok (twoBids k) ∧
      (twoBids false).val.message.value ≤ (twoBids k).val.message.value := by
  refine ((coalesced_bids_settle_iff twoBids twoBids_allocated 2 [true, false, true, false]
    ?_).mpr ?_).1 false
  · intro i
    cases i with
    | false => exact ⟨_, rfl⟩
    | true => exact ⟨_, rfl⟩
  · rintro before i ⟨rest, hsplit⟩ hidle j hinit
    rcases before with _ | ⟨i₁, _ | ⟨i₂, _ | ⟨i₃, _ | ⟨i₄, before⟩⟩⟩⟩
    · cases hinit
    · -- the one call that begins while another one initialises
      cases hsplit
      cases hinit
      decide
    · cases hsplit
      cases hidle
    · cases hsplit
      cases hidle
    · have hlen := congrArg List.length hsplit
      simp at hlen

/-- The higher bid begins while the lower one is being inserted: it is lost, and its call is told
that 1 is more than 2. -/
theorem coalesced_bids_lose :
    ¬ ∀ (ι : Type) [DecidableEq ι] (bids : ι → Arc BidSubmission),
      (Function.Injective fun i => (bids i).addr) → ∀ (slot : UInt64) (schedule : List ι),
      (∀ i, ∃ entry, (bidding bids schedule).phase i = .returned entry) →
      (∀ i, ∃ k, getBestBid slot (bidding bids schedule) = .ok (bids k) ∧
        (bids i).val.message.value ≤ (bids k).val.message.value) ∧
      ∀ i entry, (bidding bids schedule).phase i = .returned entry →
        ∀ e, report (bids i) entry = .error e →
          e = .bidValueNotHighEnough (bids i).val.message.value.toString
            entry.val.message.value.toString ∧
          (bids i).val.message.value ≤ entry.val.message.value := by
  intro h
  have hdone : ∀ i, ∃ entry, (bidding twoBids [false, true, false, true]).phase i =
      .returned entry := by
    intro i
    cases i with
    | false => exact ⟨_, rfl⟩
    | true => exact ⟨_, rfl⟩
  have hrefused := (h Bool twoBids twoBids_allocated 2 [false, true, false, true] hdone).2 true
    (twoBids false) rfl _ rfl
  exact absurd hrefused.2 (by decide)

end Coalescing

end MevRelay
