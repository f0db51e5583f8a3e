import MevRelay.Datastore.Auctioneer
import Mathlib.Data.List.Induction

/-!
# The auction over whole sequences of bids

Any number of `compare_and_bid` calls from the empty cache, for any slots in any order, each with an
`Arc` of its own. What the cache holds for a slot is the *leader* of the bids submitted for it: the
first one of the greatest value. `cache_after` is the invariant; acceptance, refusal and the
independence of the order follow from it.
-/

namespace MevRelay

/-! ## Leaders of a list -/

section Leads

variable {β κ : Type} [LinearOrder κ] {value : β → κ}

/-- `b` is the first of the items with the greatest value. -/
def Leads (value : β → κ) (b : β) (items : List β) : Prop :=
  ∃ earlier later, items = earlier ++ b :: later ∧ (∀ x ∈ earlier, value x < value b) ∧
    ∀ x ∈ later, value x ≤ value b

theorem Leads.mem {b : β} {items : List β} (h : Leads value b items) : b ∈ items := by
  obtain ⟨earlier, later, rfl, -, -⟩ := h
  exact List.mem_append_right _ List.mem_cons_self

theorem Leads.le {b : β} {items : List β} (h : Leads value b items) :
    ∀ x ∈ items, value x ≤ value b := by
  obtain ⟨earlier, later, rfl, hearlier, hlater⟩ := h
  intro x hx
  simp only [List.mem_append, List.mem_cons] at hx
  rcases hx with hx | rfl | hx
  · exact (hearlier x hx).le
  · exact le_rfl
  · exact hlater x hx

/-- A new item leads if it is greater than all before. -/
theorem leads_concat_self {b : β} {items : List β} (h : ∀ x ∈ items, value x < value b) :
    Leads value b (items ++ [b]) :=
  ⟨items, [], rfl, h, fun _ hx => absurd hx List.not_mem_nil⟩

/-- A new item that is not greater than the leader leaves it in place. -/
theorem Leads.concat {b x : β} {items : List β} (h : Leads value b items)
    (hx : value x ≤ value b) : Leads value b (items ++ [x]) := by
  obtain ⟨earlier, later, rfl, hearlier, hlater⟩ := h
  refine ⟨earlier, later ++ [x], by simp, hearlier, ?_⟩
  intro y hy
  rcases List.mem_append.mp hy with hy | hy
  · exact hlater y hy
  · rw [List.mem_singleton.mp hy]
    exact hx

/-- The leaders of two arrangements of the same items are worth the same. -/
theorem Leads.value_eq {b c : β} {items others : List β} (hb : Leads value b items)
    (hc : Leads value c others) (h : ∀ x, x ∈ items ↔ x ∈ others) : value b = value c :=
  le_antisymm (hc.le b ((h b).mp hb.mem)) (hb.le c ((h c).mpr hc.mem))

end Leads

/-! ## Sequences of calls -/

namespace MemoryAuctioneer

/-- The auctioneer after the calls `compare_and_bid(slot, bid)` in order. -/
def submit (au : MemoryAuctioneer) (calls : List (UInt64 × Arc BidSubmission)) :
    MemoryAuctioneer :=
  calls.foldl (fun au call => (au.compareAndBid call.1 call.2).2) au

/-- The bids submitted for `slot`, in order. -/
def bidsFor (slot : UInt64) (calls : List (UInt64 × Arc BidSubmission)) :
    List (Arc BidSubmission) :=
  (calls.filter fun call => call.1 == slot).map Prod.snd

/-- What a bid is worth. -/
def bidValue (bid : Arc BidSubmission) : U256 := bid.val.message.value

/-- The value that wins the slot. -/
def bestValue (au : MemoryAuctioneer) (slot : UInt64) : Option U256 :=
  (au.getBestBid slot).toOption.map bidValue

/-- No two calls pass the same allocation. -/
def DistinctArcs (calls : List (UInt64 × Arc BidSubmission)) : Prop :=
  (calls.map fun call => call.2.addr).Nodup

instance (calls : List (UInt64 × Arc BidSubmission)) : Decidable (DistinctArcs calls) :=
  inferInstanceAs (Decidable (List.Nodup _))

variable {calls : List (UInt64 × Arc BidSubmission)} {slot : UInt64} {bid : Arc BidSubmission}

theorem submit_concat (au : MemoryAuctioneer) (call : UInt64 × Arc BidSubmission) :
    au.submit (calls ++ [call]) = ((au.submit calls).compareAndBid call.1 call.2).2 := by
  simp only [submit, List.foldl_append, List.foldl_cons, List.foldl_nil]

theorem mem_bidsFor {slot : UInt64} {bid : Arc BidSubmission} :
    bid ∈ bidsFor slot calls ↔ (slot, bid) ∈ calls := by
  simp [bidsFor]

theorem bidsFor_concat_self : bidsFor slot (calls ++ [(slot, bid)]) = bidsFor slot calls ++ [bid] := by
  simp [bidsFor]

theorem bidsFor_concat_ne {slot' : UInt64} (h : slot' ≠ slot) :
    bidsFor slot' (calls ++ [(slot, bid)]) = bidsFor slot' calls := by
  simp [bidsFor, h.symm]

/-- What the cache holds for a slot, given the bids submitted for it. -/
def Holds (au : MemoryAuctioneer) (slot : UInt64) (bids : List (Arc BidSubmission)) : Prop :=
  match au.cache.lookup slot with
  | none => bids = []
  | some e => Leads bidValue e bids

theorem DistinctArcs.of_append {calls' : List (UInt64 × Arc BidSubmission)}
    (h : DistinctArcs (calls ++ calls')) : DistinctArcs calls := by
  unfold DistinctArcs at h ⊢
  rw [List.map_append] at h
  exact h.of_append_left

/-- A bid with a new `Arc`, against the leader or against nobody. -/
theorem compareAndBid_of_holds {au : MemoryAuctioneer} (hau : au.Holds slot (bidsFor slot calls))
    (hnew : DistinctArcs (calls ++ [(slot, bid)])) :
    ((∀ x ∈ bidsFor slot calls, bidValue x < bidValue bid) ∧
      au.compareAndBid slot bid = (.ok (), ⟨au.cache.insert slot bid⟩)) ∨
    (∃ e, au.cache.lookup slot = some e ∧ Leads bidValue e (bidsFor slot calls) ∧
      bidValue bid ≤ bidValue e ∧
      au.compareAndBid slot bid = (.error (.bidValueNotHighEnough (bidValue bid).toString
        (bidValue e).toString), au)) := by
  have hne : ∀ e, au.cache.lookup slot = some e → e.addr ≠ bid.addr := by
    intro e he heq
    simp only [Holds, he] at hau
    unfold DistinctArcs at hnew
    rw [List.map_append, List.nodup_append] at hnew
    exact hnew.2.2 _ (List.mem_map_of_mem (mem_bidsFor.mp hau.mem)) _ List.mem_cons_self heq
  rcases compareAndBid_cases slot bid hne with ⟨hbeats, h⟩ | ⟨e, he, hle, h⟩
  · refine .inl ⟨?_, h⟩
    intro x hx
    cases hc : au.cache.lookup slot with
    | none =>
      simp only [Holds, hc] at hau
      rw [hau] at hx
      cases hx
    | some e =>
      simp only [Holds, hc] at hau
      exact (hau.le x hx).trans_lt (hbeats e hc)
  · simp only [Holds, he] at hau
    exact .inr ⟨e, he, hau, hle, h⟩

/-- **The invariant of the auction**: for every slot the cache holds the leader of its bids. -/
theorem cache_after (h : DistinctArcs calls) (slot : UInt64) :
    (new.submit calls).Holds slot (bidsFor slot calls) := by
  induction calls using List.reverseRecOn generalizing slot with
  | nil => rfl
  | append_singleton calls call ih =>
    obtain ⟨slot', bid⟩ := call
    have hau := ih h.of_append
    rw [submit_concat]
    rcases compareAndBid_of_holds (hau slot') h with ⟨hgt, hres⟩ | ⟨e, he, hlead, hle, hres⟩
    · -- the new bid takes over its slot, the others keep what they hold
      rw [hres]
      by_cases hs : slot = slot'
      · subst hs
        simp only [Holds, AList.lookup_insert, bidsFor_concat_self]
        exact leads_concat_self hgt
      · simp only [Holds, AList.lookup_insert_ne hs, bidsFor_concat_ne hs]
        exact hau slot
    · rw [hres]
      by_cases hs : slot = slot'
      · subst hs
        simp only [Holds, he, bidsFor_concat_self]
        exact hlead.concat hle
      · simp only [bidsFor_concat_ne hs]
        exact hau slot

/-- The best bid is the leader, and there is none exactly if there was no bid. -/
theorem getBestBid_of_holds {au : MemoryAuctioneer} {bids : List (Arc BidSubmission)}
    (h : au.Holds slot bids) :
    (bids = [] ∧ au.getBestBid slot = .error (.bidNotFound slot)) ∨
    (∃ e, au.getBestBid slot = .ok e ∧ Leads bidValue e bids) := by
  unfold Holds at h
  unfold getBestBid
  cases hc : au.cache.lookup slot with
  | none =>
    rw [hc] at h
    exact .inl ⟨h, rfl⟩
  | some e =>
    rw [hc] at h
    exact .inr ⟨e, rfl, h⟩

/-- The winning value does not depend on the order of the calls. -/
theorem bestValue_perm {calls' : List (UInt64 × Arc BidSubmission)} (h : DistinctArcs calls)
    (hperm : calls.Perm calls') (slot : UInt64) :
    (new.submit calls').bestValue slot = (new.submit calls).bestValue slot := by
  have h' : DistinctArcs calls' := (hperm.map _).nodup_iff.mp h
  have hmem : ∀ x, x ∈ bidsFor slot calls' ↔ x ∈ bidsFor slot calls := by
    intro x
    rw [mem_bidsFor, mem_bidsFor, hperm.mem_iff]
  unfold bestValue
  rcases getBestBid_of_holds (cache_after h' slot) with ⟨hnone', hres'⟩ | ⟨e', hres', hlead'⟩ <;>
    rcases getBestBid_of_holds (cache_after h slot) with ⟨hnone, hres⟩ | ⟨e, hres, hlead⟩ <;>
    rw [hres, hres']
  · have hin := (hmem e).mpr hlead.mem
    rw [hnone'] at hin
    cases hin
  · have hin := (hmem e').mp hlead'.mem
    rw [hnone] at hin
    cases hin
  · exact congrArg some (hlead'.value_eq hlead hmem)

/-- **The auction keeps the maximum, whatever the order.** -/
theorem auction_keeps_first_maximum (calls : List (UInt64 × Arc BidSubmission))
    (hdistinct : DistinctArcs calls) :
    -- the best bid of a slot is the earliest one of the greatest value
    (∀ slot,
      ((new.submit calls).getBestBid slot = .error (.bidNotFound slot) ↔ bidsFor slot calls = []) ∧
      (bidsFor slot calls ≠ [] → ∃ best, (new.submit calls).getBestBid slot = .ok best ∧
        Leads bidValue best (bidsFor slot calls))) ∧
    -- a bid gets in iff it is greater than all before it, and is else told the greatest so far
    (∀ earlier slot bid later, calls = earlier ++ (slot, bid) :: later →
      (((new.submit earlier).compareAndBid slot bid).1 = .ok () ↔
        ∀ x ∈ bidsFor slot earlier, bidValue x < bidValue bid) ∧
      (((new.submit earlier).compareAndBid slot bid).1 ≠ .ok () →
        ∃ greatest ∈ bidsFor slot earlier,
          (∀ x ∈ bidsFor slot earlier, bidValue x ≤ bidValue greatest) ∧
          ((new.submit earlier).compareAndBid slot bid).1 = .error (.bidValueNotHighEnough
            (bidValue bid).toString (bidValue greatest).toString))) ∧
    -- the order does not matter for the winning values
    (∀ calls', calls.Perm calls' → ∀ slot,
      (new.submit calls').bestValue slot = (new.submit calls).bestValue slot) := by
  refine ⟨?_, ?_, ?_⟩
  · intro slot
    rcases getBestBid_of_holds (cache_after hdistinct slot) with ⟨hnone, hres⟩ | ⟨e, hres, hlead⟩
    · exact ⟨⟨fun _ => hnone, fun _ => hres⟩, fun h => absurd hnone h⟩
    · refine ⟨⟨?_, ?_⟩, fun _ => ⟨e, hres, hlead⟩⟩
      · intro h
        cases hres.symm.trans h
      · intro h
        have hmem := hlead.mem
        rw [h] at hmem
        cases hmem
  · rintro earlier slot bid later rfl
    have hall : DistinctArcs ((earlier ++ [(slot, bid)]) ++ later) := by
      rw [List.append_assoc]
      exact hdistinct
    have hnew := hall.of_append
    rcases compareAndBid_of_holds (cache_after hnew.of_append slot) hnew with
      ⟨hgt, hres⟩ | ⟨e, -, hlead, hle, hres⟩
    · rw [hres]
      exact ⟨⟨fun _ => hgt, fun _ => rfl⟩, fun h => absurd rfl h⟩
    · rw [hres]
      refine ⟨⟨?_, ?_⟩, fun _ => ⟨e, hlead.mem, hlead.le, rfl⟩⟩
      · intro h
        cases h
      · intro h
        have hlt := h e hlead.mem
        exact absurd hlt (not_lt.mpr hle)
  · intro calls' hperm slot
    exact bestValue_perm hdistinct hperm slot

/-- A bid at address `addr`. -/
def arcOf (addr : Nat) (value : U256) : Arc BidSubmission :=
  ⟨addr, { (default : BidSubmission) with message := { (default : BidTrace) with value := value } }⟩

/-- Two slots, and a tie for the greatest value of the first: the later of the two is refused. -/
theorem auction_keeps_first_maximum_tie :
    ((new.submit [(7, arcOf 0 5), (8, arcOf 1 2), (7, arcOf 2 9)]).compareAndBid 7
      (arcOf 3 9)).1 ≠ .ok () := by
  have h := ((auction_keeps_first_maximum
    [(7, arcOf 0 5), (8, arcOf 1 2), (7, arcOf 2 9), (7, arcOf 3 9)] (by decide)).2.1
    [(7, arcOf 0 5), (8, arcOf 1 2), (7, arcOf 2 9)] 7 (arcOf 3 9) [] rfl).1
  intro hok
  have hlt := h.mp hok (arcOf 2 9) (mem_bidsFor.mpr (by simp))
  exact lt_irrefl _ hlt

end MemoryAuctioneer

end MevRelay
