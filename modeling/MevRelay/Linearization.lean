import MevRelay.Atomic.Log
import MevRelay.Auction
import MevRelay.Sequential

/-!
# The auction and the deliveries under any interleaving

`Auction` and `Sequential` look at one call after the other. Here requests overlap in any way and
cache entries expire at any time, and what the relay answers is compared with the one sequence of
atomic calls that its log is. That each call on the store is atomic is an assumption, and for
`compare_and_bid` not a harmless one: `moka` merges calls on one key that overlap. They are as good
as atomic if none begins while one with a lower bid initialises
(`Coalescing.coalesced_bids_linearize`), and else a bid may be lost.

* `auction_linearizes` — a slot is auctioned in *rounds*, one from each expiry of its cache entry to
  the next. The cache holds the leader of the current round, a bid is accepted exactly if it is
  higher than all bids of its round, and a read returns the leader.
* `served_not_lower` — what was bid for a slot, or was served for it, before a header request
  arrives is not undercut by the header it gets.
* `delivered_is_returned` — the recorded deliveries are those of the unblindings that have returned
  `Ok`, one each, at every moment.
-/

namespace MevRelay

open Atomic

/-- An atomic call of a task of the relay, or the expiry of the cache entry of a slot. -/
abbrev StoreEntry := LogEntry StoreOp.Ans UInt64

/-! ## Rounds -/

namespace Auction

/-- What a bid is worth. -/
def offer (bid : BidSubmission) : U256 := bid.message.value

/-- The round of `slot` after one more entry: a bid for it joins, whether it is accepted or not, and
an expiry starts the next round. -/
def join (slot : UInt64) (bids : List BidSubmission) : StoreEntry → List BidSubmission
  | .call _ ⟨.compareAndBid slot' bid, _⟩ => if slot' = slot then bids ++ [bid] else bids
  | .call _ _ => bids
  | .disturb slot' => if slot' = slot then [] else bids

/-- The bids compared for `slot` since its cache entry last expired, in order. -/
def round (slot : UInt64) (log : List StoreEntry) : List BidSubmission :=
  log.foldl (join slot) []

/-- What a slot holds after the bids of a round: their leader, if there are any. -/
def Settles (bids : List BidSubmission) : Option BidSubmission → Prop
  | none => bids = []
  | some b => Leads offer b bids

variable {slot : UInt64} {log : List StoreEntry}

theorem round_concat (e : StoreEntry) : round slot (log ++ [e]) = join slot (round slot log) e := by
  simp only [round, List.foldl_append, List.foldl_cons, List.foldl_nil]

/-- Without an expiry a round only grows. -/
theorem subset_round_append {later : List StoreEntry} (h : .disturb slot ∉ later) :
    round slot log ⊆ round slot (log ++ later) := by
  induction later using List.reverseRecOn with
  | nil => simp
  | append_singleton later e ih =>
    have hlater : round slot log ⊆ round slot (log ++ later) := by
      apply ih
      intro hmem
      exact h (List.mem_append_left _ hmem)
    rw [← List.append_assoc, round_concat]
    refine List.Subset.trans hlater ?_
    unfold join
    split
    · split
      · exact List.subset_append_left _ _
      · exact List.Subset.refl _
    · exact List.Subset.refl _
    · next slot' =>
      have hne : slot' ≠ slot := by
        rintro rfl
        exact h (List.mem_append_right _ (List.mem_singleton_self _))
      rw [if_neg hne]
      exact List.Subset.refl _

/-- A bid that was compared is one of its round until the next expiry. -/
theorem mem_round {i : Nat} {bid : BidSubmission} {ans : Except AuctioneerError Unit}
    {later : List StoreEntry} (h : .disturb slot ∉ later) :
    bid ∈ round slot (log ++ .call i ⟨.compareAndBid slot bid, ans⟩ :: later) := by
  rw [List.append_cons]
  apply subset_round_append h
  rw [round_concat]
  simp [join]

/-! ## The invariant -/

/-- Every slot holds the leader of its round. -/
def Settled (log : List StoreEntry) (s : Store) : Prop :=
  ∀ slot, Settles (round slot log) (s.best slot)

theorem Settles.beats_iff {s : Store} {bids : List BidSubmission} {bid : BidSubmission}
    (h : Settles bids (s.best slot)) :
    s.auctioneer.Beats slot bid ↔ ∀ x ∈ bids, offer x < offer bid := by
  rw [Store.beats_iff]
  cases hbest : s.best slot with
  | none =>
    rw [hbest] at h
    cases h
    simp
  | some b =>
    rw [hbest] at h
    constructor
    · intro hlt x hx
      exact (Leads.le h x hx).trans_lt (hlt b rfl)
    · intro hlt b' hb'
      cases hb'
      exact hlt b (Leads.mem h)

theorem settled_call {s : Store} (h : Settled log s) (i : Nat) (o : StoreOp) :
    Settled (log ++ [.call i ⟨o, (Store.exec o s).1⟩]) (Store.exec o s).2 := by
  intro slot
  rw [round_concat]
  cases o with
  | compareAndBid slot' bid =>
    simp only [join, Store.exec]
    rcases Store.compareAndBid_cases s slot' bid with ⟨hbeats, -, hbest⟩ | ⟨hnot, -, hsame⟩
    · rw [hbest]
      by_cases hslot : slot' = slot
      · -- the new bid leads its round
        subst hslot
        rw [if_pos rfl, Function.update_self]
        exact leads_concat_self ((h slot').beats_iff.mp hbeats)
      · rw [if_neg hslot, Function.update_of_ne (Ne.symm hslot)]
        exact h slot
    · rw [Store.best_congr hsame]
      by_cases hslot : slot' = slot
      · -- the bid joins the round, whose leader stays
        subst hslot
        rw [if_pos rfl]
        have hheld := h slot'
        rw [Store.beats_iff] at hnot
        cases hbest : s.best slot' with
        | none =>
          rw [hbest] at hnot
          exact absurd (fun b hb => by cases hb) hnot
        | some b =>
          rw [hbest] at hheld hnot
          simp only [Option.some.injEq, forall_eq', not_lt] at hnot
          exact Leads.concat hheld hnot
      · rw [if_neg hslot]
        exact h slot
  | _ => exact h slot

theorem settled_expire {s : Store} (h : Settled log s) (slot' : UInt64) :
    Settled (log ++ [.disturb slot']) (s.expire slot') := by
  intro slot
  rw [round_concat, Store.expire_best]
  simp only [join]
  by_cases hslot : slot' = slot
  · rw [if_pos hslot, if_pos hslot.symm]
    rfl
  · rw [if_neg hslot, if_neg (Ne.symm hslot)]
    exact h slot

end Auction

namespace Relay.Frontend

open Auction

variable {R : Relay} {Req α : Type} (F : R.Frontend Req α) (whitelist : List BlsPublicKey)

/-- The log of a run from `MemoryStorage::new(whitelist)` and an empty cache. -/
def log (schedule : List (Action Req UInt64)) : List StoreEntry :=
  (Pool.idle (Store.new whitelist)).log F.system schedule

variable {F whitelist} {schedule : List (Action Req UInt64)} {slot : UInt64}

theorem settled_after : Settled (F.log whitelist schedule) (F.after whitelist schedule).shared := by
  refine Pool.run_log (S := F.system) F.always (J := Settled) ?_ ?_ ?_ schedule
  · intro slot
    exact rfl
  · intro l s i r o _ h
    exact settled_call h i o
  · intro l s slot h
    exact settled_expire h slot

/-- A call in the log was made in a state that the log before it settles. -/
theorem settled_before {l l' : List StoreEntry} {i : Nat} {o : StoreOp} {ans : o.Ans}
    (h : F.log whitelist schedule = l ++ .call i ⟨o, ans⟩ :: l') :
    ∃ s, Settled l s ∧ ans = (Store.exec o s).1 := by
  obtain ⟨as₁, a, as₂, -, rfl, hentry, -⟩ := Pool.exists_split h
  refine ⟨(F.after whitelist as₁).shared, settled_after, ?_⟩
  rcases Pool.entry_eq_some hentry with ⟨i', t, o', k, -, -, -, he, -⟩ | ⟨d, -, he⟩
  · injection he with _ he
    obtain ⟨rfl, hans⟩ := Store.exec_of_event_eq he.symm
    exact hans.symm
  · cases he

theorem compareAndBid_answer {l l' : List StoreEntry} {i : Nat} {bid : BidSubmission}
    {ans : Except AuctioneerError Unit}
    (h : F.log whitelist schedule = l ++ .call i ⟨.compareAndBid slot bid, ans⟩ :: l') :
    (ans = .ok () ∧ ∀ x ∈ round slot l, offer x < offer bid) ∨
    ∃ leader, Leads offer leader (round slot l) ∧ offer bid ≤ offer leader ∧
      ans = .error (.bidValueNotHighEnough (offer bid).toString (offer leader).toString) := by
  obtain ⟨s, hsettled, rfl⟩ := settled_before h
  simp only [Store.exec, Store.compareAndBid]
  rcases s.bidWith_cases slot bid with ⟨hbeats, hbid⟩ | ⟨e, he, hle, hbid⟩
  · exact .inl ⟨congrArg Prod.fst hbid, (hsettled slot).beats_iff.mp hbeats⟩
  · refine .inr ⟨e.val, ?_, hle, congrArg Prod.fst hbid⟩
    have hheld := hsettled slot
    simp only [Store.best, he, Option.map_some] at hheld
    exact hheld

theorem getBestBid_answer {l l' : List StoreEntry} {i : Nat}
    {ans : Except AuctioneerError (Arc BidSubmission)}
    (h : F.log whitelist schedule = l ++ .call i ⟨.getBestBid slot, ans⟩ :: l') :
    (round slot l = [] ∧ ans = .error (.bidNotFound slot)) ∨
    ∃ best, ans = .ok best ∧ Leads offer best.val (round slot l) := by
  obtain ⟨s, hsettled, rfl⟩ := settled_before h
  have hheld := hsettled slot
  simp only [Store.exec, MemoryAuctioneer.getBestBid]
  cases hlookup : s.auctioneer.cache.lookup slot with
  | none =>
    simp only [Store.best, hlookup, Option.map_none] at hheld
    exact .inl ⟨hheld, rfl⟩
  | some e =>
    simp only [Store.best, hlookup, Option.map_some] at hheld
    exact .inr ⟨e, rfl, hheld⟩

/-- **The auction is linearizable**, given that the calls on the store are atomic (no two
`compare_and_bid` calls on one slot are merged). Whatever the interleaving and whenever entries
expire, there is one order of all calls, each task having seen its own part of it, such that every
slot holds the earliest of the highest bids of its round, a bid gets in exactly if it is higher than
all earlier ones of its round and is else told the highest of them, and a read returns the
leader. -/
theorem auction_linearizes (F : R.Frontend Req α) (whitelist : List BlsPublicKey)
    (schedule : List (Action Req UInt64)) (slot : UInt64) :
    Settles (round slot (F.log whitelist schedule))
      ((F.after whitelist schedule).shared.best slot) ∧
    (∀ l i bid ans l',
      F.log whitelist schedule = l ++ .call i ⟨.compareAndBid slot bid, ans⟩ :: l' →
      (ans = .ok () ∧ ∀ x ∈ round slot l, offer x < offer bid) ∨
      ∃ leader, Leads offer leader (round slot l) ∧ offer bid ≤ offer leader ∧
        ans = .error (.bidValueNotHighEnough (offer bid).toString (offer leader).toString)) ∧
    (∀ l i ans l', F.log whitelist schedule = l ++ .call i ⟨.getBestBid slot, ans⟩ :: l' →
      (round slot l = [] ∧ ans = .error (.bidNotFound slot)) ∨
      ∃ best, ans = .ok best ∧ Leads offer best.val (round slot l)) ∧
    ∀ i t, (F.after whitelist schedule).threads[i]? = some t →
      t.trace = callsOf i (F.log whitelist schedule) := by
  refine ⟨settled_after slot, ?_, ?_, ?_⟩
  · intro l i bid ans l' h
    exact compareAndBid_answer h
  · intro l i ans l' h
    exact getBestBid_answer h
  · intro i t ht
    exact Pool.trace_eq_callsOf ht

/-! ## Values do not go down -/

/-- A task that has compared `bid` for `slot`, or has read it as the best one. -/
def Seen (slot : UInt64) (bid : BidSubmission) (tr : List StoreEvent) : Prop :=
  (∃ ans, ⟨.compareAndBid slot bid, ans⟩ ∈ tr) ∨
    ∃ best : Arc BidSubmission, ⟨.getBestBid slot, .ok best⟩ ∈ tr ∧ best.val = bid

/-- What a task has seen is in the round, unless the entry has expired since. -/
theorem mem_round_of_seen {bid : BidSubmission} {t : Thread StoreOp StoreOp.Ans Req α}
    (hkeep : .disturb slot ∉ schedule) (ht : t ∈ (F.after whitelist schedule).threads)
    (hseen : Seen slot bid t.trace) : bid ∈ round slot (F.log whitelist schedule) := by
  have hlog : .disturb slot ∉ F.log whitelist schedule := fun h =>
    hkeep (Pool.disturb_mem_of_mem_log h)
  obtain ⟨i, hi⟩ := List.mem_iff_getElem?.mp ht
  unfold Seen at hseen
  rw [Pool.trace_eq_callsOf hi] at hseen
  simp only [mem_callsOf] at hseen
  rcases hseen with ⟨ans, hmem⟩ | ⟨best, hmem, rfl⟩
  · obtain ⟨l, l', hsplit⟩ := List.append_of_mem hmem
    have hsplit : F.log whitelist schedule = _ := hsplit
    rw [hsplit] at hlog ⊢
    exact mem_round fun h => hlog (by simp [h])
  · obtain ⟨l, l', hsplit⟩ := List.append_of_mem hmem
    have hsplit : F.log whitelist schedule = _ := hsplit
    rcases getBestBid_answer hsplit with ⟨-, herror⟩ | ⟨best', hok, hlead⟩
    · cases herror
    · cases hok
      rw [hsplit] at hlog ⊢
      exact subset_round_append (fun h => hlog (List.mem_append_right _ h)) hlead.mem

/-- A task that has not arrived yet has made no calls. -/
theorem callsOf_log_of_le {i : Nat} (h : (F.after whitelist schedule).threads.length ≤ i) :
    callsOf i (F.log whitelist schedule) = [] := by
  have hlogged := Pool.logged_run (S := F.system) (Store.new whitelist) schedule i
  have hnone : ((Pool.idle (Store.new whitelist)).run F.system schedule).threads[i]? = none :=
    List.getElem?_eq_none h
  rw [hnone] at hlogged
  exact hlogged

/-- A read by a task that arrived later finds a bid, and one that is worth at least as much as
anything seen before it arrived. -/
theorem read_not_lower {earlier later : List (Action Req UInt64)}
    (hkeep : .disturb slot ∉ earlier ++ later) {i : Nat} {u : Thread StoreOp StoreOp.Ans Req α}
    (hu : (F.after whitelist (earlier ++ later)).threads[i]? = some u)
    (harrived : (F.after whitelist earlier).threads.length ≤ i)
    {ans : Except AuctioneerError (Arc BidSubmission)} (hread : ⟨.getBestBid slot, ans⟩ ∈ u.trace)
    {t : Thread StoreOp StoreOp.Ans Req α} (ht : t ∈ (F.after whitelist earlier).threads)
    {bid : BidSubmission} (hseen : Seen slot bid t.trace) :
    ∃ best, ans = .ok best ∧ offer bid ≤ offer best.val := by
  have hlog : F.log whitelist (earlier ++ later) =
      F.log whitelist earlier ++ (F.after whitelist earlier).log F.system later :=
    Pool.log_append _ _
  -- the read is in the second part of the log
  have htrace : u.trace = callsOf i ((F.after whitelist earlier).log F.system later) := by
    rw [Pool.trace_eq_callsOf hu]
    show callsOf i (F.log whitelist (earlier ++ later)) = _
    have hnone := callsOf_log_of_le (F := F) harrived
    unfold callsOf at hnone ⊢
    rw [hlog, List.filterMap_append, hnone, List.nil_append]
  rw [htrace, mem_callsOf] at hread
  obtain ⟨l, l', hsplit⟩ := List.append_of_mem hread
  rw [hsplit, ← List.append_assoc] at hlog
  have hmem : bid ∈ round slot (F.log whitelist earlier ++ l) := by
    refine subset_round_append ?_
      (mem_round_of_seen (fun h => hkeep (List.mem_append_left _ h)) ht hseen)
    intro h
    have hlater : .disturb slot ∈ (F.after whitelist earlier).log F.system later := by
      rw [hsplit]
      exact List.mem_append_left _ h
    exact hkeep (List.mem_append_right _ (Pool.disturb_mem_of_mem_log hlater))
  rcases getBestBid_answer hlog with ⟨hempty, -⟩ | ⟨best, hok, hlead⟩
  · rw [hempty] at hmem
    cases hmem
  · exact ⟨best, hok, hlead.le bid hmem⟩

end Relay.Frontend

namespace Relay

open Auction Frontend

variable {R : Relay} {whitelist : List BlsPublicKey} {schedule : List (Action Request UInt64)}
  {t : Thread StoreOp StoreOp.Ans Request Response}

theorem seen_of_submitBid {bid : BidSubmission}
    (ht : t ∈ (R.frontend.after whitelist schedule).threads) (hreq : t.request = .submitBid bid)
    (hrest : t.rest = .ret (.submitBid (.ok ()))) : Seen bid.message.slot bid t.trace := by
  have hreturns := returns_of_ret ht hrest
  rw [hreq] at hreturns
  exact .inl ⟨_, hreturns rfl⟩

theorem seen_of_getHeader {slot : UInt64} {parentHash : B256} {proposerPubkey : BlsPublicKey}
    {v : Versioned SignedHeader} (ht : t ∈ (R.frontend.after whitelist schedule).threads)
    (hreq : t.request = .getHeader slot parentHash proposerPubkey)
    (hrest : t.rest = .ret (.getHeader (.ok v))) :
    ∃ best, GetHeaderUseCase.ServedFrom R slot parentHash proposerPubkey t.trace best ∧
      v = GetHeaderUseCase.signedHeader R best.val ∧ Seen slot best.val t.trace := by
  have hreturns := returns_of_ret ht hrest
  rw [hreq] at hreturns
  obtain ⟨best, hserved, rfl⟩ := hreturns v rfl
  exact ⟨best, hserved, rfl, .inr ⟨best, hserved.best_mem, rfl⟩⟩

/-- **Served values do not go down.** If the cache entry of `slot` does not expire, the bid that a
header request reads last, and whose header it gets, is worth at least as much as every bid for the
slot that was accepted, and every bid that was served for it, before the request arrived, whatever
else runs meanwhile. -/
theorem served_not_lower (R : Relay) (whitelist : List BlsPublicKey)
    (earlier later : List (Action Request UInt64)) (slot : UInt64)
    (hkeep : .disturb slot ∉ earlier ++ later) (i : Nat)
    (u : Thread StoreOp StoreOp.Ans Request Response)
    (hu : (R.frontend.after whitelist (earlier ++ later)).threads[i]? = some u)
    (harrived : (R.frontend.after whitelist earlier).threads.length ≤ i) (parentHash : B256)
    (proposerPubkey : BlsPublicKey) (v : Versioned SignedHeader)
    (hreq : u.request = .getHeader slot parentHash proposerPubkey)
    (hrest : u.rest = .ret (.getHeader (.ok v))) :
    ∃ best, GetHeaderUseCase.ServedFrom R slot parentHash proposerPubkey u.trace best ∧
      v = GetHeaderUseCase.signedHeader R best.val ∧
      (∀ t ∈ (R.frontend.after whitelist earlier).threads, ∀ bid,
        t.request = .submitBid bid → bid.message.slot = slot →
        t.rest = .ret (.submitBid (.ok ())) → bid.message.value ≤ best.val.message.value) ∧
      ∀ t ∈ (R.frontend.after whitelist earlier).threads, ∀ parentHash' proposerPubkey' v',
        t.request = .getHeader slot parentHash' proposerPubkey' →
        t.rest = .ret (.getHeader (.ok v')) →
        ∃ best', GetHeaderUseCase.ServedFrom R slot parentHash' proposerPubkey' t.trace best' ∧
          v' = GetHeaderUseCase.signedHeader R best'.val ∧
          best'.val.message.value ≤ best.val.message.value := by
  obtain ⟨best, hserved, rfl, -⟩ := seen_of_getHeader (List.mem_of_getElem? hu) hreq hrest
  have hle : ∀ t ∈ (R.frontend.after whitelist earlier).threads, ∀ bid,
      Seen slot bid t.trace → bid.message.value ≤ best.val.message.value := by
    intro t ht bid hseen
    obtain ⟨best', hok, hle⟩ := read_not_lower hkeep hu harrived hserved.best_mem ht hseen
    cases hok
    exact hle
  refine ⟨best, hserved, rfl, ?_, ?_⟩
  · intro t ht bid hsubmit hslot hok
    apply hle t ht
    rw [← hslot]
    exact seen_of_submitBid ht hsubmit hok
  · intro t ht parentHash' proposerPubkey' v' hget hok
    obtain ⟨best', hserved', rfl, hseen⟩ := seen_of_getHeader ht hget hok
    exact ⟨best', hserved', rfl, hle t ht _ hseen⟩

end Relay

namespace Sample

/-- The requests arrive in order, and each has run to its end before the next one arrives. -/
def inTurn (rs : List Request) : List (Action Request UInt64) :=
  (List.range rs.length).flatMap fun i =>
    rs[i]?.toList.map .arrive ++ List.replicate 12 (.step i)

/-- The thread is a header request for `slot` that was served. -/
def headerServed (slot : UInt64) (t : Thread StoreOp StoreOp.Ans Request Response) : Bool :=
  match t.request, t.rest with
  | .getHeader slot' _ _, .ret (.getHeader (.ok _)) => slot' == slot
  | _, _ => false

theorem of_headerServed {slot : UInt64} {t : Thread StoreOp StoreOp.Ans Request Response}
    (h : headerServed slot t = true) : ∃ parentHash proposerPubkey v,
      t.request = .getHeader slot parentHash proposerPubkey ∧
        t.rest = .ret (.getHeader (.ok v)) := by
  unfold headerServed at h
  split at h
  next hreq hrest =>
    rw [beq_iff_eq] at h
    subst h
    exact ⟨_, _, _, hreq, hrest⟩
  next => cases h

/-- A bid for slot 2 has been accepted. -/
def oneBid : List (Action Request UInt64) := inTurn (ready ++ [.submitBid (bid 2 1 1)])

/-- A higher bid and a header request arrive together and take turns. -/
def bidAndAsk : List (Action Request UInt64) :=
  [.arrive (.submitBid (bid 2 2 2)), .arrive (askHeader 2)] ++
    [3, 4, 3, 4, 3, 4, 3, 4, 3, 4, 3, 4].map .step

end Sample

/-- The header request that races with the second bid gets a header of at least the first one. -/
theorem Relay.served_not_lower_race :
    ∃ u ∈ (Sample.relay.frontend.after Sample.whitelist
        (Sample.oneBid ++ Sample.bidAndAsk)).threads, ∃ parentHash proposerPubkey best,
      GetHeaderUseCase.ServedFrom Sample.relay 2 parentHash proposerPubkey u.trace best ∧
      u.rest = .ret (.getHeader (.ok (GetHeaderUseCase.signedHeader Sample.relay best.val))) ∧
      ∀ t ∈ (Sample.relay.frontend.after Sample.whitelist Sample.oneBid).threads, ∀ bid,
        t.request = .submitBid bid → bid.message.slot = 2 →
        t.rest = .ret (.submitBid (.ok ())) → bid.message.value ≤ best.val.message.value := by
  have hserved : ((Sample.relay.frontend.after Sample.whitelist
      (Sample.oneBid ++ Sample.bidAndAsk)).threads[4]?).any (Sample.headerServed 2) = true := by
    decide +kernel
  obtain ⟨u, hu, hserved⟩ := (Option.any_eq_true _ _).mp hserved
  obtain ⟨parentHash, proposerPubkey, v, hreq, hrest⟩ := Sample.of_headerServed hserved
  obtain ⟨best, hbest, rfl, haccepted, -⟩ := served_not_lower Sample.relay Sample.whitelist
    Sample.oneBid Sample.bidAndAsk 2 (by simp [Sample.oneBid, Sample.bidAndAsk, Sample.inTurn]) 4 u
    hu (by decide +kernel) parentHash proposerPubkey v hreq hrest
  exact ⟨u, List.mem_of_getElem? hu, parentHash, proposerPubkey, best, hbest, hrest, haccepted⟩

/-! ## Deliveries -/

/-- The delivery that a call records. -/
def deliveryOf : StoreEvent → Option B256
  | ⟨.setDeliveredBlocks blockHash, _⟩ => some blockHash
  | _ => none

/-- The deliveries recorded in a trace. -/
def deliveriesIn (tr : List StoreEvent) : List B256 := tr.filterMap deliveryOf

/-- The deliveries recorded in a log, each with the task that did. -/
def deliveries (log : List StoreEntry) : List (Nat × B256) :=
  log.filterMap fun
    | .call i e => (deliveryOf e).map (i, ·)
    | .disturb _ => none

theorem deliveriesIn_concat (tr : List StoreEvent) (e : StoreEvent) :
    deliveriesIn (tr ++ [e]) = deliveriesIn tr ++ (deliveryOf e).toList :=
  filterMap_concat deliveryOf tr e

/-- A task's deliveries in the log are those of its calls. -/
theorem deliveries_filter (i : Nat) (log : List StoreEntry) :
    ((deliveries log).filter fun d => d.1 = i).map Prod.snd = deliveriesIn (callsOf i log) := by
  induction log with
  | nil => rfl
  | cons e log ih =>
    unfold deliveries deliveriesIn callsOf at ih ⊢
    cases e with
    | disturb d => exact ih
    | call j e =>
      by_cases hij : j = i
      · subst hij
        cases he : deliveryOf e <;> simp [LogEntry.callOf, he, ih]
      · cases he : deliveryOf e <;> simp [LogEntry.callOf, he, hij, ih]

/-- What is stored is what was recorded, in order. -/
theorem Relay.Frontend.delivered_eq {R : Relay} {Req α : Type} (F : R.Frontend Req α)
    (whitelist : List BlsPublicKey) (schedule : List (Action Req UInt64)) :
    (F.after whitelist schedule).shared.storage.deliveredBlocks =
      (deliveries (F.log whitelist schedule)).map Prod.snd := by
  refine Pool.run_log (S := F.system) F.always
    (J := fun l s => s.storage.deliveredBlocks = (deliveries l).map Prod.snd) rfl ?_ ?_ schedule
  · intro l s i r o _ h
    have hconcat : deliveries (l ++ [.call i ⟨o, (Store.exec o s).1⟩]) =
        deliveries l ++ ((deliveryOf ⟨o, (Store.exec o s).1⟩).map (i, ·)).toList :=
      filterMap_concat _ l _
    show (Store.exec o s).2.storage.deliveredBlocks =
      (deliveries (l ++ [.call i ⟨o, (Store.exec o s).1⟩])).map Prod.snd
    rw [hconcat]
    cases o with
    | setDeliveredBlocks blockHash =>
      simp [Store.exec, MemoryStorage.setDeliveredBlocks, deliveryOf, h]
    | _ =>
      simp only [deliveryOf, Option.map_none, Option.toList_none, List.append_nil]
      exact h
  · intro l s slot h
    have hconcat : deliveries (l ++ [.disturb slot]) = deliveries l := by simp [deliveries]
    show s.storage.deliveredBlocks = (deliveries (l ++ [.disturb slot])).map Prod.snd
    rw [hconcat]
    exact h

namespace UnblindBlockUseCase

/-- The delivery is recorded by the last call before `Ok` is returned, and never otherwise. -/
def Records (blockHash : B256) (tr : List StoreEvent)
    (rest : StoreProg (Except UseCaseError BlindedBlockResponse)) : Prop :=
  deliveriesIn tr = match rest with
    | .ret (.ok _) => [blockHash]
    | _ => []

theorem execute_records (R : Relay) (slot proposerIndex : UInt64) (blockHash : B256)
    (signature : BlsSignature) :
    (execute R slot proposerIndex blockHash signature).Everywhere (Records blockHash) [] := by
  unfold execute
  simp only [Prog.op_bind, Prog.pure_eq]
  refine ⟨rfl, ?_⟩
  intro found
  cases found with
  | none => exact rfl
  | some duty =>
  by_cases hindex : duty.validatorIndex ≠ proposerIndex
  · simp only [if_pos hindex]
    exact rfl
  simp only [if_neg hindex]
  refine ⟨rfl, ?_⟩
  intro registration
  cases registration with
  | none => exact rfl
  | some reg =>
  cases R.verifiesBlinded duty.pubkey slot proposerIndex blockHash signature with
  | false => exact rfl
  | true =>
  refine ⟨rfl, ?_⟩
  intro stored
  cases stored with
  | none => exact rfl
  | some resp =>
  by_cases hhash : resp.executionPayload.blockHash ≠ blockHash
  · simp only [if_pos hhash]
    exact rfl
  simp only [if_neg hhash]
  exact ⟨rfl, fun _ => rfl⟩

end UnblindBlockUseCase

namespace Relay

/-- The block hash that a task is entitled to have recorded: that of an unblinding that has returned
`Ok`. -/
def returnedHash (r : Request) (rest : StoreProg Response) : Option B256 :=
  match r, rest with
  | .unblindBlock _ _ blockHash _, .ret (.unblindBlock (.ok _)) => some blockHash
  | _, _ => none

theorem returnedHash_eq_some {r : Request} {rest : StoreProg Response} {blockHash : B256} :
    returnedHash r rest = some blockHash ↔ ∃ slot proposerIndex signature resp,
      r = .unblindBlock slot proposerIndex blockHash signature ∧
        rest = .ret (.unblindBlock (.ok resp)) := by
  unfold returnedHash
  constructor
  · intro h
    split at h
    · cases h
      exact ⟨_, _, _, _, rfl, rfl⟩
    · cases h
  · rintro ⟨slot, proposerIndex, signature, resp, rfl, rfl⟩
    rfl

/-- The deliveries of a request, at every point of its program. -/
theorem program_records (R : Relay) (r : Request) :
    (R.program r).Everywhere (fun tr rest => deliveriesIn tr = (returnedHash r rest).toList) [] := by
  have hother : (∀ tr blockHash, ¬ r.Calls R tr (.setDeliveredBlocks blockHash)) →
      (∀ rest, returnedHash r rest = none) →
      (R.program r).Everywhere (fun tr rest => deliveriesIn tr = (returnedHash r rest).toList) [] := by
    intro hcalls hnone
    simp only [hnone, Option.toList_none]
    refine (R.program_always r).everywhere ?_ rfl
    intro tr o ans ho htr
    rw [deliveriesIn_concat, htr]
    cases o with
    | setDeliveredBlocks blockHash => exact absurd ho (hcalls tr blockHash)
    | _ => rfl
  cases r with
  | unblindBlock slot proposerIndex blockHash signature =>
    apply Prog.Everywhere.map
    refine (UnblindBlockUseCase.execute_records R slot proposerIndex blockHash signature).mono ?_
    intro tr rest h
    rw [h]
    cases rest with
    | ret result => cases result <;> rfl
    | abort => rfl
    | call o k => rfl
  | _ => exact hother (fun _ _ h => h) (fun _ => rfl)

/-- **Deliveries are returns.** In every state that any interleaving reaches, the recorded deliveries
are, in the order in which they were recorded, the block hashes of the unblindings that have returned
`Ok`: none is missing, none was recorded twice, and none comes from an unblinding that failed or is
still running. -/
theorem delivered_is_returned (R : Relay) (whitelist : List BlsPublicKey)
    (schedule : List (Action Request UInt64)) :
    (R.frontend.after whitelist schedule).shared.storage.deliveredBlocks =
      (deliveries (R.frontend.log whitelist schedule)).map Prod.snd ∧
    ((deliveries (R.frontend.log whitelist schedule)).map Prod.fst).Nodup ∧
    ∀ i blockHash, (i, blockHash) ∈ deliveries (R.frontend.log whitelist schedule) ↔
      ∃ t slot proposerIndex signature resp,
        (R.frontend.after whitelist schedule).threads[i]? = some t ∧
        t.request = .unblindBlock slot proposerIndex blockHash signature ∧
        t.rest = .ret (.unblindBlock (.ok resp)) := by
  -- what task `i` has recorded
  have hof : ∀ i, deliveriesIn (callsOf i (R.frontend.log whitelist schedule)) =
      (((R.frontend.after whitelist schedule).threads[i]?).bind fun t =>
        returnedHash t.request t.rest).toList := by
    intro i
    cases hi : (R.frontend.after whitelist schedule).threads[i]? with
    | none =>
      rw [Frontend.callsOf_log_of_le (List.getElem?_eq_none_iff.mp hi)]
      rfl
    | some t =>
      have hrecords := (Pool.run_everywhere (S := R.frontend.system) R.program_records
        (p := Pool.idle (Store.new whitelist)) (fun _ ht => absurd ht List.not_mem_nil) schedule t
        (List.mem_of_getElem? hi)).here
      rw [Pool.trace_eq_callsOf hi] at hrecords
      exact hrecords
  refine ⟨Frontend.delivered_eq R.frontend whitelist schedule, ?_, ?_⟩
  · rw [List.nodup_iff_count_le_one]
    intro i
    have hcount : ((deliveries (R.frontend.log whitelist schedule)).map Prod.fst).count i =
        (deliveriesIn (callsOf i (R.frontend.log whitelist schedule))).length := by
      rw [← deliveries_filter, List.length_map, List.count_eq_length_filter, List.filter_map,
        List.length_map]
      congr
    rw [hcount, hof]
    exact Option.length_toList_le
  · intro i blockHash
    have hmem : (i, blockHash) ∈ deliveries (R.frontend.log whitelist schedule) ↔
        blockHash ∈ deliveriesIn (callsOf i (R.frontend.log whitelist schedule)) := by
      rw [← deliveries_filter]
      simp
    rw [hmem, hof, Option.mem_toList, Option.bind_eq_some_iff]
    simp only [returnedHash_eq_some]
    constructor
    · rintro ⟨t, ht, slot, proposerIndex, signature, resp, hreq, hrest⟩
      exact ⟨t, slot, proposerIndex, signature, resp, ht, hreq, hrest⟩
    · rintro ⟨t, slot, proposerIndex, signature, resp, ht, hreq, hrest⟩
      exact ⟨t, ht, slot, proposerIndex, signature, resp, hreq, hrest⟩

end Relay

end MevRelay
