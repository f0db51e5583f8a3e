import MevRelay.Delivery

/-!
# From an accepted bid to the header and back to the payload

The three use cases around one winning bid, over sequential runs without cache expiry:

* a bid that was accepted is served, header and payload, until another one is accepted or head or
  duties move (`winner_stays_served`);
* a header can be traded for its payload as long as the bid it was built from is the last one
  accepted for its proposer (`header_redeemable`);
* a header says what the builder signed exactly if the payloads accepted agree with their traces
  (`headers_faithful_iff`);
* a header is that of the highest bid accepted for its slot, and goes to the proposer of the slot
  only (`get_header_highest_bid`).
-/

namespace MevRelay

open Atomic

namespace Relay

variable {R : Relay} {whitelist : List BlsPublicKey}

/-- A header that was returned is that of the best bid of the moment. -/
theorem serves_of_serve {s : Store} {slot : UInt64} {parentHash : B256}
    {proposerPubkey : BlsPublicKey} {v : Versioned SignedHeader}
    (h : (R.system.serve s (.getHeader slot parentHash proposerPubkey)).1 =
      .returned (.getHeader (.ok v))) :
    ∃ best, GetHeaderUseCase.Serves R s slot parentHash proposerPubkey best ∧
      v = GetHeaderUseCase.signedHeader R best := by
  rcases serve_getHeader R s slot parentHash proposerPubkey with
    ⟨best, hserves, hserve⟩ | ⟨-, hout, -⟩
  · rw [hserve] at h
    cases h
    exact ⟨best, hserves, rfl⟩
  · exact absurd h (hout v)

theorem serve_of_serves {s : Store} {slot : UInt64} {parentHash : B256}
    {proposerPubkey : BlsPublicKey} {best : BidSubmission}
    (h : GetHeaderUseCase.Serves R s slot parentHash proposerPubkey best) :
    (R.system.serve s (.getHeader slot parentHash proposerPubkey)).1 =
      .returned (.getHeader (.ok (GetHeaderUseCase.signedHeader R best))) := by
  rcases serve_getHeader R s slot parentHash proposerPubkey with
    ⟨best', hserves, hserve⟩ | ⟨hnot, -⟩
  · cases hserves.best_eq.symm.trans h.best_eq
    rw [hserve]
  · exact absurd h (hnot best)

/-! ## The winner -/

/-- `bid` is the one to be served for `duty`: it is the best bid of its slot, its payload is stored
for the duty's proposer, who is registered, and its slot is next. -/
structure Winning (R : Relay) (bid : BidSubmission) (duty : ProposerDuty) (s : Store) : Prop where
  duty_found : s.storage.findDutyBySlot bid.message.slot = some duty
  registered : ∃ reg, s.storage.readValidatorRegistration duty.pubkey = some reg
  next_slot : s.storage.readHeadSlot.isNextSlot R.build bid.message.slot = some true
  best_eq : s.best bid.message.slot = some bid
  resp_stored : s.storage.readBlindedBlockResponse duty.pubkey = some bid.toBlindedBlockResponse

/-- An accepted bid is winning. That the proposer is registered is not checked by `SubmitBid`: it
follows from how duty tables come about. -/
theorem winning_of_admits {rs : List Request} {bid : BidSubmission} {duty : ProposerDuty}
    (h : SubmitBidUseCase.Admits R (R.after whitelist rs) bid duty) :
    Winning R bid duty (R.after whitelist (rs ++ [.submitBid bid])) := by
  have hs : R.after whitelist (rs ++ [.submitBid bid]) =
      (R.after whitelist rs).accept bid duty.pubkey := by
    rw [after_concat]
    rcases serve_submitBid R (R.after whitelist rs) bid with
      ⟨duty', hadmits, hserve⟩ | ⟨hnot, -⟩
    · cases hadmits.duty_found.symm.trans h.duty_found
      rw [hserve]
    · exact absurd h (hnot duty)
  rw [hs]
  have hlisted := (MemoryStorage.findDutyBySlot_eq_some h.duty_found).1
  refine ⟨h.duty_found, after_duty_registered rs hlisted, h.next_slot, ?_, ?_⟩
  · rw [Store.accept_best _ h.beats, Function.update_self]
  · rw [Store.accept_storage, MemoryStorage.readBlindedBlockResponse_set, if_pos rfl]

theorem Winning.serves {s : Store} {bid : BidSubmission} {duty : ProposerDuty}
    (h : Winning R bid duty s) :
    GetHeaderUseCase.Serves R s bid.message.slot bid.message.parentHash duty.pubkey bid where
  registered := h.registered
  duty_found := ⟨duty, h.duty_found, rfl⟩
  next_slot := h.next_slot
  best_eq := h.best_eq
  parent_eq := rfl

/-- Requests that touch neither the auction nor head or duties: what is left are rejected bids,
registrations, headers, unblindings and payload attributes. -/
def Quiet (e : Entry) : Prop :=
  match e.request with
  | .submitBid _ => e.outcome ≠ .returned (.submitBid (.ok ()))
  | .background (.payloadAttributesEvent _) => True
  | .background _ => False
  | _ => True

/-- A quiet request leaves the winner in place. -/
theorem Winning.serve {s : Store} {bid : BidSubmission} {duty : ProposerDuty} {r : Request}
    (hquiet : Quiet ⟨s, r, (R.system.serve s r).1⟩) (h : Winning R bid duty s) :
    Winning R bid duty (R.system.serve s r).2 := by
  cases r with
  | registerValidator registration =>
    refine (R.program_always (.registerValidator registration)).run_keeps
      (I := Winning R bid duty) ?_ h
    intro tr o s' hcalls h'
    cases o with
    | setValidatorRegistration key reg =>
      exact ⟨h'.duty_found, Store.exec_registered _ h'.registered, h'.next_slot, h'.best_eq,
        h'.resp_stored⟩
    | _ => exact absurd hcalls id
  | submitBid bid' =>
    rcases serve_submitBid R s bid' with ⟨_, -, hserve⟩ | ⟨-, -, hst, hau⟩
    · exact absurd (congrArg Prod.fst hserve) hquiet
    · have hbest := Store.best_congr hau
      exact ⟨hst ▸ h.duty_found, hst ▸ h.registered, hst ▸ h.next_slot, hbest ▸ h.best_eq,
        hst ▸ h.resp_stored⟩
  | getHeader slot parentHash proposerPubkey =>
    rcases serve_getHeader R s slot parentHash proposerPubkey with ⟨_, -, hserve⟩ | ⟨-, -, hs⟩
    · rw [hserve]
      exact h
    · rw [hs]
      exact h
  | unblindBlock slot proposerIndex blockHash signature =>
    rcases serve_unblindBlock R s slot proposerIndex blockHash signature with
      ⟨_, _, -, hserve⟩ | ⟨-, _, hserve⟩
    · rw [hserve]
      exact ⟨h.duty_found, h.registered, h.next_slot, h.best_eq, h.resp_stored⟩
    · rw [hserve]
      exact h
  | background task =>
    cases task with
    | payloadAttributesEvent event =>
      rw [serve_background]
      exact ⟨h.duty_found, h.registered, h.next_slot, h.best_eq, h.resp_stored⟩
    | _ => exact absurd hquiet id

theorem Winning.final {s : Store} {bid : BidSubmission} {duty : ProposerDuty} {rs : List Request}
    (hquiet : ∀ e ∈ R.system.history s rs, Quiet e) (h : Winning R bid duty s) :
    Winning R bid duty (R.system.final s rs) :=
  System.final_invariant (fun _ _ hq hw => Winning.serve hq hw) rs hquiet h

/-- **The current winner stays served end to end.** -/
theorem winner_stays_served (R : Relay) (whitelist : List BlsPublicKey)
    (hbls : ∀ key msg, R.prims.verify (R.prims.sign key msg) (R.prims.skToPk key) msg = true)
    (rs quiet : List Request) (bid : BidSubmission) (duty : ProposerDuty)
    (hduty : (R.after whitelist rs).storage.findDutyBySlot bid.message.slot = some duty)
    (haccepted : (R.system.serve (R.after whitelist rs) (.submitBid bid)).1 =
      .returned (.submitBid (.ok ())))
    (hquiet : ∀ e ∈ R.system.history (R.after whitelist (rs ++ [.submitBid bid])) quiet, Quiet e)
    (signature : BlsSignature)
    (hsigned : R.verifiesBlinded duty.pubkey bid.message.slot duty.validatorIndex
      (SignedHeader.buildHeader R.prims bid).blockHash signature = true) :
    let s := R.after whitelist (rs ++ .submitBid bid :: quiet)
    (∃ v, (R.system.serve s
        (.getHeader bid.message.slot bid.message.parentHash duty.pubkey)).1 =
          .returned (.getHeader (.ok v)) ∧
      v.data.message = SignedHeader.buildHeader R.prims bid ∧
      R.prims.verify v.data.signature (R.signer.publicKey R.prims)
        (signingRoot R.prims (v.data.message.treeHashRoot R.prims) R.builderDomain).bytes = true) ∧
    (R.system.serve s (.unblindBlock bid.message.slot duty.validatorIndex
      (SignedHeader.buildHeader R.prims bid).blockHash signature)).1 =
        .returned (.unblindBlock (.ok
          { executionPayload := bid.executionPayload
            blobsBundle := some bid.blobsBundle })) := by
  intro s
  have hwinning : Winning R bid duty s := by
    have hs : s = R.system.final (R.after whitelist (rs ++ [.submitBid bid])) quiet := by
      rw [← after_append, List.append_assoc]
      rfl
    rcases serve_submitBid R (R.after whitelist rs) bid with ⟨duty', hadmits, -⟩ | ⟨-, hout, -⟩
    · cases hadmits.duty_found.symm.trans hduty
      rw [hs]
      exact (winning_of_admits hadmits).final hquiet
    · exact absurd haccepted hout
  have hreleases : UnblindBlockUseCase.Releases R bid.message.slot duty.validatorIndex
      (SignedHeader.buildHeader R.prims bid).blockHash signature s.storage duty
      bid.toBlindedBlockResponse :=
    ⟨hwinning.duty_found, rfl, hwinning.registered, hsigned, hwinning.resp_stored, rfl⟩
  exact ⟨⟨_, serve_of_serves hwinning.serves, rfl, hbls _ _⟩, serve_of_releases hreleases⟩

/-- A lower bid, a new registration, a header, an unblinding and new attributes do not get in the
way of a bid. -/
theorem winner_stays_served_sample :
    let s := Sample.relay.after Sample.whitelist (Sample.ready ++ .submitBid (Sample.bid 2 8 1) ::
      [.submitBid (Sample.bid 2 5 2), .registerValidator Sample.registration, Sample.askHeader 2,
        Sample.unblind 2 1, .background (.payloadAttributesEvent ⟨"", 2, "", 0, "", ""⟩)])
    (Sample.relay.system.serve s (Sample.unblind 2 1)).1 =
      .returned (.unblindBlock (.ok ⟨(Sample.bid 2 8 1).executionPayload, some default⟩)) :=
  (winner_stays_served Sample.relay Sample.whitelist Sample.verify_sign Sample.ready
    [.submitBid (Sample.bid 2 5 2), .registerValidator Sample.registration, Sample.askHeader 2,
      Sample.unblind 2 1, .background (.payloadAttributesEvent ⟨"", 2, "", 0, "", ""⟩)]
    (Sample.bid 2 8 1) ⟨Sample.prims.skToPk Sample.proposer, 5, 2⟩ rfl rfl
    (List.forall_mem_cons.mpr ⟨(fun h => by cases h), List.forall_mem_cons.mpr ⟨trivial,
      List.forall_mem_cons.mpr ⟨trivial, List.forall_mem_cons.mpr ⟨trivial,
        List.forall_mem_singleton.mpr trivial⟩⟩⟩⟩)
    (Sample.commitment 2 1) rfl).2

/-! ## Trading a header for its payload -/

/-- **A header can be redeemed** while the bid it was built from, the last one accepted for the slot,
was accepted for its proposer and is still the last one accepted for that proposer. -/
theorem header_redeemable (R : Relay) (whitelist : List BlsPublicKey) (rs later : List Request)
    (slot : UInt64) (parentHash : B256) (proposerPubkey : BlsPublicKey) (v : Versioned SignedHeader)
    (bid : BidSubmission) (duty : ProposerDuty) (signature : BlsSignature)
    (hheader : (R.system.serve (R.after whitelist rs)
      (.getHeader slot parentHash proposerPubkey)).1 = .returned (.getHeader (.ok v)))
    (hbid : lastBy acceptedSlot slot (R.acceptedBids whitelist rs) = some (bid, proposerPubkey))
    (hlast : lastBy Prod.snd proposerPubkey (R.acceptedBids whitelist
      (rs ++ .getHeader slot parentHash proposerPubkey :: later)) = some (bid, proposerPubkey))
    (hduty : (R.after whitelist
      (rs ++ .getHeader slot parentHash proposerPubkey :: later)).storage.findDutyBySlot slot =
        some duty)
    (hpubkey : duty.pubkey = proposerPubkey)
    (hregistered : ∃ reg, (R.after whitelist (rs ++ .getHeader slot parentHash proposerPubkey ::
      later)).storage.readValidatorRegistration proposerPubkey = some reg)
    (hsigned : R.verifiesBlinded proposerPubkey slot duty.validatorIndex v.data.message.blockHash
      signature = true) :
    (R.system.serve (R.after whitelist (rs ++ .getHeader slot parentHash proposerPubkey :: later))
      (.unblindBlock slot duty.validatorIndex v.data.message.blockHash signature)).1 =
        .returned (.unblindBlock (.ok bid.toBlindedBlockResponse)) ∧
    bid.toBlindedBlockResponse.executionPayload.blockHash = v.data.message.blockHash := by
  obtain ⟨best, hserves, rfl⟩ := serves_of_serve hheader
  subst hpubkey
  -- the header was built from the last bid accepted for the slot
  have hbest : best = bid := by
    have h := hserves.best_eq
    rw [after_best, hbid] at h
    exact (Option.some.inj h).symm
  subst hbest
  refine ⟨serve_of_releases ⟨hduty, rfl, hregistered, hsigned, ?_, rfl⟩, rfl⟩
  rw [after_blinded, hlast]
  rfl

/-- A lower bid after the header does not matter. -/
theorem header_redeemable_sample :
    (Sample.relay.system.serve (Sample.relay.after Sample.whitelist
      ((Sample.ready ++ [.submitBid (Sample.bid 2 8 1)]) ++
        .getHeader 2 default (Sample.prims.skToPk Sample.proposer) ::
          [.submitBid (Sample.bid 2 5 2)]))
      (.unblindBlock 2 5 (Sample.bid 2 8 1).executionPayload.blockHash
        (Sample.commitment 2 1))).1 =
      .returned (.unblindBlock (.ok (Sample.bid 2 8 1).toBlindedBlockResponse)) := by
  have h := header_redeemable Sample.relay Sample.whitelist
    (Sample.ready ++ [.submitBid (Sample.bid 2 8 1)]) [.submitBid (Sample.bid 2 5 2)] 2 default
    (Sample.prims.skToPk Sample.proposer)
    (GetHeaderUseCase.signedHeader Sample.relay (Sample.bid 2 8 1)) (Sample.bid 2 8 1)
    ⟨Sample.prims.skToPk Sample.proposer, 5, 2⟩ (Sample.commitment 2 1) rfl (by decide +kernel)
    (by decide +kernel) rfl rfl ⟨_, rfl⟩ rfl
  exact h.1

/-- A higher bid accepted after the header was handed out takes its payload away. -/
theorem header_not_redeemable :
    ¬ ∀ (R : Relay) (whitelist : List BlsPublicKey) (rs later : List Request) (slot : UInt64)
      (parentHash : B256) (proposerPubkey : BlsPublicKey) (v : Versioned SignedHeader)
      (duty : ProposerDuty) (signature : BlsSignature),
      (R.system.serve (R.after whitelist rs) (.getHeader slot parentHash proposerPubkey)).1 =
        .returned (.getHeader (.ok v)) →
      (R.after whitelist
        (rs ++ .getHeader slot parentHash proposerPubkey :: later)).storage.findDutyBySlot slot =
          some duty →
      duty.pubkey = proposerPubkey →
      (∃ reg, (R.after whitelist (rs ++ .getHeader slot parentHash proposerPubkey ::
        later)).storage.readValidatorRegistration proposerPubkey = some reg) →
      R.verifiesBlinded proposerPubkey slot duty.validatorIndex v.data.message.blockHash
        signature = true →
      ∃ resp, (R.system.serve
        (R.after whitelist (rs ++ .getHeader slot parentHash proposerPubkey :: later))
        (.unblindBlock slot duty.validatorIndex v.data.message.blockHash signature)).1 =
          .returned (.unblindBlock (.ok resp)) ∧
        resp.executionPayload.blockHash = v.data.message.blockHash := by
  intro h
  obtain ⟨resp, hresp, -⟩ := h Sample.relay Sample.whitelist
    (Sample.ready ++ [.submitBid (Sample.bid 2 1 1)]) [.submitBid (Sample.bid 2 2 2)] 2 default
    (Sample.prims.skToPk Sample.proposer)
    (GetHeaderUseCase.signedHeader Sample.relay (Sample.bid 2 1 1))
    ⟨Sample.prims.skToPk Sample.proposer, 5, 2⟩ (Sample.commitment 2 1) rfl rfl rfl ⟨_, rfl⟩ rfl
  cases hresp

/-! ## What a header says -/

/-- The payload agrees with the signed trace wherever both say something about the block. -/
structure Consistent (bid : BidSubmission) : Prop where
  parent_hash : bid.executionPayload.parentHash = bid.message.parentHash
  block_hash : bid.executionPayload.blockHash = bid.message.blockHash
  gas_limit : bid.executionPayload.gasLimit = bid.message.gasLimit
  gas_used : bid.executionPayload.gasUsed = bid.message.gasUsed

/-- The header is for the requested parent and says what the trace says. -/
structure Faithful (header : ExecutionPayloadHeader) (parentHash : B256) (trace : BidTrace) :
    Prop where
  requested : header.parentHash = parentHash
  parent_hash : header.parentHash = trace.parentHash
  block_hash : header.blockHash = trace.blockHash
  gas_limit : header.gasLimit = trace.gasLimit
  gas_used : header.gasUsed = trace.gasUsed

/-- An accepted bid was accepted at some point of the run. -/
theorem exists_admits_of_accepted {rs : List Request} {a : BidSubmission × BlsPublicKey}
    (h : a ∈ R.acceptedBids whitelist rs) :
    ∃ earlier duty, earlier ++ [.submitBid a.1] <+: rs ∧
      SubmitBidUseCase.Admits R (R.after whitelist earlier) a.1 duty := by
  induction rs using List.reverseRecOn with
  | nil => cases h
  | append_singleton rs r ih =>
    rw [acceptedBids_concat] at h
    rcases List.mem_append.mp h with h | h
    · obtain ⟨earlier, duty, hprefix, hadmits⟩ := ih h
      exact ⟨earlier, duty, hprefix.trans (List.prefix_append _ _), hadmits⟩
    · rcases serve_bids R (R.after whitelist rs) r with
        ⟨bid, duty, rfl, hadmits, hacc, -⟩ | ⟨hacc, -⟩
      · rw [hacc, Option.toList_some, List.mem_singleton] at h
        subst h
        exact ⟨rs, duty, List.prefix_rfl, hadmits⟩
      · rw [hacc] at h
        cases h

/-- **Headers are faithful exactly if the accepted payloads are consistent.** The header requests
are made at any point of the run; the best bid of that point is the one the header is built from. -/
theorem headers_faithful_iff (R : Relay) (whitelist : List BlsPublicKey) (rs : List Request) :
    (∀ earlier, earlier <+: rs → ∀ slot parentHash proposerPubkey v best,
      (R.system.serve (R.after whitelist earlier)
        (.getHeader slot parentHash proposerPubkey)).1 = .returned (.getHeader (.ok v)) →
      (R.after whitelist earlier).best slot = some best →
      Faithful v.data.message parentHash best.message) ↔
    ∀ a ∈ R.acceptedBids whitelist rs, Consistent a.1 := by
  constructor
  · -- right after it is accepted, the bid itself is served to the proposer of its slot
    intro h a ha
    obtain ⟨earlier, duty, hprefix, hadmits⟩ := exists_admits_of_accepted ha
    have hwinning := winning_of_admits hadmits
    have hfaithful := h _ hprefix _ _ _ _ _ (serve_of_serves hwinning.serves) hwinning.best_eq
    exact ⟨hfaithful.parent_hash, hfaithful.block_hash, hfaithful.gas_limit, hfaithful.gas_used⟩
  · rintro h earlier ⟨later, rfl⟩ slot parentHash proposerPubkey v best hheader hbest
    obtain ⟨best', hserves, rfl⟩ := serves_of_serve hheader
    cases hserves.best_eq.symm.trans hbest
    rw [after_best] at hbest
    obtain ⟨a, ha, rfl⟩ := Option.map_eq_some_iff.mp hbest
    have hmem : a ∈ R.acceptedBids whitelist (earlier ++ later) := by
      rw [acceptedBids_append]
      exact List.mem_append_left _ (lastBy_mem _ ha).1
    have hc := h a hmem
    exact ⟨hc.parent_hash.trans hserves.parent_eq, hc.parent_hash, hc.block_hash, hc.gas_limit,
      hc.gas_used⟩

/-- A bid whose payload is another block than its signed trace is accepted, and the proposer gets a
header for that other block. -/
theorem header_unfaithful :
    ¬ ∀ (R : Relay) (whitelist : List BlsPublicKey) (rs : List Request) (slot : UInt64)
      (parentHash : B256) (proposerPubkey : BlsPublicKey) (v : Versioned SignedHeader)
      (best : BidSubmission),
      (R.system.serve (R.after whitelist rs) (.getHeader slot parentHash proposerPubkey)).1 =
        .returned (.getHeader (.ok v)) →
      (R.after whitelist rs).best slot = some best →
      Faithful v.data.message parentHash best.message := by
  intro h
  have hfaithful := h Sample.relay Sample.whitelist
    (Sample.ready ++ [.submitBid (Sample.bidFor 2 1 (.repeatByte 1) (.repeatByte 2))]) 2 default
    (Sample.prims.skToPk Sample.proposer)
    (GetHeaderUseCase.signedHeader Sample.relay
      (Sample.bidFor 2 1 (.repeatByte 1) (.repeatByte 2)))
    (Sample.bidFor 2 1 (.repeatByte 1) (.repeatByte 2)) rfl rfl
  have heq : (.repeatByte 2 : B256) = .repeatByte 1 := hfaithful.block_hash
  exact absurd heq (by decide)

/-! ## The highest bid -/

/-- `bid` is one of the bids accepted for `slot`, and none of them is worth more. -/
structure IsHighest (bids : List (BidSubmission × BlsPublicKey)) (slot : UInt64)
    (bid : BidSubmission) : Prop where
  accepted : ∃ a ∈ bids, acceptedSlot a = slot ∧ a.1 = bid
  highest : ∀ a ∈ bids, acceptedSlot a = slot → a.1.message.value ≤ bid.message.value

/-- A bid is held for every slot that had one accepted. -/
theorem best_of_accepted {rs : List Request} {a : BidSubmission × BlsPublicKey}
    (h : a ∈ R.acceptedBids whitelist rs) :
    ∃ b, (R.after whitelist rs).best (acceptedSlot a) = some b := by
  rw [after_best]
  have hmem : a ∈ (R.acceptedBids whitelist rs).filter
      fun x => acceptedSlot x = acceptedSlot a := by simp [h]
  obtain ⟨last, hlast⟩ := Option.isSome_iff_exists.mp
    (List.getLast?_isSome.mpr (List.ne_nil_of_mem hmem))
  exact ⟨last.1, congrArg (Option.map Prod.fst) hlast⟩

/-- **Bids are accepted in the order of their values**: what is held for a slot is worth more than
everything else that was accepted for it. -/
theorem best_gt_accepted {rs : List Request} {b : BidSubmission}
    {a : BidSubmission × BlsPublicKey} (ha : a ∈ R.acceptedBids whitelist rs)
    (hb : (R.after whitelist rs).best (acceptedSlot a) = some b) :
    a.1 = b ∨ a.1.message.value < b.message.value := by
  induction rs using List.reverseRecOn generalizing b with
  | nil => cases ha
  | append_singleton rs r ih =>
    rw [acceptedBids_concat] at ha
    rw [after_concat] at hb
    rcases serve_bids R (R.after whitelist rs) r with
      ⟨bid, duty, -, hadmits, hacc, hs⟩ | ⟨hacc, hau, -⟩
    · rw [hs, Store.accept_best _ hadmits.beats] at hb
      rw [hacc, Option.toList_some] at ha
      rcases List.mem_append.mp ha with hearlier | hnew
      · by_cases hslot : acceptedSlot a = bid.message.slot
        · -- the new bid beats the one held, which was worth at least as much as this one
          rw [hslot, Function.update_self] at hb
          cases hb
          obtain ⟨held, hheld⟩ := best_of_accepted hearlier
          have hlt := Store.beats_iff.mp hadmits.beats held (hslot ▸ hheld)
          rcases ih hearlier hheld with rfl | hle
          · exact .inr hlt
          · exact .inr (hle.trans hlt)
        · rw [Function.update_of_ne hslot] at hb
          exact ih hearlier hb
      · rw [List.mem_singleton.mp hnew] at hb ⊢
        rw [show acceptedSlot (bid, duty.pubkey) = bid.message.slot from rfl,
          Function.update_self] at hb
        exact .inl (Option.some.inj hb)
    · rw [hacc, Option.toList_none, List.append_nil] at ha
      rw [Store.best_congr hau] at hb
      exact ih ha hb

/-- What is held for a slot is the highest bid accepted for it. -/
theorem best_iff_isHighest {rs : List Request} {slot : UInt64} {b : BidSubmission} :
    (R.after whitelist rs).best slot = some b ↔
      IsHighest (R.acceptedBids whitelist rs) slot b := by
  constructor
  · intro hb
    refine ⟨?_, ?_⟩
    · rw [after_best] at hb
      obtain ⟨a, ha, rfl⟩ := Option.map_eq_some_iff.mp hb
      obtain ⟨hmem, hslot⟩ := lastBy_mem _ ha
      exact ⟨a, hmem, hslot, rfl⟩
    · rintro a ha rfl
      rcases best_gt_accepted ha hb with rfl | hlt
      · exact le_refl _
      · exact hlt.le
  · rintro ⟨⟨a, ha, rfl, rfl⟩, hhighest⟩
    obtain ⟨held, hheld⟩ := best_of_accepted ha
    rcases best_gt_accepted ha hheld with heq | hlt
    · rw [hheld, heq]
    · -- otherwise the one held would be worth more
      have hb := hheld
      rw [after_best] at hb
      obtain ⟨last, hlast, rfl⟩ := Option.map_eq_some_iff.mp hb
      obtain ⟨hmem, hslot⟩ := lastBy_mem _ hlast
      exact absurd hlt (not_lt.mpr (hhighest last hmem hslot))

/-- **`GetHeader` serves the highest accepted bid, to the right proposer only.** -/
theorem get_header_highest_bid (R : Relay) (whitelist : List BlsPublicKey) (rs : List Request)
    (slot : UInt64) (parentHash : B256) (proposerPubkey : BlsPublicKey) :
    let s := R.after whitelist rs
    let served := R.system.serve s (.getHeader slot parentHash proposerPubkey)
    ((∃ v, served.1 = .returned (.getHeader (.ok v))) ↔
      (∃ reg, s.storage.readValidatorRegistration proposerPubkey = some reg) ∧
      (∃ duty, s.storage.proposerDuties.find? (fun d => d.slot == slot) = some duty ∧
        duty.pubkey = proposerPubkey) ∧
      s.storage.headSlot.isNextSlot R.build slot = some true ∧
      ∃ bid, IsHighest (R.acceptedBids whitelist rs) slot bid ∧
        bid.message.parentHash = parentHash) ∧
    (∀ v, served.1 = .returned (.getHeader (.ok v)) →
      ∀ bid, IsHighest (R.acceptedBids whitelist rs) slot bid →
        v.data.message = SignedHeader.buildHeader R.prims bid) ∧
    served.2 = s := by
  intro s served
  refine ⟨⟨?_, ?_⟩, ?_, ?_⟩
  · rintro ⟨v, hv⟩
    obtain ⟨best, hserves, -⟩ := serves_of_serve hv
    exact ⟨hserves.registered, hserves.duty_found, hserves.next_slot, best,
      best_iff_isHighest.mp hserves.best_eq, hserves.parent_eq⟩
  · rintro ⟨hregistered, hduty, hnext, bid, hhighest, hparent⟩
    exact ⟨_, serve_of_serves
      ⟨hregistered, hduty, hnext, best_iff_isHighest.mpr hhighest, hparent⟩⟩
  · intro v hv bid hhighest
    obtain ⟨best, hserves, rfl⟩ := serves_of_serve hv
    cases hserves.best_eq.symm.trans (best_iff_isHighest.mpr hhighest)
    rfl
  · rcases serve_getHeader R s slot parentHash proposerPubkey with ⟨_, -, hserve⟩ | ⟨-, -, hs⟩
    · show (R.system.serve s (.getHeader slot parentHash proposerPubkey)).2 = s
      rw [hserve]
    · exact hs

end Relay

end MevRelay
