import MevRelay.Api.Decoding
import MevRelay.Process
import MevRelay.Slots

/-!
# Panics

What makes a task panic is in its own messages, is the last `u64` as head in a build that checks
additions, or is an epoch length of zero. `panicked_iff` has the exact causes, request by request;
`panic_has_own_cause` carries them to the tasks of the process: no client can make another one's
handler panic.
-/

namespace MevRelay

open Atomic Fallible

/-- A checked build overflows at the last `u64`, and only there. -/
theorem HeadSlot.isNextSlot_eq_none_iff {head : HeadSlot} {build : Build} {proposalSlot : UInt64} :
    head.isNextSlot build proposalSlot = none ↔
      build.overflowChecks = true ∧ 2 ^ 64 - 1 ≤ head.slot.toNat := by
  obtain ⟨overflowChecks⟩ := build
  by_cases hlt : head.slot.toNat < 2 ^ 64 - 1
  · rw [HeadSlot.isNextSlot_of_lt hlt]
    exact iff_of_false (fun h => by cases h) (fun h => absurd h.2 (Nat.not_le.mpr hlt))
  · cases overflowChecks with
    | true =>
      rw [HeadSlot.isNextSlot_of_last (Nat.le_of_not_lt hlt)]
      exact iff_of_true rfl ⟨rfl, Nat.le_of_not_lt hlt⟩
    | false => exact iff_of_false (fun h => by cases h) (fun h => by cases h.1)

/-! ## Requests -/

/-- The head that was read has no next slot, in a build that checks. -/
def SawLastSlot (R : Relay) (tr : List StoreEvent) : Prop :=
  R.build.overflowChecks = true ∧ ∃ head, ⟨.readHeadSlot, head⟩ ∈ tr ∧ 2 ^ 64 - 1 ≤ head.slot.toNat

theorem not_sawLastSlot_nil (R : Relay) : ¬ SawLastSlot R [] := by
  rintro ⟨-, head, hmem, -⟩
  cases hmem

/-- Every call but the one before a comparison with the head. -/
def NotHead : StoreOp → Prop
  | .readHeadSlot => False
  | _ => True

theorem NotHead.keeps {R : Relay} (tr : List StoreEvent) (o : StoreOp) (ans : StoreOp.Ans o)
    (h : NotHead o) (htr : ¬ SawLastSlot R tr) : ¬ SawLastSlot R (tr ++ [⟨o, ans⟩]) := by
  rintro ⟨hchecks, head, hmem, hlast⟩
  rcases List.mem_append.mp hmem with hmem | hmem
  · exact htr ⟨hchecks, head, hmem, hlast⟩
  · cases List.mem_singleton.mp hmem
    exact h

/-- A part that leaves the head alone and has no panic of its own. -/
theorem abortsIff_of_safely {α : Type} {R : Relay} {p : StoreProg α} {tr : List StoreEvent}
    (h : p.Safely NotHead) (htr : ¬ SawLastSlot R tr) : p.AbortsIff (SawLastSlot R) tr :=
  h.abortsIff NotHead.keeps htr

/-- The comparison panics exactly when the head just read is the last slot. -/
theorem abortsIff_isNextSlot {α : Type} {R : Relay} {tr : List StoreEvent}
    (htr : ¬ SawLastSlot R tr) (head : HeadSlot) (slot : UInt64) {f : Bool → StoreProg α}
    (hf : ∀ isNext, (f isNext).Safely NotHead) :
    (orPanic (head.isNextSlot R.build slot) >>= f).AbortsIff (SawLastSlot R)
      (tr ++ [⟨.readHeadSlot, head⟩]) := by
  have hsaw : head.isNextSlot R.build slot = none ↔
      SawLastSlot R (tr ++ [⟨.readHeadSlot, head⟩]) := by
    rw [HeadSlot.isNextSlot_eq_none_iff]
    constructor
    · rintro ⟨hchecks, hlast⟩
      exact ⟨hchecks, head, List.mem_append_right _ List.mem_cons_self, hlast⟩
    · rintro ⟨hchecks, head', hmem, hlast⟩
      rcases List.mem_append.mp hmem with hmem | hmem
      · exact absurd ⟨hchecks, head', hmem, hlast⟩ htr
      · cases List.mem_singleton.mp hmem
        exact ⟨hchecks, hlast⟩
  apply Prog.abortsIff_ofOption_bind hsaw
  intro isNext hnext
  apply abortsIff_of_safely (hf isNext)
  rw [← hsaw, hnext]
  intro h
  cases h

theorem SubmitBidUseCase.execute_abortsIff (R : Relay) (bid : BidSubmission) :
    (execute R bid).AbortsIff (SawLastSlot R) [] := by
  have hchecks : ∀ {tr}, SubmitBidUseCase.Checking R bid tr → ¬ SawLastSlot R tr := by
    rintro tr checks ⟨hoverflow, head, hmem, hlast⟩
    exact checks.heads head hmem (HeadSlot.isNextSlot_eq_none_iff.mpr ⟨hoverflow, hlast⟩)
  apply Prog.Everywhere.abortsIff
  refine (SubmitBidUseCase.execute_stages R bid).mono ?_
  intro tr rest hstage
  cases hstage with
  | panicked checks overflow =>
    obtain ⟨hoverflow, hlast⟩ := HeadSlot.isNextSlot_eq_none_iff.mp overflow
    exact iff_of_true rfl ⟨hoverflow, _, List.mem_append_right _ List.mem_cons_self, hlast⟩
  | checking checks read => exact iff_of_false nofun (hchecks checks)
  | rejected checks => exact iff_of_false nofun (hchecks checks)
  | bidding checks cleared => exact iff_of_false nofun (hchecks checks)
  | outbid checks =>
    exact iff_of_false nofun (NotHead.keeps _ (.compareAndBid _ _) _ trivial (hchecks checks))
  | storing checks =>
    exact iff_of_false nofun (NotHead.keeps _ (.compareAndBid _ _) _ trivial (hchecks checks))
  | stored checks =>
    exact iff_of_false nofun (NotHead.keeps _ (.setBlindedBlockResponse _ _) _ trivial
      (NotHead.keeps _ (.compareAndBid _ _) _ trivial (hchecks checks)))

theorem GetHeaderUseCase.execute_abortsIff (R : Relay) (slot : UInt64) (parentHash : B256)
    (proposerPubkey : BlsPublicKey) :
    (execute R slot parentHash proposerPubkey).AbortsIff (SawLastSlot R) [] := by
  have hnil := not_sawLastSlot_nil R
  unfold execute
  simp only [Prog.op_bind, Prog.pure_eq]
  refine ⟨hnil, ?_⟩
  intro registration
  have htr := NotHead.keeps [] (.readValidatorRegistration proposerPubkey) registration trivial hnil
  cases registration with
  | none => exact htr
  | some registration =>
  refine ⟨htr, ?_⟩
  intro found
  have htr' := NotHead.keeps _ (.findDutyBySlot slot) found trivial htr
  cases found with
  | none => exact htr'
  | some duty =>
  by_cases hduty : duty.pubkey ≠ proposerPubkey
  · simp only [if_pos hduty]
    exact htr'
  simp only [if_neg hduty]
  refine ⟨htr', fun headSlot => abortsIff_isNextSlot htr' headSlot _ ?_⟩
  intro isNext
  cases isNext with
  | false => trivial
  | true =>
  refine ⟨trivial, ?_⟩
  intro best
  cases best with
  | error e => trivial
  | ok best =>
    show (if best.val.message.parentHash ≠ parentHash then _ else _ : StoreProg _).Safely NotHead
    split <;> trivial

theorem UnblindBlockUseCase.execute_safely (R : Relay) (slot proposerIndex : UInt64)
    (blockHash : B256) (signature : BlsSignature) :
    (execute R slot proposerIndex blockHash signature).Safely fun _ => True := by
  unfold execute
  simp only [Prog.op_bind, Prog.pure_eq]
  refine ⟨trivial, ?_⟩
  intro found
  cases found with
  | none => trivial
  | some duty =>
  by_cases hindex : duty.validatorIndex ≠ proposerIndex
  · simp only [if_pos hindex]
    trivial
  simp only [if_neg hindex]
  refine ⟨trivial, ?_⟩
  intro registration
  cases registration with
  | none => trivial
  | some registration =>
  cases R.verifiesBlinded duty.pubkey slot proposerIndex blockHash signature with
  | false => trivial
  | true =>
  refine ⟨trivial, ?_⟩
  intro stored
  cases stored with
  | none => trivial
  | some resp =>
  by_cases hhash : resp.executionPayload.blockHash ≠ blockHash
  · simp only [if_pos hhash]
    trivial
  simp only [if_neg hhash]
  exact ⟨trivial, fun _ => trivial⟩

namespace RelayService

variable (R : Relay)

theorem keepRegistered_safely (duties : List ProposerDuty) :
    (keepRegistered duties).Safely fun _ => True := by
  induction duties with
  | nil => trivial
  | cons duty duties ih => exact ⟨trivial, fun _ => ih.bind fun _ => trivial⟩

theorem filterDuties_safely (duties : List ProposerDuty) :
    (filterDuties duties).Safely fun _ => True := by
  refine ⟨trivial, ?_⟩
  intro isEmpty
  cases isEmpty with
  | true => trivial
  | false => exact keepRegistered_safely duties

/-- A sync does not panic if there is a next epoch. -/
theorem syncDuties_safely (beacon : Beacon) {epoch next : UInt64}
    (hnext : R.build.addU64 epoch 1 = some next) :
    (syncDuties R beacon epoch).Safely fun _ => True := by
  unfold syncDuties
  cases beacon epoch with
  | error e => trivial
  | ok duties =>
    apply (filterDuties_safely duties).bind
    intro filtered
    simp only [hnext, Prog.ofOption_some, Prog.ret_bind]
    cases beacon next with
    | error e => exact ⟨trivial, fun _ => trivial⟩
    | ok duties' =>
      apply (filterDuties_safely duties').bind
      intro nextFiltered
      exact ⟨trivial, fun _ => trivial⟩

/-- The head has been moved, with epochs of no slots. -/
def MovedHead (tr : List StoreEvent) : Prop :=
  R.slotsPerEpoch = 0 ∧ ∃ slot, ⟨.setHeadSlot slot, ()⟩ ∈ tr

variable {R}

theorem not_movedHead_nil : ¬ MovedHead R [] := by
  rintro ⟨-, slot, hmem⟩
  cases hmem

/-- Where an epoch has slots, only a panic of its own could stop a part. -/
theorem abortsIff_movedHead {α : Type} {p : StoreProg α} {tr : List StoreEvent}
    (hslots : R.slotsPerEpoch ≠ 0) (h : p.Safely fun _ => True) : p.AbortsIff (MovedHead R) tr :=
  h.abortsIff (fun _ _ _ _ _ hmoved => hslots hmoved.1) fun hmoved => hslots hmoved.1

theorem movedHead_after (hslots : R.slotsPerEpoch = 0) (tr : List StoreEvent) (slot : HeadSlot) :
    MovedHead R (tr ++ [⟨.setHeadSlot slot, ()⟩]) :=
  ⟨hslots, slot, List.mem_append_right _ List.mem_cons_self⟩

/-- A refresh slot has a next epoch to ask for. -/
theorem syncDuties_of_refresh (beacon : Beacon) {slot : UInt64} (hslots : R.slotsPerEpoch ≠ 0)
    (hrefresh : slot % R.slotsPerEpoch = 1) :
    (syncDuties R beacon (slot / R.slotsPerEpoch)).Safely fun _ => True := by
  have hslot : R.IsRefresh slot := by
    rw [Relay.IsRefresh, HeadSlot.isDutyRefreshSlot_of_ne hslots, hrefresh]
    rfl
  obtain ⟨next, hnext, -⟩ := hslot.addU64_epoch (HeadSlot.epoch_of_ne hslots ⟨slot⟩) R.build
  exact syncDuties_safely R beacon hnext

theorem handleHeadEvent_abortsIff (beacon : Beacon) (event : HeadEvent) :
    (handleHeadEvent R beacon event).AbortsIff (MovedHead R) [] := by
  refine ⟨not_movedHead_nil, fun _ => ?_⟩
  by_cases hslots : R.slotsPerEpoch = 0
  · rw [HeadSlot.isDutyRefreshSlot_eq_none_iff.mpr hslots]
    exact movedHead_after hslots [] _
  · apply abortsIff_movedHead hslots
    simp only [HeadSlot.isDutyRefreshSlot_of_ne hslots, HeadSlot.epoch_of_ne hslots,
      Prog.ofOption_some, Prog.ret_bind]
    by_cases hrefresh : event.slot % R.slotsPerEpoch = 1
    · rw [if_pos (beq_iff_eq.mpr hrefresh)]
      exact (syncDuties_of_refresh beacon hslots hrefresh).bind fun _ => trivial
    · rw [if_neg (fun h => hrefresh (beq_iff_eq.mp h))]
      trivial

theorem pollingTick_abortsIff (beacon : Beacon) (head : Except String UInt64) :
    (pollingTick R beacon head).AbortsIff (MovedHead R) [] := by
  cases head with
  | error e => exact not_movedHead_nil
  | ok slot =>
    refine ⟨not_movedHead_nil, fun _ => ?_⟩
    by_cases hslots : R.slotsPerEpoch = 0
    · rw [HeadSlot.epoch_eq_none_iff.mpr hslots]
      exact movedHead_after hslots [] _
    · apply abortsIff_movedHead hslots
      simp only [HeadSlot.isDutyRefreshSlot_of_ne hslots, HeadSlot.epoch_of_ne hslots,
        Prog.ofOption_some, Prog.ret_bind]
      by_cases hrefresh : slot % R.slotsPerEpoch = 1
      · rw [if_pos (beq_iff_eq.mpr hrefresh)]
        exact (syncDuties_of_refresh beacon hslots hrefresh).bind fun _ => trivial
      · rw [if_neg (fun h => hrefresh (beq_iff_eq.mp h))]
        trivial

theorem handlePayloadAttributesEvent_abortsIff (event : PayloadAttributesEvent) :
    (handlePayloadAttributesEvent R event).AbortsIff (MovedHead R) [] := by
  have hnil : ¬ MovedHead R [] := not_movedHead_nil
  simp only [handlePayloadAttributesEvent]
  cases R.prims.parseB256 event.data.payloadAttributes.prevRandao with
  | error e => exact hnil
  | ok prevRandao =>
    cases R.prims.parseAddress event.data.payloadAttributes.suggestedFeeRecipient with
    | error e => exact hnil
    | ok suggestedFeeRecipient =>
      refine ⟨hnil, fun _ => ?_⟩
      rintro ⟨-, slot, hmem⟩
      cases List.mem_singleton.mp hmem

end RelayService

namespace Rpc

/-- What has made a request panic, by its message and its calls so far. -/
def Panicked (R : Relay) : Request → List StoreEvent → Prop
  | .bid msg, tr => msg.ReachesLongBaseFee R.prims ∨ SawLastSlot R tr
  | .registerValidator _, _ => False
  | .retrieve msg, tr => msg.parentHash.length ≠ 32 ∨ SawLastSlot R tr
  | .submitBlindedBlock req, _ => req.blockHash.length ≠ 32
  | .background _, tr => RelayService.MovedHead R tr

/-- A duty sync that no head has set off; no task of the process is one. -/
def Request.IsSync : Request → Prop
  | .background (.syncDuties _ _) => True
  | _ => False

variable (R : Relay) (serde : Serde)

theorem handleMessage_abortsIff (msg : Proto.BidRequest) :
    (BidderService.handleMessage R msg).AbortsIff (Panicked R (.bid msg)) [] := by
  have hpanics : (BidSubmission.tryFrom R.prims msg).run = none ↔
      msg.ReachesLongBaseFee R.prims := by
    rw [← Panics, BidSubmission.panics_tryFrom]
    simp only [BidTrace.exists_decodes_iff]
    rfl
  unfold BidderService.handleMessage
  apply Prog.abortsIff_ofOption_bind
  · rw [hpanics]
    exact (or_iff_left (not_sawLastSlot_nil R)).symm
  · intro converted hconverted
    have hshort : ¬ msg.ReachesLongBaseFee R.prims := by
      rw [← hpanics, hconverted]
      intro h
      cases h
    have hcongr : ∀ tr, SawLastSlot R tr ↔ Panicked R (.bid msg) tr :=
      fun tr => (or_iff_right hshort).symm
    cases converted with
    | error e => exact (hcongr []).not.mp (not_sawLastSlot_nil R)
    | ok submission =>
      apply ((SubmitBidUseCase.execute_abortsIff R submission).congr hcongr).bind
      intro tr result htr
      cases result <;> exact htr

theorem not_panics_registration (registration : Proto.SignedValidatorRegistration) :
    ¬ Panics (SignedValidatorRegistration.tryFrom R.prims registration) := by
  unfold SignedValidatorRegistration.tryFrom
  cases registration.message with
  | none => simp
  | some msg =>
    simp only [panics_bind, panics_pure, Convert.bytesToAddress, Convert.panics_bytesTo,
      Convert.panics_ofExcept, and_false, exists_false, or_self, not_false_eq_true]

theorem registerValidator_safely (req : Proto.RegisterValidatorRequest) :
    (ValidatorService.registerValidator R req).Safely fun _ => True := by
  unfold ValidatorService.registerValidator
  cases req.registration with
  | none => trivial
  | some registration =>
    obtain ⟨converted, hconverted⟩ := exists_run (not_panics_registration R registration)
    simp only [hconverted, Prog.ofOption_some, Prog.ret_bind]
    cases converted with
    | error e => trivial
    | ok registration =>
      have hexecute : (RegisterValidatorUseCase.execute R registration).Safely fun _ => True := by
        unfold RegisterValidatorUseCase.execute
        cases registration.verifySignature R.prims R.builderDomain with
        | false => trivial
        | true => exact ⟨trivial, fun _ => trivial⟩
      apply hexecute.bind
      intro result
      cases result <;> trivial

theorem ofSlice?_eq_none_iff {n : Nat} {bytes : List UInt8} :
    FixedBytes.ofSlice? n bytes = none ↔ bytes.length ≠ n := by
  unfold FixedBytes.ofSlice?
  split
  · next h => exact iff_of_false (fun hnone => by cases hnone) (fun hne => hne h)
  · next h => exact iff_of_true rfl h

theorem retrieve_abortsIff (msg : Proto.RetrieveRequest) :
    (RetrieverService.handleMessage R serde msg).AbortsIff (Panicked R (.retrieve msg)) [] := by
  unfold RetrieverService.handleMessage
  apply Prog.abortsIff_ofOption_bind
  · rw [ofSlice?_eq_none_iff]
    exact (or_iff_left (not_sawLastSlot_nil R)).symm
  · intro parentHash hparent
    have hlength : ¬ msg.parentHash.length ≠ 32 := by
      rw [← ofSlice?_eq_none_iff, hparent]
      intro h
      cases h
    have hcongr : ∀ tr, SawLastSlot R tr ↔ Panicked R (.retrieve msg) tr :=
      fun tr => (or_iff_right hlength).symm
    cases BlsPublicKey.deserialize R.prims msg.proposerPubkey with
    | error e => exact (hcongr []).not.mp (not_sawLastSlot_nil R)
    | ok proposerPubkey =>
      refine ((GetHeaderUseCase.execute_abortsIff R msg.slot parentHash proposerPubkey).congr
        hcongr).bind ?_
      intro tr result htr
      cases result with
      | error e => exact htr
      | ok versioned =>
        refine ⟨htr, fun second hnext => ?_⟩
        exact NotHead.keeps tr (.getBestBid msg.slot) second trivial ((hcongr tr).not.mpr htr)
          ((hcongr _).mpr hnext)

theorem submitBlindedBlock_abortsIff (req : Proto.SubmitBlindedBlockRequest) :
    (RetrieverService.submitBlindedBlock R serde req).AbortsIff
      (Panicked R (.submitBlindedBlock req)) [] := by
  unfold RetrieverService.submitBlindedBlock
  apply Prog.abortsIff_ofOption_bind ofSlice?_eq_none_iff
  intro blockHash hhash
  have hlength : ¬ req.blockHash.length ≠ 32 := by
    rw [← ofSlice?_eq_none_iff, hhash]
    intro h
    cases h
  refine Prog.Safely.abortsIff (N := fun _ => True) ?_ (fun _ _ _ _ => id) hlength
  cases BlsSignature.deserialize R.prims req.signature with
  | error e => trivial
  | ok signature =>
    refine (UnblindBlockUseCase.execute_safely R req.slot req.proposerIndex blockHash
      signature).bind ?_
    intro result
    cases result with
    | error e => trivial
    | ok resp =>
      dsimp only
      split <;> trivial

theorem program_abortsIff {r : Request} (hr : ¬ r.IsSync) :
    (program R serde r).AbortsIff (Panicked R r) [] := by
  cases r with
  | bid msg => exact (handleMessage_abortsIff R msg).map
  | registerValidator req =>
    exact ((registerValidator_safely R req).abortsIff (fun _ _ _ _ => id) id).map
  | retrieve msg => exact (retrieve_abortsIff R serde msg).map
  | submitBlindedBlock req => exact (submitBlindedBlock_abortsIff R serde req).map
  | background task =>
    apply Prog.AbortsIff.map
    cases task with
    | headEvent event beacon => exact RelayService.handleHeadEvent_abortsIff beacon event
    | payloadAttributesEvent event =>
      exact RelayService.handlePayloadAttributesEvent_abortsIff event
    | syncDuties epoch beacon => exact absurd trivial hr
    | poll head beacon => exact RelayService.pollingTick_abortsIff beacon head

end Rpc

theorem Rpc.program_everywhere (R : Relay) (serde : Serde) (r : Rpc.Request) :
    (Rpc.program R serde r).Everywhere
      (fun tr q => ¬ r.IsSync → (q = .abort ↔ Rpc.Panicked R r tr)) [] := by
  by_cases hr : r.IsSync
  · refine ((Rpc.program_always R serde r).everywhere (I := fun _ => True)
      (fun _ _ _ _ _ => trivial) trivial).mono ?_
    intro tr q _ hnot
    exact absurd hr hnot
  · exact (Rpc.program_abortsIff R serde hr).everywhere.mono fun _ _ h _ => h

/-- **What makes a request panic**, in every interleaving: a base fee of more than 32 bytes that decoding
gets to, a parent hash or block hash that is not 32 bytes long, a head that is the last `u64` when
additions are checked, or a head at all when epochs have no slots. Nothing else does, and each of
these does. -/
theorem Relay.panicked_iff (R : Relay) (serde : Serde) (whitelist : List BlsPublicKey)
    (requests : List (Action Rpc.Request UInt64)) (t : RpcThread)
    (ht : t ∈ ((R.api serde).after whitelist requests).threads) (hsync : ¬ t.request.IsSync) :
    t.rest = .abort ↔ Rpc.Panicked R t.request t.trace := by
  have hthread := Pool.run_everywhere (S := (R.api serde).system)
    (Rpc.program_everywhere R serde) (p := Pool.idle (Store.new whitelist))
    (fun _ ht => absurd ht List.not_mem_nil) requests t ht
  exact hthread.here hsync

/-- A `Retrieve` without a parent hash. -/
theorem Relay.panicked_iff_empty :
    ∃ t ∈ ((Sample.relay.api Sample.serde).after Sample.whitelist
        [.arrive (.retrieve { Sample.retrieveMessage 2 with parentHash := [] })]).threads,
      t.rest = .abort ∧ Rpc.Panicked Sample.relay t.request t.trace := by
  refine ⟨_, List.mem_singleton.mpr rfl, rfl, ?_⟩
  exact (Relay.panicked_iff Sample.relay Sample.serde Sample.whitelist
    [.arrive (.retrieve { Sample.retrieveMessage 2 with parentHash := [] })] _
    (List.mem_singleton.mpr rfl) id).mp rfl

/-! ## Tasks of the process -/

/-- Heads set off the only syncs there are. -/
theorem Session.Asks.not_isSync {json : EventJson} {x : Session} {r : Rpc.Request}
    (h : x.Asks json r) : ¬ r.IsSync := by
  cases x with
  | bid inStream sends =>
    obtain ⟨msg, -, rfl⟩ := h
    exact id
  | retrieve inStream sends =>
    obtain ⟨msg, -, rfl⟩ := h
    exact id
  | registerValidator req =>
    cases h
    exact id
  | submitBlindedBlock req =>
    cases h
    exact id
  | relayService world rounds =>
    obtain ⟨task, htask, rfl⟩ := h
    cases rounds with
    | zero => cases htask
    | succ rounds =>
      rcases List.mem_append.mp htask with htask | htask
      · obtain ⟨⟨event, i⟩, -, rfl⟩ := List.mem_map.mp htask
        cases event <;> exact id
      · obtain ⟨i, -, rfl⟩ := List.mem_map.mp htask
        exact id

theorem SawLastSlot.mono {R : Relay} {tr tr' : List StoreEvent} (h : SawLastSlot R tr)
    (htr : tr ⊆ tr') : SawLastSlot R tr' :=
  ⟨h.1, h.2.imp fun _ hmem => ⟨htr hmem.1, hmem.2⟩⟩

/-- What of its own can make a task panic. -/
def Session.Cause (R : Relay) : Session → List StoreEvent → Prop
  | .bid inStream _, tr =>
    (∃ msg ∈ BidderService.received inStream, msg.ReachesLongBaseFee R.prims) ∨ SawLastSlot R tr
  | .retrieve inStream _, tr =>
    (∃ msg ∈ RetrieverService.received inStream, msg.parentHash.length ≠ 32) ∨ SawLastSlot R tr
  | .registerValidator _, _ => False
  | .submitBlindedBlock req, _ => req.blockHash.length ≠ 32
  | .relayService _ _, tr => RelayService.MovedHead R tr

theorem Session.Cause.of_panicked {R : Relay} {json : EventJson} {x : Session} {r : Rpc.Request}
    {tr tr' : List StoreEvent} (h : Rpc.Panicked R r tr) (hasks : x.Asks json r)
    (htr : tr ⊆ tr') : x.Cause R tr' := by
  cases x with
  | bid inStream sends =>
    obtain ⟨msg, hmsg, rfl⟩ := hasks
    exact h.imp (fun hlong => ⟨msg, hmsg, hlong⟩) (fun hsaw => hsaw.mono htr)
  | retrieve inStream sends =>
    obtain ⟨msg, hmsg, rfl⟩ := hasks
    exact h.imp (fun hlength => ⟨msg, hmsg, hlength⟩) (fun hsaw => hsaw.mono htr)
  | registerValidator req =>
    cases hasks
    exact h
  | submitBlindedBlock req =>
    cases hasks
    exact h
  | relayService world rounds =>
    obtain ⟨task, -, rfl⟩ := hasks
    exact ⟨h.1, h.2.imp fun _ hmem => htr hmem⟩

/-- **A task panics only for a cause of its own.** In every run of the process, however the tasks
interleave: a handler that has panicked has had a malformed message on its own stream or has itself
read the last `u64` as head in a build that checks; a `SubmitBlindedBlock` has a malformed hash; the
background service has set a head with epochs of no slots; and a `RegisterValidator` has not
panicked. -/
theorem Relay.panic_has_own_cause (R : Relay) (serde : Serde) (json : EventJson)
    (whitelist : List BlsPublicKey) (schedule : List (Action Session UInt64))
    (u : Thread StoreOp StoreOp.Ans Session SessionResult)
    (hu : u ∈ (R.processAfter serde json whitelist schedule).threads) (hrest : u.rest = .abort) :
    u.request.Cause R u.trace := by
  obtain ⟨j, hj⟩ := List.getElem?_of_mem hu
  obtain ⟨requests, owners, hmade, hown⟩ := R.process_requests serde json whitelist schedule
  obtain ⟨hasks, haborts⟩ := hown j u hj
  obtain ⟨t, ht, habort⟩ := haborts hrest
  have hthread := Pool.run_everywhere (S := (R.api serde).system)
    (Rpc.program_everywhere R serde) (p := Pool.idle (Store.new whitelist))
    (fun _ ht => absurd ht List.not_mem_nil) requests t (mem_of_mem_owned ht)
  have hpanicked : Rpc.Panicked R t.request t.trace :=
    (hthread.here (hasks t ht).not_isSync).mp habort
  apply Session.Cause.of_panicked hpanicked (hasks t ht)
  rw [(hmade.made j u hj).trace_eq]
  exact fun e he => List.mem_flatMap.mpr ⟨t, ht, he⟩

open SseByteStream in
/-- A `Retrieve` stream with a message without a parent hash. -/
theorem Relay.panic_has_own_cause_empty :
    ∃ u ∈ (Sample.relay.processAfter Sample.serde sampleJson Sample.whitelist
        [.arrive (.retrieve [.ok { Sample.retrieveMessage 2 with parentHash := [] }]
          fun _ => true)]).threads,
      u.rest = .abort ∧ u.request.Cause Sample.relay u.trace := by
  refine ⟨_, List.mem_singleton.mpr rfl, rfl, ?_⟩
  exact Relay.panic_has_own_cause Sample.relay Sample.serde sampleJson Sample.whitelist
    [.arrive (.retrieve [.ok { Sample.retrieveMessage 2 with parentHash := [] }] fun _ => true)] _
    (List.mem_singleton.mpr rfl) rfl

end MevRelay
