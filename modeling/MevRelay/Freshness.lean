import MevRelay.Sequential

/-!
# How fresh the relay's knowledge is

Payload attributes and registrations are kept without looking at what they were made for: the
attributes without the slot of their event, a registration without a comparison of timestamps. Over a
sequential run each is therefore a *last write*:

* the attributes held are those of the last event that parsed, of whatever slot (`after_attributes`);
* the registration held for a pubkey is the last one that was submitted for it with a valid
  signature (`after_registrations`).
-/

namespace MevRelay

open Atomic RelayService

/-! ## Payload attributes -/

/-- The event that a request brings. -/
def Request.attributesEvent : Request → Option PayloadAttributesEvent
  | .background (.payloadAttributesEvent event) => some event
  | _ => none

/-- The payload attributes events of a run. -/
def attributesEvents (rs : List Request) : List PayloadAttributesEvent :=
  rs.filterMap Request.attributesEvent

/-- The slot that an event is about. -/
def proposalSlot (event : PayloadAttributesEvent) : UInt64 := event.data.proposalSlot

namespace Relay

variable {R : Relay} {whitelist : List BlsPublicKey}

/-- The relay can read the event. -/
def parses (R : Relay) (event : PayloadAttributesEvent) : Bool := (attributesOf R event).isSome

/-- Only a payload attributes event changes the attributes. -/
theorem serve_attributes (R : Relay) (s : Store) (r : Request) :
    (R.system.serve s r).2.storage.payloadAttributes =
      ((r.attributesEvent).bind (attributesOf R)).getD s.storage.payloadAttributes := by
  cases r with
  | background task =>
    rw [serve_background]
    cases task with
    | poll head beacon =>
      cases head with
      | ok slot => rfl
      | error e => rfl
    | _ => rfl
  | _ =>
    refine (serve_keeps_background R s ?_).2.1
    intro task h
    cases h

/-- **The attributes held are those of the last event that parsed.** -/
theorem after_attributes (rs : List Request) :
    (R.after whitelist rs).storage.payloadAttributes =
      ((lastBy R.parses true (attributesEvents rs)).bind (attributesOf R)).getD
        (MemoryStorage.new whitelist).payloadAttributes := by
  induction rs using List.reverseRecOn with
  | nil => rfl
  | append_singleton rs r ih =>
    rw [after_concat, serve_attributes, ih]
    unfold attributesEvents
    rw [filterMap_concat]
    cases hevent : r.attributesEvent with
    | none => simp
    | some event =>
      rw [Option.toList_some, lastBy_concat]
      cases hattrs : attributesOf R event with
      | none => simp [parses, hattrs]
      | some attrs => simp [parses, hattrs]

/-- Whenever a bid that gets past the checks before that of the randao carries the one held, what is
held comes from the latest event for the slot of the bid. -/
def BidsMeetOwnAttributes (R : Relay) (whitelist : List BlsPublicKey) (rs : List Request) : Prop :=
  ∀ before bid, before ++ [.submitBid bid] <+: rs →
    bid.message.value ≠ 0 →
    (R.after whitelist before).storage.isWhitelistedBuilder bid.message.builderPubkey = true →
    (R.after whitelist before).storage.readHeadSlot.isNextSlot R.build bid.message.slot =
      some true →
    (R.after whitelist before).storage.readPayloadAttributes.prevRandao =
      bid.executionPayload.prevRandao →
    ∃ event, lastBy R.parses true (attributesEvents before) = some event ∧
      lastBy proposalSlot bid.message.slot (attributesEvents before) = some event

theorem admits_of_serve {s : Store} {bid : BidSubmission}
    (h : (R.system.serve s (.submitBid bid)).1 = .returned (.submitBid (.ok ()))) :
    ∃ duty, SubmitBidUseCase.Admits R s bid duty := by
  rcases serve_submitBid R s bid with ⟨duty, hadmits, -⟩ | ⟨-, hnot, -⟩
  · exact ⟨duty, hadmits⟩
  · exact absurd h hnot

/-- **The randao of an accepted bid is that of its own slot**, in every run in which the attributes
held are those of the slot that is bid for. -/
theorem bid_randao_of_own_slot (R : Relay) (whitelist : List BlsPublicKey) (rs : List Request)
    (hrun : R.BidsMeetOwnAttributes whitelist rs) (before : List Request) (bid : BidSubmission)
    (hcall : before ++ [.submitBid bid] <+: rs)
    (hok : (R.system.serve (R.after whitelist before) (.submitBid bid)).1 =
      .returned (.submitBid (.ok ()))) :
    ∃ event, lastBy proposalSlot bid.message.slot (attributesEvents before) = some event ∧
      R.prims.parseB256 event.data.payloadAttributes.prevRandao =
        .ok bid.executionPayload.prevRandao := by
  obtain ⟨duty, hadmits⟩ := admits_of_serve hok
  obtain ⟨event, hheld, hlatest⟩ := hrun before bid hcall hadmits.value_ne hadmits.whitelisted
    hadmits.next_slot hadmits.randao
  refine ⟨event, hlatest, ?_⟩
  have hparses : R.parses event = true := (lastBy_mem R.parses hheld).2
  obtain ⟨attrs, hattrs⟩ := Option.isSome_iff_exists.mp hparses
  -- the attributes held are those of this event, and the bid passed the check against them
  have hstored : (R.after whitelist before).storage.payloadAttributes = attrs := by
    rw [after_attributes, hheld, Option.bind_some, hattrs]
    rfl
  rw [parseB256_of_attributesOf hattrs, ← hstored]
  exact congrArg Except.ok hadmits.randao

/-- The attributes of slot 2 arrive, then a bid for it. -/
theorem bid_randao_of_own_slot_sample :
    ∃ event, lastBy proposalSlot 2 (attributesEvents (Sample.ready ++ [Sample.attributes 2])) =
        some event ∧
      Sample.prims.parseB256 event.data.payloadAttributes.prevRandao =
        .ok (Sample.bid 2 1 1).executionPayload.prevRandao := by
  refine bid_randao_of_own_slot Sample.relay Sample.whitelist
    (Sample.ready ++ [Sample.attributes 2, .submitBid (Sample.bid 2 1 1)]) ?_
    (Sample.ready ++ [Sample.attributes 2]) (Sample.bid 2 1 1) (List.prefix_refl _) rfl
  intro before bid hcall _ _ _ _
  -- the run has one submission, its last request
  have hlast : before ++ [.submitBid bid] <+:
      (Sample.ready ++ [Sample.attributes 2]) ++ [.submitBid (Sample.bid 2 1 1)] := hcall
  obtain ⟨rfl, hbid⟩ := eq_of_prefix_concat hlast
    (by simp [Sample.ready, Sample.head, Sample.attributes])
  cases hbid
  exact ⟨_, rfl, rfl⟩

/-- The attributes of slot 2 arrive, the head moves on, and a bid for slot 3 is accepted on them: no
event for slot 3 has been seen. -/
theorem bid_randao_of_other_slot :
    ¬ ∀ (R : Relay) (whitelist : List BlsPublicKey) (rs : List Request) (bid : BidSubmission),
      (R.system.serve (R.after whitelist rs) (.submitBid bid)).1 =
        .returned (.submitBid (.ok ())) →
      ∃ event, lastBy proposalSlot bid.message.slot (attributesEvents rs) = some event ∧
        R.prims.parseB256 event.data.payloadAttributes.prevRandao =
          .ok bid.executionPayload.prevRandao := by
  intro h
  obtain ⟨event, hlatest, -⟩ := h Sample.relay Sample.whitelist
    (Sample.ready ++ [Sample.attributes 2, Sample.head 2]) (Sample.bid 3 1 1) rfl
  have hnone : lastBy proposalSlot 3
      (attributesEvents (Sample.ready ++ [Sample.attributes 2, Sample.head 2])) = none := rfl
  cases hnone.symm.trans hlatest

/-! ## Registrations -/

/-- The registration that a request gets stored. -/
def validRegistration (R : Relay) : Request → Option ValidatorRegistration
  | .registerValidator registration =>
    if registration.verifySignature R.prims R.builderDomain = true then some registration.message
    else none
  | _ => none

/-- The validly signed registrations of a run. -/
def validRegistrations (R : Relay) (rs : List Request) : List ValidatorRegistration :=
  rs.filterMap R.validRegistration

/-- What a request does to the registrations. -/
theorem serve_registrations (R : Relay) (s : Store) (r : Request) (key : BlsPublicKey) :
    (R.system.serve s r).2.storage.readValidatorRegistration key =
      (lastBy ValidatorRegistration.pubkey key (R.validRegistration r).toList).or
        (s.storage.readValidatorRegistration key) := by
  cases r with
  | registerValidator registration =>
    rw [serve_registerValidator]
    simp only [validRegistration]
    cases registration.verifySignature R.prims R.builderDomain with
    | false => rfl
    | true =>
      rw [if_pos rfl, if_pos rfl, MemoryStorage.readValidatorRegistration_set, Option.toList_some]
      by_cases h : registration.message.pubkey = key
      · simp [lastBy, h]
      · simp [lastBy, h, Ne.symm h]
  | _ =>
    unfold MemoryStorage.readValidatorRegistration
    rw [serve_keeps_registrations R s (by simp)]
    rfl

/-- **The registration held for a pubkey is the last valid one submitted for it.** -/
theorem after_registrations (rs : List Request) (key : BlsPublicKey) :
    (R.after whitelist rs).storage.readValidatorRegistration key =
      lastBy ValidatorRegistration.pubkey key (R.validRegistrations rs) := by
  induction rs using List.reverseRecOn with
  | nil => rfl
  | append_singleton rs r ih =>
    rw [after_concat, serve_registrations, ih]
    unfold validRegistrations
    rw [filterMap_concat, lastBy_append]

/-- **Registrations are last write wins.** For every pubkey and every run; a run that brings the
registrations of a pubkey in the order of their timestamps ends with a newest one. -/
theorem registrations_last_write (R : Relay) (whitelist : List BlsPublicKey) (rs : List Request) :
    (∀ key, (R.after whitelist rs).storage.readValidatorRegistration key =
      ((R.validRegistrations rs).filter fun reg => reg.pubkey = key).getLast?) ∧
    (∀ key, ((R.validRegistrations rs).filter fun reg => reg.pubkey = key).Pairwise
        (fun earlier later => earlier.timestamp ≤ later.timestamp) →
      ∀ reg, (R.after whitelist rs).storage.readValidatorRegistration key = some reg →
        ∀ other ∈ R.validRegistrations rs, other.pubkey = key →
          other.timestamp ≤ reg.timestamp) ∧
    (∀ rs', (∀ key, (R.after whitelist rs).storage.readValidatorRegistration key =
        (R.after whitelist rs').storage.readValidatorRegistration key) ↔
      ∀ key, ((R.validRegistrations rs).filter fun reg => reg.pubkey = key).getLast? =
        ((R.validRegistrations rs').filter fun reg => reg.pubkey = key).getLast?) := by
  have hlast : ∀ rs key, (R.after whitelist rs).storage.readValidatorRegistration key =
      ((R.validRegistrations rs).filter fun reg => reg.pubkey = key).getLast? :=
    after_registrations
  refine ⟨hlast rs, ?_, ?_⟩
  · intro key hordered reg hreg other hother hkey
    rw [hlast] at hreg
    have hmem : other ∈ (R.validRegistrations rs).filter fun reg => reg.pubkey = key := by
      simp [hother, hkey]
    obtain ⟨init, hinit⟩ := List.getLast?_eq_some_iff.mp hreg
    rw [hinit] at hordered hmem
    rcases List.mem_append.mp hmem with hmem | hmem
    · exact (List.pairwise_append.mp hordered).2.2 other hmem reg (by simp)
    · rw [List.mem_singleton.mp hmem]
      exact UInt64.le_refl _
  · intro rs'
    simp only [hlast]

/-- A registration of the proposer with timestamp 2, then its older one again: the older one is
held. -/
theorem registrations_older_wins :
    ¬ ∀ (R : Relay) (whitelist : List BlsPublicKey) (regs : List SignedValidatorRegistration),
      (∀ r ∈ regs, r.verifySignature R.prims R.builderDomain = true) →
      ∀ key reg,
        (R.after whitelist (regs.map Request.registerValidator)).storage.readValidatorRegistration
          key = some reg →
        ∀ r ∈ regs, r.message.pubkey = key → r.message.timestamp ≤ reg.timestamp := by
  intro h
  have hle := h Sample.relay [] [Sample.registrationAt 2, Sample.registrationAt 1] (by decide)
    (Sample.prims.skToPk Sample.proposer) (Sample.registrationAt 1).message rfl
    (Sample.registrationAt 2) (by simp) rfl
  exact absurd hle (by decide)

end Relay

end MevRelay
