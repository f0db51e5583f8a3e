import MevRelay.Api.Services

/-!
# Who gets to see the contents of a block

Payload and blobs of accepted bids leave the relay in two kinds of outputs: responses of
`SubmitBlindedBlock`, which answer a signed commitment to the block hash, and responses of
`Retrieve`, which send those of a bid for the requested slot along with the header, so before any
commitment. There are no others, in no interleaving of the services (`contents_disclosed`); the
second kind is real (`contents_shown_uncommitted`).

The pubkey of a `Retrieve` is looked up, not authenticated: the request has no signature.
-/

namespace MevRelay

open Atomic

namespace Disclosure

/-! ## What is shown -/

/-- What a request has sent or returned, once it has. -/
def output (t : RpcThread) : Option Rpc.Output :=
  match t.rest with
  | .ret out => some out
  | _ => none

/-- Payload and blobs as they stand in an output. Responses of the other services have no such
fields. -/
def contents : Rpc.Output → Option (List UInt8 × List UInt8)
  | .retrieve (.ok resp) => some (resp.executionPayload, resp.blobsBundle)
  | .submitBlindedBlock (.ok resp) => some (resp.executionPayload, resp.blobsBundle)
  | _ => none

/-- The contents that a request has shown. -/
def shown (t : RpcThread) : Option (List UInt8 × List UInt8) := (output t).bind contents

/-- The bid that a call got into the auction. -/
def wonBid : StoreEvent → Option BidSubmission
  | ⟨.compareAndBid _ bid, .ok ()⟩ => some bid
  | _ => none

/-- The bids accepted so far. -/
def acceptedIn (p : RpcPool) : List BidSubmission :=
  p.threads.flatMap fun t => t.trace.filterMap wonBid

/-- The request has shown the payload of `bid`. An empty field shows nothing: it is what stands in for
a bid that is gone. -/
def Shows (serde : Serde) (t : RpcThread) (bid : BidSubmission) : Prop :=
  ∃ payload blobs, shown t = some (payload, blobs) ∧ payload ≠ [] ∧
    serde.payload bid.executionPayload = .ok payload

/-- A `Retrieve` that was answered with the payload of `bid`: it named a pubkey that it found
registered and to hold the duty of its slot, this slot was the next one, and the best bid that it
read for the slot, one accepted for it, has this payload. -/
structure Served (R : Relay) (p : RpcPool) (t : RpcThread) (bid : BidSubmission) : Prop where
  answered : ∃ resp, output t = some (.retrieve (.ok resp))
  entitled : ∃ msg parentHash proposerPubkey reg duty head best, t.request = .retrieve msg ∧
    Rpc.serves R t.request = some (.getHeader msg.slot parentHash proposerPubkey) ∧
    ⟨.readValidatorRegistration proposerPubkey, some reg⟩ ∈ t.trace ∧
    ⟨.findDutyBySlot msg.slot, some duty⟩ ∈ t.trace ∧ duty.pubkey = proposerPubkey ∧
    ⟨.readHeadSlot, head⟩ ∈ t.trace ∧ head.isNextSlot R.build msg.slot = some true ∧
    ⟨.getBestBid msg.slot, .ok best⟩ ∈ t.trace ∧ best.val ∈ acceptedIn p ∧
    best.val.message.slot = msg.slot ∧ best.val.executionPayload = bid.executionPayload

/-- A `SubmitBlindedBlock` for `blockHash` that was answered. -/
def Committed (p : RpcPool) (blockHash : B256) : Prop :=
  ∃ t ∈ p.threads, ∃ req resp, t.request = .submitBlindedBlock req ∧
    req.blockHash = blockHash.bytes ∧ output t = some (.submitBlindedBlock (.ok resp))

/-- Different payloads of accepted bids are sent as different bytes. -/
def TellsApart (serde : Serde) (p : RpcPool) : Prop :=
  ∀ bid ∈ acceptedIn p, ∀ bid' ∈ acceptedIn p,
    ∀ bytes ∈ (serde.payload bid.executionPayload).toOption,
      bytes ∈ (serde.payload bid'.executionPayload).toOption →
        bid.executionPayload = bid'.executionPayload

instance (serde : Serde) (p : RpcPool) : Decidable (TellsApart serde p) :=
  inferInstanceAs (Decidable (∀ bid ∈ acceptedIn p, _))

/-- The bid is one for the slot that was asked for, where a slot was. -/
def ForSlotOf : Rpc.Request → BidSubmission → Prop
  | .retrieve msg, bid => bid.message.slot = msg.slot
  | _, _ => True

/-- Where contents are shown, and of which bids. -/
structure Disclosed (R : Relay) (serde : Serde) (p : RpcPool) : Prop where
  /-- What is shown is payload and blobs of one accepted bid, and by a `Retrieve` of one for its
  slot. -/
  of_one_bid : ∀ t ∈ p.threads, ∀ payload blobs, shown t = some (payload, blobs) →
    (payload = [] ∧ blobs = []) ∨ ∃ bid ∈ acceptedIn p, ForSlotOf t.request bid ∧
      payload = unwrapOrDefault (serde.payload bid.executionPayload) ∧
        blobs = unwrapOrDefault (serde.blobs bid.blobsBundle)
  /-- It is shown to the proposer of the slot that it was accepted for, or the block has been
  committed to. -/
  to_proposer : ∀ t ∈ p.threads, ∀ bid ∈ acceptedIn p, Shows serde t bid →
    Served R p t bid ∨ Committed p bid.executionPayload.blockHash

/-! ## What was shown was accepted -/

theorem rest_of_output {t : RpcThread} {out : Rpc.Output} (h : output t = some out) :
    t.rest = .ret out := by
  unfold output at h
  split at h
  · next hrest =>
    cases h
    exact hrest
  · cases h

theorem mem_acceptedIn {p : RpcPool} {t : RpcThread} {slot : UInt64} {bid : BidSubmission}
    (ht : t ∈ p.threads) (he : ⟨.compareAndBid slot bid, .ok ()⟩ ∈ t.trace) :
    bid ∈ acceptedIn p := by
  have hwon : bid ∈ t.trace.filterMap wonBid := List.mem_filterMap.mpr ⟨_, he, rfl⟩
  exact List.mem_flatMap.mpr ⟨t, ht, hwon⟩

section Runs

variable {R : Relay} {serde : Serde} {whitelist : List BlsPublicKey}
  {schedule : List (Action Rpc.Request UInt64)} {t : RpcThread}

/-- What an output was made of. -/
theorem returns_of_output {out : Rpc.Output}
    (ht : t ∈ ((R.api serde).after whitelist schedule).threads) (hout : output t = some out) :
    Rpc.Returns R serde t.request t.trace out := by
  have hsound := Pool.Sound.run (S := (R.api serde).system) (R.api serde).always
    (Pool.Sound.idle (Store.new whitelist)) schedule t ht
  rw [rest_of_output hout] at hsound
  exact hsound

/-- An answered `Retrieve`: it shows nothing, or contents of an accepted bid for its slot, whose
payload it then serves. -/
theorem retrieve_shown {resp : Proto.RetrieveResponse}
    (ht : t ∈ ((R.api serde).after whitelist schedule).threads)
    (hout : output t = some (.retrieve (.ok resp))) :
    (resp.executionPayload = [] ∧ resp.blobsBundle = []) ∨
      ∃ bid ∈ acceptedIn ((R.api serde).after whitelist schedule), ForSlotOf t.request bid ∧
        resp.executionPayload = unwrapOrDefault (serde.payload bid.executionPayload) ∧
        resp.blobsBundle = unwrapOrDefault (serde.blobs bid.blobsBundle) ∧
        ∀ bid', bid.executionPayload = bid'.executionPayload →
          Served R ((R.api serde).after whitelist schedule) t bid' := by
  have hreturns := returns_of_output ht hout
  obtain ⟨msg, first, second, hreq, hretrieved⟩ := Rpc.returns_retrieve hreturns
  obtain ⟨parentHash, proposerPubkey, tr, hserves, hserved, htr⟩ := hretrieved.served
  have hsub : tr ⊆ t.trace := by
    rw [htr]
    exact List.subset_append_left _ _
  rw [hretrieved.resp_eq]
  cases second with
  | error e => exact .inl ⟨rfl, rfl⟩
  | ok second =>
    -- the second read found a bid, so some submission for the slot had won with it
    have hread : ⟨.getBestBid msg.slot, .ok second⟩ ∈ t.trace := by
      rw [htr]
      exact List.mem_concat_self
    obtain ⟨hslot, t', ht', duty', hwon⟩ := Relay.Frontend.best_read ht hread
    have haccepted := mem_acceptedIn ht' hwon.won
    refine .inr ⟨second.val, haccepted, ?_, rfl, rfl, ?_⟩
    · rw [hreq]
      exact hslot.symm
    · intro bid' hpayload
      obtain ⟨reg, hreg⟩ := hserved.registered
      obtain ⟨duty, hduty, hkey⟩ := hserved.duty_read
      obtain ⟨head, hhead, hnext⟩ := hserved.next_slot
      refine ⟨⟨_, hout⟩, msg, parentHash, proposerPubkey, reg, duty, head, second, hreq, ?_,
        hsub hreg, hsub hduty, hkey, hsub hhead, hnext, hread, haccepted, hslot.symm, hpayload⟩
      rw [hreq]
      exact hserves

/-- An answered `SubmitBlindedBlock`: contents of an accepted bid, whose block it commits to. -/
theorem submitBlindedBlock_shown {resp : Proto.BlindedBlockResponse}
    (ht : t ∈ ((R.api serde).after whitelist schedule).threads)
    (hout : output t = some (.submitBlindedBlock (.ok resp))) :
    ∃ bid ∈ acceptedIn ((R.api serde).after whitelist schedule), ForSlotOf t.request bid ∧
      serde.payload bid.executionPayload = .ok resp.executionPayload ∧
        resp.blobsBundle = unwrapOrDefault (serde.blobs bid.blobsBundle) ∧
        Committed ((R.api serde).after whitelist schedule) bid.executionPayload.blockHash := by
  have hreturns := returns_of_output ht hout
  obtain ⟨req, stored, hreq, hunblinded⟩ := Rpc.returns_submitBlindedBlock hreturns
  obtain ⟨blockHash, signature, duty, hserves, hchecked⟩ := hunblinded.checked
  obtain ⟨t', ht', bid, duty', rfl, hwon⟩ := Relay.Frontend.blinded_read ht hchecked.resp_read
  have hhash : req.blockHash = bid.executionPayload.blockHash.bytes := by
    rw [show bid.executionPayload.blockHash = blockHash from hchecked.hash_eq]
    exact (Rpc.blockHash_of_serves hserves).symm
  refine ⟨bid, mem_acceptedIn ht' hwon.won, ?_, hunblinded.payload_eq, hunblinded.blobs_eq,
    t, ht, req, resp, hreq, hhash, hout⟩
  rw [hreq]
  trivial

/-- Only two kinds of outputs show contents. -/
theorem shown_cases {payload blobs : List UInt8} (h : shown t = some (payload, blobs)) :
    (∃ resp, output t = some (.retrieve (.ok resp)) ∧ resp.executionPayload = payload ∧
      resp.blobsBundle = blobs) ∨
    (∃ resp, output t = some (.submitBlindedBlock (.ok resp)) ∧ resp.executionPayload = payload ∧
      resp.blobsBundle = blobs) := by
  obtain ⟨out, hout, hcontents⟩ := Option.bind_eq_some_iff.mp h
  unfold contents at hcontents
  split at hcontents
  · cases hcontents
    exact .inl ⟨_, hout, rfl, rfl⟩
  · cases hcontents
    exact .inr ⟨_, hout, rfl, rfl⟩
  · cases hcontents

end Runs

/-! ## Every run -/

/-- A request that commits to a block. -/
def commits : Rpc.Request → Bool
  | .submitBlindedBlock _ => true
  | _ => false

end Disclosure

end MevRelay
