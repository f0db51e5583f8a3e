import MevRelay.Panics

/-!
# Epochs of fewer than two slots

`slots_per_epoch` is not checked on the command line. Duties are synced at the second slot of an
epoch, and with 0 or 1 slots there is none: the table of duties stays empty, whatever the beacon
node says, and everything that asks for a duty fails. The relay runs, and serves nobody
(`short_epochs_serve_nobody`).
-/

namespace MevRelay

open Atomic

/-- No bid has got in, and nothing has been handed out. -/
structure ServesNobody (R : Relay) (serde : Serde)
    (p : Pool StoreOp StoreOp.Ans Session SessionResult Store) : Prop where
  duties : p.shared.storage.proposerDuties = []
  auction : ∀ slot, p.shared.best slot = none
  stored : ∀ proposer, p.shared.storage.readBlindedBlockResponse proposer = none
  delivered : p.shared.storage.deliveredBlocks = []
  retrieved : ∀ u ∈ p.threads, ∀ inStream sends resp, u.request = .retrieve inStream sends →
    ¬ RetrieverService.HasSent R serde sends 0 inStream u.trace resp
  released : ∀ u ∈ p.threads, ∀ req resp, u.request = .submitBlindedBlock req →
    u.rest ≠ .ret (.submitBlindedBlock (.ok resp))

/-- The call does not replace the table of duties. -/
def KeepsDuties : StoreOp → Prop
  | .setProposerDuties _ => False
  | _ => True

namespace RelayService

variable {R : Relay}

/-- There is no slot to sync at. -/
theorem not_refresh (hshort : R.slotsPerEpoch.toNat < 2) (head : HeadSlot) :
    head.isDutyRefreshSlot R.slotsPerEpoch ≠ some true := by
  intro h
  have hrefresh : R.IsRefresh head.slot := h
  have htwo := (Relay.isRefresh_iff.mp hrefresh).1
  omega

theorem handle_keepsDuties (hshort : R.slotsPerEpoch.toNat < 2) (task : Task)
    (hsync : ¬ (Rpc.Request.background task).IsSync) :
    (handle R task).Always (fun _ => KeepsDuties) (fun _ _ => True) [] := by
  cases task with
  | headEvent event beacon =>
    refine ⟨trivial, fun _ => ?_⟩
    apply Prog.always_ofOption_bind
    intro isRefresh hrefresh
    cases isRefresh with
    | false => trivial
    | true => exact absurd hrefresh (not_refresh hshort _)
  | payloadAttributesEvent event =>
    simp only [handle, handlePayloadAttributesEvent]
    cases R.prims.parseB256 event.data.payloadAttributes.prevRandao with
    | error e => trivial
    | ok prevRandao =>
      cases R.prims.parseAddress event.data.payloadAttributes.suggestedFeeRecipient with
      | error e => trivial
      | ok suggestedFeeRecipient => exact ⟨trivial, fun _ => trivial⟩
  | syncDuties epoch beacon => exact absurd trivial hsync
  | poll head beacon =>
    cases head with
    | error e => trivial
    | ok slot =>
      refine ⟨trivial, fun _ => ?_⟩
      apply Prog.always_ofOption_bind
      intro epoch _
      apply Prog.always_ofOption_bind
      intro isRefresh hrefresh
      cases isRefresh with
      | false => trivial
      | true => exact absurd hrefresh (not_refresh hshort _)

end RelayService

namespace Relay

variable {R : Relay} (serde : Serde) (json : EventJson)

theorem background_of_serves {r : Rpc.Request} {task : RelayService.Task}
    (h : Rpc.serves R r = some (.background task)) : r = .background task := by
  cases r with
  | background task' =>
    cases h
    rfl
  | _ =>
    simp only [Rpc.serves] at h
    split at h <;> cases h

theorem rpc_keepsDuties (hshort : R.slotsPerEpoch.toNat < 2) (r : Rpc.Request) :
    (Rpc.program R serde r).Always (fun _ o => ¬ r.IsSync → KeepsDuties o) (fun _ _ => True)
      [] := by
  by_cases hr : ∃ task, r = .background task
  · obtain ⟨task, rfl⟩ := hr
    by_cases hsync : (Rpc.Request.background task).IsSync
    · refine (Rpc.program_always R serde _).mono ?_ (fun _ _ _ => trivial)
      intro tr o _ hnot
      exact absurd hsync hnot
    · apply Prog.Always.map
      exact (RelayService.handle_keepsDuties hshort task hsync).mono (fun _ _ h _ => h)
        (fun _ _ => id)
  · refine (Rpc.program_always R serde r).mono ?_ (fun _ _ _ => trivial)
    rintro tr o ⟨c, hc, ho⟩ _
    cases o with
    | setProposerDuties duties =>
      obtain ⟨task, rfl⟩ := Request.calls_background ho trivial
      exact absurd ⟨task, background_of_serves hc⟩ hr
    | _ => trivial

/-- The request has found no duty. -/
def FoundNoDuty (tr : List StoreEvent) : Prop :=
  ∀ slot duty, ⟨.findDutyBySlot slot, some duty⟩ ∉ tr

/-- Nobody ever finds a duty. -/
theorem api_noDuties (hshort : R.slotsPerEpoch.toNat < 2) (whitelist : List BlsPublicKey)
    {requests : List (Action Rpc.Request UInt64)}
    (harrivals : ∀ r, .arrive r ∈ requests → ¬ r.IsSync) :
    ((R.api serde).after whitelist requests).shared.storage.proposerDuties = [] ∧
      ∀ t ∈ ((R.api serde).after whitelist requests).threads, FoundNoDuty t.trace := by
  suffices h : ((R.api serde).after whitelist requests).shared.storage.proposerDuties = [] ∧
      ∀ t ∈ ((R.api serde).after whitelist requests).threads,
        ¬ t.request.IsSync ∧ FoundNoDuty t.trace from ⟨h.1, fun t ht => (h.2 t ht).2⟩
  refine Pool.run_invariant (S := (R.api serde).system) (C := fun _ a => a ∈ requests)
    (I := fun p => p.shared.storage.proposerDuties = [] ∧
      ∀ t ∈ p.threads, ¬ t.request.IsSync ∧ FoundNoDuty t.trace)
    (rpc_keepsDuties serde hshort) (Pool.Sound.idle _) ⟨rfl, fun _ ht => absurd ht
      List.not_mem_nil⟩ ?_ ?_ (fun _ _ _ h => h) requests
    (Pool.follows_of_forall fun _ _ ha => ha)
  · rintro p r hr ⟨hduties, hthreads⟩
    refine ⟨hduties, fun t ht => ?_⟩
    rcases List.mem_append.mp ht with ht | ht
    · exact hthreads t ht
    · cases List.mem_singleton.mp ht
      exact ⟨harrivals r hr, fun _ _ hmem => absurd hmem List.not_mem_nil⟩
  · rintro p i t o k hi - - hkeeps ⟨hduties, hthreads⟩
    obtain ⟨hsync, hfound⟩ := hthreads t (List.mem_of_getElem? hi)
    refine ⟨?_, fun t' ht' => ?_⟩
    · rcases Store.exec_proposerDuties (o := o) (s := p.shared) with h | ⟨duties, rfl⟩
      · exact h.trans hduties
      · exact absurd (hkeeps hsync) id
    · rcases Pool.mem_perform ht' with ht' | rfl
      · exact hthreads t' ht'
      · refine ⟨hsync, fun slot duty hmem => ?_⟩
        rcases List.mem_append.mp hmem with hmem | hmem
        · exact hfound slot duty hmem
        · -- the table that was asked was empty
          obtain ⟨rfl, hans⟩ := Store.exec_of_event_eq (List.mem_singleton.mp hmem).symm
          have hduty := (MemoryStorage.findDutyBySlot_eq_some hans).1
          rw [hduties] at hduty
          cases hduty

/-- A header is not sent without a duty. -/
theorem finds_of_retrieve {whitelist : List BlsPublicKey}
    {requests : List (Action Rpc.Request UInt64)} {t : RpcThread}
    (ht : t ∈ ((R.api serde).after whitelist requests).threads) {resp : Proto.RetrieveResponse}
    (hret : t.rest = .ret (.retrieve (.ok resp))) : ¬ FoundNoDuty t.trace := by
  obtain ⟨msg, first, second, -, hretrieved⟩ :=
    Rpc.returns_retrieve (Frontend.returns_of_ret (F := R.api serde) ht hret)
  obtain ⟨parentHash, proposerPubkey, tr, -, hserved, htr⟩ := hretrieved.served
  obtain ⟨duty, hduty, -⟩ := hserved.duty_read
  intro hfound
  apply hfound msg.slot duty
  rw [htr]
  exact List.mem_append_left _ hduty

/-- A block is not released without a duty. -/
theorem finds_of_submitBlindedBlock {whitelist : List BlsPublicKey}
    {requests : List (Action Rpc.Request UInt64)} {t : RpcThread}
    (ht : t ∈ ((R.api serde).after whitelist requests).threads)
    {resp : Proto.BlindedBlockResponse}
    (hret : t.rest = .ret (.submitBlindedBlock (.ok resp))) : ¬ FoundNoDuty t.trace := by
  obtain ⟨req, stored, -, hunblinded⟩ :=
    Rpc.returns_submitBlindedBlock (Frontend.returns_of_ret (F := R.api serde) ht hret)
  obtain ⟨blockHash, signature, duty, -, hchecked⟩ := hunblinded.checked
  intro hfound
  exact hfound req.slot duty hchecked.duty_read

/-- No task of the process asks for a sync on its own. -/
theorem not_isSync_of_arrive {whitelist : List BlsPublicKey}
    {schedule : List (Action Session UInt64)} {requests : List (Action Rpc.Request UInt64)}
    {owners : List Nat}
    (hmade : Pool.MadeOf (R.api serde).system (sessionScript json) owners
      (R.processAfter serde json whitelist schedule) ((R.api serde).after whitelist requests))
    (hasks : ∀ (j : Nat) u, (R.processAfter serde json whitelist schedule).threads[j]? = some u →
      ∀ t ∈ owned owners ((R.api serde).after whitelist requests).threads j,
        u.request.Asks json t.request)
    {r : Rpc.Request} (hr : .arrive r ∈ requests) : ¬ r.IsSync := by
  have hmem : r ∈ ((R.api serde).after whitelist requests).threads.map Thread.request := by
    have hrequests := Pool.requests_run (S := (R.api serde).system)
      (p := Pool.idle (Store.new whitelist)) requests
    unfold Frontend.after
    rw [hrequests]
    exact List.mem_append_right _ (List.mem_filterMap.mpr ⟨_, hr, rfl⟩)
  obtain ⟨t, ht, rfl⟩ := List.mem_map.mp hmem
  obtain ⟨j, u, hj, howned⟩ := hmade.exists_session ht
  exact (hasks j u hj t howned).not_isSync

/-- **Too short epochs serve nobody.** If an epoch has fewer than two slots, then in every run of the
process, whatever the beacon node, builders and proposers do: the table of duties is empty, no bid
is in the auction or stored, no `Retrieve` has been answered with a header, and no block has been
released. -/
theorem short_epochs_serve_nobody (R : Relay) (hshort : R.slotsPerEpoch.toNat < 2) (serde : Serde)
    (json : EventJson) (whitelist : List BlsPublicKey)
    (schedule : List (Action Session UInt64)) :
    ServesNobody R serde (R.processAfter serde json whitelist schedule) := by
  obtain ⟨requests, owners, hmade, hown⟩ := R.process_requests serde json whitelist schedule
  obtain ⟨hduties, hfound⟩ := api_noDuties serde hshort whitelist fun r hr =>
    not_isSync_of_arrive serde json hmade (fun j u hj => (hown j u hj).1) hr
  rw [hmade.shared] at hduties
  refine ⟨hduties, ?_, ?_, ?_, ?_, ?_⟩
  · intro slot
    rw [← hmade.shared, Option.eq_none_iff_forall_ne_some]
    intro bid hbest
    obtain ⟨-, t, ht, duty, hwon⟩ := Frontend.best_written (F := R.api serde) hbest
    exact hfound t ht _ _ hwon.checked.duty_read
  · intro proposer
    rw [← hmade.shared, Option.eq_none_iff_forall_ne_some]
    intro resp hresp
    obtain ⟨t, ht, bid, duty, -, -, hwon⟩ := Frontend.blinded_written (F := R.api serde) hresp
    exact hfound t ht _ _ hwon.checked.duty_read
  · rw [← hmade.shared, List.eq_nil_iff_forall_not_mem]
    intro blockHash hmem
    obtain ⟨t, ht, slot, proposerIndex, signature, -, duty, resp, hchecked⟩ :=
      Frontend.delivered_written (F := R.api serde) hmem
    exact hfound t ht _ _ hchecked.duty_read
  · intro u hu inStream sends resp hrequest hsent
    obtain ⟨t, ht, hret⟩ := exists_retrieve hmade hu hrequest hsent
    exact finds_of_retrieve serde ht hret (hfound t ht)
  · intro u hu req resp hrequest hrest
    obtain ⟨t, ht, -, hret⟩ := exists_submitBlindedBlock hmade hu hrequest hrest
    exact finds_of_submitBlindedBlock serde ht hret (hfound t ht)

end Relay

open SseByteStream in
/-- The run in which a builder bids and goes away, with epochs of 32 slots and of one. -/
theorem Relay.short_epochs_serve_nobody_one :
    (Sample.relay.processAfter Sample.serde sampleJson Sample.whitelist
        Sample.goneBuilder).shared.best 2 = some (Sample.bid 2 2 2) ∧
      ServesNobody { Sample.relay with slotsPerEpoch := 1 } Sample.serde
        (({ Sample.relay with slotsPerEpoch := 1 } : Relay).processAfter Sample.serde sampleJson
          Sample.whitelist Sample.goneBuilder) := by
  refine ⟨by decide +kernel, ?_⟩
  exact short_epochs_serve_nobody { Sample.relay with slotsPerEpoch := 1 } (by decide) Sample.serde
    sampleJson Sample.whitelist Sample.goneBuilder

end MevRelay
