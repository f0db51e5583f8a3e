import MevRelay.UseCase.Error

/-!
# The background task

`RelayService` follows the beacon node: head events and polls move the head slot and, on a refresh
slot, replace the table of proposer duties; payload attributes events replace the attributes.

The beacon node is outside. One pass through a handler asks for the duties of an epoch at most once,
so what the node answers during the pass is a function of the epoch, given with the event.
-/

namespace MevRelay

open Atomic

/-- What `beacon_handle.proposer_duties(epoch)` returns, an error by its text. -/
abbrev Beacon := UInt64 → Except String (List ProposerDuty)

namespace RelayService

/-- The duties whose validator is registered, each looked up on its own. -/
def keepRegistered : List ProposerDuty → StoreProg (List ProposerDuty)
  | [] => return []
  | duty :: duties => do
    let registration ← storage (.readValidatorRegistration duty.pubkey)
    let kept ← keepRegistered duties
    return if registration.isSome then duty :: kept else kept

/-- `RelayService::filter_duties`. -/
def filterDuties (duties : List ProposerDuty) : StoreProg (List ProposerDuty) := do
  if ← storage .emptyValidatorRegs then
    return []
  keepRegistered duties

/-- `RelayService::sync_duties`. -/
def syncDuties (R : Relay) (beacon : Beacon) (epoch : UInt64) : StoreProg (Except String Unit) := do
  match beacon epoch with
  | .ok duties =>
    let filtered ← filterDuties duties
    let nextEpoch ← orPanic (R.build.addU64 epoch 1)
    match beacon nextEpoch with
    | .ok next =>
      let nextFiltered ← filterDuties next
      storage (.setProposerDuties (filtered ++ nextFiltered))
    | .error _ => storage (.setProposerDuties filtered)
    return .ok ()
  | .error e => return .error e

/-- `RelayService::handle_head_event`; a failed sync is only logged. -/
def handleHeadEvent (R : Relay) (beacon : Beacon) (event : HeadEvent) : StoreProg Unit := do
  let slot : HeadSlot := ⟨event.slot⟩
  storage (.setHeadSlot slot)
  if ← orPanic (slot.isDutyRefreshSlot R.slotsPerEpoch) then
    let currentEpoch ← orPanic (slot.epoch R.slotsPerEpoch)
    let _ ← syncDuties R beacon currentEpoch

/-- `RelayService::handle_payload_attributes_event`; the event's slot is not kept. -/
def handlePayloadAttributesEvent (R : Relay) (event : PayloadAttributesEvent) : StoreProg Unit := do
  let inner := event.data.payloadAttributes
  match R.prims.parseB256 inner.prevRandao with
  | .error _ => return ()
  | .ok prevRandao =>
    match R.prims.parseAddress inner.suggestedFeeRecipient with
    | .error _ => return ()
    | .ok suggestedFeeRecipient =>
      storage (.setPayloadAttributes
        { timestamp := inner.timestamp
          prevRandao := prevRandao
          suggestedFeeRecipient := suggestedFeeRecipient })

/-- One tick of `RelayService::polling_loop`, for what `fetch_head_slot` returned. -/
def pollingTick (R : Relay) (beacon : Beacon) (head : Except String UInt64) : StoreProg Unit := do
  match head with
  | .ok slot =>
    let slot : HeadSlot := ⟨slot⟩
    storage (.setHeadSlot slot)
    let epoch ← orPanic (slot.epoch R.slotsPerEpoch)
    if ← orPanic (slot.isDutyRefreshSlot R.slotsPerEpoch) then
      let _ ← syncDuties R beacon epoch
  | .error _ => return ()

/-! ## What the background task does -/

/-- What the task reacts to; a duty sync also on its own. -/
inductive Task where
  | headEvent (event : HeadEvent) (beacon : Beacon)
  | payloadAttributesEvent (event : PayloadAttributesEvent)
  | syncDuties (epoch : UInt64) (beacon : Beacon)
  | poll (head : Except String UInt64) (beacon : Beacon)

def handle (R : Relay) : Task → StoreProg Unit
  | .headEvent event beacon => handleHeadEvent R beacon event
  | .payloadAttributesEvent event => handlePayloadAttributesEvent R event
  | .syncDuties epoch beacon => do let _ ← syncDuties R beacon epoch
  | .poll head beacon => pollingTick R beacon head

/-- Every duty's validator was found registered. -/
def AllRegistered (tr : List StoreEvent) (duties : List ProposerDuty) : Prop :=
  ∀ d ∈ duties, ∃ reg, ⟨.readValidatorRegistration d.pubkey, some reg⟩ ∈ tr

theorem AllRegistered.mono {tr tr' : List StoreEvent} {duties : List ProposerDuty}
    (h : AllRegistered tr duties) (htr : tr <+: tr') : AllRegistered tr' duties := by
  intro d hd
  obtain ⟨reg, hreg⟩ := h d hd
  exact ⟨reg, htr.subset hreg⟩

/-- The handlers write the head slot, the attributes, and tables of registered duties. -/
def Calls (tr : List StoreEvent) : StoreOp → Prop
  | .setHeadSlot _ => True
  | .setPayloadAttributes _ => True
  | .setProposerDuties duties => AllRegistered tr duties
  | o => o.IsRead

theorem allRegistered_nil (tr : List StoreEvent) : AllRegistered tr [] := by
  intro d hd
  cases hd

theorem keepRegistered_always (duties : List ProposerDuty) (tr : List StoreEvent) :
    (keepRegistered duties).Always Calls AllRegistered tr := by
  induction duties generalizing tr with
  | nil => exact allRegistered_nil tr
  | cons duty duties ih =>
    unfold keepRegistered
    refine ⟨trivial, fun registration => (ih _).extends.bind ?_⟩
    rintro tr' kept ⟨htr, hkept⟩
    cases registration with
    | none => exact hkept
    | some reg =>
      intro d hd
      rcases List.mem_cons.mp hd with rfl | hd
      · exact ⟨reg, htr.subset (by simp)⟩
      · exact hkept d hd

theorem filterDuties_always (duties : List ProposerDuty) (tr : List StoreEvent) :
    (filterDuties duties).Always Calls AllRegistered tr := by
  unfold filterDuties
  refine ⟨trivial, ?_⟩
  intro isEmpty
  cases isEmpty with
  | true => exact allRegistered_nil _
  | false => exact keepRegistered_always duties _

theorem syncDuties_always (R : Relay) (beacon : Beacon) (epoch : UInt64) (tr : List StoreEvent) :
    (syncDuties R beacon epoch).Always Calls (fun _ _ => True) tr := by
  unfold syncDuties
  cases beacon epoch with
  | error e => trivial
  | ok duties =>
    apply (filterDuties_always duties tr).bind
    intro tr₁ filtered hfiltered
    apply Prog.always_ofOption_bind
    intro nextEpoch _
    cases beacon nextEpoch with
    | error e => exact ⟨hfiltered, fun _ => trivial⟩
    | ok next =>
      apply (filterDuties_always next tr₁).extends.bind
      rintro tr₂ nextFiltered ⟨htr, hnext⟩
      refine ⟨?_, fun _ => trivial⟩
      -- the duties of the first epoch were checked before the second one was asked for
      intro d hd
      rcases List.mem_append.mp hd with hd | hd
      · exact hfiltered.mono htr d hd
      · exact hnext d hd

theorem handle_always (R : Relay) (task : Task) :
    (handle R task).Always Calls (fun _ _ => True) [] := by
  have hsync : ∀ beacon epoch tr, (syncDuties R beacon epoch >>= fun _ => pure ()).Always Calls
      (fun _ _ => True) tr := fun beacon epoch tr =>
    (syncDuties_always R beacon epoch tr).bind fun _ _ _ => trivial
  cases task with
  | headEvent event beacon =>
    refine ⟨trivial, ?_⟩
    intro _
    apply Prog.always_ofOption_bind
    intro isRefresh _
    cases isRefresh with
    | false => trivial
    | true => exact Prog.always_ofOption_bind fun epoch _ => hsync beacon epoch _
  | payloadAttributesEvent event =>
    simp only [handle, handlePayloadAttributesEvent]
    cases R.prims.parseB256 event.data.payloadAttributes.prevRandao with
    | error e => trivial
    | ok prevRandao =>
      cases R.prims.parseAddress event.data.payloadAttributes.suggestedFeeRecipient with
      | error e => trivial
      | ok suggestedFeeRecipient => exact ⟨trivial, fun _ => trivial⟩
  | syncDuties epoch beacon => exact hsync beacon epoch []
  | poll head beacon =>
    cases head with
    | error e => trivial
    | ok slot =>
      refine ⟨trivial, ?_⟩
      intro _
      apply Prog.always_ofOption_bind
      intro epoch _
      apply Prog.always_ofOption_bind
      intro isRefresh _
      cases isRefresh with
      | false => trivial
      | true => exact hsync beacon epoch _

/-! ## What a handler does on its own -/

/-- The duties whose validator is registered now. -/
def registeredDuties (st : MemoryStorage) (duties : List ProposerDuty) : List ProposerDuty :=
  duties.filter fun d => (st.readValidatorRegistration d.pubkey).isSome

theorem run_keepRegistered (duties : List ProposerDuty) (s : Store) :
    (keepRegistered duties).run Store.exec s =
      (.returned (registeredDuties s.storage duties), s) := by
  induction duties with
  | nil => rfl
  | cons duty duties ih =>
    unfold keepRegistered
    rw [Prog.op_bind, Prog.run_call_of (Store.exec_readValidatorRegistration rfl),
      Prog.run_bind_of ih]
    unfold registeredDuties
    rw [List.filter_cons]
    rfl

theorem run_filterDuties (duties : List ProposerDuty) (s : Store) :
    (filterDuties duties).run Store.exec s =
      (.returned (registeredDuties s.storage duties), s) := by
  unfold filterDuties
  cases hempty : s.storage.emptyValidatorRegs with
  | false =>
    have hexec : Store.exec .emptyValidatorRegs s = (false, s) := congrArg (·, s) hempty
    rw [Prog.op_bind, Prog.run_call_of hexec]
    exact run_keepRegistered duties s
  | true =>
    have hexec : Store.exec .emptyValidatorRegs s = (true, s) := congrArg (·, s) hempty
    rw [Prog.op_bind, Prog.run_call_of hexec]
    -- the shortcut drops nothing: no lookup would have found anything
    have hnone : registeredDuties s.storage duties = [] := by
      apply List.filter_eq_nil_iff.mpr
      intro d _
      rw [MemoryStorage.readValidatorRegistration_of_empty hempty]
      simp
    rw [hnone]
    rfl

/-- The table of duties after a sync for `epoch`. -/
def syncedTable (R : Relay) (beacon : Beacon) (epoch : UInt64) (st : MemoryStorage) :
    List ProposerDuty :=
  match beacon epoch, R.build.addU64 epoch 1 with
  | .ok duties, some nextEpoch =>
    match beacon nextEpoch with
    | .ok next => registeredDuties st duties ++ registeredDuties st next
    | .error _ => registeredDuties st duties
  | _, _ => st.proposerDuties

/-- How a sync for `epoch` ends: a failed second request is only logged. -/
def syncOutcome (R : Relay) (beacon : Beacon) (epoch : UInt64) : Outcome (Except String Unit) :=
  match beacon epoch, R.build.addU64 epoch 1 with
  | .ok _, some _ => .returned (.ok ())
  | .ok _, none => .aborted
  | .error e, _ => .returned (.error e)

/-- A duty sync touches nothing but the table. -/
theorem run_syncDuties (R : Relay) (beacon : Beacon) (epoch : UInt64) (s : Store) :
    (syncDuties R beacon epoch).run Store.exec s =
      (syncOutcome R beacon epoch,
        { s with storage :=
          s.storage.setProposerDuties (syncedTable R beacon epoch s.storage) }) := by
  unfold syncDuties syncOutcome syncedTable
  cases beacon epoch with
  | error e => rfl
  | ok duties =>
    dsimp only
    rw [Prog.run_bind_of (run_filterDuties duties s)]
    cases R.build.addU64 epoch 1 with
    | none => rfl
    | some nextEpoch =>
      simp only [Prog.ofOption_some, Prog.ret_bind]
      cases beacon nextEpoch with
      | error e => rfl
      | ok next =>
        dsimp only
        rw [Prog.run_bind_of (run_filterDuties next s)]
        rfl

/-- The table of duties after the head moved to `slot`. -/
def tableAtHead (R : Relay) (beacon : Beacon) (slot : HeadSlot) (st : MemoryStorage) :
    List ProposerDuty :=
  match slot.isDutyRefreshSlot R.slotsPerEpoch, slot.epoch R.slotsPerEpoch with
  | some true, some epoch => syncedTable R beacon epoch st
  | _, _ => st.proposerDuties

/-- The store after the head moved to `slot`. -/
def atHead (R : Relay) (beacon : Beacon) (slot : HeadSlot) (s : Store) : Store :=
  { s with storage :=
    (s.storage.setHeadSlot slot).setProposerDuties (tableAtHead R beacon slot s.storage) }

/-- How moving the head to `slot` ends. -/
def headOutcome (R : Relay) (beacon : Beacon) (slot : HeadSlot) : Outcome Unit :=
  match slot.isDutyRefreshSlot R.slotsPerEpoch, slot.epoch R.slotsPerEpoch with
  | some true, some epoch => (syncOutcome R beacon epoch).map fun _ => ()
  | some false, some _ => .returned ()
  | _, _ => .aborted

/-- A head event moves the head and, on a refresh slot, syncs the table. -/
theorem run_handleHeadEvent (R : Relay) (beacon : Beacon) (event : HeadEvent) (s : Store) :
    (handleHeadEvent R beacon event).run Store.exec s =
      (headOutcome R beacon ⟨event.slot⟩, atHead R beacon ⟨event.slot⟩ s) := by
  simp only [handleHeadEvent, atHead, tableAtHead, headOutcome, Prog.op_bind, Prog.run_call]
  by_cases hzero : R.slotsPerEpoch = 0
  · rw [HeadSlot.isDutyRefreshSlot_eq_none_iff.mpr hzero]
    rfl
  rw [HeadSlot.isDutyRefreshSlot_of_ne hzero, HeadSlot.epoch_of_ne hzero]
  simp only [Prog.ofOption_some, Prog.ret_bind]
  cases event.slot % R.slotsPerEpoch == 1 with
  | false => rfl
  | true =>
    simp only [if_true]
    rw [Prog.run_discard, run_syncDuties]
    rfl

/-- A poll that got a slot does the same. -/
theorem run_pollingTick (R : Relay) (beacon : Beacon) (slot : UInt64) (s : Store) :
    (pollingTick R beacon (.ok slot)).run Store.exec s =
      (headOutcome R beacon ⟨slot⟩, atHead R beacon ⟨slot⟩ s) := by
  simp only [pollingTick, atHead, tableAtHead, headOutcome, Prog.op_bind, Prog.run_call]
  by_cases hzero : R.slotsPerEpoch = 0
  · rw [HeadSlot.epoch_eq_none_iff.mpr hzero, HeadSlot.isDutyRefreshSlot_eq_none_iff.mpr hzero]
    rfl
  rw [HeadSlot.isDutyRefreshSlot_of_ne hzero, HeadSlot.epoch_of_ne hzero]
  simp only [Prog.ofOption_some, Prog.ret_bind]
  cases slot % R.slotsPerEpoch == 1 with
  | false => rfl
  | true =>
    simp only [if_true]
    rw [Prog.run_discard, run_syncDuties]
    rfl

/-- What a payload attributes event stores: nothing if one of its texts does not parse. -/
def attributesOf (R : Relay) (event : PayloadAttributesEvent) : Option PayloadAttributes :=
  let inner := event.data.payloadAttributes
  match R.prims.parseB256 inner.prevRandao, R.prims.parseAddress inner.suggestedFeeRecipient with
  | .ok prevRandao, .ok suggestedFeeRecipient =>
    some
      { timestamp := inner.timestamp
        prevRandao := prevRandao
        suggestedFeeRecipient := suggestedFeeRecipient }
  | _, _ => none

theorem parseB256_of_attributesOf {R : Relay} {event : PayloadAttributesEvent}
    {attrs : PayloadAttributes} (h : attributesOf R event = some attrs) :
    R.prims.parseB256 event.data.payloadAttributes.prevRandao = .ok attrs.prevRandao := by
  simp only [attributesOf] at h
  split at h
  · next hrandao _ =>
    cases h
    exact hrandao
  · cases h

/-- The attributes held after a payload attributes event. -/
def attributesAfter (R : Relay) (event : PayloadAttributesEvent) (st : MemoryStorage) :
    PayloadAttributes :=
  (attributesOf R event).getD st.payloadAttributes

/-- A payload attributes event touches nothing but the attributes. -/
theorem run_handlePayloadAttributesEvent (R : Relay) (event : PayloadAttributesEvent) (s : Store) :
    ((handlePayloadAttributesEvent R event).run Store.exec s).2 =
      { s with storage :=
        s.storage.setPayloadAttributes (attributesAfter R event s.storage) } := by
  simp only [handlePayloadAttributesEvent, attributesAfter, attributesOf]
  cases R.prims.parseB256 event.data.payloadAttributes.prevRandao with
  | error e => rfl
  | ok prevRandao =>
    cases R.prims.parseAddress event.data.payloadAttributes.suggestedFeeRecipient with
    | error e => rfl
    | ok suggestedFeeRecipient => rfl

/-- What a task of the background does to the store. -/
def afterTask (R : Relay) (s : Store) : Task → Store
  | .headEvent event beacon => atHead R beacon ⟨event.slot⟩ s
  | .payloadAttributesEvent event =>
    { s with storage := s.storage.setPayloadAttributes (attributesAfter R event s.storage) }
  | .syncDuties epoch beacon =>
    { s with storage := s.storage.setProposerDuties (syncedTable R beacon epoch s.storage) }
  | .poll (.ok slot) beacon => atHead R beacon ⟨slot⟩ s
  | .poll (.error _) _ => s

/-- **What a task can do on its own.** -/
theorem run_handle (R : Relay) (task : Task) (s : Store) :
    ((handle R task).run Store.exec s).2 = afterTask R s task := by
  cases task with
  | headEvent event beacon => exact congrArg Prod.snd (run_handleHeadEvent R beacon event s)
  | payloadAttributesEvent event => exact run_handlePayloadAttributesEvent R event s
  | syncDuties epoch beacon =>
    show ((syncDuties R beacon epoch >>= fun _ => pure ()).run Store.exec s).2 = _
    rw [Prog.run_discard, run_syncDuties]
    rfl
  | poll head beacon =>
    cases head with
    | ok slot => exact congrArg Prod.snd (run_pollingTick R beacon slot s)
    | error e => rfl

end RelayService

end MevRelay
