import MevRelay.Api.Services
import MevRelay.Clearing
import MevRelay.ServiceLoop

/-!
# The whole process

`run_inner` spawns the gRPC services and, once, the background service: one long task that follows
the first event stream and then polls. `Relay.node` is the relay as this process drives it; it is a
frontend, so all that is proved of frontends holds of it.

`bids_meet_first_connection` is what the final fallback comes to: payload attributes come from the
first connection only, in its order. Once it has ended they are frozen, and a bid is not even
compared unless its payload repeats a randao of that connection.
-/

namespace MevRelay

open Atomic SubmitBidUseCase

/-! ## The background service makes the calls of background tasks -/

namespace RelayService

variable (R : Relay) (json : EventJson)

theorem Calls.append {pre tr : List StoreEvent} {o : StoreOp} (h : Calls tr o) :
    Calls (pre ++ tr) o := by
  cases o with
  | setProposerDuties duties =>
    intro d hd
    obtain ⟨reg, hreg⟩ := h d hd
    exact ⟨reg, List.mem_append_right _ hreg⟩
  | _ => exact h

theorem handle_always_after (task : Task) (tr : List StoreEvent) :
    (handle R task).Always Calls (fun _ _ => True) tr := by
  have h : (handle R task).Always Calls (fun _ _ => True) (tr ++ []) :=
    (handle_always R task).after tr (fun _ _ h => h.append) (fun _ _ _ => trivial)
  rwa [List.append_nil] at h

/-- The task that an event is. -/
def taskOf (beacon : Beacon) : BeaconEvent → Task
  | .head event => .headEvent event beacon
  | .payloadAttributes event => .payloadAttributesEvent event

theorem handleEvent_eq (beacon : Beacon) (event : BeaconEvent) :
    handleEvent R beacon event = handle R (taskOf beacon event) := by
  cases event <;> rfl

theorem handOver_always (beacons : Nat → Beacon) (n : Nat) (events : List BeaconEvent)
    (tr : List StoreEvent) :
    (handOver R beacons n events).Always Calls (fun _ _ => True) tr := by
  induction events generalizing n tr with
  | nil => trivial
  | cons event events ih =>
    rw [handOver, handleEvent_eq]
    exact (handle_always_after R _ tr).bind fun tr' _ _ => ih (n + 1) tr'

theorem pollAll_always (polls : Nat → Except String UInt64 × Beacon) (n rounds : Nat)
    (tr : List StoreEvent) :
    (pollAll R polls n rounds).Always Calls (fun _ _ => True) tr := by
  induction rounds generalizing n tr with
  | zero => trivial
  | succ rounds ih =>
    exact (handle_always_after R (.poll (polls n).1 (polls n).2) tr).bind fun tr' _ _ =>
      ih (n + 1) tr'

theorem run_always (world : World) (rounds : Nat) :
    (run R json world 0 rounds).Always Calls (fun _ _ => True) [] := by
  cases rounds with
  | zero => trivial
  | succ rounds =>
    rw [run_eq]
    exact (handOver_always R _ _ _ _).bind fun tr _ _ =>
      (pollAll_always R _ _ _ tr).bind fun _ _ _ => trivial

end RelayService

/-! ## The process -/

/-- The request comes in over gRPC. -/
def Rpc.Request.fromOutside : Rpc.Request → Bool
  | .background _ => false
  | _ => true

/-- What the process runs: requests from outside, and the background service, followed for a number
of rounds. -/
inductive Job where
  | rpc (r : { r : Rpc.Request // r.fromOutside = true })
  | relayService (world : RelayService.World) (rounds : Nat)

inductive JobResult where
  | rpc (out : Rpc.Output)
  | relayService (ended : Option Unit)

namespace Relay

variable (R : Relay) (serde : Serde) (json : EventJson)

def jobProgram : Job → StoreProg JobResult
  | .rpc r => .rpc <$> Rpc.program R serde r.val
  | .relayService world rounds => .relayService <$> RelayService.run R json world 0 rounds

/-- The service may make the calls of any background task, and those are the same for all tasks. -/
def jobServes : Job → Option Request
  | .rpc r => Rpc.serves R r.val
  | .relayService _ _ => some (.background (.poll (.error "") fun _ => .error ""))

def node : R.Frontend Job JobResult where
  program := R.jobProgram serde json
  serves := R.jobServes
  Returns
    | .rpc r, tr, .rpc out => Rpc.Returns R serde r.val tr out
    | .relayService _ _, _, .relayService _ => True
    | _, _, _ => False
  always := by
    intro job
    cases job with
    | rpc r =>
      apply Prog.Always.map
      exact Rpc.program_always R serde r.val
    | relayService world rounds =>
      apply Prog.Always.map
      exact (RelayService.run_always R json world rounds).mono
        (fun _ _ h => ⟨_, rfl, h⟩) (fun _ _ => id)

/-! ## Bids are cleared -/

/-- Only a `Bid` message gets to a submission. -/
theorem bid_of_serves {r : Rpc.Request} {bid : BidSubmission}
    (h : .submitBid bid ∈ Rpc.serves R r) : ∃ msg, r = .bid msg := by
  cases r with
  | bid msg => exact ⟨msg, rfl⟩
  | registerValidator req =>
    simp only [Rpc.serves] at h
    split at h <;> cases h
  | retrieve msg =>
    simp only [Rpc.serves] at h
    split at h <;> cases h
  | submitBlindedBlock req =>
    simp only [Rpc.serves] at h
    split at h <;> cases h
  | background task => cases h

/-- Any other request makes no bid. -/
theorem ne_compareAndBid_of_serves {r : Rpc.Request} (hr : ∀ msg, r ≠ .bid msg)
    {tr : List StoreEvent} {o : StoreOp} (h : ∃ c ∈ Rpc.serves R r, c.Calls R tr o)
    (slot : UInt64) (bid : BidSubmission) : o ≠ .compareAndBid slot bid := by
  obtain ⟨c, hc, ho⟩ := h
  intro heq
  subst heq
  obtain ⟨rfl, -⟩ := Request.calls_compareAndBid ho
  obtain ⟨msg, hmsg⟩ := R.bid_of_serves hc
  exact hr msg hmsg

theorem handleMessage_clears (msg : Proto.BidRequest) :
    (BidderService.handleMessage R msg).Always (ClearsBids R) (fun _ _ => True) [] := by
  unfold BidderService.handleMessage
  apply Prog.always_ofOption_bind
  intro converted _
  cases converted with
  | error e => trivial
  | ok submission =>
    apply (execute_clears R submission).bind
    intro tr result _
    cases result <;> trivial

theorem rpc_clears (r : Rpc.Request) :
    (Rpc.program R serde r).Always (ClearsBids R) (fun _ _ => True) [] := by
  by_cases hr : ∃ msg, r = .bid msg
  · obtain ⟨msg, rfl⟩ := hr
    apply Prog.Always.map
    exact R.handleMessage_clears msg
  · refine (Rpc.program_always R serde r).mono ?_ (fun _ _ _ => trivial)
    intro tr o ho slot bid heq
    exact absurd heq (R.ne_compareAndBid_of_serves (fun msg hmsg => hr ⟨msg, hmsg⟩) ho slot bid)

theorem node_clears : (R.node serde json).Clears := by
  intro job
  cases job with
  | rpc r =>
    apply Prog.Always.map
    exact R.rpc_clears serde r.val
  | relayService world rounds =>
    apply Prog.Always.map
    refine (RelayService.run_always R json world rounds).mono ?_ (fun _ _ _ => trivial)
    rintro tr o h slot bid rfl
    exact absurd h id

end Relay

/-! ## Where payload attributes come from -/

namespace RelayService

/-- The attributes that a call sets. -/
def attributesSet : StoreEvent → Option PayloadAttributes
  | ⟨.setPayloadAttributes attrs, _⟩ => some attrs
  | _ => none

/-- The attributes set in a trace, in order. -/
def attributesIn (tr : List StoreEvent) : List PayloadAttributes := tr.filterMap attributesSet

/-- The attributes that events announce, those that parse. -/
def announced (R : Relay) (events : List BeaconEvent) : List PayloadAttributes :=
  events.filterMap fun
    | .head _ => none
    | .payloadAttributes event => attributesOf R event

def KeepsAttributes (o : StoreOp) : Prop := ∀ attrs, o ≠ .setPayloadAttributes attrs

/-- What is set next continues the list `attrs`. -/
def Continues (all : List PayloadAttributes) (tr : List StoreEvent) (o : StoreOp) : Prop :=
  ∀ attrs, o = .setPayloadAttributes attrs → attributesIn tr ++ [attrs] <+: all

theorem attributesIn_concat (tr : List StoreEvent) (e : StoreEvent) :
    attributesIn (tr ++ [e]) = attributesIn tr ++ (attributesSet e).toList :=
  filterMap_concat attributesSet tr e

theorem attributesSet_eq_none {o : StoreOp} (h : KeepsAttributes o) (ans : o.Ans) :
    attributesSet ⟨o, ans⟩ = none := by
  cases o with
  | setPayloadAttributes attrs => exact absurd rfl (h attrs)
  | _ => rfl

theorem keepsAttributes_of_isRead {o : StoreOp} (h : o.IsRead) : KeepsAttributes o := by
  rintro attrs rfl
  exact absurd h id

/-! ### Only a payload attributes event sets them -/

variable (R : Relay) (json : EventJson)

theorem keepRegistered_keeps (duties : List ProposerDuty) (tr : List StoreEvent) :
    (keepRegistered duties).Always (fun _ => KeepsAttributes) (fun _ _ => True) tr := by
  induction duties generalizing tr with
  | nil => trivial
  | cons duty duties ih =>
    refine ⟨keepsAttributes_of_isRead trivial, fun registration => ?_⟩
    exact (ih _).bind fun _ _ _ => trivial

theorem filterDuties_keeps (duties : List ProposerDuty) (tr : List StoreEvent) :
    (filterDuties duties).Always (fun _ => KeepsAttributes) (fun _ _ => True) tr := by
  refine ⟨keepsAttributes_of_isRead trivial, ?_⟩
  intro isEmpty
  cases isEmpty with
  | true => trivial
  | false => exact keepRegistered_keeps duties _

theorem syncDuties_keeps (beacon : Beacon) (epoch : UInt64) (tr : List StoreEvent) :
    (syncDuties R beacon epoch).Always (fun _ => KeepsAttributes) (fun _ _ => True) tr := by
  unfold syncDuties
  cases beacon epoch with
  | error e => trivial
  | ok duties =>
    apply (filterDuties_keeps duties tr).bind
    intro tr₁ filtered _
    apply Prog.always_ofOption_bind
    intro nextEpoch _
    cases beacon nextEpoch with
    | error e => exact ⟨nofun, fun _ => trivial⟩
    | ok next =>
      exact (filterDuties_keeps next tr₁).bind fun _ _ _ => ⟨nofun, fun _ => trivial⟩

theorem handleHeadEvent_keeps (beacon : Beacon) (event : HeadEvent) (tr : List StoreEvent) :
    (handleHeadEvent R beacon event).Always (fun _ => KeepsAttributes) (fun _ _ => True) tr := by
  refine ⟨nofun, ?_⟩
  intro _
  apply Prog.always_ofOption_bind
  intro isRefresh _
  cases isRefresh with
  | false => trivial
  | true =>
    apply Prog.always_ofOption_bind
    intro epoch _
    exact (syncDuties_keeps R beacon epoch _).bind fun _ _ _ => trivial

theorem pollingTick_keeps (beacon : Beacon) (head : Except String UInt64) (tr : List StoreEvent) :
    (pollingTick R beacon head).Always (fun _ => KeepsAttributes) (fun _ _ => True) tr := by
  cases head with
  | error e => trivial
  | ok slot =>
    refine ⟨nofun, ?_⟩
    intro _
    apply Prog.always_ofOption_bind
    intro epoch _
    apply Prog.always_ofOption_bind
    intro isRefresh _
    cases isRefresh with
    | false => trivial
    | true => exact (syncDuties_keeps R beacon epoch _).bind fun _ _ _ => trivial

/-- A program that sets no attributes continues any list. -/
theorem continues_of_keeps {α : Type} {p : StoreProg α} {tr : List StoreEvent}
    {all done : List PayloadAttributes} (hdone : attributesIn tr = done)
    (h : p.Always (fun _ => KeepsAttributes) (fun _ _ => True) tr) :
    p.Always (Continues all) (fun tr _ => attributesIn tr = done) tr := by
  refine (h.keeping (I := fun tr => attributesIn tr = done) ?_ hdone).mono ?_ (fun _ _ h => h.2)
  · intro tr o ans ho htr
    rw [attributesIn_concat, attributesSet_eq_none ho, htr]
    exact List.append_nil _
  · rintro tr o ⟨ho, -⟩ attrs rfl
    exact absurd rfl (ho attrs)

/-! ### The service sets what its first connection announces -/

theorem handleEvent_continues (beacon : Beacon) (event : BeaconEvent) {tr : List StoreEvent}
    {all : List PayloadAttributes} (h : attributesIn tr ++ announced R [event] <+: all) :
    (handleEvent R beacon event).Always (Continues all)
      (fun tr' _ => attributesIn tr' = attributesIn tr ++ announced R [event]) tr := by
  cases event with
  | head event =>
    refine continues_of_keeps ?_ (handleHeadEvent_keeps R beacon event tr)
    exact (List.append_nil _).symm
  | payloadAttributes event =>
    have hannounced : announced R [.payloadAttributes event] = (attributesOf R event).toList := by
      cases hattrs : attributesOf R event <;> simp [announced, hattrs]
    rw [hannounced] at h ⊢
    simp only [handleEvent, handlePayloadAttributesEvent, attributesOf] at h ⊢
    cases hrandao : R.prims.parseB256 event.data.payloadAttributes.prevRandao with
    | error e => exact (List.append_nil _).symm
    | ok prevRandao =>
      cases hfee : R.prims.parseAddress event.data.payloadAttributes.suggestedFeeRecipient with
      | error e => exact (List.append_nil _).symm
      | ok suggestedFeeRecipient =>
        refine ⟨?_, fun _ => attributesIn_concat _ _⟩
        rintro attrs heq
        cases heq
        simpa only [hrandao, hfee, Option.toList_some] using h

theorem handOver_continues (beacons : Nat → Beacon) (n : Nat) (events : List BeaconEvent)
    {tr : List StoreEvent} {all : List PayloadAttributes}
    (h : attributesIn tr ++ announced R events = all) :
    (handOver R beacons n events).Always (Continues all)
      (fun tr' _ => attributesIn tr' = all) tr := by
  induction events generalizing n tr with
  | nil =>
    rw [← h]
    exact (List.append_nil _).symm
  | cons event events ih =>
    have hsplit : announced R (event :: events) = announced R [event] ++ announced R events := by
      unfold announced
      rw [← List.filterMap_append, List.singleton_append]
    rw [hsplit, ← List.append_assoc] at h
    apply (handleEvent_continues R (beacons n) event ⟨_, h⟩).bind
    intro tr' _ htr'
    exact ih (n + 1) (by rw [htr', h])

theorem pollAll_continues (polls : Nat → Except String UInt64 × Beacon) (n rounds : Nat)
    {tr : List StoreEvent} {all : List PayloadAttributes} (h : attributesIn tr = all) :
    (pollAll R polls n rounds).Always (Continues all) (fun tr' _ => attributesIn tr' = all) tr := by
  induction rounds generalizing n tr with
  | zero => exact h
  | succ rounds ih =>
    apply (continues_of_keeps h (pollingTick_keeps R (polls n).2 (polls n).1 tr)).bind
    intro tr' _ htr'
    exact ih (n + 1) htr'

/-- The attributes that the service is ever told of. -/
def World.attributes (world : World) : List PayloadAttributes :=
  announced R (connectionEvents json (world.connections 0))

theorem run_continues (world : World) (rounds : Nat) :
    (run R json world 0 rounds).Always (Continues (world.attributes R json)) (fun _ _ => True)
      [] := by
  cases rounds with
  | zero => trivial
  | succ rounds =>
    rw [run_eq]
    have hnone : attributesIn [] ++ announced R (connectionEvents json (world.connections 0)) =
        world.attributes R json := rfl
    apply (handOver_continues R (world.duties 0) 0 _ hnone).bind
    intro tr _ htr
    exact (pollAll_continues R (world.polls 0) 0 rounds htr).bind fun _ _ _ => trivial

end RelayService

open RelayService

/-- The attributes set in a log, by whatever task. -/
def attributesOfLog (log : List StoreEntry) : List PayloadAttributes :=
  log.filterMap fun
    | .call _ e => attributesSet e
    | .disturb _ => none

theorem attributesOfLog_append (log later : List StoreEntry) :
    attributesOfLog (log ++ later) = attributesOfLog log ++ attributesOfLog later :=
  List.filterMap_append

namespace Relay.Frontend

variable {R : Relay} {Req α : Type} {F : R.Frontend Req α} {whitelist : List BlsPublicKey}

/-- The attributes held are those set last. -/
theorem attributes_after (schedule : List (Action Req UInt64)) :
    (F.after whitelist schedule).shared.storage.payloadAttributes =
      (attributesOfLog (F.log whitelist schedule)).getLast?.getD
        (MemoryStorage.new whitelist).payloadAttributes := by
  refine Pool.run_log (S := F.system) F.always
    (J := fun l s => s.storage.payloadAttributes =
      (attributesOfLog l).getLast?.getD (MemoryStorage.new whitelist).payloadAttributes)
    rfl ?_ ?_ schedule
  · intro l s i r o _ h
    show (Store.exec o s).2.storage.payloadAttributes = _
    rw [attributesOfLog_append]
    cases o with
    | setPayloadAttributes attrs =>
      simp [attributesOfLog, attributesSet, Store.exec, MemoryStorage.setPayloadAttributes]
    | _ =>
      simp only [attributesOfLog, List.filterMap_cons, attributesSet, List.filterMap_nil,
        List.append_nil]
      exact h
  · intro l s slot h
    show s.storage.payloadAttributes = _
    rw [attributesOfLog_append]
    simp only [attributesOfLog, List.filterMap_cons, List.filterMap_nil, List.append_nil]
    exact h

/-- Attributes that were read are the initial ones or were set before. -/
theorem attributes_read {schedule : List (Action Req UInt64)}
    {t : Thread StoreOp StoreOp.Ans Req α} (ht : t ∈ (F.after whitelist schedule).threads)
    {attrs : PayloadAttributes} (hread : ⟨.readPayloadAttributes, attrs⟩ ∈ t.trace) :
    attrs ∈ (MemoryStorage.new whitelist).payloadAttributes ::
      attributesOfLog (F.log whitelist schedule) := by
  obtain ⟨i, hi⟩ := List.mem_iff_getElem?.mp ht
  rw [Pool.trace_eq_callsOf hi, mem_callsOf] at hread
  obtain ⟨l, l', hsplit⟩ := List.append_of_mem hread
  obtain ⟨as₁, a, as₂, rfl, rfl, hentry, -⟩ := Pool.exists_split hsplit
  have hans : (F.after whitelist as₁).shared.storage.payloadAttributes = attrs := by
    rcases Pool.entry_eq_some hentry with ⟨_, _, o, _, -, -, -, he, -⟩ | ⟨_, -, he⟩
    · injection he with _ he
      obtain ⟨rfl, hans⟩ := Store.exec_of_event_eq he.symm
      exact hans
    · cases he
  rw [attributes_after] at hans
  have hlog : F.log whitelist (as₁ ++ a :: as₂) =
      F.log whitelist as₁ ++ (F.after whitelist as₁).log F.system (a :: as₂) :=
    Pool.log_append _ _
  rw [hlog, attributesOfLog_append]
  cases hlast : (attributesOfLog (F.log whitelist as₁)).getLast? with
  | none =>
    rw [hlast] at hans
    rw [← hans]
    exact List.mem_cons_self
  | some last =>
    rw [hlast] at hans
    cases hans
    exact List.mem_cons_of_mem _ (List.mem_append_left _ (List.mem_of_getLast? hlast))

/-- A bid is compared only if its payload repeats the randao of attributes set before, or of the
initial ones. -/
theorem randao_of_compared (hF : F.Clears) {schedule : List (Action Req UInt64)}
    {l l' : List StoreEntry} {i : Nat} {slot : UInt64} {bid : BidSubmission}
    {ans : Except AuctioneerError Unit}
    (h : F.log whitelist schedule = l ++ .call i ⟨.compareAndBid slot bid, ans⟩ :: l') :
    ∃ attrs ∈ (MemoryStorage.new whitelist).payloadAttributes :: attributesOfLog l,
      attrs.prevRandao = bid.executionPayload.prevRandao := by
  obtain ⟨as₁, a, as₂, -, rfl, hentry, -⟩ := Pool.exists_split h
  rcases Pool.entry_eq_some hentry with ⟨i', t, o, k, -, hi, hcall, he, -⟩ | ⟨d, -, he⟩
  · injection he with _ he
    obtain ⟨rfl, -⟩ := Store.exec_of_event_eq he.symm
    have ht := List.mem_of_getElem? hi
    -- the comparison is the next call of the task, so its check is behind it
    have hclears := (Pool.Sound.idle (Store.new whitelist)).run (S := F.system) hF as₁ t ht
    rw [hcall] at hclears
    obtain ⟨attrs, hread, hrandao⟩ := (hclears.1 slot bid rfl).randao
    exact ⟨attrs, attributes_read ht hread, hrandao⟩
  · cases he

end Relay.Frontend

namespace Relay

variable (R : Relay) (serde : Serde) (json : EventJson) {whitelist : List BlsPublicKey}

/-- The attributes that a job sets: the service what its first connection announces, in order, and
the others none. -/
def JobSets (job : Job) (tr : List StoreEvent) : Prop :=
  match job with
  | .rpc _ => attributesIn tr = []
  | .relayService world _ => attributesIn tr <+: world.attributes R json

theorem keepsAttributes_of_rpc {r : Rpc.Request} (hr : r.fromOutside = true)
    {tr : List StoreEvent} {o : StoreOp} (h : ∃ c ∈ Rpc.serves R r, c.Calls R tr o) :
    KeepsAttributes o := by
  rintro attrs rfl
  obtain ⟨c, hc, ho⟩ := h
  obtain ⟨task, rfl⟩ := Request.calls_background ho trivial
  cases r with
  | background task => cases hr
  | bid msg =>
    simp only [Rpc.serves] at hc
    split at hc <;> cases hc
  | registerValidator req =>
    simp only [Rpc.serves] at hc
    split at hc <;> cases hc
  | retrieve msg =>
    simp only [Rpc.serves] at hc
    split at hc <;> cases hc
  | submitBlindedBlock req =>
    simp only [Rpc.serves] at hc
    split at hc <;> cases hc

theorem jobSets_everywhere (job : Job) :
    ((R.node serde json).program job).Everywhere (fun tr _ => R.JobSets json job tr) [] := by
  cases job with
  | rpc r =>
    apply Prog.Everywhere.map
    refine (Rpc.program_always R serde r.val).everywhere ?_ rfl
    intro tr o ans ho htr
    have htr : attributesIn tr = [] := htr
    show attributesIn _ = []
    rw [attributesIn_concat, htr, attributesSet_eq_none (R.keepsAttributes_of_rpc r.property ho)]
    rfl
  | relayService world rounds =>
    apply Prog.Everywhere.map
    refine (run_continues R json world rounds).everywhere ?_ List.nil_prefix
    intro tr o ans ho htr
    have htr : attributesIn tr <+: world.attributes R json := htr
    show attributesIn _ <+: _
    rw [attributesIn_concat]
    cases o with
    | setPayloadAttributes attrs => exact ho attrs rfl
    | _ => simpa only [attributesSet, Option.toList_none, List.append_nil] using htr

end Relay

def Job.isService : Job → Bool
  | .rpc _ => false
  | .relayService _ _ => true

namespace Relay

variable {R : Relay} {serde : Serde} {json : EventJson} {whitelist : List BlsPublicKey}
  {world : World} {rounds : Nat} {later : List (Action Job UInt64)}

/-- The task that was spawned first is the service, and all others are requests from outside. -/
theorem request_of_thread (honce : ∀ job ∈ Pool.arrivals later, job.isService = false) {i : Nat}
    {t : Thread StoreOp StoreOp.Ans Job JobResult}
    (ht : ((R.node serde json).after whitelist
      (.arrive (.relayService world rounds) :: later)).threads[i]? = some t) :
    (i = 0 ∧ t.request = .relayService world rounds) ∨ (i ≠ 0 ∧ t.request.isService = false) := by
  have hrequests : ((R.node serde json).after whitelist
      (.arrive (.relayService world rounds) :: later)).threads.map Thread.request =
        .relayService world rounds :: Pool.arrivals later :=
    Pool.requests_run (S := (R.node serde json).system) (p := Pool.idle (Store.new whitelist)) _
  have hrequest : (.relayService world rounds :: Pool.arrivals later)[i]? = some t.request := by
    rw [← hrequests, List.getElem?_map, ht]
    rfl
  cases i with
  | zero => exact .inl ⟨rfl, (Option.some.inj hrequest).symm⟩
  | succ i => exact .inr ⟨Nat.succ_ne_zero i, honce _ (List.mem_of_getElem? hrequest)⟩

/-- The attributes in the log are those that the service has set. -/
theorem attributesOfLog_begins (honce : ∀ job ∈ Pool.arrivals later, job.isService = false) :
    attributesOfLog ((R.node serde json).log whitelist
      (.arrive (.relayService world rounds) :: later)) <+: world.attributes R json := by
  have hsets : ∀ t ∈ ((R.node serde json).after whitelist
      (.arrive (.relayService world rounds) :: later)).threads, R.JobSets json t.request t.trace :=
    fun t ht => (Pool.run_everywhere (S := (R.node serde json).system)
      (R.jobSets_everywhere serde json) (p := Pool.idle (Store.new whitelist))
      (fun _ ht => absurd ht List.not_mem_nil) _ t ht).here
  -- an entry that sets attributes is one of the first task
  have hzero : ∀ i e, .call i e ∈ (R.node serde json).log whitelist
      (.arrive (.relayService world rounds) :: later) → i ≠ 0 → attributesSet e = none := by
    intro i e hmem hi
    cases hthread : ((R.node serde json).after whitelist
        (.arrive (.relayService world rounds) :: later)).threads[i]? with
    | none =>
      have hnone := Frontend.callsOf_log_of_le (List.getElem?_eq_none_iff.mp hthread)
      have hcall := mem_callsOf.mpr hmem
      rw [hnone] at hcall
      cases hcall
    | some t =>
      have hset := hsets t (List.mem_of_getElem? hthread)
      rcases request_of_thread honce hthread with ⟨h, -⟩ | ⟨-, hservice⟩
      · exact absurd h hi
      · cases hreq : t.request with
        | relayService world rounds =>
          rw [hreq] at hservice
          cases hservice
        | rpc r =>
          rw [hreq] at hset
          have hempty : attributesIn t.trace = [] := hset
          apply List.filterMap_eq_nil_iff.mp hempty
          rw [Pool.trace_eq_callsOf hthread]
          exact mem_callsOf.mpr hmem
  have hcalls : attributesOfLog ((R.node serde json).log whitelist
      (.arrive (.relayService world rounds) :: later)) =
        attributesIn (callsOf 0 ((R.node serde json).log whitelist
          (.arrive (.relayService world rounds) :: later))) := by
    unfold attributesOfLog attributesIn callsOf
    rw [List.filterMap_filterMap]
    refine List.filterMap_congr ?_
    intro entry hentry
    cases entry with
    | disturb slot => rfl
    | call i e =>
      by_cases hi : i = 0
      · simp [LogEntry.callOf, hi]
      · simp [LogEntry.callOf, hi, hzero i e hentry hi]
  rw [hcalls]
  cases hthread : ((R.node serde json).after whitelist
      (.arrive (.relayService world rounds) :: later)).threads[0]? with
  | none =>
    have hnone := Frontend.callsOf_log_of_le (List.getElem?_eq_none_iff.mp hthread)
    rw [hnone]
    exact List.nil_prefix
  | some t =>
    have hset := hsets t (List.mem_of_getElem? hthread)
    rcases request_of_thread honce hthread with ⟨-, hreq⟩ | ⟨h, -⟩
    · rw [hreq, Pool.trace_eq_callsOf hthread] at hset
      exact hset
    · exact absurd rfl h

/-- **Payload attributes come from the first connection only.** The process has one background
service. Whatever arrives and however it overlaps, the attributes ever set are, in order, a beginning
of those announced on the first event stream; the ones held are the last of these; and a bid is
compared only if its payload repeats the randao of one that was set before, or the one that the store
starts with. -/
theorem bids_meet_first_connection (R : Relay) (serde : Serde) (json : EventJson)
    (whitelist : List BlsPublicKey) (world : World) (rounds : Nat)
    (later : List (Action Job UInt64))
    (honce : ∀ job ∈ Pool.arrivals later, job.isService = false) :
    attributesOfLog ((R.node serde json).log whitelist
        (.arrive (.relayService world rounds) :: later)) <+:
      announced R (connectionEvents json (world.connections 0)) ∧
    ((R.node serde json).after whitelist
        (.arrive (.relayService world rounds) :: later)).shared.storage.payloadAttributes =
      (attributesOfLog ((R.node serde json).log whitelist
        (.arrive (.relayService world rounds) :: later))).getLast?.getD
          (MemoryStorage.new whitelist).payloadAttributes ∧
    ∀ l i slot bid ans l', (R.node serde json).log whitelist
        (.arrive (.relayService world rounds) :: later) =
          l ++ .call i ⟨.compareAndBid slot bid, ans⟩ :: l' →
      ∃ attrs ∈ (MemoryStorage.new whitelist).payloadAttributes :: attributesOfLog l,
        attrs.prevRandao = bid.executionPayload.prevRandao := by
  refine ⟨attributesOfLog_begins honce, Frontend.attributes_after _, ?_⟩
  intro l i slot bid ans l' h
  exact Frontend.randao_of_compared (R.node_clears serde json) h

/-- The first arrival at an idle relay. -/
theorem Frontend.after_arrive {R : Relay} {Req α : Type} (F : R.Frontend Req α)
    (whitelist : List BlsPublicKey) (r : Req) (later : List (Action Req UInt64)) :
    F.after whitelist (.arrive r :: later) =
      (⟨Store.new whitelist, [⟨r, [], F.program r⟩]⟩ : Pool _ _ _ _ _).run F.system later := rfl

/-- The service as the events of its first stream and its polls. -/
theorem node_program_service (R : Relay) (serde : Serde) (json : EventJson) (world : World)
    (rounds : Nat) : (R.node serde json).program (.relayService world (rounds + 1)) =
      .relayService <$> (do
        handOver R (world.duties 0) 0 (connectionEvents json (world.connections 0))
        pollAll R (world.polls 0) 0 rounds
        return none) :=
  congrArg (JobResult.relayService <$> ·) (run_eq R json world rounds)
end Relay

namespace Sample

/-- The subscription fails, and the first poll finds the head at slot 1. -/
def offline : World where
  connections _ := .error "connection refused"
  duties _ _ := beacon
  polls _ _ := (.ok 1, beacon)

/-- A relay that reads one randao. -/
def readingRelay : Relay :=
  { relay with prims := { prims with
    parseB256 := fun text => .ok (if text = "0x01" then .repeatByte 1 else default) } }

/-- Every text is the attributes of slot 2, with that randao. -/
def attributesJson : EventJson where
  headEvent _ := .error "missing field"
  payloadAttributesEvent _ := .ok
    { version := "deneb"
      data :=
        { proposalSlot := 2
          parentBlockHash := ""
          payloadAttributes := { timestamp := 0, prevRandao := "0x01", suggestedFeeRecipient := "" } } }

/-- The first stream announces them and breaks, and the first poll finds the head at slot 1. -/
def announcing : World where
  connections _ := .ok
    [.ok ("event: payload_attributes\ndata: {}\n".toList.map fun c => UInt8.ofNat c.toNat),
      .error "connection reset"]
  duties _ _ := beacon
  polls _ _ := (.ok 1, beacon)

/-- A bid for slot 2 with the randao `n, n, ...`. -/
def bidMessageOn (n : UInt8) : Proto.BidRequest :=
  { bidMessage 2 1 1 with
    executionPayload := (bidMessage 2 1 1).executionPayload.map fun payload =>
      { payload with prevRandao := List.replicate 32 n } }

/-- The proposer registers, the service sees to its stream and polls, and a builder bids for slot 2 on
the initial randao and on the one announced. -/
def announcedSession : List (Action Job UInt64) :=
  [.arrive (.rpc ⟨.registerValidator registerMessage, rfl⟩)] ++ List.replicate 3 (.step 1) ++
    List.replicate 12 (.step 0) ++ [.arrive (.rpc ⟨.bid (bidMessageOn 0), rfl⟩)] ++
    List.replicate 8 (.step 2) ++ [.arrive (.rpc ⟨.bid (bidMessageOn 1), rfl⟩)] ++
    List.replicate 8 (.step 3)

end Sample

/-- The bid on the initial randao is not compared; the one on the randao announced is, and gets in. -/
theorem Relay.bids_meet_first_connection_announced :
    (((Sample.readingRelay.node Sample.serde Sample.attributesJson).after Sample.whitelist
        (.arrive (.relayService Sample.announcing 2) :: Sample.announcedSession)).shared.best 2).map
          (fun bid => bid.executionPayload.prevRandao) = some (.repeatByte 1) ∧
    ∀ l i slot bid ans l', (Sample.readingRelay.node Sample.serde Sample.attributesJson).log
        Sample.whitelist (.arrive (.relayService Sample.announcing 2) :: Sample.announcedSession) =
          l ++ .call i ⟨.compareAndBid slot bid, ans⟩ :: l' →
      bid.executionPayload.prevRandao ∈ [default, .repeatByte 1] := by
  refine ⟨?_, ?_⟩
  · rw [Frontend.after_arrive, node_program_service]
    decide +kernel
  · intro l i slot bid ans l' h
    obtain ⟨hbegins, -, hcompared⟩ := bids_meet_first_connection Sample.readingRelay Sample.serde
      Sample.attributesJson Sample.whitelist Sample.announcing 2 Sample.announcedSession (by decide)
    obtain ⟨attrs, hattrs, hrandao⟩ := hcompared l i slot bid ans l' h
    have hannounced : announced Sample.readingRelay (connectionEvents Sample.attributesJson
        (Sample.announcing.connections 0)) = [⟨0, .repeatByte 1, default⟩] := by decide +kernel
    rw [h, hannounced, attributesOfLog_append] at hbegins
    rw [← hrandao]
    rcases List.mem_cons.mp hattrs with rfl | hattrs
    · exact List.mem_cons_self
    · have hmem := hbegins.subset (List.mem_append_left _ hattrs)
      rw [List.mem_singleton.mp hmem]
      exact List.mem_cons_of_mem _ (List.mem_singleton_self _)

end MevRelay
