import MevRelay.Api.Streams
import MevRelay.Atomic.Session
import MevRelay.Node
import Mathlib.Data.List.Flatten

/-!
# The tasks of the process

`run_inner` spawns tasks, not requests: the handler of a stream works through all of its messages, and
the background service through all of its events and polls. A client may go away in the middle, and
then an answer cannot be sent. `Relay.process` runs these tasks as they are written.

* `process_refines` — a task is no more than its requests. Every run of the process makes the calls of
  a run of `Relay.api`, in which each message and each event is a request of its own.
* `session_bids_in_turn` — a stream's bids get to the auction in their order, each once, and after
  the client has gone at most one more is looked at.

`Relay.HasWon` says of a bid that a message on some stream has won the auction with it, and
`RetrieverService.HasSent` what a `Retrieve` handler has sent so far, however it goes on.
-/

namespace MevRelay

open Atomic

/-! ## The loops, with a client that may go away -/

namespace BidderService

variable (R : Relay) (sends : Nat → Bool)

/-- `BidderServiceImpl::handle_request`, with `sent` sent so far. Send `n` succeeds if `sends n`; an
answer that cannot be sent ends the loop. -/
def handleRequestTo (n : Nat) (sent : List (Except Status Proto.BidResponse)) :
    List (Except Status Proto.BidRequest) → StoreProg (List (Except Status Proto.BidResponse))
  | [] => return sent
  | .error status :: _ => return if sends n then sent ++ [.error status] else sent
  | .ok msg :: rest => do
    let answer ← handleMessage R msg
    if sends n then
      handleRequestTo (n + 1) (sent ++ [answer]) rest
    else
      return sent

/-- What the loop asks for. -/
def script (n : Nat) (sent : List (Except Status Proto.BidResponse)) :
    List (Except Status Proto.BidRequest) →
      Script Rpc.Request Rpc.Output (List (Except Status Proto.BidResponse))
  | [] => return sent
  | .error status :: _ => return if sends n then sent ++ [.error status] else sent
  | .ok msg :: rest => .call (.bid msg) fun
    | .bid answer => if sends n then script (n + 1) (sent ++ [answer]) rest else return sent
    | _ => .abort

theorem expand_script (serde : Serde) (n : Nat) (sent : List (Except Status Proto.BidResponse))
    (inStream : List (Except Status Proto.BidRequest)) :
    (script sends n sent inStream).expand (Rpc.program R serde) =
      handleRequestTo R sends n sent inStream := by
  induction inStream generalizing n sent with
  | nil => rfl
  | cons item rest ih =>
    cases item with
    | error status => rfl
    | ok msg =>
      simp only [script, Prog.expand_call, Rpc.program, bind_map_left, handleRequestTo]
      congr
      funext answer
      by_cases hsend : sends n
      · simp only [if_pos hsend, ih]
      · simp only [if_neg hsend]
        rfl

/-- On its own and with a client that stays, this is the loop as `Api.Streams` has it. -/
theorem run_handleRequestTo (inStream : List (Except Status Proto.BidRequest)) (n k : Nat)
    (sent : List (Except Status Proto.BidResponse)) (s : Store) :
    (handleRequestTo R (fun _ => true) n sent inStream).run Store.exec s =
      let served := serve Store.exec (handleMessage R) (fun _ => id) k inStream s
      (if served.aborted then .aborted else .returned (sent ++ served.sent), served.final) := by
  induction inStream generalizing n k sent s with
  | nil => simp [handleRequestTo, serve, Prog.run]
  | cons item rest ih =>
    cases item with
    | error status => simp [handleRequestTo, serve, Prog.run]
    | ok msg =>
      obtain ⟨outcome, s', hrun⟩ : ∃ outcome s',
          (handleMessage R msg).run Store.exec s = (outcome, s') := ⟨_, _, rfl⟩
      cases outcome with
      | aborted => simp [handleRequestTo, serve, hrun, Prog.run_bind_of_aborted hrun]
      | returned answer => simp [handleRequestTo, serve, hrun, Prog.run_bind_of hrun, ih _ (k + 1)]

end BidderService

namespace RetrieverService

variable (R : Relay) (serde : Serde) (sends : Nat → Bool)

/-- `RetrieverServiceImpl::handle_request`, with `sent` sent so far. An error that cannot be sent is
dropped, and the loop goes on; a header that cannot be sent ends it. -/
def handleRequestTo (n : Nat) (sent : List (Except Status Proto.RetrieveResponse)) :
    List (Except Status Proto.RetrieveRequest) →
      StoreProg (List (Except Status Proto.RetrieveResponse))
  | [] => return sent
  | .error status :: _ => return if sends n then sent ++ [.error status] else sent
  | .ok msg :: rest => do
    match ← handleMessage R serde msg with
    | .error status =>
      handleRequestTo (n + 1) (if sends n then sent ++ [.error status] else sent) rest
    | .ok response =>
      if sends n then
        handleRequestTo (n + 1) (sent ++ [.ok response]) rest
      else
        return sent

/-- What the loop asks for. -/
def script (n : Nat) (sent : List (Except Status Proto.RetrieveResponse)) :
    List (Except Status Proto.RetrieveRequest) →
      Script Rpc.Request Rpc.Output (List (Except Status Proto.RetrieveResponse))
  | [] => return sent
  | .error status :: _ => return if sends n then sent ++ [.error status] else sent
  | .ok msg :: rest => .call (.retrieve msg) fun
    | .retrieve (.error status) =>
      script (n + 1) (if sends n then sent ++ [.error status] else sent) rest
    | .retrieve (.ok response) =>
      if sends n then script (n + 1) (sent ++ [.ok response]) rest else return sent
    | _ => .abort

theorem expand_script (n : Nat) (sent : List (Except Status Proto.RetrieveResponse))
    (inStream : List (Except Status Proto.RetrieveRequest)) :
    (script sends n sent inStream).expand (Rpc.program R serde) =
      handleRequestTo R serde sends n sent inStream := by
  induction inStream generalizing n sent with
  | nil => rfl
  | cons item rest ih =>
    cases item with
    | error status => rfl
    | ok msg =>
      simp only [script, Prog.expand_call, Rpc.program, bind_map_left, handleRequestTo]
      congr
      funext answer
      cases answer with
      | error status => exact ih _ _
      | ok response =>
        by_cases hsend : sends n
        · simp only [if_pos hsend, ih]
        · simp only [if_neg hsend]
          rfl

theorem run_handleRequestTo (inStream : List (Except Status Proto.RetrieveRequest)) (n k : Nat)
    (sent : List (Except Status Proto.RetrieveResponse)) (s : Store) :
    (handleRequestTo R serde (fun _ => true) n sent inStream).run Store.exec s =
      let served := serve Store.exec (handleMessage R serde) (fun _ => id) k inStream s
      (if served.aborted then .aborted else .returned (sent ++ served.sent), served.final) := by
  induction inStream generalizing n k sent s with
  | nil => simp [handleRequestTo, serve, Prog.run]
  | cons item rest ih =>
    cases item with
    | error status => simp [handleRequestTo, serve, Prog.run]
    | ok msg =>
      obtain ⟨outcome, s', hrun⟩ : ∃ outcome s',
          (handleMessage R serde msg).run Store.exec s = (outcome, s') := ⟨_, _, rfl⟩
      cases outcome with
      | aborted => simp [handleRequestTo, serve, hrun, Prog.run_bind_of_aborted hrun]
      | returned answer =>
        cases answer <;>
          simp [handleRequestTo, serve, hrun, Prog.run_bind_of hrun, ih _ (k + 1)]

end RetrieverService

namespace RelayService

variable (R : Relay) (json : EventJson)

/-- The tasks of the service, in the order in which it sees to them. -/
def tasks (world : World) : Nat → List Task
  | 0 => []
  | rounds + 1 =>
    ((connectionEvents json (world.connections 0)).zipIdx.map fun (event, i) =>
      taskOf (world.duties 0 i) event) ++
    (List.range rounds).map fun i => .poll (world.polls 0 i).1 (world.polls 0 i).2

/-- See to one task after the other; the service never returns. -/
def script : List Task → Script Rpc.Request Rpc.Output (Option Unit)
  | [] => return none
  | task :: later => .call (.background task) fun _ => script later

theorem expand_script (serde : Serde) (todo : List Task) :
    (script todo).expand (Rpc.program R serde) = (do
      forM todo (handle R)
      return none) := by
  induction todo with
  | nil => rfl
  | cons task later ih =>
    simp only [script, Prog.expand_call, Rpc.program, bind_map_left, ih, List.forM_cons, bind_assoc]

theorem handOver_eq_forM (beacons : Nat → Beacon) (n : Nat) (events : List BeaconEvent) :
    handOver R beacons n events =
      forM ((events.zipIdx n).map fun (event, i) => taskOf (beacons i) event) (handle R) := by
  induction events generalizing n with
  | nil => rfl
  | cons event events ih =>
    simp only [handOver, handleEvent_eq, ih, List.zipIdx_cons, List.map_cons, List.forM_cons]

theorem pollAll_eq_forM (polls : Nat → Except String UInt64 × Beacon) (n rounds : Nat) :
    pollAll R polls n rounds =
      forM ((List.range' n rounds).map fun i => Task.poll (polls i).1 (polls i).2) (handle R) := by
  induction rounds generalizing n with
  | zero => rfl
  | succ rounds ih =>
    simp only [pollAll, ih, List.range'_succ, List.map_cons, List.forM_cons]
    rfl

/-- **The service is its tasks.** -/
theorem run_eq_tasks (world : World) (rounds : Nat) :
    run R json world 0 rounds = (do
      forM (tasks json world rounds) (handle R)
      return none) := by
  cases rounds with
  | zero => rfl
  | succ rounds =>
    simp only [run_eq, tasks, handOver_eq_forM, pollAll_eq_forM, List.forM_append, bind_assoc,
      List.range_eq_range']

end RelayService

/-! ## The process -/

/-- What the process spawns: a handler for each stream of a client, one for each unary call, and the
background service, followed for a number of rounds. -/
inductive Session where
  | bid (inStream : List (Except Status Proto.BidRequest)) (sends : Nat → Bool)
  | retrieve (inStream : List (Except Status Proto.RetrieveRequest)) (sends : Nat → Bool)
  | registerValidator (req : Proto.RegisterValidatorRequest)
  | submitBlindedBlock (req : Proto.SubmitBlindedBlockRequest)
  | relayService (world : RelayService.World) (rounds : Nat)

/-- What a stream has sent, a call has returned, or the service has come to. -/
inductive SessionResult where
  | bid (sent : List (Except Status Proto.BidResponse))
  | retrieve (sent : List (Except Status Proto.RetrieveResponse))
  | registerValidator (result : Except Status Proto.RegisterValidatorResponse)
  | submitBlindedBlock (result : Except Status Proto.BlindedBlockResponse)
  | relayService (ended : Option Unit)

namespace Relay

variable (R : Relay) (serde : Serde) (json : EventJson)

/-- The task that is spawned. -/
def sessionProgram : Session → StoreProg SessionResult
  | .bid inStream sends => .bid <$> BidderService.handleRequestTo R sends 0 [] inStream
  | .retrieve inStream sends =>
    .retrieve <$> RetrieverService.handleRequestTo R serde sends 0 [] inStream
  | .registerValidator req =>
    .registerValidator <$> ValidatorService.registerValidator R req
  | .submitBlindedBlock req =>
    .submitBlindedBlock <$> RetrieverService.submitBlindedBlock R serde req
  | .relayService world rounds => .relayService <$> RelayService.run R json world 0 rounds

/-- The tasks over the store; the cache may let entries expire. -/
def process : System StoreOp StoreOp.Ans Session SessionResult Store UInt64 where
  exec := Store.exec
  program := R.sessionProgram serde json
  disturb := fun slot s => s.expire slot

/-- What a task asks for. -/
def sessionScript : Session → Script Rpc.Request Rpc.Output SessionResult
  | .bid inStream sends => .bid <$> BidderService.script sends 0 [] inStream
  | .retrieve inStream sends => .retrieve <$> RetrieverService.script sends 0 [] inStream
  | .registerValidator req => .call (.registerValidator req) fun
    | .registerValidator result => return .registerValidator result
    | _ => .abort
  | .submitBlindedBlock req => .call (.submitBlindedBlock req) fun
    | .submitBlindedBlock result => return .submitBlindedBlock result
    | _ => .abort
  | .relayService world rounds =>
    .relayService <$> RelayService.script (RelayService.tasks json world rounds)

theorem expand_sessionScript (x : Session) :
    (sessionScript json x).expand (Rpc.program R serde) = R.sessionProgram serde json x := by
  cases x with
  | bid inStream sends =>
    rw [sessionScript, sessionProgram, Prog.expand_map, BidderService.expand_script]
  | retrieve inStream sends =>
    rw [sessionScript, sessionProgram, Prog.expand_map, RetrieverService.expand_script]
  | registerValidator req =>
    simp only [sessionScript, Prog.expand_call, Rpc.program, bind_map_left, sessionProgram]
    rfl
  | submitBlindedBlock req =>
    simp only [sessionScript, Prog.expand_call, Rpc.program, bind_map_left, sessionProgram]
    rfl
  | relayService world rounds =>
    rw [sessionScript, sessionProgram, Prog.expand_map, RelayService.expand_script,
      RelayService.run_eq_tasks]

theorem process_eq_sessions :
    R.process serde json = (R.api serde).system.sessions (sessionScript json) := by
  have hprogram : R.sessionProgram serde json =
      fun x => (sessionScript json x).expand (Rpc.program R serde) :=
    funext fun x => (R.expand_sessionScript serde json x).symm
  unfold process
  rw [hprogram]
  rfl

/-- A run of the process from `MemoryStorage::new(whitelist)` and an empty cache. -/
def processAfter (whitelist : List BlsPublicKey) (schedule : List (Action Session UInt64)) :
    Pool StoreOp StoreOp.Ans Session SessionResult Store :=
  (Pool.idle (Store.new whitelist)).run (R.process serde json) schedule

/-- **The process refines the services.** Whatever streams and calls come in, whenever clients go away
and however the tasks interleave: there is a run of the services in which each message, each call
and each event is a request of its own, that makes the same calls in the same order and leads to
the same store; and every task is what its own requests have done, one after the other. -/
theorem process_refines (whitelist : List BlsPublicKey)
    (schedule : List (Action Session UInt64)) :
    ∃ (requests : List (Action Rpc.Request UInt64)) (owners : List Nat),
      Pool.MadeOf (R.api serde).system (sessionScript json) owners
        (R.processAfter serde json whitelist schedule)
        ((R.api serde).after whitelist requests) ∧
      List.Forall₂ (LogEntry.OfSession owners) ((R.api serde).log whitelist requests)
        ((Pool.idle (Store.new whitelist)).log (R.process serde json) schedule) := by
  unfold processAfter
  rw [process_eq_sessions]
  exact Pool.sessions_refine (sessionScript json) (Store.new whitelist) schedule

end Relay

/-! ## What the tasks ask for -/

/-- The messages of a stream before the first error. -/
def BidderService.received (inStream : List (Except Status Proto.BidRequest)) :
    List Proto.BidRequest :=
  (inStream.takeWhile (·.isOk)).filterMap (·.toOption)

/-- The messages of a stream before the first error. -/
def RetrieverService.received (inStream : List (Except Status Proto.RetrieveRequest)) :
    List Proto.RetrieveRequest :=
  (inStream.takeWhile (·.isOk)).filterMap (·.toOption)

/-- An output of the kind that the request has. -/
def Rpc.Answers : Rpc.Request → Rpc.Output → Prop
  | .bid _, .bid _ => True
  | .registerValidator _, .registerValidator _ => True
  | .retrieve _, .retrieve _ => True
  | .submitBlindedBlock _, .submitBlindedBlock _ => True
  | .background _, .background _ => True
  | _, _ => False

theorem Rpc.answers_of_returns {R : Relay} {serde : Serde} {r : Rpc.Request}
    {tr : List StoreEvent} {out : Rpc.Output} (h : Rpc.Returns R serde r tr out) :
    Rpc.Answers r out := by
  cases r <;> cases out <;> trivial

/-- What a task of the process asks for. -/
def Session.Asks (json : EventJson) : Session → Rpc.Request → Prop
  | .bid inStream _, r => ∃ msg ∈ BidderService.received inStream, r = .bid msg
  | .retrieve inStream _, r => ∃ msg ∈ RetrieverService.received inStream, r = .retrieve msg
  | .registerValidator req, r => r = .registerValidator req
  | .submitBlindedBlock req, r => r = .submitBlindedBlock req
  | .relayService world rounds, r =>
    ∃ task ∈ RelayService.tasks json world rounds, r = .background task

theorem BidderService.script_expects (sends : Nat → Bool)
    (inStream : List (Except Status Proto.BidRequest)) (n : Nat)
    (sent : List (Except Status Proto.BidResponse)) :
    (script sends n sent inStream).Expects Rpc.Answers
      (fun r => ∃ msg ∈ received inStream, r = .bid msg) := by
  induction inStream generalizing n sent with
  | nil => trivial
  | cons item inStream ih =>
    cases item with
    | error status => trivial
    | ok msg =>
      refine ⟨⟨msg, List.mem_cons_self, rfl⟩, ?_⟩
      intro out hout
      cases out with
      | bid answer =>
        simp only
        split
        · refine (ih (n + 1) _).mono ?_
          rintro r ⟨later, hlater, rfl⟩
          exact ⟨later, List.mem_cons_of_mem msg hlater, rfl⟩
        · trivial
      | _ => exact absurd hout id

theorem RetrieverService.script_expects (sends : Nat → Bool)
    (inStream : List (Except Status Proto.RetrieveRequest)) (n : Nat)
    (sent : List (Except Status Proto.RetrieveResponse)) :
    (script sends n sent inStream).Expects Rpc.Answers
      (fun r => ∃ msg ∈ received inStream, r = .retrieve msg) := by
  induction inStream generalizing n sent with
  | nil => trivial
  | cons item inStream ih =>
    cases item with
    | error status => trivial
    | ok msg =>
      have hlater : ∀ sent', (script sends (n + 1) sent' inStream).Expects Rpc.Answers
          (fun r => ∃ m ∈ received (.ok msg :: inStream), r = .retrieve m) := by
        intro sent'
        refine (ih (n + 1) sent').mono ?_
        rintro r ⟨later, hmem, rfl⟩
        exact ⟨later, List.mem_cons_of_mem msg hmem, rfl⟩
      refine ⟨⟨msg, List.mem_cons_self, rfl⟩, ?_⟩
      intro out hout
      cases out with
      | retrieve result =>
        cases result with
        | error status => exact hlater _
        | ok response =>
          simp only
          split
          · exact hlater _
          · trivial
      | _ => exact absurd hout id

theorem RelayService.script_expects (todo : List Task) :
    (script todo).Expects Rpc.Answers (fun r => ∃ task ∈ todo, r = .background task) := by
  induction todo with
  | nil => trivial
  | cons task later ih =>
    refine ⟨⟨task, List.mem_cons_self, rfl⟩, fun _ _ => ih.mono ?_⟩
    rintro r ⟨task', hmem, rfl⟩
    exact ⟨task', List.mem_cons_of_mem task hmem, rfl⟩

namespace Relay

variable (R : Relay) (serde : Serde) (json : EventJson)

theorem sessionScript_expects (x : Session) :
    (sessionScript json x).Expects Rpc.Answers (x.Asks json) := by
  cases x with
  | bid inStream sends => exact (BidderService.script_expects sends inStream 0 []).map
  | retrieve inStream sends => exact (RetrieverService.script_expects sends inStream 0 []).map
  | registerValidator req =>
    refine ⟨rfl, fun out hout => ?_⟩
    cases out with
    | registerValidator result => trivial
    | _ => exact absurd hout id
  | submitBlindedBlock req =>
    refine ⟨rfl, fun out hout => ?_⟩
    cases out with
    | submitBlindedBlock result => trivial
    | _ => exact absurd hout id
  | relayService world rounds => exact (RelayService.script_expects _).map

/-- The tasks of the process and their requests: each request is one that its task asks for, and a
task panics only with one of its own requests. -/
theorem process_requests (whitelist : List BlsPublicKey)
    (schedule : List (Action Session UInt64)) :
    ∃ (requests : List (Action Rpc.Request UInt64)) (owners : List Nat),
      Pool.MadeOf (R.api serde).system (sessionScript json) owners
        (R.processAfter serde json whitelist schedule)
        ((R.api serde).after whitelist requests) ∧
      ∀ (j : Nat) u, (R.processAfter serde json whitelist schedule).threads[j]? = some u →
        (∀ t ∈ owned owners ((R.api serde).after whitelist requests).threads j,
          u.request.Asks json t.request) ∧
        (u.rest = .abort →
          ∃ t ∈ owned owners ((R.api serde).after whitelist requests).threads j,
            t.rest = .abort) := by
  obtain ⟨requests, owners, hmade, -⟩ := R.process_refines serde json whitelist schedule
  refine ⟨requests, owners, hmade, fun j u hj => ?_⟩
  refine (hmade.made j u hj).of_expects (sessionScript_expects json u.request) ?_
  intro t ht out hret
  exact Rpc.answers_of_returns (Frontend.returns_of_ret (mem_of_mem_owned ht) hret)

end Relay

/-! ## The bids of a stream -/

/-- The bids that were given to the auction. -/
def biddings (tr : List StoreEvent) : List BidSubmission :=
  tr.filterMap fun
    | ⟨.compareAndBid _ bid, _⟩ => some bid
    | _ => none

/-- The call gives no bid to the auction, or the first one of the trace, which is one of `bids`. -/
def BidsOnce (bids : List BidSubmission) (tr : List StoreEvent) (o : StoreOp) : Prop :=
  ∀ slot bid, o = .compareAndBid slot bid → bids = [bid] ∧ biddings tr = []

/-- So the trace has at most that bid. -/
theorem BidsOnce.biddings_sublist {bids : List BidSubmission} {tr : List StoreEvent} {o : StoreOp}
    (ans : StoreOp.Ans o) (h : BidsOnce bids tr o) (htr : (biddings tr).Sublist bids) :
    (biddings (tr ++ [⟨o, ans⟩])).Sublist bids := by
  have hconcat : biddings (tr ++ [⟨o, ans⟩]) = biddings tr ++ biddings [⟨o, ans⟩] :=
    List.filterMap_append
  rw [hconcat]
  cases o with
  | compareAndBid slot bid =>
    obtain ⟨rfl, hnone⟩ := h slot bid rfl
    rw [hnone]
    exact List.Sublist.refl _
  | _ =>
    show (biddings tr ++ []).Sublist bids
    rw [List.append_nil]
    exact htr

namespace SubmitBidUseCase

theorem biddings_of_checking {R : Relay} {bid : BidSubmission} {tr : List StoreEvent}
    (h : Checking R bid tr) : biddings tr = [] := by
  unfold biddings
  rw [List.filterMap_eq_nil_iff]
  intro e he
  have hread := h.reads e he
  obtain ⟨o, ans⟩ := e
  cases o with
  | compareAndBid slot bid => exact absurd hread id
  | _ => rfl

theorem execute_bidsOnce (R : Relay) (bid : BidSubmission) :
    (execute R bid).Always (BidsOnce [bid]) (fun _ _ => True) [] := by
  refine (execute_stages R bid).always ?_ (fun _ _ _ => trivial)
  intro tr o k hstage slot bid' heq
  subst heq
  cases hstage with
  | checking checks read => exact absurd read id
  | bidding checks cleared => exact ⟨rfl, biddings_of_checking checks⟩

end SubmitBidUseCase

namespace Relay

variable (R : Relay) (serde : Serde) (json : EventJson)

/-- The bid that a request brings. -/
def bidsOf : Rpc.Request → List BidSubmission
  | .bid msg => (BidderService.converted R msg).toList
  | _ => []

theorem handleMessage_bidsOnce (msg : Proto.BidRequest) :
    (BidderService.handleMessage R msg).Always (BidsOnce (R.bidsOf (.bid msg))) (fun _ _ => True)
      [] := by
  unfold BidderService.handleMessage
  apply Prog.always_ofOption_bind
  intro converted hconverted
  cases converted with
  | error e => trivial
  | ok submission =>
    have hbids : R.bidsOf (.bid msg) = [submission] := by
      simp only [bidsOf, BidderService.converted, hconverted, Option.toList_some]
    rw [hbids]
    apply (SubmitBidUseCase.execute_bidsOnce R submission).bind
    intro tr result _
    cases result <;> trivial

theorem rpc_bidsOnce (r : Rpc.Request) :
    (Rpc.program R serde r).Always (BidsOnce (R.bidsOf r)) (fun _ _ => True) [] := by
  by_cases hr : ∃ msg, r = .bid msg
  · obtain ⟨msg, rfl⟩ := hr
    apply Prog.Always.map
    exact R.handleMessage_bidsOnce msg
  · refine (Rpc.program_always R serde r).mono ?_ (fun _ _ _ => trivial)
    intro tr o ho slot bid heq
    exact absurd heq (R.ne_compareAndBid_of_serves (fun msg hmsg => hr ⟨msg, hmsg⟩) ho slot bid)

/-- A request gives at most its own bid to the auction, at most once. -/
theorem biddings_of_thread {whitelist : List BlsPublicKey}
    {requests : List (Action Rpc.Request UInt64)} {t : RpcThread}
    (ht : t ∈ ((R.api serde).after whitelist requests).threads) :
    (biddings t.trace).Sublist (R.bidsOf t.request) :=
  (Pool.run_everywhere (S := (R.api serde).system)
    (fun r => (R.rpc_bidsOnce serde r).everywhere
      (fun _ _ ans ho htr => ho.biddings_sublist ans htr) (List.nil_sublist _))
    (p := Pool.idle (Store.new whitelist)) (fun _ ht => absurd ht List.not_mem_nil) requests t
    ht).here

end Relay

namespace BidderService

/-- A handler looks at the messages in their order, and at the next one only if it could send its answer
to the one before. -/
theorem requests_of_script {S : System StoreOp StoreOp.Ans Rpc.Request Rpc.Output Store UInt64}
    {sends : Nat → Bool} (inStream : List (Except Status Proto.BidRequest)) {n : Nat}
    {sent : List (Except Status Proto.BidResponse)} {ts : List RpcThread} {tr : List StoreEvent}
    {rest : StoreProg (List (Except Status Proto.BidResponse))}
    (h : Made S (script sends n sent inStream) ts tr rest) :
    ∃ taken, ts.map Thread.request = ((received inStream).take taken).map .bid ∧
      ∀ i, i + 1 < taken → sends (n + i) = true := by
  induction inStream generalizing n sent ts tr rest with
  | nil =>
    cases h
    exact ⟨0, rfl, fun i hi => absurd hi (Nat.not_lt_zero _)⟩
  | cons item inStream ih =>
    cases item with
    | error status =>
      cases h
      exact ⟨0, rfl, fun i hi => absurd hi (Nat.not_lt_zero _)⟩
    | ok msg =>
      have hone : ∀ i, i + 1 < 1 → sends (n + i) = true := by
        intro i hi
        omega
      rw [script] at h
      cases h with
      | running hp => exact ⟨1, rfl, hone⟩
      | @returned _ _ out _ _ ts _ h =>
        cases out with
        | bid answer =>
          by_cases hsend : sends n
          · -- the answer was sent, and the handler goes on
            simp only [if_pos hsend] at h
            obtain ⟨taken, hrequests, hsends⟩ := ih h
            refine ⟨taken + 1, congrArg (Rpc.Request.bid msg :: ·) hrequests, ?_⟩
            intro i hi
            cases i with
            | zero => exact hsend
            | succ i =>
              rw [show n + (i + 1) = n + 1 + i by omega]
              exact hsends i (by omega)
          · simp only [if_neg hsend] at h
            cases h
            exact ⟨1, rfl, hone⟩
        | _ =>
          cases h
          exact ⟨1, rfl, hone⟩

end BidderService

namespace Relay

variable (R : Relay) (serde : Serde) (json : EventJson)

/-- The bids of a list of messages, each at most once and in their order. -/
theorem biddings_of_requests {whitelist : List BlsPublicKey}
    {requests : List (Action Rpc.Request UInt64)} {ts : List RpcThread}
    {msgs : List Proto.BidRequest}
    (hts : ∀ t ∈ ts, t ∈ ((R.api serde).after whitelist requests).threads)
    (hmsgs : ts.map Thread.request = msgs.map .bid) :
    (biddings (ts.flatMap Thread.trace)).Sublist (msgs.filterMap (BidderService.converted R)) :=
  calc biddings (ts.flatMap Thread.trace)
    _ = ts.flatMap fun t => biddings t.trace := List.filterMap_flatMap
    List.Sublist _ (ts.flatMap fun t => R.bidsOf t.request) :=
        List.Sublist.flatMap_right _ fun t ht => R.biddings_of_thread serde (hts t ht)
    _ = (ts.map Thread.request).flatMap R.bidsOf := (List.flatMap_map _ _ _).symm
    _ = msgs.filterMap (BidderService.converted R) := by
        rw [hmsgs, List.flatMap_map, List.filterMap_eq_flatMap_toList]
        rfl

/-- **The bids of a stream take their turns.** In every run of the process: what a stream has given to
the auction are bids of its messages, in the order of the stream, no message twice; and if its
client takes no more than `gone` answers, only the first `gone + 1` messages count. -/
theorem session_bids_in_turn (whitelist : List BlsPublicKey)
    (schedule : List (Action Session UInt64))
    (u : Thread StoreOp StoreOp.Ans Session SessionResult)
    (hu : u ∈ (R.processAfter serde json whitelist schedule).threads)
    (inStream : List (Except Status Proto.BidRequest)) (sends : Nat → Bool)
    (hrequest : u.request = .bid inStream sends) :
    (biddings u.trace).Sublist
      ((BidderService.received inStream).filterMap (BidderService.converted R)) ∧
    ∀ gone, (∀ n, gone ≤ n → sends n = false) →
      (biddings u.trace).Sublist
        (((BidderService.received inStream).take (gone + 1)).filterMap
          (BidderService.converted R)) := by
  obtain ⟨j, hj⟩ := List.getElem?_of_mem hu
  obtain ⟨requests, owners, hmade, -⟩ := R.process_refines serde json whitelist schedule
  have hsession := hmade.made j u hj
  rw [hrequest] at hsession
  obtain ⟨rest, hscript, -⟩ := hsession.of_map
  obtain ⟨taken, htaken, hsends⟩ := BidderService.requests_of_script inStream hscript
  have hbids : (biddings u.trace).Sublist
      (((BidderService.received inStream).take taken).filterMap (BidderService.converted R)) := by
    rw [hsession.trace_eq]
    exact R.biddings_of_requests serde (fun t ht => mem_of_mem_owned ht) htaken
  refine ⟨hbids.trans ((List.take_sublist _ _).filterMap _), ?_⟩
  intro gone hgone
  have hle : taken ≤ gone + 1 := by
    by_contra hlt
    have hsend := hsends gone (Nat.lt_of_not_le hlt)
    rw [Nat.zero_add, hgone gone (Nat.le_refl _)] at hsend
    cases hsend
  exact hbids.trans ((List.take_prefix_take_left hle).sublist.filterMap _)

end Relay

/-! ### Who has won -/

theorem BidderService.converted_of_serves {R : Relay} {r : Rpc.Request} {bid : BidSubmission}
    (h : Rpc.serves R r = some (.submitBid bid)) :
    ∃ msg, r = .bid msg ∧ converted R msg = some bid := by
  obtain ⟨msg, rfl⟩ := R.bid_of_serves h
  refine ⟨msg, rfl, ?_⟩
  simp only [Rpc.serves] at h
  split at h
  · next hconverted =>
    cases h
    simp only [converted, hconverted]
  · cases h

/-- A `Bid` stream of the process has received a message that says `bid`, and has won the auction with
it. -/
def Relay.HasWon (R : Relay) (p : Pool StoreOp StoreOp.Ans Session SessionResult Store)
    (bid : BidSubmission) : Prop :=
  ∃ u ∈ p.threads, ∃ inStream sends, u.request = .bid inStream sends ∧
    (∃ msg ∈ BidderService.received inStream, BidderService.converted R msg = some bid) ∧
    ⟨.compareAndBid bid.message.slot bid, .ok ()⟩ ∈ u.trace

/-- A request that has won belongs to a stream that has. -/
theorem Relay.hasWon_of_won {R : Relay} {serde : Serde} {json : EventJson}
    {whitelist : List BlsPublicKey} {schedule : List (Action Session UInt64)}
    {requests : List (Action Rpc.Request UInt64)} {owners : List Nat}
    (hmade : Pool.MadeOf (R.api serde).system (sessionScript json) owners
      (R.processAfter serde json whitelist schedule) ((R.api serde).after whitelist requests))
    (hasks : ∀ (j : Nat) u, (R.processAfter serde json whitelist schedule).threads[j]? = some u →
      ∀ t ∈ owned owners ((R.api serde).after whitelist requests).threads j,
        u.request.Asks json t.request)
    {t : RpcThread} (ht : t ∈ ((R.api serde).after whitelist requests).threads)
    {bid : BidSubmission} {duty : ProposerDuty}
    (hwon : Won R bid duty ((R.api serde).serves t.request) t.trace) :
    R.HasWon (R.processAfter serde json whitelist schedule) bid := by
  obtain ⟨j, u, hj, howned⟩ := hmade.exists_session ht
  obtain ⟨msg, hmsg, hconverted⟩ := BidderService.converted_of_serves hwon.submits
  have hask := hasks j u hj t howned
  rw [hmsg] at hask
  have htrace : t.trace ⊆ u.trace := by
    rw [(hmade.made j u hj).trace_eq]
    exact fun e he => List.mem_flatMap.mpr ⟨t, howned, he⟩
  refine ⟨u, List.mem_of_getElem? hj, ?_⟩
  cases hrequest : u.request with
  | bid inStream sends =>
    rw [hrequest] at hask
    obtain ⟨msg', hreceived, heq⟩ := hask
    cases heq
    exact ⟨inStream, sends, rfl, ⟨msg, hreceived, hconverted⟩, htrace hwon.won⟩
  | retrieve inStream sends =>
    rw [hrequest] at hask
    obtain ⟨msg', -, heq⟩ := hask
    cases heq
  | registerValidator req =>
    rw [hrequest] at hask
    cases hask
  | submitBlindedBlock req =>
    rw [hrequest] at hask
    cases hask
  | relayService world rounds =>
    rw [hrequest] at hask
    obtain ⟨task, -, heq⟩ := hask
    cases heq

/-! ## What tasks have sent -/

namespace RetrieverService

variable (R : Relay) (serde : Serde) (sends : Nat → Bool)

/-- The handler, which has made the calls `tr` on the messages that are left and sends answer `n` next,
has sent `resp`, whether it is still running, has ended or has panicked. It goes on to the next
message unless it could not send a response; an error that cannot be sent does not stop it. -/
def HasSent (n : Nat) : List (Except Status Proto.RetrieveRequest) → List StoreEvent →
    Proto.RetrieveResponse → Prop
  | [], _, _ => False
  | .error _ :: _, _, _ => False
  | .ok msg :: rest, tr, resp =>
    ∃ answer tr₁ tr₂, tr = tr₁ ++ tr₂ ∧ (handleMessage R serde msg).Steps tr₁ (.ret answer) ∧
      ((sends n = true ∧ answer = .ok resp) ∨
        ((sends n = true ∨ answer.isOk = false) ∧ HasSent (n + 1) rest tr₂ resp))

variable {R serde sends}

/-- What a handler has returned as sent, it has sent. -/
theorem hasSent_of_ended {inStream : List (Except Status Proto.RetrieveRequest)} {n : Nat}
    {sent out : List (Except Status Proto.RetrieveResponse)} {tr : List StoreEvent}
    (h : (handleRequestTo R serde sends n sent inStream).Steps tr (.ret out)) :
    ∀ resp, .ok resp ∈ out → .ok resp ∈ sent ∨ HasSent R serde sends n inStream tr resp := by
  induction inStream generalizing n sent tr with
  | nil =>
    obtain ⟨rfl, hret⟩ := (Prog.Steps.refl _).eq_ret_of_append h
    cases hret
    exact fun resp hresp => .inl hresp
  | cons item inStream ih =>
    cases item with
    | error status =>
      obtain ⟨rfl, hret⟩ := (Prog.Steps.refl _).eq_ret_of_append h
      cases hret
      intro resp hresp
      split at hresp
      · rcases List.mem_append.mp hresp with hresp | hresp
        · exact .inl hresp
        · cases List.mem_singleton.mp hresp
      · exact .inl hresp
    | ok msg =>
      obtain ⟨answer, tr₁, tr₂, rfl, hanswer, hnext⟩ := h.of_bind
      intro resp hresp
      cases answer with
      | error status =>
        rcases ih hnext resp hresp with hsent | hsent
        · left
          split at hsent
          · rcases List.mem_append.mp hsent with hsent | hsent
            · exact hsent
            · cases List.mem_singleton.mp hsent
          · exact hsent
        · exact .inr ⟨_, tr₁, tr₂, rfl, hanswer, .inr ⟨.inr rfl, hsent⟩⟩
      | ok response =>
        by_cases hsend : sends n
        · simp only [if_pos hsend] at hnext
          rcases ih hnext resp hresp with hsent | hsent
          · rcases List.mem_append.mp hsent with hsent | hsent
            · exact .inl hsent
            · cases List.mem_singleton.mp hsent
              exact .inr ⟨_, tr₁, tr₂, rfl, hanswer, .inl ⟨hsend, rfl⟩⟩
          · exact .inr ⟨_, tr₁, tr₂, rfl, hanswer, .inr ⟨.inl hsend, hsent⟩⟩
        · simp only [if_neg hsend] at hnext
          obtain ⟨rfl, hret⟩ := (Prog.Steps.refl _).eq_ret_of_append hnext
          cases hret
          exact .inl hresp

/-- What a handler has sent is the output of one of its requests. -/
theorem exists_of_hasSent {whitelist : List BlsPublicKey}
    {requests : List (Action Rpc.Request UInt64)}
    {inStream : List (Except Status Proto.RetrieveRequest)} {n : Nat}
    {sent : List (Except Status Proto.RetrieveResponse)} {ts : List RpcThread}
    {tr : List StoreEvent} {rest : StoreProg (List (Except Status Proto.RetrieveResponse))}
    (h : Made (R.api serde).system (script sends n sent inStream) ts tr rest)
    (hts : ∀ t ∈ ts, t ∈ ((R.api serde).after whitelist requests).threads)
    {resp : Proto.RetrieveResponse} (hsent : HasSent R serde sends n inStream tr resp) :
    ∃ t ∈ ts, t.rest = .ret (.retrieve (.ok resp)) := by
  induction inStream generalizing n sent ts tr with
  | nil => exact absurd hsent id
  | cons item inStream ih =>
    cases item with
    | error status => exact absurd hsent id
    | ok msg =>
      obtain ⟨answer, tr₁, tr₂, rfl, hanswer, hcase⟩ := hsent
      have hmapped : (Rpc.program R serde (.retrieve msg)).Steps tr₁ (.ret (.retrieve answer)) :=
        hanswer.map
      have hsteps : ∀ t ∈ ts, (Rpc.program R serde t.request).Steps t.trace t.rest := fun t ht =>
        Pool.run_steps (S := (R.api serde).system) (Store.new whitelist) requests t (hts t ht)
      rw [script] at h
      generalize htr : tr₁ ++ tr₂ = tr at h
      cases h with
      | @running _ _ _ p hp =>
        subst htr
        exact absurd (hmapped.eq_ret_of_append (hsteps _ List.mem_cons_self)).2 (hp _)
      | @returned _ _ out tr₁' tr₂' ts _ hnext =>
        obtain ⟨rfl, rfl⟩ := hmapped.eq_of_append (hsteps _ List.mem_cons_self) htr
        have hlater : ∀ t ∈ ts, t ∈ ((R.api serde).after whitelist requests).threads :=
          fun t ht => hts t (List.mem_cons_of_mem _ ht)
        rcases hcase with ⟨-, rfl⟩ | ⟨hgoes, hsent⟩
        · exact ⟨_, List.mem_cons_self, rfl⟩
        · have hrest : ∃ t ∈ ts, t.rest = .ret (.retrieve (.ok resp)) := by
            cases answer with
            | error status => exact ih hnext hlater hsent
            | ok response =>
              have hsend : sends n = true := hgoes.resolve_right fun h => by cases h
              simp only [if_pos hsend] at hnext
              exact ih hnext hlater hsent
          obtain ⟨t, ht, hret⟩ := hrest
          exact ⟨t, List.mem_cons_of_mem _ ht, hret⟩

end RetrieverService

namespace Relay

variable {R : Relay} {serde : Serde} {json : EventJson} {whitelist : List BlsPublicKey}
  {schedule : List (Action Session UInt64)} {requests : List (Action Rpc.Request UInt64)}
  {owners : List Nat} {u : Thread StoreOp StoreOp.Ans Session SessionResult}

/-- A handler that has ended has sent what it returned: `HasSent` leaves nothing out. -/
theorem hasSent_of_returned (hu : u ∈ (R.processAfter serde json whitelist schedule).threads)
    {inStream : List (Except Status Proto.RetrieveRequest)} {sends : Nat → Bool}
    (hrequest : u.request = .retrieve inStream sends)
    {sent : List (Except Status Proto.RetrieveResponse)}
    (hrest : u.rest = .ret (.retrieve sent)) {resp : Proto.RetrieveResponse}
    (hresp : .ok resp ∈ sent) :
    RetrieverService.HasSent R serde sends 0 inStream u.trace resp := by
  have hsteps := Pool.run_steps (S := R.process serde json) (Store.new whitelist) schedule u hu
  rw [hrequest, hrest] at hsteps
  obtain ⟨sent', hended, hsame⟩ := Prog.Steps.of_map hsteps
  cases hsame
  exact (RetrieverService.hasSent_of_ended hended resp hresp).resolve_left List.not_mem_nil

/-- Each response that a `Retrieve` stream has sent is the output of a request. -/
theorem exists_retrieve
    (hmade : Pool.MadeOf (R.api serde).system (sessionScript json) owners
      (R.processAfter serde json whitelist schedule) ((R.api serde).after whitelist requests))
    (hu : u ∈ (R.processAfter serde json whitelist schedule).threads)
    {inStream : List (Except Status Proto.RetrieveRequest)} {sends : Nat → Bool}
    (hrequest : u.request = .retrieve inStream sends) {resp : Proto.RetrieveResponse}
    (hsent : RetrieverService.HasSent R serde sends 0 inStream u.trace resp) :
    ∃ t ∈ ((R.api serde).after whitelist requests).threads,
      t.rest = .ret (.retrieve (.ok resp)) := by
  obtain ⟨j, hj⟩ := List.getElem?_of_mem hu
  have hsession := hmade.made j u hj
  rw [hrequest] at hsession
  obtain ⟨rest, hscript, -⟩ := hsession.of_map
  obtain ⟨t, ht, hret⟩ :=
    RetrieverService.exists_of_hasSent hscript (fun t ht => mem_of_mem_owned ht) hsent
  exact ⟨t, mem_of_mem_owned ht, hret⟩

/-- What a `SubmitBlindedBlock` has returned is the output of its request. -/
theorem exists_submitBlindedBlock
    (hmade : Pool.MadeOf (R.api serde).system (sessionScript json) owners
      (R.processAfter serde json whitelist schedule) ((R.api serde).after whitelist requests))
    (hu : u ∈ (R.processAfter serde json whitelist schedule).threads)
    {req : Proto.SubmitBlindedBlockRequest} (hrequest : u.request = .submitBlindedBlock req)
    {result : Except Status Proto.BlindedBlockResponse}
    (hrest : u.rest = .ret (.submitBlindedBlock result)) :
    ∃ t ∈ ((R.api serde).after whitelist requests).threads,
      t.request = .submitBlindedBlock req ∧ t.rest = .ret (.submitBlindedBlock result) := by
  obtain ⟨j, hj⟩ := List.getElem?_of_mem hu
  have hsession := hmade.made j u hj
  rw [hrequest, hrest] at hsession
  obtain ⟨answer, tr₁, tr₂, ts, howned, hnext⟩ := hsession.returned_of_call
  have hmem : (⟨.submitBlindedBlock req, tr₁, .ret answer⟩ : RpcThread) ∈
      owned owners ((R.api serde).after whitelist requests).threads j := by
    rw [howned]
    exact List.mem_cons_self
  cases answer with
  | submitBlindedBlock result' =>
    cases hnext
    exact ⟨_, mem_of_mem_owned hmem, rfl, rfl⟩
  | _ => cases hnext

end Relay

namespace Sample

/-- Three bids of one builder. -/
def threeBids : List (Except Status Proto.BidRequest) :=
  [.ok (bidMessage 2 1 1), .ok (bidMessage 2 2 2), .ok (bidMessage 2 1 3)]

/-- The proposer registers, the service polls, and a builder sends three bids, but goes away before the
second answer. -/
def goneBuilder : List (Action Session UInt64) :=
  [.arrive (.registerValidator registerMessage)] ++ List.replicate 3 (.step 0) ++
    [.arrive (.relayService offline 2)] ++ List.replicate 12 (.step 1) ++
    [.arrive (.bid threeBids fun n => n < 1)] ++ List.replicate 24 (.step 2)

end Sample

open SseByteStream in
/-- The second bid of the builder that has gone away still counts, the third is not looked at. -/
theorem Relay.session_bids_in_turn_gone :
    ∃ u ∈ (Sample.relay.processAfter Sample.serde sampleJson Sample.whitelist
        Sample.goneBuilder).threads,
      biddings u.trace = [Sample.bid 2 1 1, Sample.bid 2 2 2] ∧
      (biddings u.trace).Sublist (((BidderService.received Sample.threeBids).take 2).filterMap
        (BidderService.converted Sample.relay)) := by
  have hsome : ((Sample.relay.processAfter Sample.serde sampleJson Sample.whitelist
      Sample.goneBuilder).threads[2]?).any (fun u => decide (biddings u.trace =
        [Sample.bid 2 1 1, Sample.bid 2 2 2])) = true := by
    decide +kernel
  obtain ⟨u, hget, hbids⟩ := (Option.any_eq_true _ _).mp hsome
  have hrequests := Pool.requests_run (S := Sample.relay.process Sample.serde sampleJson)
    (p := Pool.idle (Store.new Sample.whitelist)) Sample.goneBuilder
  have hrequest : some u.request = some (.bid Sample.threeBids fun n => n < 1) := by
    rw [← Option.map_some, ← hget, ← List.getElem?_map]
    exact congrArg (·[2]?) hrequests
  have hu := List.mem_of_getElem? hget
  exact ⟨u, hu, of_decide_eq_true hbids,
    (session_bids_in_turn Sample.relay Sample.serde sampleJson Sample.whitelist Sample.goneBuilder u
      hu Sample.threeBids _ (Option.some.inj hrequest)).2 1
      (fun n hn => decide_eq_false (Nat.not_lt.mpr hn))⟩

end MevRelay
