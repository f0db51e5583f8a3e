import MevRelay.Gateway.Api
import MevRelay.Mailbox

/-!
# The beacon service

Tasks reach the beacon node through a `BeaconHandle`: each of its methods sends a command to the one
`BeaconService` and awaits, first the reply, then the future in it. The service makes no request
itself; a reply is a future that asks the node when its caller awaits it.

The service is the instance of `Mailbox` for the five commands. `handle_calls_answered` is its safety:
however calls, polls, cancellations and the end of the service overlap, a call returns what the node
answered to the one request made for it, and this request is its own. `handle_calls_served` is its
liveness.
-/

namespace MevRelay

/-- `SyncStatus` of the beacon node. -/
structure SyncStatus where
  headSlot : UInt64
  isSyncing : Bool

structure KnownValidator where
  index : UInt64
  balance : UInt64
  status : String

inductive SubmissionType where
  | json
  | ssz

structure BeaconBlockBody where
  executionPayload : ExecutionPayload
  blobs : List (List UInt8)

structure SignedBeaconBlockContent where
  slot : UInt64
  proposerIndex : UInt64
  parentRoot : B256
  stateRoot : B256
  body : BeaconBlockBody

/-- A method of the `BeaconApi` trait with its arguments. `BeaconHandle` has the same methods. -/
inductive BeaconApi where
  | syncStatus
  | proposerDuties (epoch : UInt64)
  | getForkData
  | getKnownValidator (pubkey : BlsPublicKey)
  | publishBlock (block : SignedBeaconBlockContent) (submissionType : SubmissionType)

/-- What a method returns if it succeeds. -/
def BeaconApi.Output : BeaconApi → Type
  | .syncStatus => SyncStatus
  | .proposerDuties _ => List ProposerDuty
  | .getForkData => ForkDatas
  | .getKnownValidator _ => KnownValidator
  | .publishBlock _ _ => B256

abbrev BeaconApi.Result (method : BeaconApi) : Type := Except BeaconError method.Output

/-- A command, without the sender of its one-shot channel. -/
inductive BeaconCommands where
  | syncStatus
  | forkData
  | proposerDuties (epoch : UInt64)
  | knownValidator (pubkey : BlsPublicKey)
  | publishBlock (block : SignedBeaconBlockContent) (submissionType : SubmissionType)

/-- The command that a method of `BeaconHandle` sends. -/
def BeaconHandle.command : BeaconApi → BeaconCommands
  | .syncStatus => .syncStatus
  | .getForkData => .forkData
  | .getKnownValidator pubkey => .knownValidator pubkey
  | .proposerDuties epoch => .proposerDuties epoch
  | .publishBlock block submissionType => .publishBlock block submissionType

/-- The future that `BeaconService::poll` replies to a command with, as the request it will make. -/
def BeaconService.future : BeaconCommands → BeaconApi
  | .syncStatus => .syncStatus
  | .forkData => .getForkData
  | .proposerDuties epoch => .proposerDuties epoch
  | .knownValidator pubkey => .getKnownValidator pubkey
  | .publishBlock block submissionType => .publishBlock block submissionType

/-- The channels and the service. Both errors of a closed channel, `SendError` and `RecvError`, have
the same text. -/
def beaconService : Mailbox.Service BeaconApi BeaconCommands BeaconApi BeaconError where
  command := BeaconHandle.command
  future := BeaconService.future
  closed := .channel "channel closed"

theorem future_command (method : BeaconApi) :
    BeaconService.future (BeaconHandle.command method) = method := by
  cases method <;> rfl

namespace BeaconHandle

/-- Calls to the handle, the service, and the node outside. -/
abbrev State := Mailbox.State BeaconCommands BeaconApi BeaconApi.Result BeaconError

abbrev Action := Mailbox.Action BeaconApi BeaconApi.Result

/-- What is left of a run of the calls `calls 0`, `calls 1`, ... -/
def after (calls : Nat → BeaconApi) (as : List Action) : State :=
  (Mailbox.State.initial : State).run beaconService calls as

/-- **No call is mixed up, repeated or answered out of thin air.** Whatever is called, and however the
calls, the polls of the service, cancellations and its end overlap: a call that has returned has made
one request to the node, for its own method with its own arguments, and returns the answer to it; a
call that has failed has made none, and the service is gone; and any other call has made at most that
one request, and none before it got its future. -/
theorem handle_calls_answered (calls : Nat → BeaconApi) (as : List Action) (i : Nat) :
    match (after calls as).phase i with
    | .returned request answer => request = calls i ∧
      (after calls as).journalOf i = [.asked request, .answered request answer]
    | .failed e => e = .channel "channel closed" ∧ (after calls as).alive = false ∧
      (after calls as).journalOf i = []
    | .asking request => request = calls i ∧ (after calls as).journalOf i = [.asked request]
    | .handed request => request = calls i ∧ (after calls as).journalOf i = []
    | .cancelled => (after calls as).journalOf i = [] ∨
      (after calls as).journalOf i = [.asked (calls i)]
    | .waiting => (after calls as).journalOf i = [] ∧
      i ∈ (after calls as).channel.map Prod.fst ∧ (after calls as).alive = true
    | .idle => (after calls as).journalOf i = [] := by
  have hinv : Mailbox.Invariant beaconService calls (after calls as) :=
    Mailbox.invariant_run beaconService calls as
  have hhonest := hinv.honest i
  have hown : beaconService.future (beaconService.command (calls i)) = calls i :=
    future_command (calls i)
  unfold Mailbox.Honest at hhonest
  rw [hown] at hhonest
  cases hphase : (after calls as).phase i with
  | waiting =>
    rw [hphase] at hhonest
    have hqueued := hinv.queued i hphase
    refine ⟨hhonest, hqueued, ?_⟩
    cases halive : (after calls as).alive with
    | true => rfl
    | false =>
      rw [hinv.closed halive] at hqueued
      cases hqueued
  | _ =>
    rw [hphase] at hhonest
    exact hhonest

/-- **Every call is served in its turn.** A call whose command stands behind `n` others in the channel
has the future of its own method once the service has been polled for more than `n` commands, whatever
other tasks do, unless it is cancelled or the service ends. -/
theorem handle_calls_served (calls : Nat → BeaconApi) (as later : List Action) (i : Nat)
    (before after' : List Nat) (hwait : (after calls as).phase i = .waiting)
    (hchannel : (after calls as).channel.map Prod.fst = before ++ i :: after')
    (hlater : ∀ a ∈ later, a ≠ .cancel i ∧ a ≠ .shutDown)
    (hbudget : before.length < (later.map Mailbox.Action.budget).sum) :
    Mailbox.Handed (calls i) ((after calls (as ++ later)).phase i) := by
  have hrun : after calls (as ++ later) = (after calls as).run beaconService calls later :=
    List.foldl_append
  have hhanded := Mailbox.settled_of_polls (Mailbox.invariant_run beaconService calls as) hwait
    hchannel later hlater hbudget
  rw [hrun, ← future_command (calls i)]
  exact hhanded

/-- Two tasks ask for duties, and a third one comes in between two polls: the second task has its
future after the second poll. -/
theorem handle_calls_served_second :
    Mailbox.Handed (.proposerDuties 1)
      ((after (fun n => .proposerDuties (UInt64.ofNat n))
        ([.send 0, .send 1] ++ [.poll 1, .send 2, .poll 1])).phase 1) :=
  handle_calls_served (fun n => .proposerDuties (UInt64.ofNat n)) [.send 0, .send 1]
    [.poll 1, .send 2, .poll 1] 1 [0] [] rfl rfl (by simp) (by decide)

end BeaconHandle

end MevRelay
