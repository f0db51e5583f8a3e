import MevRelay.SseLoop

/-!
# The loop around the event stream

`RelayService::run` subscribes to the beacon node's events, and is written to subscribe again when
the stream ends and to fall back to polling when it fails. But `connect_sse` has no way to return
`Ok`: an ended stream is an error too. So there is one subscription, and after it polling for good
(`run_eq`).

The service does not end, so it is followed for a number of rounds; `none` is what a program returns
that is still running when they are used up.
-/

namespace MevRelay

namespace RelayService

open Atomic Text

variable (R : Relay) (json : EventJson)

/-! ## One connection, whatever its bytes are -/

/-- The text of the chunks before the first error, each decoded on its own. -/
def textOf : List (Except String (List UInt8)) → List Char
  | [] => []
  | .ok bytes :: rest => fromUtf8Lossy bytes ++ textOf rest
  | .error _ :: _ => []

/-- How reading the chunks ends. -/
def endOf : List (Except String (List UInt8)) → String
  | [] => "SSE stream ended"
  | .ok _ :: rest => endOf rest
  | .error e :: _ => e

/-- Without a complete line there is nothing to take off. -/
theorem SseState.drained_of_not_mem {s : SseState} (hs : '\n' ∉ s.lineBuf) :
    (s.push []).events json = [] ∧ (s.push []).drained json = s := by
  have hnone := terminatedLines_of_not_mem hs
  simp [push, events, drained, hnone.1, hnone.2, foldLines]

/-- The outer loop hands over the events of the complete lines of the text. -/
theorem readChunks_eq (beacons : Nat → Beacon) (chunks : List (Except String (List UInt8)))
    {s : SseState} (hs : '\n' ∉ s.lineBuf) :
    readChunks R json beacons s chunks = (do
      handOver R beacons s.handled.length ((s.push (textOf chunks)).events json)
      return (endOf chunks, (s.push (textOf chunks)).drained json)) := by
  induction chunks generalizing s with
  | nil =>
    rw [textOf, (SseState.drained_of_not_mem json hs).1, (SseState.drained_of_not_mem json hs).2]
    rfl
  | cons chunk chunks ih =>
    cases chunk with
    | error e =>
      rw [textOf, (SseState.drained_of_not_mem json hs).1, (SseState.drained_of_not_mem json hs).2]
      rfl
    | ok bytes =>
      have hdrained : '\n' ∉ ((s.push (fromUtf8Lossy bytes)).drained json).lineBuf :=
        newline_not_mem_unterminatedLine _
      have hhandled : ((s.push (fromUtf8Lossy bytes)).drained json).handled.length =
          s.handled.length + ((s.push (fromUtf8Lossy bytes)).events json).length :=
        List.length_append
      have hpush : s.push (textOf (.ok bytes :: chunks)) =
          (s.push (fromUtf8Lossy bytes)).push (textOf chunks) := by
        simp [SseState.push, textOf]
      rw [hpush, (s.push (fromUtf8Lossy bytes)).events_push,
        (s.push (fromUtf8Lossy bytes)).drained_push, handOver_append, readChunks, ← SseState.push,
        drainLines_eq]
      simp only [bind_assoc, pure_bind, ih hdrained, hhandled]
      rfl

/-- The events of a connection: none if the subscription fails. -/
def connectionEvents (response : Except String (List (Except String (List UInt8)))) :
    List BeaconEvent :=
  match response with
  | .ok byteStream => (foldLines json none (terminatedLines (textOf byteStream))).1
  | .error _ => []

/-- Why a connection ends. -/
def connectionError (response : Except String (List (Except String (List UInt8)))) : String :=
  match response with
  | .ok byteStream => endOf byteStream
  | .error e => e

/-- **A connection hands over its events and ends in an error**, however it ends. -/
theorem connectSse_eq (beacons : Nat → Beacon)
    (response : Except String (List (Except String (List UInt8)))) :
    connectSse R json beacons response = (do
      handOver R beacons 0 (connectionEvents json response)
      return .error (connectionError response)) := by
  cases response with
  | error e => rfl
  | ok byteStream =>
    have hinitial : '\n' ∉ SseState.initial.lineBuf := List.not_mem_nil
    simp only [connectSse, readChunks_eq R json beacons byteStream hinitial, bind_assoc, pure_bind]
    rfl

/-! ## The service -/

/-- What the outside gives to the service: what the n-th subscription returns, the duties that the
node answers with while an event of it is handled, and the polls made after it has failed. -/
structure World where
  connections : Nat → Except String (List (Except String (List UInt8)))
  duties : Nat → Nat → Beacon
  polls : Nat → Nat → Except String UInt64 × Beacon

/-- `RelayService::polling_loop`, from tick `n` on. -/
def pollingLoop (polls : Nat → Except String UInt64 × Beacon) (n : Nat) :
    Nat → StoreProg (Option Unit)
  | 0 => return none
  | rounds + 1 => do
    pollingTick R (polls n).2 (polls n).1
    pollingLoop polls (n + 1) rounds

/-- `RelayService::run`, from subscription `n` on. -/
def run (world : World) (n : Nat) : Nat → StoreProg (Option Unit)
  | 0 => return none
  | rounds + 1 => do
    match ← connectSse R json (world.duties n) (world.connections n) with
    | .ok () => run world (n + 1) rounds
    | .error _ =>
      match ← pollingLoop R (world.polls n) 0 rounds with
      | none => return none
      | some () => run world (n + 1) rounds

/-- Poll, one tick after the other; `n` is the first. -/
def pollAll (polls : Nat → Except String UInt64 × Beacon) (n : Nat) : Nat → StoreProg Unit
  | 0 => return ()
  | rounds + 1 => do
    pollingTick R (polls n).2 (polls n).1
    pollAll polls (n + 1) rounds

/-- The polling loop has no exit. -/
theorem pollingLoop_eq (polls : Nat → Except String UInt64 × Beacon) (n rounds : Nat) :
    pollingLoop R polls n rounds = (do
      pollAll R polls n rounds
      return none) := by
  induction rounds generalizing n with
  | zero => rfl
  | succ rounds ih => simp only [pollingLoop, pollAll, ih, bind_assoc]

/-- **The fallback is final.** The service handles the events of its first subscription and then
polls. It never subscribes again, and it never returns. -/
theorem run_eq (world : World) (rounds : Nat) :
    run R json world 0 (rounds + 1) = (do
      handOver R (world.duties 0) 0 (connectionEvents json (world.connections 0))
      pollAll R (world.polls 0) 0 rounds
      return none) := by
  simp only [run, connectSse_eq, pollingLoop_eq, bind_assoc, pure_bind]

end RelayService

end MevRelay
