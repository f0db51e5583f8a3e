import MevRelay.Gateway.Merge

/-!
# The events client

`BeaconEventsClient` subscribes to payload attributes, then to heads, each time until the node takes
the subscription, and merges the two streams. Each of them is an `SseByteStream`, which never finds
the end of a frame. So what it is for does not happen: whatever the node sends, the merged stream has
nothing to give until it ends, and all that was sent stays in the two buffers
(`client_delivers_nothing`).
-/

namespace MevRelay

namespace SseByteStream

variable (json : EventJson)

/-! ## A byte stream as an event stream -/

def afterPolls (s : SseByteStream) : Nat → SseByteStream
  | 0 => s
  | n + 1 => (pollNext json (s.afterPolls n)).2

/-- `Box::pin` of the stream. -/
def boxed (s : SseByteStream) : EventStream := ⟨fun n => (pollNext json (s.afterPolls json n)).1, 0⟩

/-- The polls of the inner stream at which the loop of `poll_next` returns: those that give no chunk. An
error is told, a `none` stands for `Pending`. -/
def stops : List InnerPoll → List (Option BeaconError)
  | [] => []
  | .pending :: rest => none :: stops rest
  | .failed e :: rest => some e :: stops rest
  | .chunk _ :: rest => stops rest

/-- What `poll_next` returns there, or at the end of the inner stream. -/
def outputAt : Option (Option BeaconError) → Poll (Option EventItem)
  | some none => .pending
  | some (some e) => .ready (some (.error e))
  | none => .ready none

/-- A poll reads up to the next stop and keeps what it has read. -/
theorem pollNext_eq (stream : List InnerPoll) (buffer : List UInt8) :
    ∃ consumed rest, stream = consumed ++ rest ∧ stops rest = (stops stream).tail ∧
      pollNext json ⟨stream, buffer, []⟩ =
        (outputAt (stops stream).head?, ⟨rest, buffer ++ consumed.flatMap chunkBytes, []⟩) := by
  induction stream generalizing buffer with
  | nil => exact ⟨[], [], rfl, rfl, by rw [List.flatMap_nil, List.append_nil]; rfl⟩
  | cons p stream ih =>
    cases p with
    | pending => exact ⟨[.pending], stream, rfl, rfl, by simp [chunkBytes]; rfl⟩
    | failed e => exact ⟨[.failed e], stream, rfl, rfl, by simp [chunkBytes]; rfl⟩
    | chunk data =>
      obtain ⟨consumed, rest, hstream, hstops, hpoll⟩ := ih (buffer ++ data)
      refine ⟨.chunk data :: consumed, rest, congrArg (_ :: ·) hstream, hstops, ?_⟩
      rw [pollNext_chunk, hpoll, List.flatMap_cons, List.append_assoc]
      rfl

/-- After any number of polls: all bytes read so far are in the buffer, and nothing is pending. -/
theorem afterPolls_eq (stream : List InnerPoll) (n : Nat) :
    ∃ consumed rest, stream = consumed ++ rest ∧ stops rest = (stops stream).drop n ∧
      (new stream).afterPolls json n = ⟨rest, consumed.flatMap chunkBytes, []⟩ := by
  induction n with
  | zero => exact ⟨[], stream, rfl, rfl, rfl⟩
  | succ n ih =>
    obtain ⟨consumed, rest, rfl, hstops, hafter⟩ := ih
    obtain ⟨consumed', rest', rfl, hstops', hpoll⟩ :=
      pollNext_eq json rest (consumed.flatMap chunkBytes)
    refine ⟨consumed ++ consumed', rest', (List.append_assoc _ _ _).symm, ?_, ?_⟩
    · rw [hstops', hstops, List.tail_drop]
    · show (pollNext json ((new _).afterPolls json n)).2 = _
      rw [hafter, hpoll, List.flatMap_append]

theorem boxed_script (stream : List InnerPoll) (n : Nat) :
    ((new stream).boxed json).script n = outputAt (stops stream)[n]? := by
  obtain ⟨consumed, rest, hstream, hstops, hafter⟩ := afterPolls_eq json stream n
  obtain ⟨_, _, -, -, hpoll⟩ := pollNext_eq json rest (consumed.flatMap chunkBytes)
  show (pollNext json ((new stream).afterPolls json n)).1 = _
  rw [hafter, hpoll, hstops, List.head?_drop]

/-- It has no event to give, whenever it is polled. -/
theorem not_gives (stream : List InnerPoll) (n : Nat) (event : BeaconEvent) :
    ¬ EventStream.Gives ⟨((new stream).boxed json).script, n⟩ event := by
  intro hgives
  have hscript : ((new stream).boxed json).script n = .ready (some (.ok event)) := hgives
  rw [boxed_script] at hscript
  cases hstop : (stops stream)[n]? with
  | none =>
    rw [hstop] at hscript
    cases hscript
  | some stop =>
    rw [hstop] at hscript
    cases stop <;> cases hscript

theorem fails_iff (stream : List InnerPoll) (n : Nat) :
    EventStream.Fails ⟨((new stream).boxed json).script, n⟩ ↔
      ∃ e, (stops stream)[n]? = some (some e) := by
  show (∃ e, ((new stream).boxed json).script n = .ready (some (.error e))) ↔ _
  rw [boxed_script]
  rcases (stops stream)[n]? with _ | _ | e <;> simp [outputAt]

theorem waits_iff (stream : List InnerPoll) (n : Nat) :
    EventStream.Waits ⟨((new stream).boxed json).script, n⟩ ↔ (stops stream)[n]? = some none := by
  show ((new stream).boxed json).script n = .pending ↔ _
  rw [boxed_script]
  rcases (stops stream)[n]? with _ | _ | e <;> simp [outputAt]

/-! ## Merged with another one -/

/-- The two streams, of which nothing has been polled. -/
def merged (pa head : List InnerPoll) : BeaconEventsStream :=
  ⟨(new pa).boxed json, (new head).boxed json⟩

/-- The merged stream when both have been polled `n` times. -/
def mergedAt (pa head : List InnerPoll) (n : Nat) : BeaconEventsStream :=
  ⟨⟨((new pa).boxed json).script, n⟩, ⟨((new head).boxed json).script, n⟩⟩

/-- How often the merged stream waits before it ends: until the first stream fails or the second one has
something else to tell than that it waits. -/
def waitsBeforeEnd (pa : List (Option BeaconError)) : List (Option BeaconError) → Nat
  | none :: head =>
    match pa with
    | some _ :: _ => 0
    | _ => waitsBeforeEnd pa.tail head + 1
  | _ => 0

theorem waitsBeforeEnd_le (pa head : List (Option BeaconError)) :
    waitsBeforeEnd pa head ≤ head.length := by
  induction head generalizing pa with
  | nil => exact Nat.le_refl 0
  | cons stop head ih =>
    cases stop with
    | some e => exact Nat.zero_le _
    | none =>
      have hle := ih pa.tail
      unfold waitsBeforeEnd
      split
      · exact Nat.zero_le _
      · exact Nat.succ_le_succ hle

section Merged

variable {json} {pa head : List InnerPoll} {n : Nat}

theorem output_item (pa head : List InnerPoll) (n : Nat) :
    ((merged json pa head).output n).item? = none := by
  obtain ⟨m, -, hstate⟩ := BeaconEventsStream.after_ofScripts ((new pa).boxed json).script
    ((new head).boxed json).script n
  have hstep := (merged json pa head).step_after n
  have hafter : (merged json pa head).after n = _ := hstate
  rw [hafter] at hstep
  generalize (merged json pa head).output n = out at hstep ⊢
  generalize (merged json pa head).after (n + 1) = s' at hstep
  cases hstep with
  | attributes gives => exact absurd gives (not_gives json pa n _)
  | head idle gives => exact absurd gives (not_gives json head m _)
  | attributesFailed fails => rfl
  | headClosed idle closed => rfl
  | bothIdle idle waits => rfl

/-- Nothing has happened: both are asked, and asked again. -/
theorem output_of_open (hafter : (merged json pa head).after n = mergedAt json pa head n)
    (hpa : ∀ e, (stops pa)[n]? ≠ some (some e)) (hhead : (stops head)[n]? = some none) :
    (merged json pa head).output n = .pending ∧
      (merged json pa head).after (n + 1) = mergedAt json pa head (n + 1) := by
  have hstep := (merged json pa head).step_after n
  have hwaits := (waits_iff json head n).mpr hhead
  rw [hafter] at hstep
  generalize (merged json pa head).output n = out at hstep ⊢
  generalize (merged json pa head).after (n + 1) = s' at hstep ⊢
  cases hstep with
  | attributes gives => exact absurd gives (not_gives json pa n _)
  | head idle gives => exact absurd gives (not_gives json head n _)
  | attributesFailed fails =>
    obtain ⟨e, he⟩ := (fails_iff json pa n).mp fails
    exact absurd he (hpa e)
  | headClosed idle closed => exact absurd closed (EventStream.not_closed_of_waits hwaits)
  | bothIdle idle waits => exact ⟨rfl, rfl⟩

theorem output_of_closed (hafter : (merged json pa head).after n = mergedAt json pa head n)
    (h : (∃ e, (stops pa)[n]? = some (some e)) ∨ (stops head)[n]? ≠ some none) :
    (merged json pa head).output n = .ready none := by
  apply ((merged json pa head).step_after n).stops_iff.mpr
  rw [hafter]
  by_cases hfails : ∃ e, (stops pa)[n]? = some (some e)
  · exact .inl ((fails_iff json pa n).mpr hfails)
  · have hclosed := h.resolve_left hfails
    refine .inr ⟨?_, ?_⟩
    · rcases EventStream.poll_cases ⟨((new pa).boxed json).script, n⟩ with
        ⟨event, hgives⟩ | hf | hends | hwaits
      · exact absurd hgives (not_gives json pa n event)
      · exact absurd ((fails_iff json pa n).mp hf) hfails
      · exact .inr hends
      · exact .inl hwaits
    · rcases EventStream.poll_cases ⟨((new head).boxed json).script, n⟩ with
        ⟨event, hgives⟩ | hf | hends | hwaits
      · exact absurd hgives (not_gives json head n event)
      · exact .inl hf
      · exact .inr hends
      · exact absurd ((waits_iff json head n).mp hwaits) hclosed

/-- From a state in which both have been polled `n` times. -/
theorem ends_from (hafter : (merged json pa head).after n = mergedAt json pa head n)
    {back : List (Option BeaconError)} (hback : (stops head).drop n = back) :
    (∀ k < waitsBeforeEnd ((stops pa).drop n) back,
      (merged json pa head).output (n + k) = .pending) ∧
      (merged json pa head).output (n + waitsBeforeEnd ((stops pa).drop n) back) =
        .ready none := by
  induction back generalizing n with
  | nil =>
    have hhead : (stops head)[n]? ≠ some none := by
      rw [← List.head?_drop, hback]
      simp
    exact ⟨fun k hk => absurd hk (Nat.not_lt_zero k), output_of_closed hafter (.inr hhead)⟩
  | cons stop back ih =>
    have hhead : (stops head)[n]? = some stop := by
      rw [← List.head?_drop, hback]
      rfl
    cases stop with
    | some e =>
      have hclosed : (stops head)[n]? ≠ some none := by simp [hhead]
      exact ⟨fun k hk => absurd hk (Nat.not_lt_zero k), output_of_closed hafter (.inr hclosed)⟩
    | none =>
      unfold waitsBeforeEnd
      split
      · next e rest hpa =>
        have hfails : (stops pa)[n]? = some (some e) := by
          rw [← List.head?_drop, hpa]
          rfl
        exact ⟨fun k hk => absurd hk (Nat.not_lt_zero k),
          output_of_closed hafter (.inl ⟨e, hfails⟩)⟩
      · next hpa =>
        have hopen : ∀ e, (stops pa)[n]? ≠ some (some e) := by
          intro e he
          rw [← List.head?_drop] at he
          obtain ⟨rest, hrest⟩ := List.head?_eq_some_iff.mp he
          exact hpa e rest hrest
        obtain ⟨hpending, hnext⟩ := output_of_open hafter hopen hhead
        have hback' : (stops head).drop (n + 1) = back := by
          rw [← List.tail_drop, hback]
          rfl
        obtain ⟨hwaits, hends⟩ := ih hnext hback'
        rw [List.tail_drop]
        refine ⟨fun k hk => ?_, ?_⟩
        · cases k with
          | zero => exact hpending
          | succ k =>
            rw [show n + (k + 1) = n + 1 + k by omega]
            exact hwaits k (Nat.lt_of_succ_lt_succ hk)
        · rw [← Nat.add_assoc, Nat.add_right_comm]
          exact hends

end Merged

/-- What the merged stream does: it waits, and ends. Every byte that has been read is in a buffer, and no
event is pending. -/
structure Silent (pa head : List InnerPoll) (s : BeaconEventsStream) : Prop where
  no_item : ∀ n, (s.output n).item? = none
  waits : ∀ n < waitsBeforeEnd (stops pa) (stops head), s.output n = .pending
  ends : s.output (waitsBeforeEnd (stops pa) (stops head)) = .ready none
  in_time : waitsBeforeEnd (stops pa) (stops head) ≤ (stops head).length
  buffered : ∀ bytesStream ∈ [pa, head], ∀ n, ∃ consumed rest, bytesStream = consumed ++ rest ∧
    (new bytesStream).afterPolls json n = ⟨rest, consumed.flatMap chunkBytes, []⟩

theorem merged_silent (pa head : List InnerPoll) :
    Silent json pa head (merged json pa head) := by
  obtain ⟨hwaits, hends⟩ := @ends_from json pa head 0 rfl _ (List.drop_zero)
  rw [Nat.zero_add] at hends
  refine ⟨output_item pa head, fun n hn => ?_, hends, waitsBeforeEnd_le _ _, ?_⟩
  · have hpending := hwaits n hn
    rw [Nat.zero_add] at hpending
    exact hpending
  · intro bytesStream _ n
    obtain ⟨consumed, rest, hstream, -, hafter⟩ := afterPolls_eq json bytesStream n
    exact ⟨consumed, rest, hstream, hafter⟩

end SseByteStream

/-! ## Subscribing -/

/-- What becomes of a request for events: it cannot be sent, is not successful (with its text, if that
can be read), or is answered with a body. -/
inductive SubscribeAnswer where
  | failed (e : String)
  | unsuccessful (status : UInt16) (text : Except String String)
  | ok (bytesStream : List InnerPoll)

/-- The node, request by request: its answer depends on what it is asked for. -/
abbrev EventsNode := List (String → SubscribeAnswer)

structure BeaconEventsClient where
  url : String

namespace BeaconEventsClient

open SseByteStream

variable (json : EventJson) (client : BeaconEventsClient)

def eventsUrl (topics : List String) : String :=
  client.url ++ "eth/v1/events?topics=" ++ ",".intercalate topics

/-- `BeaconEventsClient::subscribe_once`. -/
def subscribeOnce (topics : List String) (answer : String → SubscribeAnswer) :
    Except BeaconError SseByteStream :=
  match answer (client.eventsUrl topics) with
  | .failed e => .error (.http e)
  | .unsuccessful status (.ok body) => .error (.api status body)
  | .unsuccessful status (.error _) => .error (.api status "")
  | .ok byteStream => .ok (SseByteStream.new byteStream)

/-- `BeaconEventsClient::subscribe_with_retry`; `none` while it is still trying. -/
def subscribeWithRetry (topics : List String) : EventsNode → Option (SseByteStream × EventsNode)
  | [] => none
  | answer :: later =>
    match client.subscribeOnce topics answer with
    | .ok s => some (s, later)
    | .error _ => subscribeWithRetry topics later

def newHead (node : EventsNode) : Option (EventStream × EventsNode) := do
  let (s, later) ← client.subscribeWithRetry ["head"] node
  return (s.boxed json, later)

def payloadAttributes (node : EventsNode) : Option (EventStream × EventsNode) := do
  let (s, later) ← client.subscribeWithRetry ["payload_attributes"] node
  return (s.boxed json, later)

/-- `BeaconEventsClient::stream`. -/
def stream (node : EventsNode) : Option (BeaconEventsStream × EventsNode) := do
  let (pa, later) ← client.payloadAttributes json node
  let (head, later) ← client.newHead json later
  return (⟨pa, head⟩, later)

/-- The first answers to a request for `topics` are refusals, then comes a body. -/
def Takes (topics : List String) (node : EventsNode) (byteStream : List InnerPoll)
    (later : EventsNode) : Prop :=
  ∃ refusals answer, node = refusals ++ answer :: later ∧
    answer (client.eventsUrl topics) = .ok byteStream ∧
    ∀ refusal ∈ refusals, ∀ bytes, refusal (client.eventsUrl topics) ≠ .ok bytes

theorem subscribeOnce_eq_ok_iff {topics : List String} {answer : String → SubscribeAnswer}
    {s : SseByteStream} :
    client.subscribeOnce topics answer = .ok s ↔
      ∃ byteStream, answer (client.eventsUrl topics) = .ok byteStream ∧
        s = SseByteStream.new byteStream := by
  unfold subscribeOnce
  cases answer (client.eventsUrl topics) with
  | failed e => simp
  | unsuccessful status text => cases text <;> simp
  | ok byteStream => simp [eq_comm]

theorem takes_of_subscribeWithRetry {topics : List String} {node later : EventsNode}
    {s : SseByteStream} (h : client.subscribeWithRetry topics node = some (s, later)) :
    ∃ byteStream, s = SseByteStream.new byteStream ∧
      client.Takes topics node byteStream later := by
  induction node with
  | nil => cases h
  | cons answer node ih =>
    rw [subscribeWithRetry] at h
    cases honce : client.subscribeOnce topics answer with
    | ok s' =>
      rw [honce] at h
      cases h
      obtain ⟨byteStream, hanswer, rfl⟩ := (client.subscribeOnce_eq_ok_iff).mp honce
      exact ⟨byteStream, rfl, [], answer, rfl, hanswer, fun _ hmem =>
        absurd hmem List.not_mem_nil⟩
    | error e =>
      rw [honce] at h
      obtain ⟨byteStream, hs, refusals, answer', rfl, hok, hrefused⟩ := ih h
      refine ⟨byteStream, hs, answer :: refusals, answer', rfl, hok, ?_⟩
      refine List.forall_mem_cons.mpr ⟨fun bytes hbytes => ?_, hrefused⟩
      cases honce.symm.trans ((client.subscribeOnce_eq_ok_iff).mpr ⟨bytes, hbytes, rfl⟩)

/-- The client has its stream when the node has taken both subscriptions. -/
theorem stream_eq_some {node later : EventsNode} {s : BeaconEventsStream}
    (h : client.stream json node = some (s, later)) :
    ∃ pa head between, client.Takes ["payload_attributes"] node pa between ∧
      client.Takes ["head"] between head later ∧ s = merged json pa head := by
  unfold stream payloadAttributes newHead at h
  cases hpa : client.subscribeWithRetry ["payload_attributes"] node with
  | none =>
    rw [hpa] at h
    cases h
  | some result =>
    obtain ⟨s₁, between⟩ := result
    rw [hpa] at h
    cases hhead : client.subscribeWithRetry ["head"] between with
    | none =>
      replace h : (client.subscribeWithRetry ["head"] between >>= _) >>= _ = some _ := h
      rw [hhead] at h
      cases h
    | some result =>
      obtain ⟨s₂, later'⟩ := result
      replace h : (client.subscribeWithRetry ["head"] between >>= _) >>= _ = some _ := h
      rw [hhead] at h
      cases h
      obtain ⟨pa, rfl, htakes₁⟩ := client.takes_of_subscribeWithRetry hpa
      obtain ⟨head, rfl, htakes₂⟩ := client.takes_of_subscribeWithRetry hhead
      exact ⟨pa, head, between, htakes₁, htakes₂, rfl⟩

/-- **The client delivers nothing.** Once the node has taken both subscriptions, after any number of
refusals, the merged stream waits until one of them breaks or the heads end, and then ends. No poll
ever gives an event or an error, whatever has been sent and however it was cut; it is all in the
buffers. -/
theorem client_delivers_nothing (json : EventJson) (client : BeaconEventsClient)
    (node later : EventsNode) (s : BeaconEventsStream)
    (h : client.stream json node = some (s, later)) :
    ∃ pa head between, client.Takes ["payload_attributes"] node pa between ∧
      client.Takes ["head"] between head later ∧ Silent json pa head s := by
  obtain ⟨pa, head, between, hpa, hhead, rfl⟩ := client.stream_eq_some json h
  exact ⟨pa, head, between, hpa, hhead, merged_silent json pa head⟩

/-- A node that refuses once, and then sends a head event in one piece. -/
def refusingNode : EventsNode :=
  [fun _ => .unsuccessful 503 (.ok "syncing"), fun _ => .ok [.pending],
    fun _ => .ok [.chunk sampleFrame.bytes, .pending, .pending]]

theorem client_delivers_nothing_refused :
    ∃ s, stream sampleJson ⟨"http://localhost:5052/"⟩ refusingNode = some (s, []) ∧
      ∃ pa head between,
        Takes ⟨"http://localhost:5052/"⟩ ["payload_attributes"] refusingNode pa between ∧
        Takes ⟨"http://localhost:5052/"⟩ ["head"] between head [] ∧ Silent sampleJson pa head s :=
  ⟨_, rfl, client_delivers_nothing sampleJson ⟨"http://localhost:5052/"⟩ refusingNode [] _ rfl⟩

end BeaconEventsClient

end MevRelay
