import MevRelay.Gateway.Api

/-!
# The event stream

`SseByteStream` cuts the bytes of a beacon node's event stream into frames and parses each. It polls
an inner stream of chunks, collects the bytes in a buffer, and takes frames off the front of the
buffer up to a separator.

The separator of two bytes is looked for among the windows of *four* bytes. So it is never found, the
buffer grows until the inner stream ends, and no event comes out (`stream_yields_iff`).

`serde_json` is a parameter: what a text deserialises to, an error by its text.
-/

namespace MevRelay

/-- `serde_json::from_str` at the two event types. -/
structure EventJson where
  headEvent : String → Except String HeadEvent
  payloadAttributesEvent : String → Except String PayloadAttributesEvent

/-! ## Text -/

namespace Text

/-- `char::is_whitespace`: the Unicode property `White_Space`. -/
def isWhitespace (c : Char) : Bool :=
  let n := c.toNat
  (9 ≤ n && n ≤ 13) || n == 0x20 || n == 0x85 || n == 0xa0 || n == 0x1680 ||
    (0x2000 ≤ n && n ≤ 0x200a) || n == 0x2028 || n == 0x2029 || n == 0x202f || n == 0x205f ||
    n == 0x3000

/-- `str::trim`. -/
def trim (text : List Char) : List Char :=
  ((text.dropWhile isWhitespace).reverse.dropWhile isWhitespace).reverse

/-- A line that ended in `\n`, without a `\r` at its end. -/
def dropCarriageReturn (line : List Char) : List Char :=
  if line.getLast? = some '\r' then line.dropLast else line

/-- `str::lines`, where `line` is what has been read of the current line. -/
def linesFrom (line : List Char) : List Char → List (List Char)
  | [] => if line.isEmpty then [] else [line]
  | '\n' :: rest => dropCarriageReturn line :: linesFrom [] rest
  | c :: rest => linesFrom (line ++ [c]) rest

def lines (text : List Char) : List (List Char) := linesFrom [] text

example : lines "a\r\nb\n\nc\r".toList = ["a".toList, "b".toList, [], "c\r".toList] := by decide

end Text

/-! ## Frames -/

namespace SseByteStream

open Text

/-- The two variables of the loop over the lines of a frame. -/
structure Fields where
  eventType : Option (List Char)
  eventData : List Char

/-- One pass of the loop. -/
def Fields.readLine (fields : Fields) (line : List Char) : Fields :=
  match line.dropPrefix? "event: ".toList with
  | some val => { fields with eventType := some (trim val) }
  | none =>
    match line.dropPrefix? "data: ".toList with
    | some val =>
      let eventData :=
        if fields.eventData.isEmpty then fields.eventData else fields.eventData ++ [' ']
      { fields with eventData := eventData ++ trim val }
    | none => fields

/-- `SseByteStream::parse_event`; `none` if there is nothing to report. -/
def parseEvent (json : EventJson) (data : List UInt8) : Option (Except BeaconError BeaconEvent) := do
  let text ← String.fromUTF8? ⟨data.toArray⟩
  let fields := (lines text.toList).foldl Fields.readLine ⟨none, []⟩
  let eventType ← fields.eventType
  if fields.eventData.isEmpty then
    none
  else if eventType = "head".toList then
    some (((json.headEvent (String.ofList fields.eventData)).map BeaconEvent.head).mapError
      BeaconError.sse)
  else if eventType = "payload_attributes".toList then
    some (((json.payloadAttributesEvent (String.ofList fields.eventData)).map
      BeaconEvent.payloadAttributes).mapError BeaconError.sse)
  else none

/-- `slice::windows`. -/
def windows (n : Nat) (bytes : List UInt8) : List (List UInt8) :=
  (List.range (bytes.length + 1 - n)).map fun i => (bytes.drop i).take n

/-- `self.buffer.windows(4).position(|w| w == b"\n\n")`. -/
def findSeparator (buffer : List UInt8) : Option Nat :=
  (windows 4 buffer).findIdx? fun w => w == [10, 10]

theorem findSeparator_lt {buffer : List UInt8} {pos : Nat} (h : findSeparator buffer = some pos) :
    pos + 4 ≤ buffer.length := by
  obtain ⟨hlt, -⟩ := List.findIdx?_eq_some_iff_getElem.mp h
  simp only [windows, List.length_map, List.length_range] at hlt
  omega

/-- `SseByteStream::drain_buffer`: the buffer and the pending events afterwards. -/
def drainBuffer (json : EventJson) (buffer : List UInt8)
    (pendingEvents : List (Except BeaconError BeaconEvent)) :
    List UInt8 × List (Except BeaconError BeaconEvent) :=
  match _h : findSeparator buffer with
  | none => (buffer, pendingEvents)
  | some pos =>
    let complete := buffer.take pos
    if complete.isEmpty then
      drainBuffer json (buffer.drop (pos + 4)) pendingEvents
    else
      match parseEvent json complete with
      | some event => drainBuffer json (buffer.drop (pos + 4)) (pendingEvents ++ [event])
      | none => drainBuffer json (buffer.drop (pos + 4)) pendingEvents
termination_by buffer.length
decreasing_by
  all_goals
    have hpos := findSeparator_lt _h
    rw [List.length_drop]
    omega

end SseByteStream

/-! ## Polling -/

/-- `std::task::Poll`. -/
inductive Poll (α : Type) where
  | pending
  | ready (a : α)

/-- What a poll of the inner stream gives before the stream ends. -/
inductive InnerPoll where
  | pending
  | chunk (data : List UInt8)
  | failed (e : BeaconError)

/-- The polls of the inner stream that are still to come, and the two fields of the struct. -/
structure SseByteStream where
  stream : List InnerPoll
  buffer : List UInt8
  pendingEvents : List (Except BeaconError BeaconEvent)

namespace SseByteStream

def new (stream : List InnerPoll) : SseByteStream := ⟨stream, [], []⟩

/-- The loop of `poll_next`. -/
def pollStream (json : EventJson) (buffer : List UInt8)
    (pendingEvents : List (Except BeaconError BeaconEvent)) :
    List InnerPoll → Poll (Option (Except BeaconError BeaconEvent)) × SseByteStream
  | [] => (.ready none, ⟨[], buffer, pendingEvents⟩)
  | .pending :: rest => (.pending, ⟨rest, buffer, pendingEvents⟩)
  | .failed e :: rest => (.ready (some (.error e)), ⟨rest, buffer, pendingEvents⟩)
  | .chunk data :: rest =>
    match drainBuffer json (buffer ++ data) pendingEvents with
    | (buffer, event :: pendingEvents) => (.ready (some event), ⟨rest, buffer, pendingEvents⟩)
    | (buffer, []) => pollStream json buffer [] rest

/-- `SseByteStream::poll_next`. -/
def pollNext (json : EventJson) (s : SseByteStream) :
    Poll (Option (Except BeaconError BeaconEvent)) × SseByteStream :=
  match s.pendingEvents with
  | event :: pendingEvents => (.ready (some event), { s with pendingEvents := pendingEvents })
  | [] => pollStream json s.buffer [] s.stream

/-- Polling `s` until it ends yields exactly these items. -/
inductive Yields (json : EventJson) : SseByteStream → List (Except BeaconError BeaconEvent) → Prop
  | ended {s s' : SseByteStream} : pollNext json s = (.ready none, s') → Yields json s []
  | item {s s' : SseByteStream} {item : Except BeaconError BeaconEvent}
      {items : List (Except BeaconError BeaconEvent)} :
      pollNext json s = (.ready (some item), s') → Yields json s' items →
      Yields json s (item :: items)
  | wait {s s' : SseByteStream} {items : List (Except BeaconError BeaconEvent)} :
      pollNext json s = (.pending, s') → Yields json s' items → Yields json s items

/-! ## Nothing is found -/

/-- No window of four bytes is a string of two. -/
theorem findSeparator_eq_none (buffer : List UInt8) : findSeparator buffer = none := by
  refine List.findIdx?_eq_none_iff.mpr ?_
  intro w hw
  obtain ⟨i, hi, rfl⟩ := List.mem_map.mp hw
  have hlen : ((buffer.drop i).take 4).length = 4 := by
    rw [List.mem_range] at hi
    rw [List.length_take, List.length_drop]
    omega
  rw [beq_eq_false_iff_ne]
  intro heq
  rw [heq] at hlen
  cases hlen

/-- So the buffer only grows. -/
theorem drainBuffer_eq (json : EventJson) (buffer : List UInt8)
    (pendingEvents : List (Except BeaconError BeaconEvent)) :
    drainBuffer json buffer pendingEvents = (buffer, pendingEvents) := by
  rw [drainBuffer]
  split
  · rfl
  · next hfound =>
    rw [findSeparator_eq_none] at hfound
    cases hfound

/-- A chunk moves to the buffer, and the loop goes on. -/
theorem pollNext_chunk (json : EventJson) (data buffer : List UInt8) (rest : List InnerPoll) :
    pollNext json ⟨.chunk data :: rest, buffer, []⟩ = pollNext json ⟨rest, buffer ++ data, []⟩ := by
  show pollStream json buffer [] (.chunk data :: rest) = pollStream json (buffer ++ data) [] rest
  rw [pollStream, drainBuffer_eq]

variable {json : EventJson}

theorem Yields.of_pollNext_eq {s s' : SseByteStream}
    {items : List (Except BeaconError BeaconEvent)} (h : pollNext json s = pollNext json s')
    (hitems : Yields json s items) : Yields json s' items := by
  cases hitems with
  | ended hpoll => exact .ended (h.symm.trans hpoll)
  | item hpoll hrest => exact .item (h.symm.trans hpoll) hrest
  | wait hpoll hrest => exact .wait (h.symm.trans hpoll) hrest

/-- **Polling until the end yields nothing**, as long as the inner stream does not fail. -/
theorem yields_iff_nil {stream : List InnerPoll} (hok : ∀ e, .failed e ∉ stream)
    (buffer : List UInt8) (items : List (Except BeaconError BeaconEvent)) :
    Yields json ⟨stream, buffer, []⟩ items ↔ items = [] := by
  induction stream generalizing buffer with
  | nil =>
    have hpoll : pollNext json ⟨[], buffer, []⟩ = (.ready none, ⟨[], buffer, []⟩) := rfl
    constructor
    · intro h
      cases h with
      | ended _ => rfl
      | item h _ => cases hpoll.symm.trans h
      | wait h _ => cases hpoll.symm.trans h
    · rintro rfl
      exact .ended hpoll
  | cons p rest ih =>
    have ih := ih (fun e h => hok e (List.mem_cons_of_mem p h))
    cases p with
    | pending =>
      have hpoll : pollNext json ⟨.pending :: rest, buffer, []⟩ = (.pending, ⟨rest, buffer, []⟩) :=
        rfl
      rw [← ih buffer]
      constructor
      · intro h
        cases h with
        | ended h => cases hpoll.symm.trans h
        | item h _ => cases hpoll.symm.trans h
        | wait h hrest =>
          cases hpoll.symm.trans h
          exact hrest
      · intro h
        exact .wait hpoll h
    | chunk data =>
      have hpoll := pollNext_chunk json data buffer rest
      rw [← ih (buffer ++ data)]
      exact ⟨.of_pollNext_eq hpoll, .of_pollNext_eq hpoll.symm⟩
    | failed e => exact absurd List.mem_cons_self (hok e)

/-! ## Frames and chunks -/

/-- An event as a node sends it, with the text of its data line. -/
structure Frame where
  event : BeaconEvent
  data : String

namespace Frame

def eventType (f : Frame) : String :=
  match f.event with
  | .head _ => "head"
  | .payloadAttributes _ => "payload_attributes"

/-- The two lines, without the empty line after them. -/
def text (f : Frame) : String := "event: " ++ f.eventType ++ "\ndata: " ++ f.data

def bytes (f : Frame) : List UInt8 := (f.text ++ "\n\n").toUTF8.data.toList

/-- The data is one line of JSON for the event. -/
def Deserialises (json : EventJson) (f : Frame) : Prop :=
  '\n' ∉ f.data.toList ∧
    match f.event with
    | .head event => json.headEvent f.data = .ok event
    | .payloadAttributes event => json.payloadAttributesEvent f.data = .ok event

end Frame

/-- The bytes of a poll. -/
def chunkBytes : InnerPoll → List UInt8
  | .chunk data => data
  | _ => []

/-- The inner stream delivers the frames, cut into chunks in some way. -/
structure Carries (json : EventJson) (stream : List InnerPoll) (frames : List Frame) : Prop where
  deserialises : ∀ f ∈ frames, f.Deserialises json
  no_failure : ∀ e, .failed e ∉ stream
  bytes_eq : stream.flatMap chunkBytes = frames.flatMap Frame.bytes

/-- **When the byte stream yields every event**: if there is none. -/
theorem stream_yields_iff (json : EventJson) (frames : List Frame) (stream : List InnerPoll)
    (hcarries : Carries json stream frames) :
    Yields json (new stream) (frames.map fun f => .ok f.event) ↔ frames = [] := by
  unfold new
  rw [yields_iff_nil hcarries.no_failure]
  exact List.map_eq_nil_iff

/-- A head event, with the text that the node sends for it. -/
def sampleFrame : Frame where
  event := .head ⟨123, "0xabc", false, false⟩
  data := "\x7b\"slot\":\"123\",\"block\":\"0xabc\",\"epoch_transition\":false," ++
    "\"execution_optimistic\":false\x7d"

/-- Deserialises the one text. -/
def sampleJson : EventJson where
  headEvent text :=
    if text = sampleFrame.data then .ok ⟨123, "0xabc", false, false⟩ else .error "expected value"
  payloadAttributesEvent _ := .error "missing field"

/-- On its own the frame parses. -/
example : parseEvent sampleJson sampleFrame.text.toUTF8.data.toList =
    some (.ok sampleFrame.event) := rfl

/-- The frame in one chunk. -/
theorem sampleFrame_carried :
    Carries sampleJson [.chunk sampleFrame.bytes] [sampleFrame] where
  deserialises := by
    intro f hf
    rw [List.mem_singleton.mp hf]
    exact ⟨by decide +kernel, rfl⟩
  no_failure := by
    intro e h
    cases List.mem_singleton.mp h
  bytes_eq := by
    simp [chunkBytes]

theorem stream_yields_iff_sample :
    Yields sampleJson (new [.chunk sampleFrame.bytes]) [.ok sampleFrame.event] ↔
      [sampleFrame] = [] :=
  stream_yields_iff sampleJson [sampleFrame] [.chunk sampleFrame.bytes] sampleFrame_carried

/-- One head event in one chunk is not yielded. -/
theorem stream_loses_event :
    ¬ ∀ (json : EventJson) (frames : List Frame) (stream : List InnerPoll),
      Carries json stream frames →
      Yields json (new stream) (frames.map fun f => .ok f.event) := by
  intro h
  have hyields := h sampleJson [sampleFrame] [.chunk sampleFrame.bytes] sampleFrame_carried
  have hnil := (yields_iff_nil sampleFrame_carried.no_failure _ _).mp hyields
  cases hnil

end SseByteStream

end MevRelay
