import MevRelay.Gateway.Events
import MevRelay.RelayService

/-!
# The loop over the event stream

`RelayService::connect_sse` reads the beacon node's events itself: it appends each chunk to a string,
takes complete lines off its front, and gives every line to `process_sse_line`, which remembers the
type of the last `event:` line until a `data:` line uses it up.

Each chunk is turned into text on its own, so a chunk that ends inside a character of several bytes
would leave replacement characters. On ASCII bytes this cannot happen, and the loop is then the same
program however the bytes are cut (`loop_ignores_cuts`).
-/

namespace MevRelay

/-! ## Bytes to text -/

namespace Text

/-- How long the character is that starts with this byte; 0 if none does. -/
def utf8Width (b : UInt8) : Nat :=
  if b < 0x80 then 1
  else if 0xc2 ≤ b && b ≤ 0xdf then 2
  else if 0xe0 ≤ b && b ≤ 0xef then 3
  else if 0xf0 ≤ b && b ≤ 0xf4 then 4
  else 0

def isContinuation (b : UInt8) : Bool := 0x80 ≤ b && b ≤ 0xbf

/-- What may follow the first byte `b`. The bounds exclude overlong forms, surrogates, and what is
beyond the last code point. -/
def isSecond (b c : UInt8) : Bool :=
  if b == 0xe0 then 0xa0 ≤ c && c ≤ 0xbf
  else if b == 0xed then 0x80 ≤ c && c ≤ 0x9f
  else if b == 0xf0 then 0x90 ≤ c && c ≤ 0xbf
  else if b == 0xf4 then 0x80 ≤ c && c ≤ 0x8f
  else isContinuation c

/-- The bytes after `b` that belong to it: all of its character, or as much of it as there is. -/
def followers (b : UInt8) : List UInt8 → List UInt8
  | [] => []
  | c :: rest =>
    if 2 ≤ utf8Width b && isSecond b c then
      c :: (rest.take (utf8Width b - 2)).takeWhile isContinuation
    else []

/-- The character of a first byte and its followers; U+FFFD if some are missing. -/
def decodeChar (b : UInt8) (tail : List UInt8) : Char :=
  if b < 0x80 then Char.ofNat b.toNat
  else if tail.length + 1 = utf8Width b then
    Char.ofNat (tail.foldl (fun n c => n * 64 + c.toNat % 64) (b.toNat % 2 ^ (7 - utf8Width b)))
  else Char.ofNat 0xfffd

/-- `lossy` of what is left when the next `skip` bytes have been read. -/
def lossyFrom : Nat → List UInt8 → List Char
  | _, [] => []
  | skip + 1, _ :: rest => lossyFrom skip rest
  | 0, b :: rest => decodeChar b (followers b rest) :: lossyFrom (followers b rest).length rest

/-- `String::from_utf8_lossy`. -/
def fromUtf8Lossy (bytes : List UInt8) : List Char := lossyFrom 0 bytes

-- two bytes of a character that is cut off are one replacement, a byte that starts none is its own
example : fromUtf8Lossy [0x61, 0xe2, 0x82, 0xac, 0xe2, 0x82, 0x62, 0xff, 0x80] =
    "a€\uFFFDb\uFFFD\uFFFD".toList := by decide

/-- The text of ASCII bytes. -/
def ascii (bytes : List UInt8) : List Char := bytes.map fun b => Char.ofNat b.toNat

theorem followers_of_ascii {b : UInt8} (hb : b < 0x80) (rest : List UInt8) :
    followers b rest = [] := by
  cases rest with
  | nil => rfl
  | cons c rest => simp [followers, utf8Width, hb]

theorem fromUtf8Lossy_of_ascii {bytes : List UInt8} (h : ∀ b ∈ bytes, b < 0x80) :
    fromUtf8Lossy bytes = ascii bytes := by
  unfold fromUtf8Lossy ascii
  induction bytes with
  | nil => rfl
  | cons b rest ih =>
    have hb : b < 0x80 := h b List.mem_cons_self
    have hrest : lossyFrom 0 rest = _ := ih fun c hc => h c (List.mem_cons_of_mem b hc)
    rw [lossyFrom, followers_of_ascii hb rest, List.length_nil, hrest, decodeChar, if_pos hb]
    rfl

/-! ## Lines of a text -/

/-- The lines that a newline ends. -/
def terminatedLines (text : List Char) : List (List Char) := (text.splitOn '\n').dropLast

/-- What stands after the last newline. -/
def unterminatedLine (text : List Char) : List Char := (text.splitOn '\n').getLastD []

theorem terminatedLines_of_not_mem {text : List Char} (h : '\n' ∉ text) :
    terminatedLines text = [] ∧ unterminatedLine text = text := by
  unfold terminatedLines unterminatedLine
  rw [List.splitOn_eq_singleton h]
  exact ⟨rfl, rfl⟩

theorem terminatedLines_line {line : List Char} (h : '\n' ∉ line) (rest : List Char) :
    terminatedLines (line ++ '\n' :: rest) = line :: terminatedLines rest ∧
      unterminatedLine (line ++ '\n' :: rest) = unterminatedLine rest := by
  have hrest : rest.splitOn '\n' ≠ [] := List.splitOn_ne_nil '\n' rest
  unfold terminatedLines unterminatedLine
  rw [List.splitOn_append_cons_self, List.splitOn_eq_singleton h, List.singleton_append,
    List.dropLast_cons_of_ne_nil hrest]
  refine ⟨rfl, ?_⟩
  cases hsplit : rest.splitOn '\n' with
  | nil => exact absurd hsplit hrest
  | cons first more => rfl

/-- Cutting off the lines of a beginning changes nothing. -/
theorem terminatedLines_append (a b : List Char) :
    terminatedLines (a ++ b) = terminatedLines a ++ terminatedLines (unterminatedLine a ++ b) ∧
      unterminatedLine (a ++ b) = unterminatedLine (unterminatedLine a ++ b) := by
  induction hlen : a.length using Nat.strongRecOn generalizing a with
  | _ n ih =>
    by_cases hmem : '\n' ∈ a
    · obtain ⟨line, rest, rfl, hline⟩ := List.eq_append_cons_of_mem hmem
      obtain ⟨hlines, hlast⟩ := ih rest.length (by simp at hlen; omega) rest rfl
      rw [List.append_assoc, List.cons_append]
      rw [(terminatedLines_line hline _).1, (terminatedLines_line hline _).2,
        (terminatedLines_line hline _).1, (terminatedLines_line hline _).2, hlines, hlast]
      exact ⟨rfl, rfl⟩
    · rw [(terminatedLines_of_not_mem hmem).1, (terminatedLines_of_not_mem hmem).2]
      exact ⟨rfl, rfl⟩

theorem newline_not_mem_unterminatedLine (text : List Char) : '\n' ∉ unterminatedLine text := by
  induction hlen : text.length using Nat.strongRecOn generalizing text with
  | _ n ih =>
    by_cases hmem : '\n' ∈ text
    · obtain ⟨line, rest, rfl, hline⟩ := List.eq_append_cons_of_mem hmem
      rw [(terminatedLines_line hline rest).2]
      exact ih rest.length (by simp at hlen; omega) rest rfl
    · rw [(terminatedLines_of_not_mem hmem).2]
      exact hmem

end Text

namespace RelayService

open Atomic Text

/-! ## The loop -/

/-- `RelayService::process_sse_line`: the event, if there is one, and `current_event` afterwards. -/
def processSseLine (json : EventJson) (line : List Char) (currentEvent : Option (List Char)) :
    Option BeaconEvent × Option (List Char) :=
  if line.isEmpty || line.head? = some ':' then (none, currentEvent)
  else
    match line.dropPrefix? "event: ".toList with
    | some event => (none, some (trim event))
    | none =>
      match line.dropPrefix? "data: ".toList with
      | some data =>
        match currentEvent with
        | none => (none, none)
        | some eventType =>
          if eventType = "head".toList then
            ((json.headEvent (String.ofList data)).toOption.map .head, none)
          else if eventType = "payload_attributes".toList then
            ((json.payloadAttributesEvent (String.ofList data)).toOption.map .payloadAttributes,
              none)
          else (none, none)
      | none => (none, currentEvent)

/-- `RelayService::handle_event`. -/
def handleEvent (R : Relay) (beacon : Beacon) : BeaconEvent → StoreProg Unit
  | .head event => handleHeadEvent R beacon event
  | .payloadAttributes event => handlePayloadAttributesEvent R event

/-- The variables of the loop, and the events given to `handle_event` so far. -/
structure SseState where
  lineBuf : List Char
  currentEvent : Option (List Char)
  handled : List BeaconEvent

variable (R : Relay) (json : EventJson) (beacons : Nat → Beacon)

/-- The inner loop of `connect_sse`, over the complete lines of `line_buf`. The node answers
`beacons n` while event number `n` is handled. -/
def drainLines (s : SseState) : StoreProg SseState :=
  match _h : s.lineBuf.idxOf? '\n' with
  | none => return s
  | some pos =>
    match processSseLine json (s.lineBuf.take pos) s.currentEvent with
    | (some event, currentEvent) => do
      handleEvent R (beacons s.handled.length) event
      drainLines ⟨s.lineBuf.drop (pos + 1), currentEvent, s.handled ++ [event]⟩
    | (none, currentEvent) => drainLines ⟨s.lineBuf.drop (pos + 1), currentEvent, s.handled⟩
termination_by s.lineBuf.length
decreasing_by
  all_goals
    obtain ⟨hpos, -⟩ := List.idxOf?_eq_some_iff.mp _h
    rw [List.length_drop]
    omega

/-- The outer loop of `connect_sse`, over the chunks: the error it ends with, and its variables. -/
def readChunks (s : SseState) : List (Except String (List UInt8)) → StoreProg (String × SseState)
  | [] => return ("SSE stream ended", s)
  | .ok bytes :: rest => do
    let s ← drainLines R json beacons { s with lineBuf := s.lineBuf ++ fromUtf8Lossy bytes }
    readChunks s rest
  | .error e :: _ => return (e, s)

/-- The variables before the first chunk. -/
def SseState.initial : SseState := ⟨[], none, []⟩

/-- `RelayService::connect_sse`; `response` is what `subscribe_events` gives. -/
def connectSse (response : Except String (List (Except String (List UInt8)))) :
    StoreProg (Except String Unit) := do
  match response with
  | .error e => return .error e
  | .ok byteStream =>
    let ended ← readChunks R json beacons .initial byteStream
    return .error ended.1

/-! ## Line by line -/

/-- `process_sse_line` folded over lines: the events in order, and `current_event` afterwards. -/
def foldLines (json : EventJson) (currentEvent : Option (List Char)) :
    List (List Char) → List BeaconEvent × Option (List Char)
  | [] => ([], currentEvent)
  | line :: lines =>
    let step := processSseLine json line currentEvent
    let rest := foldLines json step.2 lines
    (step.1.toList ++ rest.1, rest.2)

theorem foldLines_append (currentEvent : Option (List Char)) (lines lines' : List (List Char)) :
    foldLines json currentEvent (lines ++ lines') =
      ((foldLines json currentEvent lines).1 ++
          (foldLines json (foldLines json currentEvent lines).2 lines').1,
        (foldLines json (foldLines json currentEvent lines).2 lines').2) := by
  induction lines generalizing currentEvent with
  | nil => rfl
  | cons line lines ih =>
    simp only [List.cons_append, foldLines, ih, List.append_assoc]

/-- Give the events to `handle_event`, one after the other; `n` have been handled before. -/
def handOver (n : Nat) : List BeaconEvent → StoreProg Unit
  | [] => return ()
  | event :: events => do
    handleEvent R (beacons n) event
    handOver (n + 1) events

theorem handOver_append (n : Nat) (events events' : List BeaconEvent) :
    handOver R beacons n (events ++ events') = (do
      handOver R beacons n events
      handOver R beacons (n + events.length) events') := by
  induction events generalizing n with
  | nil => rfl
  | cons event events ih =>
    simp only [List.cons_append, handOver, ih, bind_assoc, List.length_cons]
    rw [show n + 1 + events.length = n + (events.length + 1) by omega]

namespace SseState

variable (s : SseState)

/-- The events of the complete lines in `line_buf`. -/
def events : List BeaconEvent := (foldLines json s.currentEvent (terminatedLines s.lineBuf)).1

/-- The state when these lines are taken off. -/
def drained : SseState where
  lineBuf := unterminatedLine s.lineBuf
  currentEvent := (foldLines json s.currentEvent (terminatedLines s.lineBuf)).2
  handled := s.handled ++ s.events json

/-- The state when text has come in. -/
def push (text : List Char) : SseState := { s with lineBuf := s.lineBuf ++ text }

/-- Taking lines off early does not change which lines there are. -/
theorem events_push (text : List Char) :
    (s.push text).events json = s.events json ++ ((s.drained json).push text).events json := by
  unfold events drained push
  rw [(terminatedLines_append s.lineBuf text).1, foldLines_append]

theorem drained_push (text : List Char) :
    (s.push text).drained json = ((s.drained json).push text).drained json := by
  have hevents := s.events_push json text
  unfold drained at hevents ⊢
  rw [hevents]
  simp only [push, (terminatedLines_append s.lineBuf text).1,
    (terminatedLines_append s.lineBuf text).2, foldLines_append, List.append_assoc]

end SseState

theorem idxOf?_newline {line : List Char} (h : '\n' ∉ line) (rest : List Char) :
    (line ++ '\n' :: rest).idxOf? '\n' = some line.length := by
  induction line with
  | nil => rfl
  | cons c line ih =>
    have hc : (c == '\n') = false := by
      rw [beq_eq_false_iff_ne]
      intro heq
      exact h (heq ▸ List.mem_cons_self)
    have hline : '\n' ∉ line := fun hmem => h (List.mem_cons_of_mem c hmem)
    rw [List.cons_append, List.idxOf?_cons, hc, ih hline]
    rfl

/-- One pass of the inner loop. -/
theorem drainLines_line {line : List Char} (h : '\n' ∉ line) (rest : List Char)
    (currentEvent : Option (List Char)) (handled : List BeaconEvent) :
    drainLines R json beacons ⟨line ++ '\n' :: rest, currentEvent, handled⟩ = (do
      handOver R beacons handled.length (processSseLine json line currentEvent).1.toList
      drainLines R json beacons ⟨rest, (processSseLine json line currentEvent).2,
        handled ++ (processSseLine json line currentEvent).1.toList⟩) := by
  rw [drainLines]
  split
  · next hfind => simp at hfind
  · next pos hfind =>
    have hpos : pos = line.length := by
      rw [idxOf?_newline h rest] at hfind
      exact (Option.some.inj hfind).symm
    subst hpos
    have hrest : (line ++ '\n' :: rest).drop (line.length + 1) = rest := by simp
    simp only [List.take_left, hrest]
    rcases processSseLine json line currentEvent with ⟨event | event, next⟩
    · simp [handOver]
    · simp [handOver]

/-- The inner loop hands over the events of the complete lines, and takes these lines off. -/
theorem drainLines_eq (s : SseState) :
    drainLines R json beacons s = (do
      handOver R beacons s.handled.length (s.events json)
      return s.drained json) := by
  obtain ⟨lineBuf, currentEvent, handled⟩ := s
  induction hlen : lineBuf.length using Nat.strongRecOn generalizing lineBuf currentEvent handled with
  | _ n ih =>
    by_cases hmem : '\n' ∈ lineBuf
    · obtain ⟨line, rest, rfl, hline⟩ := List.eq_append_cons_of_mem hmem
      have hrest := ih rest.length (by simp at hlen; omega) rest
        (processSseLine json line currentEvent).2
        (handled ++ (processSseLine json line currentEvent).1.toList) rfl
      rw [drainLines_line R json beacons hline, hrest]
      simp only [SseState.events, SseState.drained, (terminatedLines_line hline rest).1,
        (terminatedLines_line hline rest).2, foldLines, handOver_append, List.length_append,
        bind_assoc, List.append_assoc]
    · have hnone := terminatedLines_of_not_mem hmem
      rw [drainLines]
      split
      · simp [SseState.events, SseState.drained, hnone.1, hnone.2, foldLines, handOver]
      · next pos hfind =>
        rw [List.idxOf?_eq_none_iff.mpr hmem] at hfind
        cases hfind

/-! ## However the bytes are cut -/

/-- The outer loop on ASCII chunks hands over the events of the complete lines of all of them. -/
theorem readChunks_of_ascii {chunks : List (List UInt8)} (h : ∀ b ∈ chunks.flatten, b < 0x80)
    {s : SseState} (hs : '\n' ∉ s.lineBuf) :
    readChunks R json beacons s (chunks.map .ok) = (do
      handOver R beacons s.handled.length ((s.push (ascii chunks.flatten)).events json)
      return ("SSE stream ended", (s.push (ascii chunks.flatten)).drained json)) := by
  induction chunks generalizing s with
  | nil =>
    have hnone := terminatedLines_of_not_mem hs
    simp [readChunks, SseState.push, SseState.events, SseState.drained, hnone.1, hnone.2,
      foldLines, handOver, ascii]
  | cons chunk chunks ih =>
    have hchunk : fromUtf8Lossy chunk = ascii chunk :=
      fromUtf8Lossy_of_ascii fun b hb => h b (by simp [hb])
    have hrest : ∀ b ∈ chunks.flatten, b < 0x80 := fun b hb => h b (by simp [hb])
    have hdrained : '\n' ∉ ((s.push (ascii chunk)).drained json).lineBuf :=
      newline_not_mem_unterminatedLine _
    have hhandled : ((s.push (ascii chunk)).drained json).handled.length =
        s.handled.length + ((s.push (ascii chunk)).events json).length := List.length_append
    have hpush : s.push (ascii (chunk :: chunks).flatten) =
        (s.push (ascii chunk)).push (ascii chunks.flatten) := by
      simp [SseState.push, ascii]
    rw [hpush, (s.push (ascii chunk)).events_push, (s.push (ascii chunk)).drained_push,
      handOver_append, List.map_cons, readChunks, hchunk, ← SseState.push, drainLines_eq]
    simp only [bind_assoc, pure_bind, ih hrest hdrained, hhandled]
    rfl

/-- **The loop does not depend on how the stream is cut.** If the bytes are ASCII, then any two ways
to cut them into chunks give the same program: it hands the events of the lines that a newline ends
to `handle_event`, in their order, and ends with what stands after the last newline in `line_buf`. -/
theorem loop_ignores_cuts {bytes : List UInt8} (h : ∀ b ∈ bytes, b < 0x80)
    {chunks chunks' : List (List UInt8)} (hchunks : chunks.flatten = bytes)
    (hchunks' : chunks'.flatten = bytes) :
    connectSse R json beacons (.ok (chunks.map .ok)) =
        connectSse R json beacons (.ok (chunks'.map .ok)) ∧
      readChunks R json beacons .initial (chunks.map .ok) =
        readChunks R json beacons .initial (chunks'.map .ok) ∧
      readChunks R json beacons .initial (chunks.map .ok) = (do
        let lines := foldLines json none (terminatedLines (ascii bytes))
        handOver R beacons 0 lines.1
        return ("SSE stream ended",
          { lineBuf := unterminatedLine (ascii bytes)
            currentEvent := lines.2
            handled := lines.1 })) := by
  subst hchunks
  have h' : ∀ b ∈ chunks'.flatten, b < 0x80 := hchunks' ▸ h
  have hinitial : '\n' ∉ SseState.initial.lineBuf := List.not_mem_nil
  have hloop : readChunks R json beacons .initial (chunks.map .ok) =
      readChunks R json beacons .initial (chunks'.map .ok) := by
    rw [readChunks_of_ascii R json beacons h hinitial,
      readChunks_of_ascii R json beacons h' hinitial, hchunks']
  refine ⟨?_, hloop, ?_⟩
  · simp only [connectSse, hloop]
  · exact readChunks_of_ascii R json beacons h hinitial

open SseByteStream in
/-- A head event, whole or cut inside `event: `: in both cases it is handed over, and nothing of it
is left. -/
theorem loop_ignores_cuts_sample :
    let bytes := sampleFrame.bytes
    foldLines sampleJson none (terminatedLines (ascii bytes)) = ([sampleFrame.event], none) ∧
      readChunks Sample.relay sampleJson (fun _ => Sample.beacon) .initial ([bytes].map .ok) =
        readChunks Sample.relay sampleJson (fun _ => Sample.beacon) .initial
          ([bytes.take 3, [], bytes.drop 3].map .ok) := by
  have hascii : sampleFrame.bytes.all (· < 0x80) = true := by decide +kernel
  have hbytes : ∀ b ∈ sampleFrame.bytes, b < 0x80 := by simpa using hascii
  refine ⟨by decide +kernel, ?_⟩
  exact (loop_ignores_cuts Sample.relay sampleJson (fun _ => Sample.beacon) hbytes (by simp)
    (by simp)).2.1

end RelayService

end MevRelay
