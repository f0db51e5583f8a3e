import MevRelay.Gateway.Events

/-!
# The merged event stream

`BeaconEventsStream` puts the stream of payload attributes and the stream of heads together. A poll
asks the first one, and the second one only if the first has nothing to give. What it pulls it hands
out at once, so no event waits in between and none can be lost there (`merge_faithful`).

An inner stream is given by its *script*: what each of its polls gives. Nothing is assumed of it, not
even that it stays at its end.
-/

namespace MevRelay

/-- `Result<BeaconEvent, BeaconError>`, the item of every event stream. -/
abbrev EventItem := Except BeaconError BeaconEvent

/-- The item that a poll gives, if it gives one. -/
def Poll.item? : Poll (Option EventItem) → Option EventItem
  | .ready (some item) => some item
  | _ => none

/-- `EventStream`: what its polls give, and how many of them have been made. -/
structure EventStream where
  script : Nat → Poll (Option EventItem)
  polls : Nat

namespace EventStream

def pollNext (s : EventStream) : Poll (Option EventItem) × EventStream :=
  (s.script s.polls, { s with polls := s.polls + 1 })

/-- The events among the first `n` polls of a script. -/
def eventsOf (script : Nat → Poll (Option EventItem)) (n : Nat) : List BeaconEvent :=
  (List.range n).filterMap fun k => (script k).item?.bind Except.toOption

theorem eventsOf_succ (script : Nat → Poll (Option EventItem)) (n : Nat) :
    eventsOf script (n + 1) =
      eventsOf script n ++ ((script n).item?.bind Except.toOption).toList := by
  unfold eventsOf
  rw [List.range_succ, List.filterMap_append]
  cases h : (script n).item?.bind Except.toOption <;> simp [h]

/-- What has been pulled from the stream. -/
def pulled (s : EventStream) : List BeaconEvent := eventsOf s.script s.polls

/-- The stream gives an error now. -/
def Fails (s : EventStream) : Prop := ∃ e, s.script s.polls = .ready (some (.error e))

/-- The stream is at its end now. -/
def Ends (s : EventStream) : Prop := s.script s.polls = .ready none

/-- The stream has nothing to give now. -/
def Waits (s : EventStream) : Prop := s.script s.polls = .pending

/-- The stream gives an event now. -/
def Gives (s : EventStream) (event : BeaconEvent) : Prop :=
  s.script s.polls = .ready (some (.ok event))

/-- The stream after one more poll. -/
def advance (s : EventStream) : EventStream := { s with polls := s.polls + 1 }

theorem pulled_advance {s : EventStream} {event : BeaconEvent} (h : s.Gives event) :
    s.advance.pulled = s.pulled ++ [event] := by
  show eventsOf s.script (s.polls + 1) = _
  rw [eventsOf_succ, show s.script s.polls = _ from h]
  rfl

theorem pulled_advance_of_failed {s : EventStream} (h : s.Fails) :
    s.advance.pulled = s.pulled := by
  obtain ⟨e, he⟩ := h
  show eventsOf s.script (s.polls + 1) = _
  rw [eventsOf_succ, he]
  exact List.append_nil _

theorem pulled_advance_of_idle {s : EventStream} (h : s.Ends ∨ s.Waits) :
    s.advance.pulled = s.pulled := by
  show eventsOf s.script (s.polls + 1) = _
  rw [eventsOf_succ]
  rcases h with h | h
  · rw [show s.script s.polls = _ from h]
    exact List.append_nil _
  · rw [show s.script s.polls = _ from h]
    exact List.append_nil _

/-- What a poll can give. -/
theorem poll_cases (s : EventStream) :
    (∃ event, s.Gives event) ∨ s.Fails ∨ s.Ends ∨ s.Waits := by
  unfold Gives Fails Ends Waits
  cases s.script s.polls with
  | pending => simp
  | ready item? =>
    cases item? with
    | none => simp
    | some item => cases item <;> simp

theorem not_fails_of_idle {s : EventStream} (h : s.Ends ∨ s.Waits) : ¬ s.Fails := by
  intro hfails
  obtain ⟨e, he⟩ := hfails
  rcases h with h | h
  · cases h.symm.trans he
  · cases h.symm.trans he

theorem not_closed_of_waits {s : EventStream} (h : s.Waits) : ¬ (s.Fails ∨ s.Ends) := by
  intro hclosed
  rcases hclosed with ⟨e, he⟩ | hends
  · cases h.symm.trans he
  · cases h.symm.trans hends

theorem not_closed_of_gives {s : EventStream} {event : BeaconEvent} (h : s.Gives event) :
    ¬ (s.Fails ∨ s.Ends) := by
  intro hclosed
  rcases hclosed with ⟨e, he⟩ | hends
  · cases h.symm.trans he
  · cases h.symm.trans hends

theorem not_idle_of_gives {s : EventStream} {event : BeaconEvent} (h : s.Gives event) :
    ¬ (s.Waits ∨ s.Ends) := by
  intro hidle
  rcases hidle with hwaits | hends
  · cases h.symm.trans hwaits
  · cases h.symm.trans hends

end EventStream

structure BeaconEventsStream where
  payloadAttributes : EventStream
  newHead : EventStream

namespace BeaconEventsStream

/-- `BeaconEventsStream::poll_next`. -/
def pollNext (s : BeaconEventsStream) : Poll (Option EventItem) × BeaconEventsStream :=
  match s.payloadAttributes.pollNext with
  | (.ready (some (.ok event)), payloadAttributes) =>
    (.ready (some (.ok event)), { s with payloadAttributes := payloadAttributes })
  | (.ready (some (.error _)), payloadAttributes) =>
    (.ready none, { s with payloadAttributes := payloadAttributes })
  | (.ready none, payloadAttributes) => pollHead { s with payloadAttributes := payloadAttributes }
  | (.pending, payloadAttributes) => pollHead { s with payloadAttributes := payloadAttributes }
where
  /-- The second half of `poll_next`. -/
  pollHead (s : BeaconEventsStream) : Poll (Option EventItem) × BeaconEventsStream :=
    match s.newHead.pollNext with
    | (.ready (some (.ok event)), newHead) =>
      (.ready (some (.ok event)), { s with newHead := newHead })
    | (.ready (some (.error _)), newHead) => (.ready none, { s with newHead := newHead })
    | (.ready none, newHead) => (.ready none, { s with newHead := newHead })
    | (.pending, newHead) => (.pending, { s with newHead := newHead })

/-! ## One poll -/

/-- Everything a poll can do. The head stream is asked only if the other one has nothing to give. -/
inductive Step (s : BeaconEventsStream) : Poll (Option EventItem) → BeaconEventsStream → Prop where
  | attributes {event : BeaconEvent} (gives : s.payloadAttributes.Gives event) :
      Step s (.ready (some (.ok event))) ⟨s.payloadAttributes.advance, s.newHead⟩
  | attributesFailed (fails : s.payloadAttributes.Fails) :
      Step s (.ready none) ⟨s.payloadAttributes.advance, s.newHead⟩
  | head {event : BeaconEvent} (idle : s.payloadAttributes.Ends ∨ s.payloadAttributes.Waits)
      (gives : s.newHead.Gives event) :
      Step s (.ready (some (.ok event))) ⟨s.payloadAttributes.advance, s.newHead.advance⟩
  | headClosed (idle : s.payloadAttributes.Ends ∨ s.payloadAttributes.Waits)
      (closed : s.newHead.Fails ∨ s.newHead.Ends) :
      Step s (.ready none) ⟨s.payloadAttributes.advance, s.newHead.advance⟩
  | bothIdle (idle : s.payloadAttributes.Ends ∨ s.payloadAttributes.Waits)
      (waits : s.newHead.Waits) :
      Step s .pending ⟨s.payloadAttributes.advance, s.newHead.advance⟩

theorem pollHead_step {s : BeaconEventsStream}
    (idle : s.payloadAttributes.Ends ∨ s.payloadAttributes.Waits) :
    Step s (pollNext.pollHead ⟨s.payloadAttributes.advance, s.newHead⟩).1
      (pollNext.pollHead ⟨s.payloadAttributes.advance, s.newHead⟩).2 := by
  rcases s.newHead.poll_cases with ⟨event, h⟩ | h | h | h
  · have poll : s.newHead.script s.newHead.polls = _ := h
    simp only [pollNext.pollHead, EventStream.pollNext, poll]
    exact .head idle h
  · obtain ⟨e, poll⟩ := id h
    simp only [pollNext.pollHead, EventStream.pollNext, poll]
    exact .headClosed idle (.inl h)
  · have poll : s.newHead.script s.newHead.polls = _ := h
    simp only [pollNext.pollHead, EventStream.pollNext, poll]
    exact .headClosed idle (.inr h)
  · have poll : s.newHead.script s.newHead.polls = _ := h
    simp only [pollNext.pollHead, EventStream.pollNext, poll]
    exact .bothIdle idle h

theorem pollNext_step (s : BeaconEventsStream) : Step s s.pollNext.1 s.pollNext.2 := by
  rcases s.payloadAttributes.poll_cases with ⟨event, h⟩ | h | h | h
  · have poll : s.payloadAttributes.script s.payloadAttributes.polls = _ := h
    simp only [pollNext, EventStream.pollNext, poll]
    exact .attributes h
  · obtain ⟨e, poll⟩ := id h
    simp only [pollNext, EventStream.pollNext, poll]
    exact .attributesFailed h
  · have poll : s.payloadAttributes.script s.payloadAttributes.polls = _ := h
    simp only [pollNext, EventStream.pollNext, poll]
    exact pollHead_step (.inl h)
  · have poll : s.payloadAttributes.script s.payloadAttributes.polls = _ := h
    simp only [pollNext, EventStream.pollNext, poll]
    exact pollHead_step (.inr h)

/-- When a poll ends the merged stream. -/
def Stops (s : BeaconEventsStream) : Prop :=
  s.payloadAttributes.Fails ∨
    ((s.payloadAttributes.Waits ∨ s.payloadAttributes.Ends) ∧ (s.newHead.Fails ∨ s.newHead.Ends))

theorem Step.stops_iff {s s' : BeaconEventsStream} {out : Poll (Option EventItem)}
    (h : Step s out s') : out = .ready none ↔ s.Stops := by
  cases h with
  | attributes gives =>
    apply iff_of_false
    · intro h
      cases h
    · intro hstops
      rcases hstops with hfails | ⟨hidle, -⟩
      · exact EventStream.not_closed_of_gives gives (.inl hfails)
      · exact EventStream.not_idle_of_gives gives hidle
  | attributesFailed fails => exact ⟨fun _ => .inl fails, fun _ => rfl⟩
  | headClosed idle closed => exact ⟨fun _ => .inr ⟨idle.symm, closed⟩, fun _ => rfl⟩
  | head idle gives =>
    apply iff_of_false
    · intro h
      cases h
    · intro hstops
      rcases hstops with hfails | ⟨-, hclosed⟩
      · exact EventStream.not_fails_of_idle idle hfails
      · exact EventStream.not_closed_of_gives gives hclosed
  | bothIdle idle waits =>
    apply iff_of_false
    · intro h
      cases h
    · intro hstops
      rcases hstops with hfails | ⟨-, hclosed⟩
      · exact EventStream.not_fails_of_idle idle hfails
      · exact EventStream.not_closed_of_waits waits hclosed

/-- A poll hands out at once what it pulls. -/
theorem Step.emits_pulled {s s' : BeaconEventsStream} {out : Poll (Option EventItem)}
    (h : Step s out s') :
    ∃ attributes heads : List BeaconEvent,
      s'.payloadAttributes.pulled = s.payloadAttributes.pulled ++ attributes ∧
      s'.newHead.pulled = s.newHead.pulled ++ heads ∧
      out.item?.toList = (attributes ++ heads).map .ok := by
  cases h with
  | @attributes event gives =>
    exact ⟨[event], [], EventStream.pulled_advance gives, by simp, rfl⟩
  | attributesFailed fails =>
    refine ⟨[], [], ?_, by simp, rfl⟩
    simp [EventStream.pulled_advance_of_failed fails]
  | @head event idle gives =>
    refine ⟨[], [event], ?_, EventStream.pulled_advance gives, rfl⟩
    simp [EventStream.pulled_advance_of_idle idle]
  | headClosed idle closed =>
    refine ⟨[], [], ?_, ?_, rfl⟩
    · simp [EventStream.pulled_advance_of_idle idle]
    · rcases closed with fails | ends
      · simp [EventStream.pulled_advance_of_failed fails]
      · simp [EventStream.pulled_advance_of_idle (.inl ends)]
  | bothIdle idle waits =>
    refine ⟨[], [], ?_, ?_, rfl⟩
    · simp [EventStream.pulled_advance_of_idle idle]
    · simp [EventStream.pulled_advance_of_idle (.inr waits)]

/-- A poll asks the first stream once and the second one at most once. -/
theorem Step.asks {s s' : BeaconEventsStream} {out : Poll (Option EventItem)}
    (h : Step s out s') :
    s'.payloadAttributes = s.payloadAttributes.advance ∧
      (s'.newHead = s.newHead ∨ s'.newHead = s.newHead.advance) := by
  cases h <;> simp

/-! ## A run of polls -/

/-- The stream after `n` polls. -/
def after (s : BeaconEventsStream) : Nat → BeaconEventsStream
  | 0 => s
  | n + 1 => (s.after n).pollNext.2

/-- What poll number `n` gives. -/
def output (s : BeaconEventsStream) (n : Nat) : Poll (Option EventItem) := (s.after n).pollNext.1

/-- The items that the first `n` polls give. -/
def emitted (s : BeaconEventsStream) (n : Nat) : List EventItem :=
  (List.range n).filterMap fun k => (s.output k).item?

theorem emitted_succ (s : BeaconEventsStream) (n : Nat) :
    s.emitted (n + 1) = s.emitted n ++ (s.output n).item?.toList := by
  unfold emitted
  rw [List.range_succ, List.filterMap_append]
  cases h : (s.output n).item? <;> simp [h]

theorem step_after (s : BeaconEventsStream) (n : Nat) :
    Step (s.after n) (s.output n) (s.after (n + 1)) :=
  pollNext_step (s.after n)

/-- The third list puts the first two together and keeps the order of each. -/
inductive Interleaving {α : Type} : List α → List α → List α → Prop where
  | nil : Interleaving [] [] []
  | left {xs ys zs : List α} (x : α) : Interleaving xs ys zs →
      Interleaving (xs ++ [x]) ys (zs ++ [x])
  | right {xs ys zs : List α} (y : α) : Interleaving xs ys zs →
      Interleaving xs (ys ++ [y]) (zs ++ [y])

/-- What interleaves goes on to do so when each list goes on by itself. -/
theorem Interleaving.append {α : Type} {xs ys zs : List α} (h : Interleaving xs ys zs)
    (xs' ys' : List α) : Interleaving (xs ++ xs') (ys ++ ys') (zs ++ (xs' ++ ys')) := by
  have left : ∀ l : List α, Interleaving (xs ++ l) ys (zs ++ l) := by
    intro l
    induction l using List.reverseRecOn with
    | nil => simpa using h
    | append_singleton l x ih => simpa using ih.left x
  induction ys' using List.reverseRecOn with
  | nil => simpa using left xs'
  | append_singleton l y ih => simpa using ih.right y

/-- The stream over two scripts of which nothing has been polled. -/
def ofScripts (payloadAttributes newHead : Nat → Poll (Option EventItem)) : BeaconEventsStream :=
  ⟨⟨payloadAttributes, 0⟩, ⟨newHead, 0⟩⟩

variable (payloadAttributes newHead : Nat → Poll (Option EventItem))

/-- After `n` polls the first stream has been polled `n` times, the second at most as often. -/
theorem after_ofScripts (n : Nat) :
    ∃ m ≤ n, (ofScripts payloadAttributes newHead).after n =
      ⟨⟨payloadAttributes, n⟩, ⟨newHead, m⟩⟩ := by
  induction n with
  | zero => exact ⟨0, Nat.le_refl 0, rfl⟩
  | succ n ih =>
    obtain ⟨m, hm, state⟩ := ih
    obtain ⟨first, second⟩ := (step_after (ofScripts payloadAttributes newHead) n).asks
    rw [state] at first second
    rcases second with second | second
    · refine ⟨m, by omega, ?_⟩
      exact congrArg₂ mk first second
    · refine ⟨m + 1, by omega, ?_⟩
      exact congrArg₂ mk first second

/-- The items given are the events pulled, interleaved. -/
theorem emitted_interleaving (s : BeaconEventsStream)
    (h₁ : s.payloadAttributes.pulled = []) (h₂ : s.newHead.pulled = []) (n : Nat) :
    ∃ events, s.emitted n = events.map .ok ∧
      Interleaving (s.after n).payloadAttributes.pulled (s.after n).newHead.pulled events := by
  induction n with
  | zero =>
    refine ⟨[], rfl, ?_⟩
    show Interleaving s.payloadAttributes.pulled s.newHead.pulled []
    rw [h₁, h₂]
    exact .nil
  | succ n ih =>
    obtain ⟨events, given, interleaved⟩ := ih
    obtain ⟨attributes, heads, pulled₁, pulled₂, item⟩ := (s.step_after n).emits_pulled
    refine ⟨events ++ (attributes ++ heads), ?_, ?_⟩
    · rw [emitted_succ, given, item, ← List.map_append]
    · rw [pulled₁, pulled₂]
      exact interleaved.append attributes heads

/-- Merging loses, duplicates and reorders nothing. After any number of polls, what was given out is
an interleaving of the events of the first polls of each stream. Every poll gives out what it pulls.
It ends the stream exactly if the first stream fails, or has nothing to give and the second one fails
or is at its end; that the first one is at its end is not enough. -/
theorem merge_faithful :
    (∀ n, ∃ m ≤ n, ∃ events,
      (ofScripts payloadAttributes newHead).after n = ⟨⟨payloadAttributes, n⟩, ⟨newHead, m⟩⟩ ∧
      (ofScripts payloadAttributes newHead).emitted n = events.map .ok ∧
      Interleaving (EventStream.eventsOf payloadAttributes n) (EventStream.eventsOf newHead m)
        events) ∧
    (∀ n, ∃ attributes heads : List BeaconEvent,
      ((ofScripts payloadAttributes newHead).after (n + 1)).payloadAttributes.pulled =
        ((ofScripts payloadAttributes newHead).after n).payloadAttributes.pulled ++ attributes ∧
      ((ofScripts payloadAttributes newHead).after (n + 1)).newHead.pulled =
        ((ofScripts payloadAttributes newHead).after n).newHead.pulled ++ heads ∧
      ((ofScripts payloadAttributes newHead).output n).item?.toList =
        (attributes ++ heads).map .ok) ∧
    (∀ n, (ofScripts payloadAttributes newHead).output n = .ready none ↔
      ((ofScripts payloadAttributes newHead).after n).Stops) ∧
    (∀ n, ((ofScripts payloadAttributes newHead).after n).payloadAttributes.Ends →
      ¬ ((ofScripts payloadAttributes newHead).after n).newHead.Fails →
      ¬ ((ofScripts payloadAttributes newHead).after n).newHead.Ends →
      (ofScripts payloadAttributes newHead).output n ≠ .ready none) := by
  refine ⟨?_, fun n => (step_after _ n).emits_pulled, fun n => (step_after _ n).stops_iff, ?_⟩
  · intro n
    obtain ⟨m, hm, state⟩ := after_ofScripts payloadAttributes newHead n
    obtain ⟨events, given, interleaved⟩ :=
      (ofScripts payloadAttributes newHead).emitted_interleaving rfl rfl n
    rw [state] at interleaved
    exact ⟨m, hm, events, state, given, interleaved⟩
  · intro n ends notFails notEnds out
    rcases (step_after _ n).stops_iff.mp out with fails | ⟨-, closed⟩
    · obtain ⟨e, he⟩ := fails
      rw [EventStream.Ends] at ends
      rw [ends] at he
      cases he
    · rcases closed with fails | ends
      · exact notFails fails
      · exact notEnds ends

end BeaconEventsStream

end MevRelay
