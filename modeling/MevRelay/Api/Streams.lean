import MevRelay.Api.Services
import MevRelay.Atomic.Stream

/-!
# The stream handlers

`Bid` and `Retrieve` are streams in both directions. Their handlers work through the messages in
order; `Services` has one pass of each loop, here are the loops.

A malformed `Retrieve` request should be answered with an error like any other, but one whose parent
hash has not 32 bytes makes the task panic, and the requests after it are lost
(`retrieve_answers_iff`). Bids are answered one for one, as long as `SubmitBid` itself does not panic
(`bids_in_order_iff`).
-/

namespace MevRelay

open Atomic

/-! ## Retrieve -/

namespace RetrieverService

variable (R : Relay) (serde : Serde) (others : Nat → Store → Store)

/-- `RetrieverServiceImpl::handle_request`. The receiver stays open; `others n` is what the rest of
the relay does before request `n` is taken from the stream. -/
def handleRequest (inStream : List (Except Status Proto.RetrieveRequest)) (s : Store) :
    StreamResult (Except Status Proto.RetrieveResponse) Store :=
  serve Store.exec (handleMessage R serde) others 0 inStream s

/-- The request is well-formed, and `GetHeader` returns a header for it. -/
def Succeeds (s : Store) (msg : Proto.RetrieveRequest) : Prop :=
  ∃ (h : msg.parentHash.length = 32) (proposerPubkey : BlsPublicKey),
    BlsPublicKey.deserialize R.prims msg.proposerPubkey = .ok proposerPubkey ∧
    ∃ versioned, ((GetHeaderUseCase.execute R msg.slot ⟨msg.parentHash, h⟩ proposerPubkey).run
      Store.exec s).1 = .returned (.ok versioned)

/-- Neither of the two panics is met: the parent hash has 32 bytes, and if the checks before it
pass, the slot after the head does not overflow. -/
def Survives (s : Store) (msg : Proto.RetrieveRequest) : Prop :=
  msg.parentHash.length = 32 ∧
    ∀ proposerPubkey, BlsPublicKey.deserialize R.prims msg.proposerPubkey = .ok proposerPubkey →
      (∃ reg, s.storage.readValidatorRegistration proposerPubkey = some reg) →
      (∃ duty, s.storage.findDutyBySlot msg.slot = some duty ∧ duty.pubkey = proposerPubkey) →
      s.storage.readHeadSlot.isNextSlot R.build msg.slot ≠ none

/-- What one pass does. -/
theorem run_handleMessage (s : Store) (msg : Proto.RetrieveRequest) :
    (((handleMessage R serde msg).run Store.exec s).1 = .aborted ∧ ¬ Survives R s msg) ∨
    (∃ status, ((handleMessage R serde msg).run Store.exec s).1 = .returned (.error status) ∧
      Survives R s msg ∧ ¬ Succeeds R s msg) ∨
    (∃ resp, ((handleMessage R serde msg).run Store.exec s).1 = .returned (.ok resp) ∧
      Survives R s msg ∧ Succeeds R s msg) := by
  unfold handleMessage
  by_cases hlen : msg.parentHash.length = 32
  · have hslice : FixedBytes.ofSlice? 32 msg.parentHash = some ⟨msg.parentHash, hlen⟩ :=
      dif_pos hlen
    rw [hslice]
    simp only [Prog.ofOption_some, Prog.ret_bind]
    cases hkey : BlsPublicKey.deserialize R.prims msg.proposerPubkey with
    | error e =>
      refine .inr (.inl ⟨_, rfl, ⟨hlen, ?_⟩, ?_⟩)
      · intro key h
        cases hkey.symm.trans h
      · rintro ⟨_, key, h, -⟩
        cases hkey.symm.trans h
    | ok key =>
      have haborted := GetHeaderUseCase.run_execute_aborted_iff R s msg.slot
        ⟨msg.parentHash, hlen⟩ key
      cases hrun : (GetHeaderUseCase.execute R msg.slot ⟨msg.parentHash, hlen⟩ key).run
          Store.exec s with
      | mk outcome s' =>
        rw [hrun] at haborted
        cases outcome with
        | aborted =>
          obtain ⟨hregistered, hduty, hnone⟩ := haborted.mp rfl
          refine .inl ⟨?_, ?_⟩
          · exact congrArg Prod.fst (Prog.run_bind_of_aborted hrun)
          · rintro ⟨-, h⟩
            exact h key hkey hregistered hduty hnone
        | returned result =>
          have hsurvives : Survives R s msg := by
            refine ⟨hlen, ?_⟩
            intro key' hkey' hregistered hduty hnone
            cases hkey.symm.trans hkey'
            cases haborted.mpr ⟨hregistered, hduty, hnone⟩
          cases result with
          | error e =>
            refine .inr (.inl ⟨_, congrArg Prod.fst (Prog.run_bind_of hrun), hsurvives, ?_⟩)
            rintro ⟨_, key', hkey', versioned, h⟩
            cases hkey.symm.trans hkey'
            rw [hrun] at h
            cases h
          | ok versioned =>
            refine .inr (.inr ⟨_, congrArg Prod.fst (Prog.run_bind_of hrun), hsurvives, ?_⟩)
            exact ⟨hlen, key, hkey, versioned, congrArg Prod.fst hrun⟩
  · have hslice : FixedBytes.ofSlice? 32 msg.parentHash = none := dif_neg hlen
    rw [hslice]
    exact .inl ⟨rfl, fun h => hlen h.1⟩

/-- Every request gets one answer, in order: a response if it succeeds in the store that it finds,
else an error. -/
structure AnswersAll (msgs : List Proto.RetrieveRequest) (s : Store) : Prop where
  not_aborted : (handleRequest R serde others (msgs.map .ok) s).aborted = false
  answers : List.Forall₂ (fun visit answer => (∃ resp, answer = .ok resp) ↔
      Succeeds R visit.1 visit.2)
    (visits Store.exec (handleMessage R serde) others 0 msgs s)
    (handleRequest R serde others (msgs.map .ok) s).sent

/-- **When every request is answered**: exactly if none of them meets a panic. -/
theorem retrieve_answers_iff (msgs : List Proto.RetrieveRequest) (s : Store) :
    AnswersAll R serde others msgs s ↔
      ∀ visit ∈ visits Store.exec (handleMessage R serde) others 0 msgs s,
        Survives R visit.1 visit.2 := by
  constructor
  · intro h visit hvisit
    rcases run_handleMessage R serde visit.1 visit.2 with
      ⟨habort, -⟩ | ⟨_, -, hsurvives, -⟩ | ⟨_, -, hsurvives, -⟩
    · have hlost := serve_of_aborted [] ⟨visit, hvisit, habort⟩
      rw [List.append_nil] at hlost
      cases h.not_aborted.symm.trans hlost.1
    · exact hsurvives
    · exact hsurvives
  · intro h
    have hreturns : ∀ visit ∈ visits Store.exec (handleMessage R serde) others 0 msgs s,
        ((handleMessage R serde visit.2).run Store.exec visit.1).1 ≠ .aborted := by
      intro visit hvisit habort
      rcases run_handleMessage R serde visit.1 visit.2 with
        ⟨-, hnot⟩ | ⟨_, hreturned, -⟩ | ⟨_, hreturned, -⟩
      · exact hnot (h visit hvisit)
      · cases habort.symm.trans hreturned
      · cases habort.symm.trans hreturned
    obtain ⟨answers, hanswers, hserve⟩ := serve_of_returned [] hreturns
    rw [List.append_nil] at hserve
    have hsent : (handleRequest R serde others (msgs.map .ok) s).sent = answers := by
      rw [handleRequest, hserve]
      exact List.append_nil answers
    refine ⟨congrArg StreamResult.aborted hserve, ?_⟩
    rw [hsent]
    apply hanswers.imp
    intro visit answer hanswer
    rcases run_handleMessage R serde visit.1 visit.2 with
      ⟨habort, -⟩ | ⟨status, hreturned, -, hfails⟩ | ⟨resp, hreturned, -, hsucceeds⟩
    · cases hanswer.symm.trans habort
    · cases hanswer.symm.trans hreturned
      refine iff_of_false ?_ hfails
      rintro ⟨resp, hresp⟩
      cases hresp
    · cases hanswer.symm.trans hreturned
      exact iff_of_true ⟨resp, rfl⟩ hsucceeds

/-- A request with an empty parent hash, then a good one: neither is answered. -/
theorem retrieve_loses_requests :
    ¬ ∀ (R : Relay) (serde : Serde) (others : Nat → Store → Store)
      (msgs : List Proto.RetrieveRequest) (s : Store), AnswersAll R serde others msgs s := by
  intro h
  have hall := h Sample.relay Sample.serde (fun _ => id)
    [{ Sample.retrieveMessage 2 with parentHash := [] }, Sample.retrieveMessage 2]
    (Sample.withBid 1 1)
  cases hall.not_aborted

end RetrieverService

/-! ## Bid -/

namespace BidderService

variable (R : Relay)

/-- `BidderServiceImpl::handle_request`, with the receiver open and no other writer. -/
def handleRequest (inStream : List (Except Status Proto.BidRequest)) (s : Store) :
    StreamResult (Except Status Proto.BidResponse) Store :=
  serve Store.exec (handleMessage R) (fun _ => id) 0 inStream s

/-- The bid that a message converts to. -/
def converted (msg : Proto.BidRequest) : Option BidSubmission :=
  match (BidSubmission.tryFrom R.prims msg).run with
  | some (.ok bid) => some bid
  | _ => none

/-- The messages before the first item that is a stream error or whose conversion panics. -/
def front : List (Except Status Proto.BidRequest) → List Proto.BidRequest
  | .ok msg :: rest =>
    if (BidSubmission.tryFrom R.prims msg).run.isSome then msg :: front rest else []
  | _ => []

/-- The stream error that ends the front, if one does. -/
def streamError? (inStream : List (Except Status Proto.BidRequest)) : Option Status :=
  match inStream[(front R inStream).length]? with
  | some (.error status) => some status
  | _ => none

/-- `SubmitBid` folded over the messages that convert. -/
def afterBids (s : Store) (msgs : List Proto.BidRequest) : Store :=
  (msgs.filterMap (converted R)).foldl
    (fun s bid => ((SubmitBidUseCase.execute R bid).run Store.exec s).2) s

/-- The message converts, and `SubmitBid` accepts the bid. -/
def Accepts (s : Store) (msg : Proto.BidRequest) : Prop :=
  ∃ bid, converted R msg = some bid ∧
    ((SubmitBidUseCase.execute R bid).run Store.exec s).1 = .returned (.ok ())

/-- The front is answered one for one and in order, and the rest not at all but for the error that
ends it. -/
structure InOrder (inStream : List (Except Status Proto.BidRequest)) (s : Store) : Prop where
  sent : ∃ responses : List Proto.BidResponse,
    responses.length = (front R inStream).length ∧
    (handleRequest R inStream s).sent =
      responses.map .ok ++ (streamError? R inStream).toList.map .error ∧
    ∀ (i : Nat) msg response, (front R inStream)[i]? = some msg → responses[i]? = some response →
      (response.code = 0 ↔ Accepts R (afterBids R s ((front R inStream).take i)) msg)
  final_storage : (handleRequest R inStream s).final.storage =
    (afterBids R s (front R inStream)).storage
  final_auctioneer : (handleRequest R inStream s).final.auctioneer =
    (afterBids R s (front R inStream)).auctioneer
  rejected : ∀ (i : Nat) msg, (front R inStream)[i]? = some msg →
    ¬ Accepts R (afterBids R s ((front R inStream).take i)) msg →
    (afterBids R s ((front R inStream).take (i + 1))).storage =
        (afterBids R s ((front R inStream).take i)).storage ∧
      (afterBids R s ((front R inStream).take (i + 1))).auctioneer =
        (afterBids R s ((front R inStream).take i)).auctioneer

/-- No bid of the front that gets to the slot check meets a head whose next slot overflows. -/
def NoOverflow (inStream : List (Except Status Proto.BidRequest)) (s : Store) : Prop :=
  ∀ msg ∈ front R inStream, ∀ bid, converted R msg = some bid → bid.message.value ≠ 0 →
    s.storage.isWhitelistedBuilder bid.message.builderPubkey = true →
    s.storage.readHeadSlot.isNextSlot R.build bid.message.slot ≠ none

/-! ### One message -/

theorem afterBids_append (s : Store) (msgs msgs' : List Proto.BidRequest) :
    afterBids R s (msgs ++ msgs') = afterBids R (afterBids R s msgs) msgs' := by
  unfold afterBids
  rw [List.filterMap_append, List.foldl_append]

theorem afterBids_of_converted {msg : Proto.BidRequest} {bid : BidSubmission}
    (h : converted R msg = some bid) (s : Store) :
    afterBids R s [msg] = ((SubmitBidUseCase.execute R bid).run Store.exec s).2 := by
  simp [afterBids, h]

theorem afterBids_of_not_converted {msg : Proto.BidRequest} (h : converted R msg = none)
    (s : Store) : afterBids R s [msg] = s := by
  simp [afterBids, h]

/-- **What a message can do**: have its bid accepted, or leave storage and cache as they were. -/
theorem afterBids_cases (s : Store) (msg : Proto.BidRequest) :
    (Accepts R s msg ∧ ∃ bid proposer, afterBids R s [msg] = s.accept bid proposer) ∨
    ((afterBids R s [msg]).storage = s.storage ∧
      (afterBids R s [msg]).auctioneer = s.auctioneer) := by
  cases hbid : converted R msg with
  | none =>
    rw [afterBids_of_not_converted R hbid]
    exact .inr ⟨rfl, rfl⟩
  | some bid =>
    rw [afterBids_of_converted R hbid]
    rcases SubmitBidUseCase.run_execute R s bid with ⟨duty, -, hrun⟩ | ⟨-, -, -, hsame⟩
    · rw [hrun]
      exact .inl ⟨⟨bid, hbid, congrArg Prod.fst hrun⟩, bid, duty.pubkey, rfl⟩
    · exact .inr hsame

/-- One pass of the loop makes the step of the fold. -/
theorem run_handleMessage (s : Store) (msg : Proto.BidRequest) :
    ((handleMessage R msg).run Store.exec s).2 = afterBids R s [msg] ∧
    ((BidSubmission.tryFrom R.prims msg).run = none ∧
        ((handleMessage R msg).run Store.exec s).1 = .aborted ∨
      (∃ bid, converted R msg = some bid ∧
        ((SubmitBidUseCase.execute R bid).run Store.exec s).1 = .aborted ∧
        ((handleMessage R msg).run Store.exec s).1 = .aborted) ∨
      (∃ response, ((handleMessage R msg).run Store.exec s).1 = .returned (.ok response) ∧
        (response.code = 0 ↔ Accepts R s msg) ∧
        ∀ bid, converted R msg = some bid →
          ((SubmitBidUseCase.execute R bid).run Store.exec s).1 ≠ .aborted)) := by
  unfold handleMessage
  cases hconvert : (BidSubmission.tryFrom R.prims msg).run with
  | none =>
    have hnone : converted R msg = none := by rw [converted, hconvert]
    rw [afterBids_of_not_converted R hnone]
    exact ⟨rfl, .inl ⟨rfl, rfl⟩⟩
  | some result =>
    simp only [Prog.ofOption_some, Prog.ret_bind]
    cases result with
    | error e =>
      have hnone : converted R msg = none := by rw [converted, hconvert]
      rw [afterBids_of_not_converted R hnone]
      refine ⟨rfl, .inr (.inr ⟨_, rfl, ?_, ?_⟩)⟩
      · refine iff_of_false (by simp) ?_
        rintro ⟨bid, hbid, -⟩
        cases hnone.symm.trans hbid
      · intro bid hbid
        cases hnone.symm.trans hbid
    | ok bid =>
      have hbid : converted R msg = some bid := by rw [converted, hconvert]
      rw [afterBids_of_converted R hbid]
      cases hrun : (SubmitBidUseCase.execute R bid).run Store.exec s with
      | mk outcome s' =>
        cases outcome with
        | aborted =>
          exact ⟨congrArg Prod.snd (Prog.run_bind_of_aborted hrun), .inr (.inl ⟨bid, hbid,
            congrArg Prod.fst hrun, congrArg Prod.fst (Prog.run_bind_of_aborted hrun)⟩)⟩
        | returned result =>
          have hreturned : ∀ bid', converted R msg = some bid' →
              ((SubmitBidUseCase.execute R bid').run Store.exec s).1 = .returned result := by
            intro bid' hbid'
            cases hbid.symm.trans hbid'
            exact congrArg Prod.fst hrun
          have hnot : ∀ bid', converted R msg = some bid' →
              ((SubmitBidUseCase.execute R bid').run Store.exec s).1 ≠ .aborted := by
            intro bid' hbid' habort
            cases (hreturned bid' hbid').symm.trans habort
          cases result with
          | ok accepted =>
            refine ⟨congrArg Prod.snd (Prog.run_bind_of hrun), .inr (.inr ⟨_,
              congrArg Prod.fst (Prog.run_bind_of hrun), ?_, hnot⟩)⟩
            exact iff_of_true rfl ⟨bid, hbid, hreturned bid hbid⟩
          | error err =>
            refine ⟨congrArg Prod.snd (Prog.run_bind_of hrun), .inr (.inr ⟨_,
              congrArg Prod.fst (Prog.run_bind_of hrun), ?_, hnot⟩)⟩
            refine iff_of_false (by simp) ?_
            rintro ⟨bid', hbid', haccepted⟩
            cases (hreturned bid' hbid').symm.trans haccepted

/-! ### The stream -/

theorem stateAfter_eq (n : Nat) (msgs : List Proto.BidRequest) (s : Store) :
    stateAfter Store.exec (handleMessage R) (fun _ => id) n msgs s = afterBids R s msgs := by
  induction msgs generalizing n s with
  | nil => rfl
  | cons msg msgs ih =>
    rw [stateAfter, ih, id, (run_handleMessage R s msg).1, ← afterBids_append]
    rfl

/-- Bids change neither the head nor the whitelist. -/
theorem afterBids_keeps (s : Store) (msg : Proto.BidRequest) :
    (afterBids R s [msg]).storage.headSlot = s.storage.headSlot ∧
      (afterBids R s [msg]).storage.whitelist = s.storage.whitelist := by
  rcases afterBids_cases R s msg with ⟨-, bid, proposer, hafter⟩ | ⟨hstorage, -⟩
  · rw [hafter]
    exact ⟨rfl, rfl⟩
  · rw [hstorage]
    exact ⟨rfl, rfl⟩

theorem keeps_of_mem_visits {n : Nat} {msgs : List Proto.BidRequest} {s : Store} :
    ∀ v ∈ visits Store.exec (handleMessage R) (fun _ => id) n msgs s,
      v.1.storage.headSlot = s.storage.headSlot ∧ v.1.storage.whitelist = s.storage.whitelist := by
  refine visits_invariant (I := fun s' : Store => s'.storage.headSlot = s.storage.headSlot ∧
    s'.storage.whitelist = s.storage.whitelist) (fun _ _ => id) ?_ ⟨rfl, rfl⟩
  intro msg s' hs'
  rw [(run_handleMessage R s' msg).1, (afterBids_keeps R s' msg).1, (afterBids_keeps R s' msg).2]
  exact hs'

theorem mem_visited_iff {msg : Proto.BidRequest} (msgs : List Proto.BidRequest) (s : Store) :
    msg ∈ msgs ↔
      ∃ v ∈ visits Store.exec (handleMessage R) (fun _ => id) 0 msgs s, v.2 = msg := by
  have hmap : (visits Store.exec (handleMessage R) (fun _ => id) 0 msgs s).map Prod.snd = msgs :=
    map_snd_visits 0 msgs s
  rw [← List.mem_map, hmap]

/-- A bid panics in the middle of the stream if it would panic at its start. -/
theorem execute_aborted_iff {v : Store × Proto.BidRequest} {s : Store}
    (h : v.1.storage.headSlot = s.storage.headSlot ∧ v.1.storage.whitelist = s.storage.whitelist)
    (bid : BidSubmission) :
    ((SubmitBidUseCase.execute R bid).run Store.exec v.1).1 = .aborted ↔
      SubmitBidUseCase.Overflows R s bid := by
  rw [SubmitBidUseCase.run_execute_aborted_iff]
  have hhead : v.1.storage.readHeadSlot = s.storage.readHeadSlot := h.1
  have hwhite : v.1.storage.isWhitelistedBuilder bid.message.builderPubkey =
      s.storage.isWhitelistedBuilder bid.message.builderPubkey := by
    rw [MemoryStorage.isWhitelistedBuilder, MemoryStorage.isWhitelistedBuilder, h.2]
  constructor
  · intro ho
    exact ⟨ho.value_ne, hwhite ▸ ho.whitelisted, hhead ▸ ho.overflow⟩
  · intro ho
    exact ⟨ho.value_ne, hwhite ▸ ho.whitelisted, hhead ▸ ho.overflow⟩

theorem converts_of_mem_front {inStream : List (Except Status Proto.BidRequest)} :
    ∀ msg ∈ front R inStream, (BidSubmission.tryFrom R.prims msg).run ≠ none := by
  induction inStream with
  | nil =>
    intro msg hmsg
    cases hmsg
  | cons item rest ih =>
    intro msg hmsg
    cases item with
    | error status => cases hmsg
    | ok first =>
      rw [front] at hmsg
      split at hmsg
      · next hsome =>
        rcases List.mem_cons.mp hmsg with rfl | hmsg
        · exact Option.isSome_iff_ne_none.mp hsome
        · exact ih msg hmsg
      · cases hmsg

/-- What comes after the front: nothing, an error, or a message whose conversion panics. Working
through it changes nothing, and sends at most that error. -/
theorem exists_rest (inStream : List (Except Status Proto.BidRequest)) :
    ∃ rest, inStream = (front R inStream).map .ok ++ rest ∧
      ∀ n s, (serve Store.exec (handleMessage R) (fun _ => id) n rest s).sent =
          (streamError? R inStream).toList.map .error ∧
        (serve Store.exec (handleMessage R) (fun _ => id) n rest s).final = s := by
  induction inStream with
  | nil => exact ⟨[], rfl, fun _ _ => ⟨rfl, rfl⟩⟩
  | cons item rest ih =>
    cases item with
    | error status => exact ⟨.error status :: rest, rfl, fun _ _ => ⟨rfl, rfl⟩⟩
    | ok msg =>
      cases hconvert : (BidSubmission.tryFrom R.prims msg).run with
      | some result =>
        have hfront : front R (.ok msg :: rest) = msg :: front R rest := by simp [front, hconvert]
        have herror : streamError? R (.ok msg :: rest) = streamError? R rest := by
          simp [streamError?, hfront]
        obtain ⟨rest', hrest, hserve⟩ := ih
        refine ⟨rest', ?_, ?_⟩
        · rw [hfront]
          exact congrArg (.ok msg :: ·) hrest
        · rw [herror]
          exact hserve
      | none =>
        have hfront : front R (.ok msg :: rest) = [] := by simp [front, hconvert]
        have herror : streamError? R (.ok msg :: rest) = none := by simp [streamError?, hfront]
        refine ⟨.ok msg :: rest, by rw [hfront]; rfl, ?_⟩
        intro n s
        have hrun : (handleMessage R msg).run Store.exec s = (.aborted, s) := by
          unfold handleMessage
          rw [hconvert]
          rfl
        simp [serve, hrun, herror]

/-- Every answer of the front is a response. -/
theorem exists_responses {vs : List (Store × Proto.BidRequest)}
    {answers : List (Except Status Proto.BidResponse)}
    (h : List.Forall₂ (fun v answer =>
      ((handleMessage R v.2).run Store.exec v.1).1 = .returned answer) vs answers) :
    ∃ responses, answers = responses.map .ok ∧
      List.Forall₂ (fun v response => response.code = 0 ↔ Accepts R v.1 v.2) vs responses := by
  induction h with
  | nil => exact ⟨[], rfl, .nil⟩
  | @cons v answer vs answers hanswer _ ih =>
    obtain ⟨responses, rfl, hresponses⟩ := ih
    rcases (run_handleMessage R v.1 v.2).2 with ⟨-, habort⟩ | ⟨_, -, -, habort⟩ |
      ⟨response, hreturned, hcode, -⟩
    · cases hanswer.symm.trans habort
    · cases hanswer.symm.trans habort
    · cases hanswer.symm.trans hreturned
      exact ⟨response :: responses, rfl, .cons hcode hresponses⟩

variable {R}

/-- Without an overflow the program returns on every message of the front. -/
theorem returns_of_noOverflow {inStream : List (Except Status Proto.BidRequest)} {s : Store}
    (h : NoOverflow R inStream s) :
    ∀ v ∈ visits Store.exec (handleMessage R) (fun _ => id) 0 (front R inStream) s,
      ((handleMessage R v.2).run Store.exec v.1).1 ≠ .aborted := by
  intro v hv habort
  have hmem : v.2 ∈ front R inStream := (mem_visited_iff R _ s).mpr ⟨v, hv, rfl⟩
  rcases (run_handleMessage R v.1 v.2).2 with ⟨hnone, -⟩ | ⟨bid, hbid, hpanic, -⟩ |
    ⟨_, hreturned, -⟩
  · exact converts_of_mem_front R v.2 hmem hnone
  · obtain ⟨hvalue, hwhite, hnone⟩ :=
      (execute_aborted_iff R (keeps_of_mem_visits R v hv) bid).mp hpanic
    exact h v.2 hmem bid hbid hvalue hwhite hnone
  · cases habort.symm.trans hreturned

variable (R)

/-- **When bids are processed one for one and in order**: exactly if no bid meets a head whose next
slot overflows. -/
theorem bids_in_order_iff (inStream : List (Except Status Proto.BidRequest)) (s : Store) :
    InOrder R inStream s ↔ NoOverflow R inStream s := by
  obtain ⟨rest, hstream, hrest⟩ := exists_rest R inStream
  have hserve : handleRequest R inStream s = serve Store.exec (handleMessage R) (fun _ => id) 0
      ((front R inStream).map .ok ++ rest) s := by
    rw [handleRequest, ← hstream]
  constructor
  · intro h msg hmsg bid hbid hvalue hwhite hnone
    obtain ⟨responses, hlength, hsent, -⟩ := h.sent
    obtain ⟨v, hv, rfl⟩ := (mem_visited_iff R _ s).mp hmsg
    have hpanic := (execute_aborted_iff R (keeps_of_mem_visits R v hv) bid).mpr
      ⟨hvalue, hwhite, hnone⟩
    have habort : ((handleMessage R v.2).run Store.exec v.1).1 = .aborted := by
      rcases (run_handleMessage R v.1 v.2).2 with ⟨-, habort⟩ | ⟨_, -, -, habort⟩ |
        ⟨_, -, -, hnot⟩
      · exact habort
      · exact habort
      · exact absurd hpanic (hnot bid hbid)
    -- the answer for this message is missing
    have hshort := (serve_of_aborted rest ⟨v, hv, habort⟩).2
    rw [← hserve, hsent, List.length_append, List.length_map] at hshort
    omega
  · intro h
    obtain ⟨answers, hanswers, hall⟩ := serve_of_returned rest (returns_of_noOverflow h)
    obtain ⟨responses, rfl, hresponses⟩ := exists_responses R hanswers
    have hsent : (handleRequest R inStream s).sent =
        responses.map .ok ++ (streamError? R inStream).toList.map .error := by
      rw [hserve, hall]
      exact congrArg (responses.map .ok ++ ·) (hrest _ _).1
    have hfinal : (handleRequest R inStream s).final = afterBids R s (front R inStream) := by
      rw [hserve, hall]
      exact (hrest _ _).2.trans (stateAfter_eq R 0 _ s)
    have hlength : responses.length = (front R inStream).length := by
      rw [← hresponses.length_eq, ← List.length_map Prod.snd, map_snd_visits]
    refine ⟨⟨responses, hlength, hsent, ?_⟩, congrArg Store.storage hfinal,
      congrArg Store.auctioneer hfinal, ?_⟩
    · intro i msg response hmsg hresponse
      have hvisit : (visits Store.exec (handleMessage R) (fun _ => id) 0 (front R inStream) s)[i]? =
          some (afterBids R s ((front R inStream).take i), msg) := by
        rw [getElem?_visits, hmsg, stateAfter_eq]
        rfl
      obtain ⟨hi, hvisit⟩ := List.getElem?_eq_some_iff.mp hvisit
      obtain ⟨hi', hresponse⟩ := List.getElem?_eq_some_iff.mp hresponse
      have hcode := hresponses.get hi hi'
      rw [List.get_eq_getElem, List.get_eq_getElem, hvisit, hresponse] at hcode
      exact hcode
    · intro i msg hmsg hnot
      rw [List.take_add_one, hmsg, afterBids_append]
      rcases afterBids_cases R _ msg with ⟨haccepts, -⟩ | hsame
      · exact absurd haccepts hnot
      · exact hsame

/-- The small relay, built with overflow checks. -/
def checkedRelay : Relay := { Sample.relay with build := ⟨true⟩ }

/-- The store after a head event for the last slot there is. -/
def atLastSlot : Store :=
  (Store.exec (.setHeadSlot ⟨0xffffffffffffffff⟩) (Store.new Sample.whitelist)).2

/-- A good bid is not answered there. -/
theorem bids_lose_answers :
    ¬ ∀ (R : Relay) (inStream : List (Except Status Proto.BidRequest)) (s : Store),
      InOrder R inStream s := by
  intro h
  obtain ⟨responses, hlength, hsent, -⟩ :=
    (h checkedRelay [.ok (Sample.bidMessage 0 1 1)] atLastSlot).sent
  have hfront : (front checkedRelay [.ok (Sample.bidMessage 0 1 1)]).length = 1 := by
    decide +kernel
  have hnone : (handleRequest checkedRelay [.ok (Sample.bidMessage 0 1 1)] atLastSlot).sent =
      [] := by
    decide +kernel
  rw [hnone] at hsent
  have hresponses := (List.append_eq_nil_iff.mp hsent.symm).1
  rw [List.map_eq_nil_iff.mp hresponses, hfront] at hlength
  cases hlength

end BidderService

end MevRelay
