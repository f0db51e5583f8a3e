import MevRelay.Api.Conversion
import MevRelay.Provenance

/-!
# The gRPC services

`BidderService`, `RetrieverService` and `ValidatorService` over the use cases. A stream handler works
through its messages one after the other, and no message sees another one's state, so each message is
a request of its own here: the pools of such requests have every interleaving that the handlers have.
What a handler sends for a message, or a unary call returns, is the output of the request.

`Relay.api` is the frontend that the services make: each request makes the calls of at most one
request of the relay, and `Rpc.Returns` says what an output was made of.
-/

namespace MevRelay

open Atomic

/-! ## What the services use -/

/-- `serde_json::to_vec` for the three types that are sent, an error by its text. -/
structure Serde where
  header : Versioned SignedHeader → Except String (List UInt8)
  payload : ExecutionPayload → Except String (List UInt8)
  blobs : BlobsBundle → Except String (List UInt8)

/-- `unwrap_or_default()` on a serialised value. -/
def unwrapOrDefault (result : Except String (List UInt8)) : List UInt8 := result.toOption.getD []

/-- `tonic::Code`. The services use two of them; an error of an inbound stream can have any. -/
inductive Code where
  | ok
  | cancelled
  | unknown
  | invalidArgument
  | deadlineExceeded
  | notFound
  | alreadyExists
  | permissionDenied
  | resourceExhausted
  | failedPrecondition
  | aborted
  | outOfRange
  | unimplemented
  | internal
  | unavailable
  | dataLoss
  | unauthenticated
  deriving DecidableEq, Repr

/-- `tonic::Status`. -/
structure Status where
  code : Code
  message : String
  deriving DecidableEq, Repr

section Services

variable (R : Relay) (serde : Serde)

/-! ## The services -/

/-- One pass of `BidderServiceImpl::handle_request` through its loop. -/
def BidderService.handleMessage (msg : Proto.BidRequest) :
    StoreProg (Except Status Proto.BidResponse) := do
  match ← orPanic (BidSubmission.tryFrom R.prims msg).run with
  | .error e => return .ok ⟨1, "conversion error: " ++ e.toString⟩
  | .ok submission =>
    match ← SubmitBidUseCase.execute R submission with
    | .ok () => return .ok ⟨0, "ok"⟩
    | .error err => return .ok ⟨1, err.toString⟩

/-- `ValidatorServiceImpl::register_validator`. -/
def ValidatorService.registerValidator (req : Proto.RegisterValidatorRequest) :
    StoreProg (Except Status Proto.RegisterValidatorResponse) := do
  match req.registration with
  | none => return .error ⟨.invalidArgument, "missing registration"⟩
  | some protoReg =>
    match ← orPanic (SignedValidatorRegistration.tryFrom R.prims protoReg).run with
    | .error e => return .error ⟨.invalidArgument, "invalid registration: " ++ e.toString⟩
    | .ok registration =>
      match ← RegisterValidatorUseCase.execute R registration with
      | .ok () => return .ok ⟨0, "ok"⟩
      | .error e => return .error ⟨.internal, e.toString⟩

namespace RetrieverService

/-- The response for a header and what the second read of the best bid gave. -/
def response (versioned : Versioned SignedHeader) (bid : Option (Arc BidSubmission)) :
    Proto.RetrieveResponse where
  signedHeader := unwrapOrDefault (serde.header versioned)
  executionPayload :=
    (bid.map fun b => unwrapOrDefault (serde.payload b.val.executionPayload)).getD []
  blobsBundle := (bid.map fun b => unwrapOrDefault (serde.blobs b.val.blobsBundle)).getD []

/-- One pass of `RetrieverServiceImpl::handle_request` through its loop. `B256::from_slice` panics on
a wrong length. -/
def handleMessage (msg : Proto.RetrieveRequest) :
    StoreProg (Except Status Proto.RetrieveResponse) := do
  let parentHash ← orPanic (FixedBytes.ofSlice? 32 msg.parentHash)
  match BlsPublicKey.deserialize R.prims msg.proposerPubkey with
  | .error e => return .error ⟨.invalidArgument, e⟩
  | .ok proposerPubkey =>
    match ← GetHeaderUseCase.execute R msg.slot parentHash proposerPubkey with
    | .error err => return .error ⟨.internal, err.toString⟩
    | .ok versioned =>
      let bid ← auctioneer (.getBestBid msg.slot)
      return .ok (response serde versioned bid.toOption)

/-- `RetrieverServiceImpl::submit_blinded_block`. -/
def submitBlindedBlock (req : Proto.SubmitBlindedBlockRequest) :
    StoreProg (Except Status Proto.BlindedBlockResponse) := do
  let blockHash ← orPanic (FixedBytes.ofSlice? 32 req.blockHash)
  match BlsSignature.deserialize R.prims req.signature with
  | .error e => return .error ⟨.invalidArgument, "invalid signature: " ++ e⟩
  | .ok signature =>
    match ← UnblindBlockUseCase.execute R req.slot req.proposerIndex blockHash signature with
    | .error e => return .error ⟨.internal, e.toString⟩
    | .ok resp =>
      match serde.payload resp.executionPayload with
      | .error e => return .error ⟨.internal, "serialization error: " ++ e⟩
      | .ok executionPayload =>
        return .ok {
          executionPayload := executionPayload
          blobsBundle := (resp.blobsBundle.map fun b => unwrapOrDefault (serde.blobs b)).getD []
          blockHash := resp.executionPayload.blockHash.bytes }

end RetrieverService

/-! ## The frontend they make -/

namespace Rpc

inductive Request where
  | bid (msg : Proto.BidRequest)
  | registerValidator (req : Proto.RegisterValidatorRequest)
  | retrieve (msg : Proto.RetrieveRequest)
  | submitBlindedBlock (req : Proto.SubmitBlindedBlockRequest)
  | background (task : RelayService.Task)

inductive Output where
  | bid (result : Except Status Proto.BidResponse)
  | registerValidator (result : Except Status Proto.RegisterValidatorResponse)
  | retrieve (result : Except Status Proto.RetrieveResponse)
  | submitBlindedBlock (result : Except Status Proto.BlindedBlockResponse)
  | background (done : Unit)

def program : Request → StoreProg Output
  | .bid msg => .bid <$> BidderService.handleMessage R msg
  | .registerValidator req => .registerValidator <$> ValidatorService.registerValidator R req
  | .retrieve msg => .retrieve <$> RetrieverService.handleMessage R serde msg
  | .submitBlindedBlock req =>
    .submitBlindedBlock <$> RetrieverService.submitBlindedBlock R serde req
  | .background task => .background <$> RelayService.handle R task

/-- The use case that a request gets to, if it decodes. -/
def serves : Request → Option MevRelay.Request
  | .bid msg =>
    match (BidSubmission.tryFrom R.prims msg).run with
    | some (.ok submission) => some (.submitBid submission)
    | _ => none
  | .registerValidator req =>
    match req.registration.map fun r => (SignedValidatorRegistration.tryFrom R.prims r).run with
    | some (some (.ok registration)) => some (.registerValidator registration)
    | _ => none
  | .retrieve msg =>
    match FixedBytes.ofSlice? 32 msg.parentHash,
      BlsPublicKey.deserialize R.prims msg.proposerPubkey with
    | some parentHash, .ok proposerPubkey => some (.getHeader msg.slot parentHash proposerPubkey)
    | _, _ => none
  | .submitBlindedBlock req =>
    match FixedBytes.ofSlice? 32 req.blockHash, BlsSignature.deserialize R.prims req.signature with
    | some blockHash, .ok signature =>
      some (.unblindBlock req.slot req.proposerIndex blockHash signature)
    | _, _ => none
  | .background task => some (.background task)

theorem blockHash_of_serves {R : Relay} {req : Proto.SubmitBlindedBlockRequest}
    {slot proposerIndex : UInt64} {blockHash : B256} {signature : BlsSignature}
    (h : serves R (.submitBlindedBlock req) =
      some (.unblindBlock slot proposerIndex blockHash signature)) :
    blockHash.bytes = req.blockHash := by
  simp only [serves] at h
  split at h
  · next hslice hsig =>
    cases h
    exact FixedBytes.bytes_of_ofSlice? hslice
  · cases h

/-- A `Retrieve` response: its header is that of the bid read last within `GetHeader`, its payload
and blobs are those of the bid read once more after that. -/
structure Retrieved (msg : Proto.RetrieveRequest) (tr : List StoreEvent)
    (resp : Proto.RetrieveResponse) (first : Arc BidSubmission)
    (second : Except AuctioneerError (Arc BidSubmission)) : Prop where
  served : ∃ parentHash proposerPubkey tr₁,
    serves R (.retrieve msg) = some (.getHeader msg.slot parentHash proposerPubkey) ∧
      GetHeaderUseCase.ServedFrom R msg.slot parentHash proposerPubkey tr₁ first ∧
      tr = tr₁ ++ [⟨.getBestBid msg.slot, second⟩]
  resp_eq : resp = RetrieverService.response serde
    (GetHeaderUseCase.signedHeader R first.val) second.toOption

/-- A `SubmitBlindedBlock` response: payload and blobs are those of what `UnblindBlock` returned. -/
structure Unblinded (req : Proto.SubmitBlindedBlockRequest) (tr : List StoreEvent)
    (resp : Proto.BlindedBlockResponse) (stored : BlindedBlockResponse) : Prop where
  checked : ∃ blockHash signature duty,
    serves R (.submitBlindedBlock req) =
        some (.unblindBlock req.slot req.proposerIndex blockHash signature) ∧
      UnblindBlockUseCase.Checked R req.slot req.proposerIndex blockHash signature tr duty stored
  payload_eq : serde.payload stored.executionPayload = .ok resp.executionPayload
  blobs_eq : resp.blobsBundle =
    (stored.blobsBundle.map fun b => unwrapOrDefault (serde.blobs b)).getD []

/-- What the outputs are made of. -/
def Returns : Request → List StoreEvent → Output → Prop
  | .bid _, _, .bid _ => True
  | .registerValidator _, _, .registerValidator _ => True
  | .retrieve msg, tr, .retrieve result =>
    ∀ resp, result = .ok resp → ∃ first second, Retrieved R serde msg tr resp first second
  | .submitBlindedBlock req, tr, .submitBlindedBlock result =>
    ∀ resp, result = .ok resp → ∃ stored, Unblinded R serde req tr resp stored
  | .background _, _, .background _ => True
  | _, _, _ => False

/-- Only a `Retrieve` request has a `Retrieve` response. -/
theorem returns_retrieve {R : Relay} {serde : Serde} {r : Request} {tr : List StoreEvent}
    {resp : Proto.RetrieveResponse} (h : Returns R serde r tr (.retrieve (.ok resp))) :
    ∃ msg first second, r = .retrieve msg ∧ Retrieved R serde msg tr resp first second := by
  cases r with
  | retrieve msg =>
    obtain ⟨first, second, hretrieved⟩ := h resp rfl
    exact ⟨msg, first, second, rfl, hretrieved⟩
  | bid msg => exact absurd h id
  | registerValidator req => exact absurd h id
  | submitBlindedBlock req => exact absurd h id
  | background task => exact absurd h id

theorem returns_submitBlindedBlock {R : Relay} {serde : Serde} {r : Request}
    {tr : List StoreEvent} {resp : Proto.BlindedBlockResponse}
    (h : Returns R serde r tr (.submitBlindedBlock (.ok resp))) :
    ∃ req stored, r = .submitBlindedBlock req ∧ Unblinded R serde req tr resp stored := by
  cases r with
  | submitBlindedBlock req =>
    obtain ⟨stored, hunblinded⟩ := h resp rfl
    exact ⟨req, stored, rfl, hunblinded⟩
  | bid msg => exact absurd h id
  | registerValidator req => exact absurd h id
  | retrieve msg => exact absurd h id
  | background task => exact absurd h id

/-! ### Each service keeps to its use case -/

/-- The calls of a use case, seen as calls of the request that gets to it. -/
theorem always_serves {α : Type} {r : Request} {c : MevRelay.Request} {p : StoreProg α}
    {Ψ : List StoreEvent → α → Prop} {tr : List StoreEvent} (hc : serves R r = some c)
    (h : p.Always (c.Calls R) Ψ tr) :
    p.Always (fun tr o => ∃ c ∈ serves R r, c.Calls R tr o) Ψ tr :=
  h.mono (fun _ _ ho => ⟨c, hc, ho⟩) (fun _ _ => id)

theorem bid_always (msg : Proto.BidRequest) :
    (BidderService.handleMessage R msg).Always
      (fun tr o => ∃ c ∈ serves R (.bid msg), c.Calls R tr o) (fun _ _ => True) [] := by
  unfold BidderService.handleMessage
  apply Prog.always_ofOption_bind
  intro converted hconverted
  cases converted with
  | error e => trivial
  | ok submission =>
    have hserves : serves R (.bid msg) = some (.submitBid submission) := by
      simp only [serves, hconverted]
    apply (always_serves R hserves (SubmitBidUseCase.execute_always R submission)).bind
    intro tr result _
    cases result <;> trivial

theorem registerValidator_always (req : Proto.RegisterValidatorRequest) :
    (ValidatorService.registerValidator R req).Always
      (fun tr o => ∃ c ∈ serves R (.registerValidator req), c.Calls R tr o)
      (fun _ _ => True) [] := by
  unfold ValidatorService.registerValidator
  cases hreq : req.registration with
  | none => trivial
  | some protoReg =>
    apply Prog.always_ofOption_bind
    intro converted hconverted
    cases converted with
    | error e => trivial
    | ok registration =>
      have hserves : serves R (.registerValidator req) =
          some (.registerValidator registration) := by
        simp only [serves, hreq, Option.map_some, hconverted]
      refine (always_serves R hserves
        (RegisterValidatorUseCase.execute_always R registration)).bind ?_
      intro tr result _
      cases result <;> trivial

theorem retrieve_always (msg : Proto.RetrieveRequest) :
    (RetrieverService.handleMessage R serde msg).Always
      (fun tr o => ∃ c ∈ serves R (.retrieve msg), c.Calls R tr o)
      (fun tr result => ∀ resp, result = .ok resp →
        ∃ first second, Retrieved R serde msg tr resp first second) [] := by
  unfold RetrieverService.handleMessage
  apply Prog.always_ofOption_bind
  intro parentHash hparent
  cases hkey : BlsPublicKey.deserialize R.prims msg.proposerPubkey with
  | error e =>
    intro resp h
    cases h
  | ok proposerPubkey =>
    have hserves : serves R (.retrieve msg) =
        some (.getHeader msg.slot parentHash proposerPubkey) := by
      simp only [serves, hparent, hkey]
    refine (always_serves R hserves (GetHeaderUseCase.execute_always R msg.slot parentHash
      proposerPubkey)).bind ?_
    intro tr result hreturns
    cases result with
    | error e =>
      intro resp h
      cases h
    | ok versioned =>
      obtain ⟨first, hserved, rfl⟩ := hreturns versioned rfl
      -- the second read is one more call that only reads
      refine ⟨⟨_, hserves, trivial⟩, ?_⟩
      intro second resp h
      cases h
      exact ⟨first, second, ⟨parentHash, proposerPubkey, tr, hserves, hserved, rfl⟩, rfl⟩

theorem submitBlindedBlock_always (req : Proto.SubmitBlindedBlockRequest) :
    (RetrieverService.submitBlindedBlock R serde req).Always
      (fun tr o => ∃ c ∈ serves R (.submitBlindedBlock req), c.Calls R tr o)
      (fun tr result => ∀ resp, result = .ok resp →
        ∃ stored, Unblinded R serde req tr resp stored) [] := by
  unfold RetrieverService.submitBlindedBlock
  apply Prog.always_ofOption_bind
  intro blockHash hhash
  cases hsig : BlsSignature.deserialize R.prims req.signature with
  | error e =>
    intro resp h
    cases h
  | ok signature =>
    have hserves : serves R (.submitBlindedBlock req) =
        some (.unblindBlock req.slot req.proposerIndex blockHash signature) := by
      simp only [serves, hhash, hsig]
    refine (always_serves R hserves (UnblindBlockUseCase.execute_always R req.slot
      req.proposerIndex blockHash signature)).bind ?_
    intro tr result hreturns
    cases result with
    | error e =>
      intro resp h
      cases h
    | ok stored =>
      obtain ⟨-, duty, hchecked⟩ := hreturns stored rfl
      show (match serde.payload stored.executionPayload with
        | .error e => _
        | .ok executionPayload => _ : StoreProg _).Always _ _ tr
      cases hpayload : serde.payload stored.executionPayload with
      | error e =>
        intro resp h
        cases h
      | ok executionPayload =>
        intro resp h
        cases h
        exact ⟨stored, ⟨blockHash, signature, duty, hserves, hchecked⟩, hpayload, rfl⟩

theorem program_always (r : Request) :
    (program R serde r).Always (fun tr o => ∃ c ∈ serves R r, c.Calls R tr o)
      (Returns R serde r) [] := by
  cases r with
  | bid msg =>
    apply Prog.Always.map
    exact bid_always R msg
  | registerValidator req =>
    apply Prog.Always.map
    exact registerValidator_always R req
  | retrieve msg =>
    apply Prog.Always.map
    exact retrieve_always R serde msg
  | submitBlindedBlock req =>
    apply Prog.Always.map
    exact submitBlindedBlock_always R serde req
  | background task =>
    apply Prog.Always.map
    exact always_serves R rfl (RelayService.handle_always R task)

end Rpc

end Services

/-- The relay behind its gRPC services. -/
def Relay.api (R : Relay) (serde : Serde) : R.Frontend Rpc.Request Rpc.Output where
  program := Rpc.program R serde
  serves := Rpc.serves R
  Returns := Rpc.Returns R serde
  always := Rpc.program_always R serde

/-- A request to a service being served. -/
abbrev RpcThread := Thread StoreOp StoreOp.Ans Rpc.Request Rpc.Output

/-- The services with all requests that have arrived. -/
abbrev RpcPool := Pool StoreOp StoreOp.Ans Rpc.Request Rpc.Output Store

/-! ## Requests of the small relay -/

namespace Sample

/-- Header and payload are sent as their block hashes, blobs as a mark. -/
def serde : Serde where
  header v := .ok v.data.message.blockHash.bytes
  payload p := .ok p.blockHash.bytes
  blobs _ := .ok [0]

/-- The message for `bid slot value n`, for values 1 and 2. -/
def bidMessage (slot : UInt64) (value : U256) (n : UInt8) : Proto.BidRequest where
  bidTrace := some
    { slot := slot
      parentHash := List.replicate 32 0
      blockHash := List.replicate 32 n
      builderPubkey := (prims.skToPk builder).compressed.bytes
      proposerPubkey := (prims.skToPk proposer).compressed.bytes
      proposerFeeRecipient := List.replicate 20 0
      gasLimit := 0
      gasUsed := 0
      value := if value = 2 then "2" else "1" }
  executionPayload := some
    { parentHash := List.replicate 32 0
      stateRoot := List.replicate 32 0
      receiptsRoot := List.replicate 32 0
      logsBloom := List.replicate 256 0
      prevRandao := List.replicate 32 0
      extraData := []
      baseFeePerGas := []
      feeRecipient := List.replicate 20 0
      blockHash := List.replicate 32 n
      transactions := []
      withdrawals := []
      blockNumber := 0
      gasLimit := 0
      timestamp := 0
      gasUsed := 0
      blobGasUsed := 0
      excessBlobGas := 0 }
  signature := (bid slot value n).signature.compressed.bytes
  blobsBundle := none

example : (BidSubmission.tryFrom prims (bidMessage 2 1 1)).run = some (.ok (bid 2 1 1)) := by
  decide +kernel

/-- The message for `registration`. -/
def registerMessage : Proto.RegisterValidatorRequest where
  registration := some
    { message := some
        { feeRecipient := List.replicate 20 0
          gasLimit := 0
          timestamp := 0
          pubkey := (prims.skToPk proposer).compressed.bytes }
      signature := registration.signature.compressed.bytes }

/-- The proposer asks for the header of `slot`. -/
def retrieveMessage (slot : UInt64) : Proto.RetrieveRequest where
  slot := slot
  parentHash := List.replicate 32 0
  proposerPubkey := (prims.skToPk proposer).compressed.bytes

/-- The relay of the examples, with slot 2 next and one bid in. -/
def withBid (value : U256) (n : UInt8) : Store :=
  relay.system.final (Store.new whitelist) (ready ++ [.submitBid (bid 2 value n)])

/-- A `Retrieve` and a bid arrive; the steps are given by thread. -/
def retrieveRace (value : U256) (n : UInt8) (steps : List Nat) : List (Action Rpc.Request UInt64) :=
  .arrive (.retrieve (retrieveMessage 2)) :: .arrive (.bid (bidMessage 2 value n)) ::
    steps.map .step

/-- The proposer commits to the block with hash `n, n, ...`. -/
def commitMessage (slot : UInt64) (n : UInt8) : Proto.SubmitBlindedBlockRequest where
  slot := slot
  proposerIndex := 5
  blockHash := List.replicate 32 n
  signature := (commitment slot n).compressed.bytes

/-- The proposer registers, slot 2 comes next, a builder bids for it, and the proposer asks for the
header and commits to the block, one after the other. -/
def session : List Rpc.Request :=
  [.registerValidator registerMessage, .background (.headEvent ⟨1, "", false, false⟩ beacon),
    .bid (bidMessage 2 1 1), .retrieve (retrieveMessage 2), .submitBlindedBlock (commitMessage 2 1)]

/-- The first `n` requests of the session, each with enough steps to end. -/
def sessionUpTo (n : Nat) : List (Action Rpc.Request UInt64) :=
  (session.take n).map .arrive ++ (List.range n).flatMap fun i => List.replicate 7 (.step i)

end Sample

end MevRelay
