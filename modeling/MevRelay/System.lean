import MevRelay.RelayService
import MevRelay.UseCase.GetHeader
import MevRelay.UseCase.RegisterValidator
import MevRelay.UseCase.SubmitBid
import MevRelay.UseCase.UnblindBlock

/-!
# The relay as a system of requests

Everything that makes the relay act is a `Request`: a call of one of the four use cases, or an event,
a poll or a duty sync of the background task. `Relay.system` puts the programs of all of them over
the shared store; the environment may let cache entries expire. Its two kinds of runs are those of
`Atomic.System`: arbitrary interleavings, and one request after the other.

`program_always` says which request makes which call, after which reads. What is proved from it alone
holds for every `Frontend`: anything that drives the relay by requests of its own, such as the gRPC
services.
-/

namespace MevRelay

open Atomic

inductive Request where
  | registerValidator (registration : SignedValidatorRegistration)
  | submitBid (bid : BidSubmission)
  | getHeader (slot : UInt64) (parentHash : B256) (proposerPubkey : BlsPublicKey)
  | unblindBlock (slot proposerIndex : UInt64) (blockHash : B256) (signature : BlsSignature)
  | background (task : RelayService.Task)

/-- What the program of a request returns. -/
inductive Response where
  | registerValidator (result : Except UseCaseError Unit)
  | submitBid (result : Except UseCaseError Unit)
  | getHeader (result : Except UseCaseError (Versioned SignedHeader))
  | unblindBlock (result : Except UseCaseError BlindedBlockResponse)
  | background (done : Unit)

namespace Relay

variable (R : Relay)

/-- The program that serves a request. -/
def program : Request → StoreProg Response
  | .registerValidator registration =>
    .registerValidator <$> RegisterValidatorUseCase.execute R registration
  | .submitBid bid => .submitBid <$> SubmitBidUseCase.execute R bid
  | .getHeader slot parentHash proposerPubkey =>
    .getHeader <$> GetHeaderUseCase.execute R slot parentHash proposerPubkey
  | .unblindBlock slot proposerIndex blockHash signature =>
    .unblindBlock <$> UnblindBlockUseCase.execute R slot proposerIndex blockHash signature
  | .background task => .background <$> RelayService.handle R task

/-- The relay over its store. The environment lets the cache entry of a slot expire. -/
def system : System StoreOp StoreOp.Ans Request Response Store UInt64 where
  exec := Store.exec
  program := R.program
  disturb := fun slot s => s.expire slot

end Relay

/-! ## Which request makes which call -/

/-- The calls a request may make after a trace. -/
def Request.Calls (R : Relay) : Request → List StoreEvent → StoreOp → Prop
  | .registerValidator registration, _ => RegisterValidatorUseCase.Calls R registration
  | .submitBid bid, tr => SubmitBidUseCase.Calls R bid tr
  | .getHeader _ _ _, _ => StoreOp.IsRead
  | .unblindBlock slot proposerIndex blockHash signature, tr =>
    UnblindBlockUseCase.Calls R slot proposerIndex blockHash signature tr
  | .background _, tr => RelayService.Calls tr

/-- What the traces of requests say about their results. -/
def Request.Returns (R : Relay) : Request → List StoreEvent → Response → Prop
  | .submitBid bid, tr, .submitBid result => SubmitBidUseCase.Returns bid tr result
  | .getHeader slot parentHash proposerPubkey, tr, .getHeader result =>
    GetHeaderUseCase.Returns R slot parentHash proposerPubkey tr result
  | .unblindBlock slot proposerIndex blockHash signature, tr, .unblindBlock result =>
    UnblindBlockUseCase.Returns R slot proposerIndex blockHash signature tr result
  | .registerValidator _, _, .registerValidator _ => True
  | .background _, _, .background _ => True
  | _, _, _ => False

theorem Relay.program_always (R : Relay) (r : Request) :
    (R.program r).Always (r.Calls R) (r.Returns R) [] := by
  cases r with
  | registerValidator registration =>
    apply Prog.Always.map
    exact RegisterValidatorUseCase.execute_always R registration
  | submitBid bid =>
    apply Prog.Always.map
    exact SubmitBidUseCase.execute_always R bid
  | getHeader slot parentHash proposerPubkey =>
    apply Prog.Always.map
    exact GetHeaderUseCase.execute_always R slot parentHash proposerPubkey
  | unblindBlock slot proposerIndex blockHash signature =>
    apply Prog.Always.map
    exact UnblindBlockUseCase.execute_always R slot proposerIndex blockHash signature
  | background task =>
    apply Prog.Always.map
    exact RelayService.handle_always R task

/-! ### Who makes a given write -/

namespace Request

variable {R : Relay} {r : Request} {tr : List StoreEvent}

theorem calls_compareAndBid {slot : UInt64} {bid : BidSubmission}
    (h : r.Calls R tr (.compareAndBid slot bid)) :
    r = .submitBid bid ∧ slot = bid.message.slot ∧ ∃ duty, SubmitBidUseCase.Checked R bid tr duty := by
  cases r with
  | submitBid bid' =>
    obtain ⟨rfl, rfl, hchecked, -⟩ := h
    exact ⟨rfl, rfl, hchecked⟩
  | _ => exact absurd h id

theorem calls_setBlindedBlockResponse {proposer : BlsPublicKey} {resp : BlindedBlockResponse}
    (h : r.Calls R tr (.setBlindedBlockResponse proposer resp)) :
    ∃ bid, r = .submitBid bid ∧ resp = bid.toBlindedBlockResponse ∧
      (∃ duty, SubmitBidUseCase.Checked R bid tr duty ∧ duty.pubkey = proposer) ∧
      ⟨.compareAndBid bid.message.slot bid, .ok ()⟩ ∈ tr := by
  cases r with
  | submitBid bid => exact ⟨bid, rfl, h⟩
  | _ => exact absurd h id

theorem calls_setValidatorRegistration {key : BlsPublicKey} {reg : ValidatorRegistration}
    (h : r.Calls R tr (.setValidatorRegistration key reg)) :
    ∃ registration, r = .registerValidator registration ∧ key = registration.message.pubkey ∧
      reg = registration.message ∧ registration.verifySignature R.prims R.builderDomain = true := by
  cases r with
  | registerValidator registration => exact ⟨registration, rfl, h⟩
  | _ => exact absurd h id

theorem calls_setProposerDuties {duties : List ProposerDuty}
    (h : r.Calls R tr (.setProposerDuties duties)) : RelayService.AllRegistered tr duties := by
  cases r with
  | background task => exact h
  | _ => exact absurd h id

theorem calls_background {o : StoreOp} (h : r.Calls R tr o) (ho : o.IsBackground) :
    ∃ task, r = .background task := by
  cases r with
  | background task => exact ⟨task, rfl⟩
  | _ => cases o <;> first | exact absurd ho id | exact absurd h id

theorem calls_setDeliveredBlocks {blockHash : B256}
    (h : r.Calls R tr (.setDeliveredBlocks blockHash)) :
    ∃ slot proposerIndex signature, r = .unblindBlock slot proposerIndex blockHash signature ∧
      ∃ duty resp, UnblindBlockUseCase.Checked R slot proposerIndex blockHash signature tr duty
        resp := by
  cases r with
  | unblindBlock slot proposerIndex blockHash' signature =>
    obtain ⟨rfl, hchecked⟩ := h
    exact ⟨slot, proposerIndex, signature, rfl, hchecked⟩
  | _ => exact absurd h id

end Request

/-! ## Frontends -/

/-- A way to drive the relay by requests `Req`, each of which makes the calls of at most one request
of the relay. -/
structure Relay.Frontend (R : Relay) (Req α : Type) where
  program : Req → StoreProg α
  /-- The relay request that is made, if any. -/
  serves : Req → Option Request
  Returns : Req → List StoreEvent → α → Prop
  always : ∀ r, (program r).Always (fun tr o => ∃ c ∈ serves r, c.Calls R tr o) (Returns r) []

namespace Relay

/-- A frontend over the store. -/
def Frontend.system {R : Relay} {Req α : Type} (F : R.Frontend Req α) :
    System StoreOp StoreOp.Ans Req α Store UInt64 where
  exec := Store.exec
  program := F.program
  disturb := fun slot s => s.expire slot

/-- The relay itself. -/
def frontend (R : Relay) : R.Frontend Request Response where
  program := R.program
  serves := some
  Returns := Request.Returns R
  always := fun r => (R.program_always r).mono (fun _ _ h => ⟨r, rfl, h⟩) (fun _ _ => id)

end Relay

/-! ## A small relay

Concrete requests for the examples and counterexamples of the later modules. The scheme is a toy, but
it rejects what the right key did not sign. -/

namespace Sample

/-- A signature is the secret key followed by the message; the public key shows the secret one. -/
def prims : Primitives where
  hash32Concat a b := .copyFrom (a.bytes.take 16 ++ b.bytes.take 16)
  keccak256 := .copyFrom
  verify signature key msg :=
    signature.compressed = .copyFrom (key.compressed.bytes.take 32 ++ msg)
  sign key msg := ⟨.copyFrom (key.key.bytes ++ msg)⟩
  skToPk key := ⟨.copyFrom key.key.bytes⟩
  keyValidate bytes := .ok ⟨bytes⟩
  signatureFromBytes bytes := .ok ⟨bytes⟩
  parseU256 text := .ok (if text = "2" then 2 else 1)
  parseB256 _ := .ok default
  parseAddress _ := .ok default

/-- What `sign` produced, `verify` accepts. -/
theorem verify_sign (key : BlsSecretKey) (msg : List UInt8) :
    prims.verify (prims.sign key msg) (prims.skToPk key) msg = true := by
  have h : (FixedBytes.copyFrom key.key.bytes : FixedBytes 48).bytes.take 32 = key.key.bytes := by
    have hlen := key.key.length_eq
    simp [FixedBytes.copyFrom, List.take_append, hlen, List.take_of_length_le]
  simp only [prims, h, decide_true]

def relay : Relay where
  prims := prims
  build := ⟨false⟩
  forkDatas := default
  secretKey := ⟨.repeatByte 9⟩
  chain := .deneb
  slotsPerEpoch := 32

def builder : BlsSecretKey := ⟨.repeatByte 7⟩

def proposer : BlsSecretKey := ⟨.repeatByte 3⟩

def whitelist : List BlsPublicKey := [prims.skToPk builder]

/-- The proposer registers. -/
def registration : SignedValidatorRegistration :=
  let message : ValidatorRegistration :=
    { (default : ValidatorRegistration) with pubkey := prims.skToPk proposer }
  { message := message
    signature := prims.sign proposer
      (signingRoot prims (message.treeHashRoot prims) relay.builderDomain).bytes }

/-- The proposer registers again, with a timestamp. -/
def registrationAt (timestamp : UInt64) : SignedValidatorRegistration :=
  let message : ValidatorRegistration := { registration.message with timestamp := timestamp }
  { message := message
    signature := prims.sign proposer
      (signingRoot prims (message.treeHashRoot prims) relay.builderDomain).bytes }

/-- Validator 5 is to propose in slots 2 and 3. -/
def beacon : Beacon := fun epoch =>
  .ok (if epoch = 0 then
    [⟨prims.skToPk proposer, 5, 2⟩, ⟨prims.skToPk proposer, 5, 3⟩]
  else [])

/-- The head moves to `slot`. -/
def head (slot : UInt64) : Request := .background (.headEvent ⟨slot, "", false, false⟩ beacon)

/-- The beacon node announces the attributes of `slot`, with a zero randao. -/
def attributes (slot : UInt64) : Request :=
  .background (.payloadAttributesEvent
    { version := "deneb"
      data :=
        { proposalSlot := slot
          parentBlockHash := ""
          payloadAttributes :=
            { timestamp := 0
              prevRandao := "0x0000000000000000000000000000000000000000000000000000000000000000"
              suggestedFeeRecipient := "0x0000000000000000000000000000000000000000" } } })

/-- A signed bid for `slot`; the block hashes of its trace and its payload may differ. -/
def bidFor (slot : UInt64) (value : U256) (traceHash payloadHash : B256) : BidSubmission :=
  let message : BidTrace :=
    { (default : BidTrace) with
      slot := slot
      value := value
      blockHash := traceHash
      builderPubkey := prims.skToPk builder
      proposerPubkey := prims.skToPk proposer }
  { message := message
    executionPayload := { (default : ExecutionPayload) with blockHash := payloadHash }
    blobsBundle := default
    signature := prims.sign builder
      (signingRoot prims (message.treeHashRoot prims) relay.builderDomain).bytes }

/-- A bid for the block with hash `n, n, ...`. -/
def bid (slot : UInt64) (value : U256) (n : UInt8) : BidSubmission :=
  bidFor slot value (.repeatByte n) (.repeatByte n)

/-- The proposer asks for the header of `slot`. -/
def askHeader (slot : UInt64) : Request := .getHeader slot default (prims.skToPk proposer)

/-- The proposer's signature over the blinded block with hash `n, n, ...`. -/
def commitment (slot : UInt64) (n : UInt8) : BlsSignature :=
  prims.sign proposer
    (blindedBlockSigningRoot prims slot 5 (.repeatByte n) relay.proposerDomain)

/-- The proposer commits to the block with hash `n, n, ...`. -/
def unblind (slot : UInt64) (n : UInt8) : Request :=
  .unblindBlock slot 5 (.repeatByte n) (commitment slot n)

/-- The proposer registers, then slot 2 is next. -/
def ready : List Request := [.registerValidator registration, head 1]

end Sample

end MevRelay
