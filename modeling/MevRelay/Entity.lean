import MevRelay.Crypto

/-!
# The entity crate

The domain types with their signing roots, and the two functions that turn a bid into what the relay
hands out: the header a proposer signs (`SignedHeader.buildHeader`) and the full block it gets back
(`BidSubmission.toBlindedBlockResponse`).
-/

namespace MevRelay

/-! ## Slots -/

structure HeadSlot where
  slot : UInt64
  deriving DecidableEq, Repr, Inhabited

namespace HeadSlot

/-- `self.0 + 1 == proposal_slot`; `none` is the overflow panic of a checked build. -/
def isNextSlot (build : Build) (head : HeadSlot) (proposalSlot : UInt64) : Option Bool :=
  (build.addU64 head.slot 1).map (· == proposalSlot)

/-- `self.0 % slots_per_epoch == 1`; `none` is the panic of a zero divisor. -/
def isDutyRefreshSlot (head : HeadSlot) (slotsPerEpoch : UInt64) : Option Bool :=
  (remU64 head.slot slotsPerEpoch).map (· == 1)

/-- `self.0 / slots_per_epoch`. -/
def epoch (head : HeadSlot) (slotsPerEpoch : UInt64) : Option UInt64 :=
  divU64 head.slot slotsPerEpoch

variable {slotsPerEpoch : UInt64}

theorem isDutyRefreshSlot_of_ne (h : slotsPerEpoch ≠ 0) (head : HeadSlot) :
    head.isDutyRefreshSlot slotsPerEpoch = some (head.slot % slotsPerEpoch == 1) := by
  unfold isDutyRefreshSlot remU64
  rw [if_neg h, Option.map_some]

theorem epoch_of_ne (h : slotsPerEpoch ≠ 0) (head : HeadSlot) :
    head.epoch slotsPerEpoch = some (head.slot / slotsPerEpoch) := if_neg h

theorem isDutyRefreshSlot_eq_none_iff {head : HeadSlot} :
    head.isDutyRefreshSlot slotsPerEpoch = none ↔ slotsPerEpoch = 0 := by
  unfold isDutyRefreshSlot remU64
  simp

theorem epoch_eq_none_iff {head : HeadSlot} :
    head.epoch slotsPerEpoch = none ↔ slotsPerEpoch = 0 := by
  unfold epoch divU64
  simp

end HeadSlot

/-! ## Payloads and headers -/

structure Withdrawal where
  index : UInt64
  validatorIndex : UInt64
  address : Address
  amount : UInt64
  deriving DecidableEq, Repr

abbrev Transaction := VariableList UInt8 1073741824

structure ExecutionPayload where
  parentHash : B256
  feeRecipient : Address
  stateRoot : B256
  receiptsRoot : B256
  logsBloom : FixedBytes 256
  prevRandao : B256
  blockNumber : UInt64
  gasLimit : UInt64
  gasUsed : UInt64
  timestamp : UInt64
  extraData : VariableList UInt8 32
  baseFeePerGas : U256
  blockHash : B256
  transactions : VariableList Transaction 1048576
  withdrawals : VariableList Withdrawal 16
  blobGasUsed : UInt64
  excessBlobGas : UInt64
  deriving DecidableEq, Repr, Inhabited

structure ExecutionPayloadHeader where
  parentHash : B256
  feeRecipient : Address
  stateRoot : B256
  receiptsRoot : B256
  logsBloom : FixedBytes 256
  prevRandao : B256
  blockNumber : UInt64
  gasLimit : UInt64
  gasUsed : UInt64
  timestamp : UInt64
  extraData : VariableList UInt8 32
  baseFeePerGas : U256
  blockHash : B256
  transactionsRoot : B256
  withdrawalsRoot : B256
  blobGasUsed : UInt64
  excessBlobGas : UInt64
  deriving DecidableEq, Repr

structure BlobsBundle where
  commitments : List (FixedBytes 48)
  proofs : List (FixedBytes 48)
  blobs : List (FixedBytes 131072)
  deriving DecidableEq, Repr, Inhabited

section TreeHashRoots

variable (P : Primitives)

def Withdrawal.treeHashRoot (w : Withdrawal) : B256 :=
  TreeHash.container P
    [TreeHash.u64 w.index, TreeHash.u64 w.validatorIndex, TreeHash.address w.address,
      TreeHash.u64 w.amount]

/-- `payload.transactions.tree_hash_root()`. -/
def ExecutionPayload.transactionsRoot (p : ExecutionPayload) : B256 :=
  TreeHash.list P (TreeHash.byteList P) p.transactions

/-- `payload.withdrawals.tree_hash_root()`. -/
def ExecutionPayload.withdrawalsRoot (p : ExecutionPayload) : B256 :=
  TreeHash.list P (Withdrawal.treeHashRoot P) p.withdrawals

def ExecutionPayload.treeHashRoot (p : ExecutionPayload) : B256 :=
  TreeHash.container P
    [p.parentHash, TreeHash.address p.feeRecipient, p.stateRoot, p.receiptsRoot,
      TreeHash.byteVector P 256 p.logsBloom.bytes, p.prevRandao, TreeHash.u64 p.blockNumber,
      TreeHash.u64 p.gasLimit, TreeHash.u64 p.gasUsed, TreeHash.u64 p.timestamp,
      TreeHash.byteList P p.extraData, TreeHash.u256 p.baseFeePerGas, p.blockHash,
      p.transactionsRoot P, p.withdrawalsRoot P, TreeHash.u64 p.blobGasUsed,
      TreeHash.u64 p.excessBlobGas]

def ExecutionPayloadHeader.treeHashRoot (h : ExecutionPayloadHeader) : B256 :=
  TreeHash.container P
    [h.parentHash, TreeHash.address h.feeRecipient, h.stateRoot, h.receiptsRoot,
      TreeHash.byteVector P 256 h.logsBloom.bytes, h.prevRandao, TreeHash.u64 h.blockNumber,
      TreeHash.u64 h.gasLimit, TreeHash.u64 h.gasUsed, TreeHash.u64 h.timestamp,
      TreeHash.byteList P h.extraData, TreeHash.u256 h.baseFeePerGas, h.blockHash,
      h.transactionsRoot, h.withdrawalsRoot, TreeHash.u64 h.blobGasUsed,
      TreeHash.u64 h.excessBlobGas]

end TreeHashRoots

/-! ## Bids -/

structure BidTrace where
  slot : UInt64
  parentHash : B256
  blockHash : B256
  builderPubkey : BlsPublicKey
  proposerPubkey : BlsPublicKey
  proposerFeeRecipient : Address
  gasLimit : UInt64
  gasUsed : UInt64
  value : U256
  deriving DecidableEq, Repr, Inhabited

namespace BidTrace

variable (P : Primitives) (trace : BidTrace)

def treeHashRoot : B256 :=
  TreeHash.container P
    [TreeHash.u64 trace.slot, trace.parentHash, trace.blockHash,
      TreeHash.publicKey P trace.builderPubkey, TreeHash.publicKey P trace.proposerPubkey,
      TreeHash.address trace.proposerFeeRecipient, TreeHash.u64 trace.gasLimit,
      TreeHash.u64 trace.gasUsed, TreeHash.u256 trace.value]

def verifySignature (signature : BlsSignature) (domain : B256) : Bool :=
  P.verify signature trace.builderPubkey (signingRoot P (trace.treeHashRoot P) domain).bytes

end BidTrace

/-- What an unblinding hands out. -/
structure BlindedBlockResponse where
  executionPayload : ExecutionPayload
  blobsBundle : Option BlobsBundle
  deriving DecidableEq, Repr

structure BidSubmission where
  message : BidTrace
  executionPayload : ExecutionPayload
  blobsBundle : BlobsBundle
  signature : BlsSignature
  deriving DecidableEq, Repr, Inhabited

def BidSubmission.toBlindedBlockResponse (bid : BidSubmission) : BlindedBlockResponse where
  executionPayload := bid.executionPayload
  blobsBundle := some bid.blobsBundle

structure SignedHeader where
  message : ExecutionPayloadHeader
  signature : BlsSignature
  deriving DecidableEq, Repr

/-- `SignedHeader::build_header`: everything is copied from the payload, nothing from the trace. -/
def SignedHeader.buildHeader (P : Primitives) (bid : BidSubmission) : ExecutionPayloadHeader :=
  let payload := bid.executionPayload
  { parentHash := payload.parentHash
    feeRecipient := payload.feeRecipient
    stateRoot := payload.stateRoot
    receiptsRoot := payload.receiptsRoot
    logsBloom := payload.logsBloom
    prevRandao := payload.prevRandao
    blockNumber := payload.blockNumber
    gasLimit := payload.gasLimit
    gasUsed := payload.gasUsed
    timestamp := payload.timestamp
    extraData := payload.extraData
    baseFeePerGas := payload.baseFeePerGas
    blockHash := payload.blockHash
    transactionsRoot := payload.transactionsRoot P
    withdrawalsRoot := payload.withdrawalsRoot P
    blobGasUsed := payload.blobGasUsed
    excessBlobGas := payload.excessBlobGas }

structure Versioned (α : Type) where
  version : ForkName
  data : α
  deriving DecidableEq, Repr

/-! ## Validators, duties and beacon events -/

structure ValidatorRegistration where
  feeRecipient : Address
  gasLimit : UInt64
  timestamp : UInt64
  pubkey : BlsPublicKey
  deriving DecidableEq, Repr, Inhabited

def ValidatorRegistration.treeHashRoot (P : Primitives) (r : ValidatorRegistration) : B256 :=
  TreeHash.container P
    [TreeHash.address r.feeRecipient, TreeHash.u64 r.gasLimit, TreeHash.u64 r.timestamp,
      TreeHash.publicKey P r.pubkey]

structure SignedValidatorRegistration where
  message : ValidatorRegistration
  signature : BlsSignature
  deriving DecidableEq, Repr, Inhabited

def SignedValidatorRegistration.verifySignature (P : Primitives)
    (r : SignedValidatorRegistration) (domain : B256) : Bool :=
  P.verify r.signature r.message.pubkey (signingRoot P (r.message.treeHashRoot P) domain).bytes

structure ProposerDuty where
  pubkey : BlsPublicKey
  validatorIndex : UInt64
  slot : UInt64
  deriving DecidableEq, Repr, Inhabited

structure PayloadAttributes where
  timestamp : UInt64
  prevRandao : B256
  suggestedFeeRecipient : Address
  deriving DecidableEq, Repr

structure HeadEvent where
  slot : UInt64
  block : String
  epochTransition : Bool
  executionOptimistic : Bool
  deriving DecidableEq, Repr

structure InnerPayloadAttributes where
  timestamp : UInt64
  prevRandao : String
  suggestedFeeRecipient : String
  deriving DecidableEq, Repr

structure PayloadAttributesData where
  proposalSlot : UInt64
  parentBlockHash : String
  payloadAttributes : InnerPayloadAttributes
  deriving DecidableEq, Repr

structure PayloadAttributesEvent where
  version : String
  data : PayloadAttributesData
  deriving DecidableEq, Repr

inductive BeaconEvent where
  | head (event : HeadEvent)
  | payloadAttributes (event : PayloadAttributesEvent)
  deriving DecidableEq, Repr

end MevRelay
