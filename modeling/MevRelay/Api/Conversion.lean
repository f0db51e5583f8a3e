import MevRelay.Entity

/-!
# From protobuf messages to entities

The messages of the three gRPC services, and the `TryFrom` conversions of the ones that carry
entities. A conversion goes through the fields in the order of the source and stops at the first
error; decoding the base fee is the one place where it can panic instead.
-/

namespace MevRelay

/-! ## Messages -/

namespace Proto

structure BidTrace where
  slot : UInt64
  parentHash : List UInt8
  blockHash : List UInt8
  builderPubkey : List UInt8
  proposerPubkey : List UInt8
  proposerFeeRecipient : List UInt8
  gasLimit : UInt64
  gasUsed : UInt64
  value : String

structure Withdrawal where
  index : UInt64
  validatorIndex : UInt64
  address : List UInt8
  amount : UInt64

structure ExecutionPayload where
  parentHash : List UInt8
  stateRoot : List UInt8
  receiptsRoot : List UInt8
  logsBloom : List UInt8
  prevRandao : List UInt8
  extraData : List UInt8
  baseFeePerGas : List UInt8
  feeRecipient : List UInt8
  blockHash : List UInt8
  transactions : List (List UInt8)
  withdrawals : List Withdrawal
  blockNumber : UInt64
  gasLimit : UInt64
  timestamp : UInt64
  gasUsed : UInt64
  blobGasUsed : UInt64
  excessBlobGas : UInt64

structure BlobsBundle where
  commitments : List (List UInt8)
  proofs : List (List UInt8)
  blobs : List (List UInt8)
  deriving Inhabited

structure BidRequest where
  bidTrace : Option BidTrace
  executionPayload : Option ExecutionPayload
  signature : List UInt8
  blobsBundle : Option BlobsBundle

structure BidResponse where
  code : Int
  message : String
  deriving DecidableEq, Repr

structure ValidatorRegistrationMessage where
  feeRecipient : List UInt8
  gasLimit : UInt64
  timestamp : UInt64
  pubkey : List UInt8

structure SignedValidatorRegistration where
  message : Option ValidatorRegistrationMessage
  signature : List UInt8

structure RegisterValidatorRequest where
  registration : Option SignedValidatorRegistration

structure RegisterValidatorResponse where
  code : Int
  message : String
  deriving DecidableEq, Repr

structure RetrieveRequest where
  slot : UInt64
  parentHash : List UInt8
  proposerPubkey : List UInt8

structure RetrieveResponse where
  signedHeader : List UInt8
  executionPayload : List UInt8
  blobsBundle : List UInt8
  deriving DecidableEq, Repr

structure SubmitBlindedBlockRequest where
  slot : UInt64
  proposerIndex : UInt64
  blockHash : List UInt8
  signature : List UInt8

structure BlindedBlockResponse where
  executionPayload : List UInt8
  blobsBundle : List UInt8
  blockHash : List UInt8
  deriving DecidableEq, Repr

end Proto

/-! ## Errors -/

inductive ConversionError where
  | hash (text : String)
  | address (text : String)
  | blsPublicKey (text : String)
  | blsSignature (text : String)
  | u256 (text : String)
  | fixedVector (text : String)
  | variableList (text : String)
  | missingField (field : String)
  | bytes48 (text : String)
  | blob (text : String)
  deriving DecidableEq, Repr

def ConversionError.toString : ConversionError → String
  | .hash text => "invalid hash: " ++ text
  | .address text => "invalid address: " ++ text
  | .blsPublicKey text => "invalid BLS public key: " ++ text
  | .blsSignature text => "invalid BLS signature: " ++ text
  | .u256 text => "invalid U256: " ++ text
  | .fixedVector text => "invalid fixed vector: " ++ text
  | .variableList text => "invalid variable list: " ++ text
  | .missingField field => "missing required field: " ++ field
  | .bytes48 text => "invalid bytes length for Bytes48: " ++ text
  | .blob text => "invalid bytes length for Blob: " ++ text

/-- A conversion: `none` is a panic. -/
abbrev Convert := ExceptT ConversionError Option

namespace Convert

/-- `map_err(ctor)?`. -/
def ofExcept {α : Type} (ctor : String → ConversionError) : Except String α → Convert α
  | .ok a => pure a
  | .error text => throw (ctor text)

/-- A computation that panics on `none`. -/
def orPanic {α : Type} : Option α → Convert α
  | some a => pure a
  | none => ExceptT.mk none

/-- The length checks of `bytes_to_b256` and its siblings. -/
def bytesTo (n : Nat) (ctor : String → ConversionError) (bytes : List UInt8) :
    Convert (FixedBytes n) :=
  match FixedBytes.ofSlice? n bytes with
  | some arr => pure arr
  | none =>
    throw (ctor ("expected " ++ Nat.repr n ++ " bytes, got " ++ Nat.repr bytes.length))

def bytesToB256 : List UInt8 → Convert B256 := bytesTo 32 .hash

def bytesToAddress : List UInt8 → Convert Address := bytesTo 20 .address

def bytesToBytes48 : List UInt8 → Convert (FixedBytes 48) := bytesTo 48 .bytes48

def bytesToBlob : List UInt8 → Convert (FixedBytes 131072) := bytesTo 131072 .blob

/-- `Debug` of `ssz_types::Error::OutOfBounds`. -/
def outOfBounds (i len : Nat) : String :=
  "OutOfBounds \x7b i: " ++ Nat.repr i ++ ", len: " ++ Nat.repr len ++ " \x7d"

/-- `FixedVector::new` with its error wrapped. -/
def fixedVector (n : Nat) (bytes : List UInt8) : Convert (FixedBytes n) :=
  match FixedBytes.ofSlice? n bytes with
  | some arr => pure arr
  | none => throw (.fixedVector (outOfBounds bytes.length n))

/-- `VariableList::new` with its error wrapped. -/
def variableList {α : Type} (n : Nat) (items : List α) : Convert (VariableList α n) :=
  if h : items.length ≤ n then pure ⟨items, h⟩
  else throw (.variableList (outOfBounds items.length n))

end Convert

/-! ## Conversions -/

section

variable (P : Primitives)

def BidTrace.tryFrom (t : Proto.BidTrace) : Convert BidTrace := do
  let parentHash ← Convert.bytesToB256 t.parentHash
  let blockHash ← Convert.bytesToB256 t.blockHash
  let builderPubkey ← Convert.ofExcept .blsPublicKey (BlsPublicKey.deserialize P t.builderPubkey)
  let proposerPubkey ← Convert.ofExcept .blsPublicKey (BlsPublicKey.deserialize P t.proposerPubkey)
  let proposerFeeRecipient ← Convert.bytesToAddress t.proposerFeeRecipient
  let value ← Convert.ofExcept .u256 (P.parseU256 t.value)
  return {
    slot := t.slot
    parentHash := parentHash
    blockHash := blockHash
    builderPubkey := builderPubkey
    proposerPubkey := proposerPubkey
    proposerFeeRecipient := proposerFeeRecipient
    gasLimit := t.gasLimit
    gasUsed := t.gasUsed
    value := value }

def Withdrawal.tryFrom (w : Proto.Withdrawal) : Convert Withdrawal := do
  let address ← Convert.bytesToAddress w.address
  return {
    index := w.index
    validatorIndex := w.validatorIndex
    address := address
    amount := w.amount }

def ExecutionPayload.tryFrom (p : Proto.ExecutionPayload) : Convert ExecutionPayload := do
  let parentHash ← Convert.bytesToB256 p.parentHash
  let feeRecipient ← Convert.bytesToAddress p.feeRecipient
  let stateRoot ← Convert.bytesToB256 p.stateRoot
  let receiptsRoot ← Convert.bytesToB256 p.receiptsRoot
  let logsBloom ← Convert.fixedVector 256 p.logsBloom
  let prevRandao ← Convert.bytesToB256 p.prevRandao
  let extraData ← Convert.variableList 32 p.extraData
  let baseFeePerGas ← Convert.orPanic (U256.fromBeSlice p.baseFeePerGas)
  let blockHash ← Convert.bytesToB256 p.blockHash
  let txs ← p.transactions.mapM (Convert.variableList 1073741824)
  let transactions ← Convert.variableList 1048576 txs
  let inner ← p.withdrawals.mapM Withdrawal.tryFrom
  let withdrawals ← Convert.variableList 16 inner
  return {
    parentHash := parentHash
    feeRecipient := feeRecipient
    stateRoot := stateRoot
    receiptsRoot := receiptsRoot
    logsBloom := logsBloom
    prevRandao := prevRandao
    blockNumber := p.blockNumber
    gasLimit := p.gasLimit
    gasUsed := p.gasUsed
    timestamp := p.timestamp
    extraData := extraData
    baseFeePerGas := baseFeePerGas
    blockHash := blockHash
    transactions := transactions
    withdrawals := withdrawals
    blobGasUsed := p.blobGasUsed
    excessBlobGas := p.excessBlobGas }

def BlobsBundle.tryFrom (b : Proto.BlobsBundle) : Convert BlobsBundle := do
  let commitments ← b.commitments.mapM Convert.bytesToBytes48
  let proofs ← b.proofs.mapM Convert.bytesToBytes48
  let blobs ← b.blobs.mapM Convert.bytesToBlob
  return ⟨commitments, proofs, blobs⟩

def BidSubmission.tryFrom (req : Proto.BidRequest) : Convert BidSubmission := do
  let some trace := req.bidTrace | throw (.missingField "bid_trace")
  let some payload := req.executionPayload | throw (.missingField "execution_payload")
  let blobs := req.blobsBundle.getD default
  let message ← BidTrace.tryFrom P trace
  let executionPayload ← ExecutionPayload.tryFrom payload
  let blobsBundle ← BlobsBundle.tryFrom blobs
  let signature ← Convert.ofExcept .blsSignature (BlsSignature.deserialize P req.signature)
  return ⟨message, executionPayload, blobsBundle, signature⟩

def SignedValidatorRegistration.tryFrom (s : Proto.SignedValidatorRegistration) :
    Convert SignedValidatorRegistration := do
  let some msg := s.message | throw (.missingField "message")
  let feeRecipient ← Convert.bytesToAddress msg.feeRecipient
  let pubkey ← Convert.ofExcept .blsPublicKey (BlsPublicKey.deserialize P msg.pubkey)
  let signature ← Convert.ofExcept .blsSignature (BlsSignature.deserialize P s.signature)
  return ⟨⟨feeRecipient, msg.gasLimit, msg.timestamp, pubkey⟩, signature⟩

end

end MevRelay
