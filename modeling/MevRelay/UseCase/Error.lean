import MevRelay.Datastore.Store

/-!
# What the use cases share

The error type with its texts, and the values `run_inner` builds once and hands to every use case
and service.
-/

namespace MevRelay

inductive UseCaseError where
  | auctioneerError (e : AuctioneerError)
  | zeroBid
  | unauthorizedBuilder
  | unauthorizedGetHeader
  | invalidSlot
  | noBidFound
  | dutyNotFound
  | invalidBuilderSignature
  | invalidValidatorSignature
  | invalidPayloadAttributes (text : String)
  | proposerIndexMismatch (expected actual : UInt64)
  | noBlindedBlockResponse
  | unauthorizedSubmission
  | blockHashMismatch
  deriving DecidableEq, Repr

def UseCaseError.toString : UseCaseError → String
  | .auctioneerError e => "Auctioneer error: " ++ e.toString
  | .zeroBid => "bid value is zero"
  | .unauthorizedBuilder => "builder is not whitelisted"
  | .unauthorizedGetHeader => "unauthorized validator"
  | .invalidSlot => "bid slot is in the past"
  | .noBidFound => "no bid found for slot"
  | .dutyNotFound => "no proposer duty found for slot"
  | .invalidBuilderSignature => "invalid builder signature"
  | .invalidValidatorSignature => "invalid validator signature"
  | .invalidPayloadAttributes text => "invalid payload attributes: " ++ text
  | .proposerIndexMismatch expected actual =>
    "proposer index mismatch: expected " ++ Nat.repr expected.toNat ++ ", got " ++
      Nat.repr actual.toNat
  | .noBlindedBlockResponse => "no blinded block response found"
  | .unauthorizedSubmission => "validator not registered"
  | .blockHashMismatch => "block hash mismatch"

/-- The relay as configured: one set of fork data and one signing key serve all use cases. -/
structure Relay where
  prims : Primitives
  build : Build
  forkDatas : ForkDatas
  secretKey : BlsSecretKey
  chain : ForkName
  slotsPerEpoch : UInt64

namespace Relay

variable (R : Relay)

/-- `BlsSigner::new(config.bls_secret_key, fork_datas.clone(), config.chain)`. -/
def signer : BlsSigner := ⟨R.secretKey, R.forkDatas, R.chain⟩

def builderDomain : B256 := R.forkDatas.computeBuilderDomain R.prims

def proposerDomain : B256 := R.forkDatas.computeProposerDomain R.prims

end Relay

end MevRelay
