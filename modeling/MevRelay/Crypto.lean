import MevRelay.Merkle
import MevRelay.Types

/-!
# The crypto crate

Keys, signatures, fork data and signing domains. What the crate takes from `blst`, from the hash
functions below `tree_hash` and from `alloy_primitives::keccak256` is collected in `Primitives` and
left open; everything the repository computes on top of them is written out. Keys and signatures are
their compressed bytes, which is what the source compares and hashes them by.
-/

namespace MevRelay

/-- `BlsPublicKey`, by its compressed form. -/
structure BlsPublicKey where
  compressed : FixedBytes 48
  deriving DecidableEq, Repr, Inhabited

/-- `BlsSignature`, by its compressed form. -/
structure BlsSignature where
  compressed : FixedBytes 96
  deriving DecidableEq, Repr, Inhabited

structure BlsSecretKey where
  key : FixedBytes 32
  deriving DecidableEq, Repr, Inhabited

/-- The functions of third-party crates that the crypto crate and `entity` call. -/
structure Primitives where
  /-- `ethereum_hashing::hash32_concat`, the inner node of every tree hash. -/
  hash32Concat : B256 → B256 → B256
  keccak256 : List UInt8 → B256
  /-- `blst::min_pk::Signature::verify` with the fixed `DST`, compared with `BLST_SUCCESS`. -/
  verify : BlsSignature → BlsPublicKey → List UInt8 → Bool
  /-- `blst::min_pk::SecretKey::sign` with the fixed `DST`. -/
  sign : BlsSecretKey → List UInt8 → BlsSignature
  /-- `blst::min_pk::SecretKey::sk_to_pk`. -/
  skToPk : BlsSecretKey → BlsPublicKey
  /-- `blst::min_pk::PublicKey::key_validate`, an error by its `Debug` text. -/
  keyValidate : FixedBytes 48 → Except String BlsPublicKey
  /-- `blst::min_pk::Signature::from_bytes`, an error by its `Debug` text. -/
  signatureFromBytes : FixedBytes 96 → Except String BlsSignature
  /-- `alloy_primitives::U256::from_str`, an error by its text. -/
  parseU256 : String → Except String U256
  /-- `alloy_primitives::B256::from_str`, an error by its text. -/
  parseB256 : String → Except String B256
  /-- `alloy_primitives::Address::from_str`, an error by its text. -/
  parseAddress : String → Except String Address

/-- `BlsPublicKey::deserialize`. -/
def BlsPublicKey.deserialize (P : Primitives) (bytes : List UInt8) : Except String BlsPublicKey :=
  match FixedBytes.ofSlice? 48 bytes with
  | none => .error "invalid length"
  | some arr => P.keyValidate arr

/-- `BlsSignature::deserialize`. -/
def BlsSignature.deserialize (P : Primitives) (bytes : List UInt8) : Except String BlsSignature :=
  match FixedBytes.ofSlice? 96 bytes with
  | none => .error "invalid signature bytes length"
  | some arr => P.signatureFromBytes arr

namespace TreeHash

variable (P : Primitives)

/-- `MerkleHasher::with_leaves(n)` fed with `leaves`. -/
def merkleHasher (n : Nat) (leaves : List B256) : B256 :=
  Merkle.root P.hash32Concat default (Merkle.depthFor n) leaves

/-- The derived root of a container: its fields' roots in declaration order. -/
def container (fields : List B256) : B256 := merkleHasher P fields.length fields

/-- `bytes` in 32-byte chunks, the last one filled with zeros. -/
def chunks (bytes : List UInt8) : List B256 :=
  (List.range ((bytes.length + 31) / 32)).map fun i => .copyFrom ((bytes.drop (32 * i)).take 32)

/-- A byte vector whose type has room for `n` bytes. -/
def byteVector (n : Nat) (bytes : List UInt8) : B256 :=
  merkleHasher P ((n + 31) / 32) (chunks bytes)

/-- `mix_in_length`. -/
def mixInLength (root : B256) (length : Nat) : B256 :=
  P.hash32Concat root (.copyFrom (leBytes 8 length))

def u64 (v : UInt64) : B256 := .copyFrom (leBytes 8 v.toNat)

def u256 (v : U256) : B256 := .copyFrom (leBytes 32 v.val)

def address (a : Address) : B256 := .copyFrom a.bytes

/-- The root of a public key is that of its 48 bytes. -/
def publicKey (k : BlsPublicKey) : B256 := byteVector P 48 k.compressed.bytes

/-- A list of bytes with room for `n`. -/
def byteList {n : Nat} (l : VariableList UInt8 n) : B256 :=
  mixInLength P (byteVector P n l.items) l.items.length

/-- A list of composite items with room for `n`. -/
def list {α : Type} {n : Nat} (itemRoot : α → B256) (l : VariableList α n) : B256 :=
  mixInLength P (merkleHasher P n (l.items.map itemRoot)) l.items.length

end TreeHash

/-- `SignedRoot::signing_root`: the root of `SigningData { object_root, domain }`. -/
def signingRoot (P : Primitives) (objectRoot domain : B256) : B256 :=
  TreeHash.container P [objectRoot, domain]

/-! ## Fork data and domains -/

structure ForkData where
  currentVersion : FixedBytes 4
  genesisValidatorsRoot : B256
  deriving DecidableEq, Repr, Inhabited

namespace ForkData

variable (P : Primitives) (fd : ForkData)

def treeHashRoot : B256 :=
  TreeHash.container P [.copyFrom fd.currentVersion.bytes, fd.genesisValidatorsRoot]

/-- Four bytes of domain type, then the first 28 bytes of the fork data root. -/
def computeDomain (domainType : List UInt8) : B256 :=
  .copyFrom (domainType ++ (fd.treeHashRoot P).bytes.take 28)

/-- `BuilderDomain::default()` is `[0, 0, 0, 1]`. -/
def computeBuilderDomain : B256 := fd.computeDomain P [0, 0, 0, 1]

/-- `ProposerDomain::default()` is `[0, 0, 0, 0]`. -/
def computeProposerDomain : B256 := fd.computeDomain P [0, 0, 0, 0]

end ForkData

structure ForkDatas where
  builder : ForkData
  proposer : ForkData
  deriving DecidableEq, Repr, Inhabited

def ForkDatas.computeBuilderDomain (P : Primitives) (fds : ForkDatas) : B256 :=
  fds.builder.computeBuilderDomain P

def ForkDatas.computeProposerDomain (P : Primitives) (fds : ForkDatas) : B256 :=
  fds.proposer.computeProposerDomain P

inductive ForkName where
  | bellatrix
  | capella
  | deneb
  | electra
  deriving DecidableEq, Repr

/-! ## The relay's signer -/

structure BlsSigner where
  secretKey : BlsSecretKey
  forkData : ForkDatas
  forkName : ForkName

namespace BlsSigner

variable (P : Primitives) (signer : BlsSigner)

/-- `BlsSigner::sign` of a message with tree hash root `objectRoot`, in the builder domain. -/
def sign (objectRoot : B256) : BlsSignature :=
  P.sign signer.secretKey
    (signingRoot P objectRoot (signer.forkData.computeBuilderDomain P)).bytes

def publicKey : BlsPublicKey := P.skToPk signer.secretKey

end BlsSigner

end MevRelay
