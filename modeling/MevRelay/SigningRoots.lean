import MevRelay.System

/-!
# Roots and what they bind

The roots that are signed are Merkle roots over field encodings written by hand. Two facts about
them:

* the header that a proposer signs has the root of the full payload (`header_root_eq_payload_root`);
* a signing root binds every field of its message and the domain (`signing_roots_bind`).

SHA-256 and keccak256 are parameters, and as functions to 32 bytes they have collisions. The second
fact rests on the inputs that are hashed for the two roots compared: `hashedPairs` lists them per
message, and no two distinct ones of them may collide.
-/

namespace MevRelay

open Merkle (CollisionFree)

/-! ## Encodings of leaves -/

namespace FixedBytes

variable {n : Nat}

theorem eq_of_bytes {a b : FixedBytes n} (h : a.bytes = b.bytes) : a = b := by
  cases a
  cases b
  cases h
  rfl

/-- Zero padding loses nothing among byte strings of one length. -/
theorem copyFrom_injective {bytes bytes' : List UInt8} (hlen : bytes.length = bytes'.length)
    (hle : bytes.length ≤ n) (h : (copyFrom bytes : FixedBytes n) = copyFrom bytes') :
    bytes = bytes' := by
  have hfront : ∀ l : List UInt8, l.length ≤ n →
      (copyFrom l : FixedBytes n).bytes.take l.length = l := by
    intro l hl
    simp [copyFrom, List.take_take, Nat.min_eq_left hl]
  rw [← hfront bytes hle, ← hfront bytes' (hlen ▸ hle), h, hlen]

end FixedBytes

theorem length_leBytes (w v : Nat) : (leBytes w v).length = w := by
  simp [leBytes]

theorem leBytes_mod {w v v' : Nat} (h : leBytes w v = leBytes w v') :
    v % 256 ^ w = v' % 256 ^ w := by
  induction w with
  | zero => simp [Nat.mod_one]
  | succ w ih =>
    unfold leBytes at h ih
    rw [List.range_succ, List.map_append, List.map_append] at h
    obtain ⟨hinit, hlast⟩ := List.append_inj' h rfl
    -- the last byte is the digit of weight `256 ^ w`
    have hdigit : v / 256 ^ w % 256 = v' / 256 ^ w % 256 := by
      have hbyte := congrArg UInt8.toNat (List.cons.inj hlast).1
      simpa using hbyte
    rw [Nat.mod_pow_succ, Nat.mod_pow_succ, ih hinit, hdigit]

/-- A little-endian encoding determines the number, if the number fits. -/
theorem leBytes_injective {w v v' : Nat} (hv : v < 256 ^ w) (hv' : v' < 256 ^ w)
    (h : leBytes w v = leBytes w v') : v = v' := by
  have hmod := leBytes_mod h
  rwa [Nat.mod_eq_of_lt hv, Nat.mod_eq_of_lt hv'] at hmod

namespace TreeHash

theorem u64_injective {v v' : UInt64} (h : u64 v = u64 v') : v = v' := by
  have hbytes := FixedBytes.copyFrom_injective (by simp [length_leBytes])
    (by simp [length_leBytes]) h
  exact UInt64.toNat_inj.mp (leBytes_injective v.toNat_lt v'.toNat_lt hbytes)

theorem u256_injective {v v' : U256} (h : u256 v = u256 v') : v = v' := by
  have hbytes := FixedBytes.copyFrom_injective (by simp [length_leBytes])
    (by simp [length_leBytes]) h
  exact Fin.ext (leBytes_injective v.isLt v'.isLt hbytes)

theorem address_injective {a a' : Address} (h : address a = address a') : a = a' := by
  have hbytes := FixedBytes.copyFrom_injective (a.length_eq.trans a'.length_eq.symm)
    (by rw [a.length_eq]; decide) h
  exact FixedBytes.eq_of_bytes hbytes

theorem length_chunks (bytes : List UInt8) : (chunks bytes).length = (bytes.length + 31) / 32 := by
  simp [chunks]

/-- A byte string is read back from its chunks, index by index. -/
theorem chunks_injective {bytes bytes' : List UInt8} (hlen : bytes.length = bytes'.length)
    (h : chunks bytes = chunks bytes') : bytes = bytes' := by
  have hchunk : ∀ i, i < (bytes.length + 31) / 32 →
      (bytes.drop (32 * i)).take 32 = (bytes'.drop (32 * i)).take 32 := by
    intro i hi
    unfold chunks at h
    rw [← hlen, List.map_inj_left] at h
    refine FixedBytes.copyFrom_injective ?_ ?_ (h i (List.mem_range.mpr hi))
    · simp [hlen]
    · simp
  refine List.ext_getElem? fun j => ?_
  by_cases hj : j < bytes.length
  · have hslice := congrArg (·[j % 32]?) (hchunk (j / 32) (by omega))
    simpa [List.getElem?_take, Nat.mod_lt, Nat.div_add_mod] using hslice
  · rw [List.getElem?_eq_none (by omega), List.getElem?_eq_none (by omega)]

/-! ## What is hashed for a root -/

variable (P : Primitives)

/-- No two distinct ones of these nodes collide. -/
abbrev NoCollision (pairs : List (B256 × B256)) : Prop :=
  CollisionFree (fun x : B256 × B256 => P.hash32Concat x.1 x.2) pairs

def containerPairs (fields : List B256) : List (B256 × B256) :=
  Merkle.pairs P.hash32Concat default (Merkle.depthFor fields.length) fields

def byteVectorPairs (n : Nat) (bytes : List UInt8) : List (B256 × B256) :=
  Merkle.pairs P.hash32Concat default (Merkle.depthFor ((n + 31) / 32)) (chunks bytes)

def publicKeyPairs (k : BlsPublicKey) : List (B256 × B256) :=
  byteVectorPairs P 48 k.compressed.bytes

def byteListPairs {n : Nat} (l : VariableList UInt8 n) : List (B256 × B256) :=
  (byteVector P n l.items, .copyFrom (leBytes 8 l.items.length)) :: byteVectorPairs P n l.items

variable {P}

theorem container_injective {fields fields' : List B256} (hlen : fields.length = fields'.length)
    (hfree : NoCollision P (containerPairs P fields ++ containerPairs P fields'))
    (h : container P fields = container P fields') : fields = fields' := by
  unfold containerPairs at hfree
  unfold container merkleHasher at h
  rw [← hlen] at hfree h
  exact Merkle.root_injective hlen (Merkle.le_two_pow_depthFor _) hfree h

theorem byteVector_injective {n : Nat} {bytes bytes' : List UInt8}
    (hlen : bytes.length = bytes'.length) (hle : bytes.length ≤ n)
    (hfree : NoCollision P (byteVectorPairs P n bytes ++ byteVectorPairs P n bytes'))
    (h : byteVector P n bytes = byteVector P n bytes') : bytes = bytes' := by
  have hfit : (chunks bytes).length ≤ 2 ^ Merkle.depthFor ((n + 31) / 32) := by
    have hdepth := Merkle.le_two_pow_depthFor ((n + 31) / 32)
    rw [length_chunks]
    omega
  have hchunks : chunks bytes = chunks bytes' :=
    Merkle.root_injective (by rw [length_chunks, length_chunks, hlen]) hfit hfree h
  exact chunks_injective hlen hchunks

theorem publicKey_injective {k k' : BlsPublicKey}
    (hfree : NoCollision P (publicKeyPairs P k ++ publicKeyPairs P k'))
    (h : publicKey P k = publicKey P k') : k = k' := by
  have hbytes := byteVector_injective (k.compressed.length_eq.trans k'.compressed.length_eq.symm)
    (Nat.le_of_eq k.compressed.length_eq) hfree h
  have hkey := FixedBytes.eq_of_bytes hbytes
  cases k
  cases k'
  exact congrArg BlsPublicKey.mk hkey

/-- The length that is mixed in makes up for the zero padding of a short list. -/
theorem byteList_injective {n : Nat} (hn : n < 2 ^ 64) {l l' : VariableList UInt8 n}
    (hfree : NoCollision P (byteListPairs P l ++ byteListPairs P l'))
    (h : byteList P l = byteList P l') : l = l' := by
  have hpair := hfree (byteVector P n l.items, .copyFrom (leBytes 8 l.items.length))
    (by simp [byteListPairs])
    (byteVector P n l'.items, .copyFrom (leBytes 8 l'.items.length)) (by simp [byteListPairs]) h
  rw [Prod.mk.injEq] at hpair
  have hlen : l.items.length = l'.items.length := by
    have hbytes := FixedBytes.copyFrom_injective (by simp [length_leBytes])
      (by simp [length_leBytes]) hpair.2
    exact leBytes_injective (Nat.lt_of_le_of_lt l.length_le hn)
      (Nat.lt_of_le_of_lt l'.length_le hn) hbytes
  have hitems : l.items = l'.items := by
    -- the node of the length comes first, then those of the bytes
    have hparts : NoCollision P (([_] ++ byteVectorPairs P n l.items) ++
        ([_] ++ byteVectorPairs P n l'.items)) := hfree
    exact byteVector_injective hlen l.length_le hparts.parts.2 hpair.1
  cases l
  cases l'
  cases hitems
  rfl

end TreeHash

open TreeHash

theorem signingRoot_injective {P : Primitives} {root root' domain domain' : B256}
    (hfree : NoCollision P (containerPairs P [root, domain] ++ containerPairs P [root', domain']))
    (h : signingRoot P root domain = signingRoot P root' domain') :
    root = root' ∧ domain = domain' := by
  have hfields : [root, domain] = [root', domain'] := container_injective rfl hfree h
  simpa using hfields

/-- The signing root of a container binds its field roots and the domain. What is hashed comes in
three parts: `inner` for the field roots, the container, and the signing data. -/
theorem signingRoot_container_injective {P : Primitives} (fields fields' : List B256)
    {domain domain' : B256} {inner inner' : List (B256 × B256)}
    (hlen : fields.length = fields'.length)
    (hfree : NoCollision P
      ((inner ++ containerPairs P fields ++ containerPairs P [container P fields, domain]) ++
        (inner' ++ containerPairs P fields' ++ containerPairs P [container P fields', domain'])))
    (h : signingRoot P (container P fields) domain = signingRoot P (container P fields') domain') :
    NoCollision P (inner ++ inner') ∧ fields = fields' ∧ domain = domain' := by
  obtain ⟨hfree_message, hfree_data⟩ := hfree.parts
  obtain ⟨hfree_inner, hfree_container⟩ := hfree_message.parts
  obtain ⟨hroot, hdomain⟩ := signingRoot_injective hfree_data h
  exact ⟨hfree_inner, container_injective hlen hfree_container hroot, hdomain⟩

/-! ## The messages -/

section Messages

variable (P : Primitives)

namespace BidTrace

/-- The leaves of the container. -/
def fieldRoots (t : BidTrace) : List B256 :=
  [u64 t.slot, t.parentHash, t.blockHash, publicKey P t.builderPubkey,
    publicKey P t.proposerPubkey, address t.proposerFeeRecipient, u64 t.gasLimit, u64 t.gasUsed,
    u256 t.value]

/-- The nodes hashed for the signing root in `domain`. -/
def hashedPairs (t : BidTrace) (domain : B256) : List (B256 × B256) :=
  publicKeyPairs P t.builderPubkey ++ publicKeyPairs P t.proposerPubkey ++
    containerPairs P (t.fieldRoots P) ++ containerPairs P [t.treeHashRoot P, domain]

variable {P}

theorem signingRoot_binds {t t' : BidTrace} {domain domain' : B256}
    (hfree : NoCollision P (t.hashedPairs P domain ++ t'.hashedPairs P domain'))
    (h : signingRoot P (t.treeHashRoot P) domain = signingRoot P (t'.treeHashRoot P) domain') :
    t = t' ∧ domain = domain' := by
  obtain ⟨hinner, hfields, hdomain⟩ :=
    signingRoot_container_injective (t.fieldRoots P) (t'.fieldRoots P) rfl hfree h
  obtain ⟨hfree_builder, hfree_proposer⟩ := hinner.parts
  simp only [fieldRoots, List.cons.injEq, and_true] at hfields
  obtain ⟨hslot, hparent, hhash, hbuilder, hproposer, hrecipient, hlimit, hused, hvalue⟩ := hfields
  refine ⟨?_, hdomain⟩
  have hbuilder := publicKey_injective hfree_builder hbuilder
  have hproposer := publicKey_injective hfree_proposer hproposer
  cases t
  cases t'
  simp only [mk.injEq]
  exact ⟨u64_injective hslot, hparent, hhash, hbuilder, hproposer, address_injective hrecipient,
    u64_injective hlimit, u64_injective hused, u256_injective hvalue⟩

end BidTrace

namespace ValidatorRegistration

variable (P : Primitives)

def fieldRoots (r : ValidatorRegistration) : List B256 :=
  [address r.feeRecipient, u64 r.gasLimit, u64 r.timestamp, publicKey P r.pubkey]

def hashedPairs (r : ValidatorRegistration) (domain : B256) : List (B256 × B256) :=
  publicKeyPairs P r.pubkey ++ containerPairs P (r.fieldRoots P) ++
    containerPairs P [r.treeHashRoot P, domain]

variable {P}

theorem signingRoot_binds {r r' : ValidatorRegistration} {domain domain' : B256}
    (hfree : NoCollision P (r.hashedPairs P domain ++ r'.hashedPairs P domain'))
    (h : signingRoot P (r.treeHashRoot P) domain = signingRoot P (r'.treeHashRoot P) domain') :
    r = r' ∧ domain = domain' := by
  obtain ⟨hfree_key, hfields, hdomain⟩ :=
    signingRoot_container_injective (r.fieldRoots P) (r'.fieldRoots P) rfl hfree h
  simp only [fieldRoots, List.cons.injEq, and_true] at hfields
  obtain ⟨hrecipient, hlimit, htimestamp, hkey⟩ := hfields
  refine ⟨?_, hdomain⟩
  have hkey := publicKey_injective hfree_key hkey
  cases r
  cases r'
  simp only [mk.injEq]
  exact ⟨address_injective hrecipient, u64_injective hlimit, u64_injective htimestamp, hkey⟩

end ValidatorRegistration

namespace ExecutionPayloadHeader

variable (P : Primitives)

def fieldRoots (h : ExecutionPayloadHeader) : List B256 :=
  [h.parentHash, address h.feeRecipient, h.stateRoot, h.receiptsRoot,
    byteVector P 256 h.logsBloom.bytes, h.prevRandao, u64 h.blockNumber, u64 h.gasLimit,
    u64 h.gasUsed, u64 h.timestamp, byteList P h.extraData, u256 h.baseFeePerGas, h.blockHash,
    h.transactionsRoot, h.withdrawalsRoot, u64 h.blobGasUsed, u64 h.excessBlobGas]

def hashedPairs (h : ExecutionPayloadHeader) (domain : B256) : List (B256 × B256) :=
  byteVectorPairs P 256 h.logsBloom.bytes ++ byteListPairs P h.extraData ++
    containerPairs P (h.fieldRoots P) ++ containerPairs P [h.treeHashRoot P, domain]

variable {P}

theorem signingRoot_binds {m m' : ExecutionPayloadHeader} {domain domain' : B256}
    (hfree : NoCollision P (m.hashedPairs P domain ++ m'.hashedPairs P domain'))
    (h : signingRoot P (m.treeHashRoot P) domain = signingRoot P (m'.treeHashRoot P) domain') :
    m = m' ∧ domain = domain' := by
  obtain ⟨hinner, hfields, hdomain⟩ :=
    signingRoot_container_injective (m.fieldRoots P) (m'.fieldRoots P) rfl hfree h
  obtain ⟨hfree_bloom, hfree_extra⟩ := hinner.parts
  simp only [fieldRoots, List.cons.injEq, and_true] at hfields
  obtain ⟨hparent, hrecipient, hstate, hreceipts, hbloom, hrandao, hnumber, hlimit, hused,
    htimestamp, hextra, hfee, hhash, htransactions, hwithdrawals, hblobs, hexcess⟩ := hfields
  refine ⟨?_, hdomain⟩
  have hbloom := FixedBytes.eq_of_bytes (byteVector_injective
    (m.logsBloom.length_eq.trans m'.logsBloom.length_eq.symm)
    (Nat.le_of_eq m.logsBloom.length_eq) hfree_bloom hbloom)
  have hextra := byteList_injective (by decide) hfree_extra hextra
  cases m
  cases m'
  simp only [mk.injEq]
  exact ⟨hparent, address_injective hrecipient, hstate, hreceipts, hbloom, hrandao,
    u64_injective hnumber, u64_injective hlimit, u64_injective hused, u64_injective htimestamp,
    hextra, u256_injective hfee, hhash, htransactions, hwithdrawals, u64_injective hblobs,
    u64_injective hexcess⟩

end ExecutionPayloadHeader

end Messages

/-! ## The blinded block -/

section BlindedBlock

variable (P : Primitives)

/-- What is hashed first: the fields one after the other. -/
def blindedBlockData (slot proposerIndex : UInt64) (blockHash : B256) : List UInt8 :=
  leBytes 8 slot.toNat ++ leBytes 8 proposerIndex.toNat ++ blockHash.bytes

/-- The inputs of the two hashes of `blinded_block_signing_root`. -/
def blindedBlockInputs (slot proposerIndex : UInt64) (blockHash domain : B256) :
    List (List UInt8) :=
  [blindedBlockData slot proposerIndex blockHash,
    (P.keccak256 (blindedBlockData slot proposerIndex blockHash)).bytes ++ domain.bytes]

theorem blindedBlockData_injective {slot slot' proposerIndex proposerIndex' : UInt64}
    {blockHash blockHash' : B256}
    (h : blindedBlockData slot proposerIndex blockHash =
      blindedBlockData slot' proposerIndex' blockHash') :
    slot = slot' ∧ proposerIndex = proposerIndex' ∧ blockHash = blockHash' := by
  unfold blindedBlockData at h
  obtain ⟨hnumbers, hhash⟩ :=
    List.append_inj' h (blockHash.length_eq.trans blockHash'.length_eq.symm)
  obtain ⟨hslot, hindex⟩ := List.append_inj hnumbers (by rw [length_leBytes, length_leBytes])
  exact ⟨UInt64.toNat_inj.mp (leBytes_injective slot.toNat_lt slot'.toNat_lt hslot),
    UInt64.toNat_inj.mp (leBytes_injective proposerIndex.toNat_lt proposerIndex'.toNat_lt hindex),
    FixedBytes.eq_of_bytes hhash⟩

variable {P}

theorem blindedBlockSigningRoot_binds {slot slot' proposerIndex proposerIndex' : UInt64}
    {blockHash blockHash' domain domain' : B256}
    (hfree : CollisionFree P.keccak256
      (blindedBlockInputs P slot proposerIndex blockHash domain ++
        blindedBlockInputs P slot' proposerIndex' blockHash' domain'))
    (h : blindedBlockSigningRoot P slot proposerIndex blockHash domain =
      blindedBlockSigningRoot P slot' proposerIndex' blockHash' domain') :
    slot = slot' ∧ proposerIndex = proposerIndex' ∧ blockHash = blockHash' ∧
      domain = domain' := by
  have houter : (P.keccak256 (blindedBlockData slot proposerIndex blockHash)).bytes ++
      domain.bytes =
        (P.keccak256 (blindedBlockData slot' proposerIndex' blockHash')).bytes ++ domain'.bytes :=
    hfree _ (by simp [blindedBlockInputs]) _ (by simp [blindedBlockInputs])
      (FixedBytes.eq_of_bytes h)
  obtain ⟨hinner, hdomain⟩ := List.append_inj' houter (domain.length_eq.trans domain'.length_eq.symm)
  have hdata := hfree _ (by simp [blindedBlockInputs]) _ (by simp [blindedBlockInputs])
    (FixedBytes.eq_of_bytes hinner)
  obtain ⟨hslot, hindex, hhash⟩ := blindedBlockData_injective hdata
  exact ⟨hslot, hindex, hhash, FixedBytes.eq_of_bytes hdomain⟩

end BlindedBlock

/-! ## The two facts -/

/-- **Blinded and full payload have the same root.** -/
theorem header_root_eq_payload_root (P : Primitives) (bid : BidSubmission) :
    (SignedHeader.buildHeader P bid).treeHashRoot P = bid.executionPayload.treeHashRoot P := by
  unfold ExecutionPayloadHeader.treeHashRoot ExecutionPayload.treeHashRoot
  simp only [SignedHeader.buildHeader]

/-- **Signing roots bind every field.** -/
theorem signing_roots_bind (P : Primitives) :
    (∀ (t t' : BidTrace) (domain domain' : B256),
      NoCollision P (t.hashedPairs P domain ++ t'.hashedPairs P domain') →
      signingRoot P (t.treeHashRoot P) domain = signingRoot P (t'.treeHashRoot P) domain' →
      t = t' ∧ domain = domain') ∧
    (∀ (r r' : ValidatorRegistration) (domain domain' : B256),
      NoCollision P (r.hashedPairs P domain ++ r'.hashedPairs P domain') →
      signingRoot P (r.treeHashRoot P) domain = signingRoot P (r'.treeHashRoot P) domain' →
      r = r' ∧ domain = domain') ∧
    (∀ (m m' : ExecutionPayloadHeader) (domain domain' : B256),
      NoCollision P (m.hashedPairs P domain ++ m'.hashedPairs P domain') →
      signingRoot P (m.treeHashRoot P) domain = signingRoot P (m'.treeHashRoot P) domain' →
      m = m' ∧ domain = domain') ∧
    (∀ (slot slot' proposerIndex proposerIndex' : UInt64) (blockHash blockHash' domain domain' : B256),
      CollisionFree P.keccak256
        (blindedBlockInputs P slot proposerIndex blockHash domain ++
          blindedBlockInputs P slot' proposerIndex' blockHash' domain') →
      blindedBlockSigningRoot P slot proposerIndex blockHash domain =
        blindedBlockSigningRoot P slot' proposerIndex' blockHash' domain' →
      slot = slot' ∧ proposerIndex = proposerIndex' ∧ blockHash = blockHash' ∧
        domain = domain') := by
  refine ⟨?_, ?_, ?_, ?_⟩
  · intro t t' domain domain' hfree h
    exact BidTrace.signingRoot_binds hfree h
  · intro r r' domain domain' hfree h
    exact ValidatorRegistration.signingRoot_binds hfree h
  · intro m m' domain domain' hfree h
    exact ExecutionPayloadHeader.signingRoot_binds hfree h
  · intro slot slot' proposerIndex proposerIndex' blockHash blockHash' domain domain' hfree h
    exact blindedBlockSigningRoot_binds hfree h

namespace Sample

/-- Hashes that mix their inputs byte by byte, instead of cutting them off. -/
def mixing : Primitives :=
  { prims with
    hash32Concat := fun a b =>
      .copyFrom (List.zipWith (fun x y => 3 * x + 5 * y + x * y + 9) a.bytes b.bytes)
    keccak256 := fun bytes => .copyFrom (UInt8.ofNat bytes.length :: bytes) }

/-- The messages of one bid, and the domain they are signed in. -/
def trace : BidTrace := (bid 2 1 1).message

def header : ExecutionPayloadHeader := SignedHeader.buildHeader mixing (bid 2 1 1)

def domain : B256 := relay.builderDomain

end Sample

open Sample in
theorem signing_roots_bind_sample :
    (trace = trace ∧ domain = domain) ∧
    (registration.message = registration.message ∧ domain = domain) ∧
    (header = header ∧ domain = domain) ∧
    ((2 : UInt64) = 2 ∧ (5 : UInt64) = 5 ∧ header.blockHash = header.blockHash ∧
      domain = domain) := by
  have htrace : NoCollision mixing
      (trace.hashedPairs mixing domain ++ trace.hashedPairs mixing domain) := by decide +kernel
  have hregistration : NoCollision mixing
      (registration.message.hashedPairs mixing domain ++
        registration.message.hashedPairs mixing domain) := by decide +kernel
  have hheader : NoCollision mixing
      (header.hashedPairs mixing domain ++ header.hashedPairs mixing domain) := by decide +kernel
  have hblinded : CollisionFree mixing.keccak256
      (blindedBlockInputs mixing 2 5 header.blockHash domain ++
        blindedBlockInputs mixing 2 5 header.blockHash domain) := by decide +kernel
  obtain ⟨bindTrace, bindRegistration, bindHeader, bindBlinded⟩ := signing_roots_bind mixing
  exact ⟨bindTrace _ _ _ _ htrace rfl, bindRegistration _ _ _ _ hregistration rfl,
    bindHeader _ _ _ _ hheader rfl, bindBlinded _ _ _ _ _ _ _ _ hblinded rfl⟩

end MevRelay
