import Mathlib.Data.Set.List
import MevRelay.Api.Services
import MevRelay.BigEndian
import MevRelay.Fallible

/-!
# What decoding a bid does

Two questions about `BidSubmission::try_from`, for messages with any bytes in them.

*Which messages does it accept?* The well-formed ones, and it rejects the others with an error, but
for one place: a base fee of more than 32 bytes makes it panic, if the fields that are decoded
before it are well-formed (`decoding_exact_iff`).

*What does it make of them?* Every field of the submission is the decoding of the field of the same
name, and lists keep their order. So two messages that decode to the same submission differ at most
in how they write a number or an empty bundle (`decoding_faithful`).
-/

namespace MevRelay

open Fallible

/-! ## Fields -/

namespace Convert

@[simp] theorem returns_ofExcept {α : Type} (ctor : String → ConversionError)
    (result : Except String α) (a : α) : Returns (ofExcept ctor result) a ↔ result = .ok a := by
  cases result <;> simp [ofExcept]

@[simp] theorem panics_ofExcept {α : Type} (ctor : String → ConversionError)
    (result : Except String α) : Panics (ofExcept ctor result) ↔ False := by
  cases result <;> simp [ofExcept]

@[simp] theorem returns_orPanic {α : Type} (o : Option α) (a : α) :
    Returns (orPanic o) a ↔ o = some a := by
  cases o with
  | none => exact iff_of_false (fun h => by cases h) (fun h => by cases h)
  | some b => simp [orPanic]

@[simp] theorem panics_orPanic {α : Type} (o : Option α) : Panics (orPanic o) ↔ o = none := by
  cases o with
  | none => exact iff_of_true rfl rfl
  | some b => simp [orPanic]

theorem ofSlice?_eq_some_iff {n : Nat} {bytes : List UInt8} {b : FixedBytes n} :
    FixedBytes.ofSlice? n bytes = some b ↔ b.bytes = bytes := by
  constructor
  · exact FixedBytes.bytes_of_ofSlice?
  · rintro rfl
    exact dif_pos b.length_eq

@[simp] theorem returns_bytesTo (n : Nat) (ctor : String → ConversionError) (bytes : List UInt8)
    (b : FixedBytes n) : Returns (bytesTo n ctor bytes) b ↔ b.bytes = bytes := by
  rw [← ofSlice?_eq_some_iff]
  unfold bytesTo
  cases FixedBytes.ofSlice? n bytes <;> simp

@[simp] theorem panics_bytesTo (n : Nat) (ctor : String → ConversionError) (bytes : List UInt8) :
    Panics (bytesTo n ctor bytes) ↔ False := by
  unfold bytesTo
  cases FixedBytes.ofSlice? n bytes <;> simp

@[simp] theorem returns_fixedVector (n : Nat) (bytes : List UInt8) (b : FixedBytes n) :
    Returns (fixedVector n bytes) b ↔ b.bytes = bytes := by
  rw [← ofSlice?_eq_some_iff]
  unfold fixedVector
  cases FixedBytes.ofSlice? n bytes <;> simp

@[simp] theorem panics_fixedVector (n : Nat) (bytes : List UInt8) :
    Panics (fixedVector n bytes) ↔ False := by
  unfold fixedVector
  cases FixedBytes.ofSlice? n bytes <;> simp

@[simp] theorem returns_variableList {α : Type} (n : Nat) (items : List α)
    (l : VariableList α n) : Returns (variableList n items) l ↔ l.items = items := by
  unfold variableList
  split
  · next h =>
    rw [returns_pure]
    constructor
    · rintro rfl
      rfl
    · rintro rfl
      rfl
  · next h =>
    rw [returns_throw, false_iff]
    rintro rfl
    exact h l.length_le

@[simp] theorem panics_variableList {α : Type} (n : Nat) (items : List α) :
    Panics (variableList n items) ↔ False := by
  unfold variableList
  split <;> simp

end Convert

/-! ## Messages -/

section

variable (P : Primitives)

/-- The submission's trace is the decoding of the message, field by field. -/
structure BidTrace.Decodes (t : Proto.BidTrace) (trace : BidTrace) : Prop where
  slot : trace.slot = t.slot
  parentHash : trace.parentHash.bytes = t.parentHash
  blockHash : trace.blockHash.bytes = t.blockHash
  builderPubkey : BlsPublicKey.deserialize P t.builderPubkey = .ok trace.builderPubkey
  proposerPubkey : BlsPublicKey.deserialize P t.proposerPubkey = .ok trace.proposerPubkey
  proposerFeeRecipient : trace.proposerFeeRecipient.bytes = t.proposerFeeRecipient
  gasLimit : trace.gasLimit = t.gasLimit
  gasUsed : trace.gasUsed = t.gasUsed
  value : P.parseU256 t.value = .ok trace.value

/-- The message that a withdrawal comes from. -/
def Withdrawal.toProto (w : Withdrawal) : Proto.Withdrawal where
  index := w.index
  validatorIndex := w.validatorIndex
  address := w.address.bytes
  amount := w.amount

structure ExecutionPayload.Decodes (p : Proto.ExecutionPayload) (payload : ExecutionPayload) :
    Prop where
  parentHash : payload.parentHash.bytes = p.parentHash
  feeRecipient : payload.feeRecipient.bytes = p.feeRecipient
  stateRoot : payload.stateRoot.bytes = p.stateRoot
  receiptsRoot : payload.receiptsRoot.bytes = p.receiptsRoot
  logsBloom : payload.logsBloom.bytes = p.logsBloom
  prevRandao : payload.prevRandao.bytes = p.prevRandao
  blockNumber : payload.blockNumber = p.blockNumber
  gasLimit : payload.gasLimit = p.gasLimit
  gasUsed : payload.gasUsed = p.gasUsed
  timestamp : payload.timestamp = p.timestamp
  extraData : payload.extraData.items = p.extraData
  baseFeePerGas : U256.fromBeSlice p.baseFeePerGas = some payload.baseFeePerGas
  blockHash : payload.blockHash.bytes = p.blockHash
  transactions : payload.transactions.items.map VariableList.items = p.transactions
  withdrawals : payload.withdrawals.items.map Withdrawal.toProto = p.withdrawals
  blobGasUsed : payload.blobGasUsed = p.blobGasUsed
  excessBlobGas : payload.excessBlobGas = p.excessBlobGas

structure BlobsBundle.Decodes (b : Proto.BlobsBundle) (bundle : BlobsBundle) : Prop where
  commitments : bundle.commitments.map FixedBytes.bytes = b.commitments
  proofs : bundle.proofs.map FixedBytes.bytes = b.proofs
  blobs : bundle.blobs.map FixedBytes.bytes = b.blobs

/-- A missing bundle is read as an empty one. -/
structure BidSubmission.Decodes (req : Proto.BidRequest) (bid : BidSubmission) : Prop where
  message : ∃ trace, req.bidTrace = some trace ∧ BidTrace.Decodes P trace bid.message
  executionPayload : ∃ payload, req.executionPayload = some payload ∧
    ExecutionPayload.Decodes payload bid.executionPayload
  blobsBundle : BlobsBundle.Decodes (req.blobsBundle.getD default) bid.blobsBundle
  signature : BlsSignature.deserialize P req.signature = .ok bid.signature

/-! ### Each conversion returns the decoding -/

theorem BidTrace.returns_tryFrom (t : Proto.BidTrace) (trace : BidTrace) :
    Returns (BidTrace.tryFrom P t) trace ↔ BidTrace.Decodes P t trace := by
  unfold BidTrace.tryFrom Convert.bytesToB256 Convert.bytesToAddress
  simp only [returns_bind, returns_pure, Convert.returns_bytesTo, Convert.returns_ofExcept]
  constructor
  · rintro ⟨_, h₁, _, h₂, _, h₃, _, h₄, _, h₅, _, h₆, rfl⟩
    exact ⟨rfl, h₁, h₂, h₃, h₄, h₅, rfl, rfl, h₆⟩
  · rintro ⟨hslot, h₁, h₂, h₃, h₄, h₅, hlimit, hused, h₆⟩
    refine ⟨_, h₁, _, h₂, _, h₃, _, h₄, _, h₅, _, h₆, ?_⟩
    rw [← hslot, ← hlimit, ← hused]

theorem Withdrawal.returns_tryFrom (w : Proto.Withdrawal) (withdrawal : Withdrawal) :
    Returns (Withdrawal.tryFrom w) withdrawal ↔ withdrawal.toProto = w := by
  unfold Withdrawal.tryFrom Convert.bytesToAddress
  simp only [returns_bind, returns_pure, Convert.returns_bytesTo]
  constructor
  · rintro ⟨address, h, rfl⟩
    unfold Withdrawal.toProto
    rw [h]
  · rintro rfl
    exact ⟨withdrawal.address, rfl, rfl⟩

theorem ExecutionPayload.returns_tryFrom (p : Proto.ExecutionPayload)
    (payload : ExecutionPayload) :
    Returns (ExecutionPayload.tryFrom p) payload ↔ ExecutionPayload.Decodes p payload := by
  have htxs := fun txs : List (VariableList UInt8 1073741824) =>
    returns_mapM (Convert.returns_variableList 1073741824) p.transactions txs
  have hwithdrawals := fun inner : List Withdrawal =>
    returns_mapM Withdrawal.returns_tryFrom p.withdrawals inner
  unfold ExecutionPayload.tryFrom Convert.bytesToB256 Convert.bytesToAddress
  simp only [returns_bind, returns_pure, Convert.returns_bytesTo, Convert.returns_fixedVector,
    Convert.returns_variableList, Convert.returns_orPanic, htxs, hwithdrawals]
  constructor
  · rintro ⟨_, h₁, _, h₂, _, h₃, _, h₄, _, h₅, _, h₆, _, h₇, _, h₈, _, h₉, _, htx, _, rfl, _, hw,
      _, rfl, rfl⟩
    exact ⟨h₁, h₂, h₃, h₄, h₅, h₆, rfl, rfl, rfl, rfl, h₇, h₈, h₉, htx, hw, rfl, rfl⟩
  · rintro ⟨h₁, h₂, h₃, h₄, h₅, h₆, hnumber, hlimit, hused, htime, h₇, h₈, h₉, htx, hw, hblob,
      hexcess⟩
    refine ⟨_, h₁, _, h₂, _, h₃, _, h₄, _, h₅, _, h₆, _, h₇, _, h₈, _, h₉, _, htx, _, rfl, _, hw,
      _, rfl, ?_⟩
    rw [← hnumber, ← hlimit, ← hused, ← htime, ← hblob, ← hexcess]

theorem BlobsBundle.returns_tryFrom (b : Proto.BlobsBundle) (bundle : BlobsBundle) :
    Returns (BlobsBundle.tryFrom b) bundle ↔ BlobsBundle.Decodes b bundle := by
  have h48 := returns_mapM (Convert.returns_bytesTo 48 .bytes48)
  have hblob := returns_mapM (Convert.returns_bytesTo 131072 .blob)
  unfold BlobsBundle.tryFrom Convert.bytesToBytes48 Convert.bytesToBlob
  simp only [returns_bind, returns_pure, h48, hblob]
  constructor
  · rintro ⟨_, h₁, _, h₂, _, h₃, rfl⟩
    exact ⟨h₁, h₂, h₃⟩
  · rintro ⟨h₁, h₂, h₃⟩
    exact ⟨_, h₁, _, h₂, _, h₃, rfl⟩

theorem BidSubmission.returns_tryFrom (req : Proto.BidRequest) (bid : BidSubmission) :
    Returns (BidSubmission.tryFrom P req) bid ↔ BidSubmission.Decodes P req bid := by
  unfold BidSubmission.tryFrom
  cases htrace : req.bidTrace with
  | none =>
    simp only [returns_throw, false_iff]
    intro h
    obtain ⟨trace, hsome, -⟩ := h.message
    rw [htrace] at hsome
    cases hsome
  | some trace =>
    cases hpayload : req.executionPayload with
    | none =>
      simp only [returns_throw, false_iff]
      intro h
      obtain ⟨payload, hsome, -⟩ := h.executionPayload
      rw [hpayload] at hsome
      cases hsome
    | some payload =>
      simp only [returns_bind, returns_pure, Convert.returns_ofExcept, BidTrace.returns_tryFrom,
        ExecutionPayload.returns_tryFrom, BlobsBundle.returns_tryFrom]
      constructor
      · rintro ⟨_, h₁, _, h₂, _, h₃, _, h₄, rfl⟩
        exact ⟨⟨trace, htrace, h₁⟩, ⟨payload, hpayload, h₂⟩, h₃, h₄⟩
      · rintro ⟨⟨trace', htrace', h₁⟩, ⟨payload', hpayload', h₂⟩, h₃, h₄⟩
        cases htrace.symm.trans htrace'
        cases hpayload.symm.trans hpayload'
        exact ⟨_, h₁, _, h₂, _, h₃, _, h₄, rfl⟩

/-! ### When a conversion panics -/

theorem BidTrace.not_panics_tryFrom (t : Proto.BidTrace) : ¬ Panics (BidTrace.tryFrom P t) := by
  unfold BidTrace.tryFrom Convert.bytesToB256 Convert.bytesToAddress
  simp only [panics_bind, panics_pure, Convert.panics_bytesTo, Convert.panics_ofExcept, and_false,
    exists_false, or_self, not_false_eq_true]

theorem Withdrawal.not_panics_tryFrom (w : Proto.Withdrawal) :
    ¬ Panics (Withdrawal.tryFrom w) := by
  unfold Withdrawal.tryFrom Convert.bytesToAddress
  simp only [panics_bind, panics_pure, Convert.panics_bytesTo, and_false, exists_false, or_self,
    not_false_eq_true]

theorem BlobsBundle.not_panics_tryFrom (b : Proto.BlobsBundle) :
    ¬ Panics (BlobsBundle.tryFrom b) := by
  have hmapM : ∀ n ctor (items : List (List UInt8)),
      ¬ Panics (items.mapM (Convert.bytesTo n ctor)) :=
    fun n ctor items => panics_mapM (fun bytes => by simp) items
  unfold BlobsBundle.tryFrom Convert.bytesToBytes48 Convert.bytesToBlob
  simp only [panics_bind, panics_pure, hmapM, and_false, exists_false, or_self, not_false_eq_true]

/-- The fields of a payload that are decoded before its base fee, well-formed. -/
structure Proto.ExecutionPayload.WellFormedFront (p : Proto.ExecutionPayload) : Prop where
  parentHash : p.parentHash.length = 32
  feeRecipient : p.feeRecipient.length = 20
  stateRoot : p.stateRoot.length = 32
  receiptsRoot : p.receiptsRoot.length = 32
  logsBloom : p.logsBloom.length = 256
  prevRandao : p.prevRandao.length = 32
  extraData : p.extraData.length ≤ 32

theorem exists_bytes_eq_iff {n : Nat} {bytes : List UInt8} :
    (∃ b : FixedBytes n, b.bytes = bytes) ↔ bytes.length = n := by
  constructor
  · rintro ⟨b, rfl⟩
    exact b.length_eq
  · intro h
    exact ⟨⟨bytes, h⟩, rfl⟩

theorem exists_items_eq_iff {α : Type} {n : Nat} {items : List α} :
    (∃ l : VariableList α n, l.items = items) ↔ items.length ≤ n := by
  constructor
  · rintro ⟨l, rfl⟩
    exact l.length_le
  · intro h
    exact ⟨⟨items, h⟩, rfl⟩

theorem fromBeSlice_eq_none_iff {bytes : List UInt8} :
    U256.fromBeSlice bytes = none ↔ 32 < bytes.length := by
  unfold U256.fromBeSlice
  split <;> simp <;> omega

theorem ExecutionPayload.panics_tryFrom (p : Proto.ExecutionPayload) :
    Panics (ExecutionPayload.tryFrom p) ↔ p.WellFormedFront ∧ 32 < p.baseFeePerGas.length := by
  have htxs : ¬ Panics (p.transactions.mapM (Convert.variableList 1073741824)) :=
    panics_mapM (fun tx => by simp) p.transactions
  have hwithdrawals : ¬ Panics (p.withdrawals.mapM Withdrawal.tryFrom) :=
    panics_mapM Withdrawal.not_panics_tryFrom p.withdrawals
  unfold ExecutionPayload.tryFrom Convert.bytesToB256 Convert.bytesToAddress
  simp only [panics_bind, panics_pure, Convert.panics_bytesTo, Convert.panics_fixedVector,
    Convert.panics_variableList, Convert.panics_orPanic, Convert.returns_bytesTo,
    Convert.returns_fixedVector, Convert.returns_variableList, htxs, hwithdrawals, and_false,
    exists_false, or_false, false_or, exists_and_right, exists_bytes_eq_iff, exists_items_eq_iff,
    fromBeSlice_eq_none_iff]
  constructor
  · rintro ⟨h₁, h₂, h₃, h₄, h₅, h₆, h₇, hfee⟩
    exact ⟨⟨h₁, h₂, h₃, h₄, h₅, h₆, h₇⟩, hfee⟩
  · rintro ⟨⟨h₁, h₂, h₃, h₄, h₅, h₆, h₇⟩, hfee⟩
    exact ⟨h₁, h₂, h₃, h₄, h₅, h₆, h₇, hfee⟩

theorem BidSubmission.panics_tryFrom (req : Proto.BidRequest) :
    Panics (BidSubmission.tryFrom P req) ↔
      ∃ trace payload, req.bidTrace = some trace ∧ req.executionPayload = some payload ∧
        (∃ message, BidTrace.Decodes P trace message) ∧ payload.WellFormedFront ∧
        32 < payload.baseFeePerGas.length := by
  unfold BidSubmission.tryFrom
  cases htrace : req.bidTrace with
  | none => simp
  | some trace =>
    cases hpayload : req.executionPayload with
    | none => simp
    | some payload =>
      simp only [panics_bind, BidTrace.not_panics_tryFrom, BlobsBundle.not_panics_tryFrom,
        Convert.panics_ofExcept, panics_pure, and_false, exists_false, or_false, false_or,
        ExecutionPayload.panics_tryFrom, BidTrace.returns_tryFrom, exists_and_right]
      constructor
      · rintro ⟨hmessage, hfront, hfee⟩
        exact ⟨trace, payload, rfl, rfl, hmessage, hfront, hfee⟩
      · rintro ⟨trace', payload', htrace', hpayload', hdecoded⟩
        cases htrace'
        cases hpayload'
        exact hdecoded

/-! ## Well-formed messages -/

namespace Proto

/-- A public key of 48 bytes that passes validation. -/
def ValidPublicKey (bytes : List UInt8) : Prop :=
  ∃ h : bytes.length = 48, ∃ key, P.keyValidate ⟨bytes, h⟩ = .ok key

/-- A signature of 96 bytes that decodes. -/
def ValidSignature (bytes : List UInt8) : Prop :=
  ∃ h : bytes.length = 96, ∃ signature, P.signatureFromBytes ⟨bytes, h⟩ = .ok signature

structure BidTrace.WellFormed (t : BidTrace) : Prop where
  parentHash : t.parentHash.length = 32
  blockHash : t.blockHash.length = 32
  builderPubkey : ValidPublicKey P t.builderPubkey
  proposerPubkey : ValidPublicKey P t.proposerPubkey
  proposerFeeRecipient : t.proposerFeeRecipient.length = 20
  value : ∃ value, P.parseU256 t.value = .ok value

structure ExecutionPayload.WellFormed (p : ExecutionPayload) : Prop extends
    p.WellFormedFront where
  baseFeePerGas : p.baseFeePerGas.length ≤ 32
  blockHash : p.blockHash.length = 32
  transactions : p.transactions.length ≤ 2 ^ 20
  transaction : ∀ tx ∈ p.transactions, tx.length ≤ 2 ^ 30
  withdrawals : p.withdrawals.length ≤ 16
  withdrawal : ∀ w ∈ p.withdrawals, w.address.length = 20

structure BlobsBundle.WellFormed (b : BlobsBundle) : Prop where
  commitment : ∀ bytes ∈ b.commitments, bytes.length = 48
  proof : ∀ bytes ∈ b.proofs, bytes.length = 48
  blob : ∀ bytes ∈ b.blobs, bytes.length = 131072

structure BidRequest.WellFormed (req : BidRequest) : Prop where
  bidTrace : ∃ trace, req.bidTrace = some trace ∧ trace.WellFormed P
  executionPayload : ∃ payload, req.executionPayload = some payload ∧ payload.WellFormed
  blobsBundle : (req.blobsBundle.getD default).WellFormed
  signature : ValidSignature P req.signature

end Proto

theorem BlsPublicKey.deserialize_eq_ok_iff {bytes : List UInt8} {key : BlsPublicKey} :
    BlsPublicKey.deserialize P bytes = .ok key ↔
      ∃ h : bytes.length = 48, P.keyValidate ⟨bytes, h⟩ = .ok key := by
  unfold BlsPublicKey.deserialize FixedBytes.ofSlice?
  by_cases h : bytes.length = 48 <;> simp [h]

theorem BlsSignature.deserialize_eq_ok_iff {bytes : List UInt8} {signature : BlsSignature} :
    BlsSignature.deserialize P bytes = .ok signature ↔
      ∃ h : bytes.length = 96, P.signatureFromBytes ⟨bytes, h⟩ = .ok signature := by
  unfold BlsSignature.deserialize FixedBytes.ofSlice?
  by_cases h : bytes.length = 96 <;> simp [h]

theorem BidTrace.exists_decodes_iff (t : Proto.BidTrace) :
    (∃ trace, BidTrace.Decodes P t trace) ↔ t.WellFormed P := by
  constructor
  · rintro ⟨trace, h⟩
    obtain ⟨hbuilder, hbuilderKey⟩ := (BlsPublicKey.deserialize_eq_ok_iff P).mp h.builderPubkey
    obtain ⟨hproposer, hproposerKey⟩ := (BlsPublicKey.deserialize_eq_ok_iff P).mp h.proposerPubkey
    exact
      { parentHash := h.parentHash ▸ trace.parentHash.length_eq
        blockHash := h.blockHash ▸ trace.blockHash.length_eq
        builderPubkey := ⟨hbuilder, _, hbuilderKey⟩
        proposerPubkey := ⟨hproposer, _, hproposerKey⟩
        proposerFeeRecipient := h.proposerFeeRecipient ▸ trace.proposerFeeRecipient.length_eq
        value := ⟨_, h.value⟩ }
  · intro h
    obtain ⟨hbuilder, builder, hbuilderKey⟩ := h.builderPubkey
    obtain ⟨hproposer, proposer, hproposerKey⟩ := h.proposerPubkey
    obtain ⟨value, hvalue⟩ := h.value
    refine ⟨⟨t.slot, ⟨_, h.parentHash⟩, ⟨_, h.blockHash⟩, builder, proposer,
      ⟨_, h.proposerFeeRecipient⟩, t.gasLimit, t.gasUsed, value⟩, ?_⟩
    exact
      { slot := rfl
        parentHash := rfl
        blockHash := rfl
        builderPubkey := (BlsPublicKey.deserialize_eq_ok_iff P).mpr ⟨hbuilder, hbuilderKey⟩
        proposerPubkey := (BlsPublicKey.deserialize_eq_ok_iff P).mpr ⟨hproposer, hproposerKey⟩
        proposerFeeRecipient := rfl
        gasLimit := rfl
        gasUsed := rfl
        value := hvalue }

/-- A list comes from decoded items if each of its items comes from one. -/
theorem exists_map_eq_iff {α β : Type} {encode : β → α} {p : α → Prop}
    (h : ∀ a, (∃ b, encode b = a) ↔ p a) (as : List α) :
    (∃ bs : List β, bs.map encode = as) ↔ ∀ a ∈ as, p a := by
  have hrange : (∃ bs : List β, bs.map encode = as) ↔ ∀ a ∈ as, ∃ b, encode b = a := by
    show as ∈ Set.range (List.map encode) ↔ _
    rw [Set.range_list_map]
    rfl
  exact hrange.trans (forall₂_congr fun a _ => h a)

/-- The same with a bound on the length. -/
theorem exists_items_map_eq_iff {α β : Type} {encode : β → α} {p : α → Prop}
    (h : ∀ a, (∃ b, encode b = a) ↔ p a) (n : Nat) (as : List α) :
    (∃ bs : VariableList β n, bs.items.map encode = as) ↔
      as.length ≤ n ∧ ∀ a ∈ as, p a := by
  constructor
  · rintro ⟨bs, rfl⟩
    exact ⟨by simpa using bs.length_le, (exists_map_eq_iff h _).mp ⟨bs.items, rfl⟩⟩
  · rintro ⟨hlen, hall⟩
    obtain ⟨bs, rfl⟩ := (exists_map_eq_iff h as).mpr hall
    exact ⟨⟨bs, by simpa using hlen⟩, rfl⟩

theorem Withdrawal.exists_toProto_eq_iff (w : Proto.Withdrawal) :
    (∃ withdrawal : Withdrawal, withdrawal.toProto = w) ↔ w.address.length = 20 := by
  constructor
  · rintro ⟨withdrawal, rfl⟩
    exact withdrawal.address.length_eq
  · intro h
    exact ⟨⟨w.index, w.validatorIndex, ⟨w.address, h⟩, w.amount⟩, rfl⟩

theorem fromBeSlice_eq_some_iff {bytes : List UInt8} :
    (∃ v, U256.fromBeSlice bytes = some v) ↔ bytes.length ≤ 32 := by
  unfold U256.fromBeSlice
  split <;> simp_all

theorem ExecutionPayload.exists_decodes_iff (p : Proto.ExecutionPayload) :
    (∃ payload, ExecutionPayload.Decodes p payload) ↔ p.WellFormed := by
  have htx : ∀ tx : List UInt8, (∃ l : Transaction, l.items = tx) ↔ tx.length ≤ 2 ^ 30 :=
    fun _ => exists_items_eq_iff
  have htxs := exists_items_map_eq_iff htx 1048576 p.transactions
  have hws := exists_items_map_eq_iff Withdrawal.exists_toProto_eq_iff 16 p.withdrawals
  constructor
  · rintro ⟨payload, h⟩
    obtain ⟨htxCount, htx⟩ := htxs.mp ⟨payload.transactions, h.transactions⟩
    obtain ⟨hwCount, hw⟩ := hws.mp ⟨payload.withdrawals, h.withdrawals⟩
    exact
      { parentHash := exists_bytes_eq_iff.mp ⟨_, h.parentHash⟩
        feeRecipient := exists_bytes_eq_iff.mp ⟨_, h.feeRecipient⟩
        stateRoot := exists_bytes_eq_iff.mp ⟨_, h.stateRoot⟩
        receiptsRoot := exists_bytes_eq_iff.mp ⟨_, h.receiptsRoot⟩
        logsBloom := exists_bytes_eq_iff.mp ⟨_, h.logsBloom⟩
        prevRandao := exists_bytes_eq_iff.mp ⟨_, h.prevRandao⟩
        extraData := exists_items_eq_iff.mp ⟨_, h.extraData⟩
        baseFeePerGas := fromBeSlice_eq_some_iff.mp ⟨_, h.baseFeePerGas⟩
        blockHash := exists_bytes_eq_iff.mp ⟨_, h.blockHash⟩
        transactions := htxCount
        transaction := htx
        withdrawals := hwCount
        withdrawal := hw }
  · intro h
    obtain ⟨fee, hfee⟩ := fromBeSlice_eq_some_iff.mpr h.baseFeePerGas
    obtain ⟨transactions, htx⟩ := htxs.mpr ⟨h.transactions, h.transaction⟩
    obtain ⟨withdrawals, hw⟩ := hws.mpr ⟨h.withdrawals, h.withdrawal⟩
    refine ⟨⟨⟨_, h.parentHash⟩, ⟨_, h.feeRecipient⟩, ⟨_, h.stateRoot⟩, ⟨_, h.receiptsRoot⟩,
      ⟨_, h.logsBloom⟩, ⟨_, h.prevRandao⟩, p.blockNumber, p.gasLimit, p.gasUsed, p.timestamp,
      ⟨_, h.extraData⟩, fee, ⟨_, h.blockHash⟩, transactions, withdrawals, p.blobGasUsed,
      p.excessBlobGas⟩, ?_⟩
    exact ⟨rfl, rfl, rfl, rfl, rfl, rfl, rfl, rfl, rfl, rfl, rfl, hfee, rfl, htx, hw, rfl, rfl⟩

theorem BlobsBundle.exists_decodes_iff (b : Proto.BlobsBundle) :
    (∃ bundle, BlobsBundle.Decodes b bundle) ↔ b.WellFormed := by
  have hlist : ∀ (n : Nat) (items : List (List UInt8)),
      (∃ l : List (FixedBytes n), l.map FixedBytes.bytes = items) ↔ _ :=
    fun n items => exists_map_eq_iff (fun _ => exists_bytes_eq_iff) items
  constructor
  · rintro ⟨bundle, h⟩
    exact ⟨(hlist 48 _).mp ⟨_, h.commitments⟩, (hlist 48 _).mp ⟨_, h.proofs⟩,
      (hlist 131072 _).mp ⟨_, h.blobs⟩⟩
  · intro h
    obtain ⟨commitments, hcommitments⟩ := (hlist 48 _).mpr h.commitment
    obtain ⟨proofs, hproofs⟩ := (hlist 48 _).mpr h.proof
    obtain ⟨blobs, hblobs⟩ := (hlist 131072 _).mpr h.blob
    exact ⟨⟨commitments, proofs, blobs⟩, hcommitments, hproofs, hblobs⟩

theorem BidSubmission.exists_decodes_iff (req : Proto.BidRequest) :
    (∃ bid, BidSubmission.Decodes P req bid) ↔ req.WellFormed P := by
  constructor
  · rintro ⟨bid, h⟩
    obtain ⟨trace, htrace, hmessage⟩ := h.message
    obtain ⟨payload, hpayload, hdecoded⟩ := h.executionPayload
    obtain ⟨hlen, hsignature⟩ := (BlsSignature.deserialize_eq_ok_iff P).mp h.signature
    exact ⟨⟨trace, htrace, (BidTrace.exists_decodes_iff P trace).mp ⟨_, hmessage⟩⟩,
      ⟨payload, hpayload, (ExecutionPayload.exists_decodes_iff payload).mp ⟨_, hdecoded⟩⟩,
      (BlobsBundle.exists_decodes_iff _).mp ⟨_, h.blobsBundle⟩, hlen, _, hsignature⟩
  · intro h
    obtain ⟨trace, htrace, hwellFormed⟩ := h.bidTrace
    obtain ⟨payload, hpayload, hwellFormed'⟩ := h.executionPayload
    obtain ⟨message, hmessage⟩ := (BidTrace.exists_decodes_iff P trace).mpr hwellFormed
    obtain ⟨executionPayload, hdecoded⟩ :=
      (ExecutionPayload.exists_decodes_iff payload).mpr hwellFormed'
    obtain ⟨blobsBundle, hblobs⟩ := (BlobsBundle.exists_decodes_iff _).mpr h.blobsBundle
    obtain ⟨hlen, signature, hsignature⟩ := h.signature
    exact ⟨⟨message, executionPayload, blobsBundle, signature⟩, ⟨trace, htrace, hmessage⟩,
      ⟨payload, hpayload, hdecoded⟩, hblobs,
      (BlsSignature.deserialize_eq_ok_iff P).mpr ⟨hlen, hsignature⟩⟩

/-- Decoding does not panic, and returns a submission exactly for a well-formed message. -/
def Proto.BidRequest.DecodesExactly (req : Proto.BidRequest) : Prop :=
  ∃ result, (BidSubmission.tryFrom P req).run = some result ∧
    ((∃ bid, result = .ok bid) ↔ req.WellFormed P)

/-- The base fee has more than 32 bytes, and everything that is decoded before it is well-formed. -/
def Proto.BidRequest.ReachesLongBaseFee (req : Proto.BidRequest) : Prop :=
  ∃ trace payload, req.bidTrace = some trace ∧ req.executionPayload = some payload ∧
    trace.WellFormed P ∧ payload.WellFormedFront ∧ 32 < payload.baseFeePerGas.length

/-- **When decoding is exact**: unless it gets to a base fee of more than 32 bytes. -/
theorem decoding_exact_iff (req : Proto.BidRequest) :
    req.DecodesExactly P ↔ ¬ req.ReachesLongBaseFee P := by
  have hpanics : Panics (BidSubmission.tryFrom P req) ↔ req.ReachesLongBaseFee P := by
    rw [BidSubmission.panics_tryFrom]
    simp only [BidTrace.exists_decodes_iff]
    rfl
  rw [← hpanics]
  constructor
  · rintro ⟨result, hrun, -⟩ hnone
    cases hrun.symm.trans hnone
  · intro h
    obtain ⟨result, hrun⟩ := exists_run h
    refine ⟨result, hrun, ?_⟩
    rw [← BidSubmission.exists_decodes_iff]
    refine exists_congr fun bid => ?_
    rw [← BidSubmission.returns_tryFrom, Returns, hrun, Option.some.injEq]

end

namespace Sample

/-- A valid bid, with a base fee of 33 bytes. -/
def longFeeMessage : Proto.BidRequest :=
  { bidMessage 2 1 1 with
    executionPayload := (bidMessage 2 1 1).executionPayload.map fun payload =>
      { payload with baseFeePerGas := List.replicate 33 0 } }

end Sample

/-- A base fee of 33 bytes makes decoding panic. -/
theorem decoding_panics :
    ¬ ∀ (P : Primitives) (req : Proto.BidRequest), req.DecodesExactly P := by
  intro h
  obtain ⟨result, hrun, -⟩ := h Sample.prims Sample.longFeeMessage
  have hpanics : (BidSubmission.tryFrom Sample.prims Sample.longFeeMessage).run = none := by
    decide +kernel
  cases hrun.symm.trans hpanics

/-! ## Messages with the same submission -/

section

variable (P : Primitives)

/-- No two byte strings decode to the same public key or the same signature. -/
structure Primitives.DecodesInjectively : Prop where
  keyValidate : ∀ a b key, P.keyValidate a = .ok key → P.keyValidate b = .ok key → a = b
  signatureFromBytes : ∀ a b signature,
    P.signatureFromBytes a = .ok signature → P.signatureFromBytes b = .ok signature → a = b

/-- The messages differ at most in the spelling of the value, in leading zeros of the base fee, and
in whether an empty bundle is there. -/
structure Proto.BidRequest.SameBid (req req' : Proto.BidRequest) : Prop where
  bidTrace : ∃ t t', req.bidTrace = some t ∧ req'.bidTrace = some t' ∧
    t' = { t with value := t'.value } ∧
    ∃ value, P.parseU256 t.value = .ok value ∧ P.parseU256 t'.value = .ok value
  executionPayload : ∃ p p', req.executionPayload = some p ∧ req'.executionPayload = some p' ∧
    p' = { p with baseFeePerGas := p'.baseFeePerGas } ∧
    p.baseFeePerGas.dropWhile (· == 0) = p'.baseFeePerGas.dropWhile (· == 0)
  blobsBundle : req.blobsBundle.getD default = req'.blobsBundle.getD default
  signature : req.signature = req'.signature

variable {P}

theorem BlsPublicKey.bytes_eq_of_deserialize (hP : P.DecodesInjectively) {a b : List UInt8}
    {key : BlsPublicKey} (ha : BlsPublicKey.deserialize P a = .ok key)
    (hb : BlsPublicKey.deserialize P b = .ok key) : a = b := by
  obtain ⟨hlen, hkey⟩ := (BlsPublicKey.deserialize_eq_ok_iff P).mp ha
  obtain ⟨hlen', hkey'⟩ := (BlsPublicKey.deserialize_eq_ok_iff P).mp hb
  exact congrArg FixedBytes.bytes (hP.keyValidate _ _ _ hkey hkey')

theorem BlsSignature.bytes_eq_of_deserialize (hP : P.DecodesInjectively) {a b : List UInt8}
    {signature : BlsSignature} (ha : BlsSignature.deserialize P a = .ok signature)
    (hb : BlsSignature.deserialize P b = .ok signature) : a = b := by
  obtain ⟨hlen, hsignature⟩ := (BlsSignature.deserialize_eq_ok_iff P).mp ha
  obtain ⟨hlen', hsignature'⟩ := (BlsSignature.deserialize_eq_ok_iff P).mp hb
  exact congrArg FixedBytes.bytes (hP.signatureFromBytes _ _ _ hsignature hsignature')

/-- The number of at most 32 bytes fits. -/
theorem fromBeSlice_val {bytes : List UInt8} {v : U256} (h : U256.fromBeSlice bytes = some v) :
    v.val = BigEndian.value bytes := by
  unfold U256.fromBeSlice at h
  split at h
  · next hlen =>
    cases h
    have hlt : BigEndian.value bytes < 2 ^ 256 :=
      calc BigEndian.value bytes < 256 ^ bytes.length := BigEndian.value_lt bytes
        _ ≤ 256 ^ 32 := Nat.pow_le_pow_right (by decide) hlen
        _ = 2 ^ 256 := by decide
    exact Nat.mod_eq_of_lt hlt
  · cases h

theorem BidTrace.Decodes.eq_of_same (hP : P.DecodesInjectively) {t t' : Proto.BidTrace}
    {trace : BidTrace} (h : BidTrace.Decodes P t trace) (h' : BidTrace.Decodes P t' trace) :
    t' = { t with value := t'.value } := by
  have hbuilder := BlsPublicKey.bytes_eq_of_deserialize hP h'.builderPubkey h.builderPubkey
  have hproposer := BlsPublicKey.bytes_eq_of_deserialize hP h'.proposerPubkey h.proposerPubkey
  rw [← h.slot, ← h.parentHash, ← h.blockHash, ← hbuilder, ← hproposer, ← h.proposerFeeRecipient,
    ← h.gasLimit, ← h.gasUsed, h'.slot, h'.parentHash, h'.blockHash, h'.proposerFeeRecipient,
    h'.gasLimit, h'.gasUsed]

theorem ExecutionPayload.Decodes.eq_of_same {p p' : Proto.ExecutionPayload}
    {payload : ExecutionPayload} (h : ExecutionPayload.Decodes p payload)
    (h' : ExecutionPayload.Decodes p' payload) :
    p' = { p with baseFeePerGas := p'.baseFeePerGas } := by
  rw [← h.parentHash, ← h.feeRecipient, ← h.stateRoot, ← h.receiptsRoot, ← h.logsBloom,
    ← h.prevRandao, ← h.blockNumber, ← h.gasLimit, ← h.gasUsed, ← h.timestamp, ← h.extraData,
    ← h.blockHash, ← h.transactions, ← h.withdrawals, ← h.blobGasUsed, ← h.excessBlobGas,
    h'.parentHash, h'.feeRecipient, h'.stateRoot, h'.receiptsRoot, h'.logsBloom, h'.prevRandao,
    h'.blockNumber, h'.gasLimit, h'.gasUsed, h'.timestamp, h'.extraData, h'.blockHash,
    h'.transactions, h'.withdrawals, h'.blobGasUsed, h'.excessBlobGas]

theorem BlobsBundle.Decodes.eq_of_same {b b' : Proto.BlobsBundle} {bundle : BlobsBundle}
    (h : BlobsBundle.Decodes b bundle) (h' : BlobsBundle.Decodes b' bundle) : b = b' := by
  obtain ⟨hcommitments, hproofs, hblobs⟩ := h
  obtain ⟨hcommitments', hproofs', hblobs'⟩ := h'
  cases b
  cases b'
  simp_all

theorem BidSubmission.Decodes.sameBid (hP : P.DecodesInjectively) {req req' : Proto.BidRequest}
    {bid : BidSubmission} (h : BidSubmission.Decodes P req bid)
    (h' : BidSubmission.Decodes P req' bid) : req.SameBid P req' := by
  obtain ⟨t, ht, hmessage⟩ := h.message
  obtain ⟨t', ht', hmessage'⟩ := h'.message
  obtain ⟨p, hp, hpayload⟩ := h.executionPayload
  obtain ⟨p', hp', hpayload'⟩ := h'.executionPayload
  have hfee : BigEndian.value p.baseFeePerGas = BigEndian.value p'.baseFeePerGas := by
    rw [← fromBeSlice_val hpayload.baseFeePerGas, ← fromBeSlice_val hpayload'.baseFeePerGas]
  exact
    { bidTrace := ⟨t, t', ht, ht', hmessage.eq_of_same hP hmessage', _, hmessage.value,
        hmessage'.value⟩
      executionPayload := ⟨p, p', hp, hp', hpayload.eq_of_same hpayload',
        BigEndian.dropWhile_zero_eq hfee⟩
      blobsBundle := h.blobsBundle.eq_of_same h'.blobsBundle
      signature := BlsSignature.bytes_eq_of_deserialize hP h.signature h'.signature }

/-- **Decoding a bid is faithful.** Every field of the submission is the decoding of the message's
field of that name, and two messages with the same submission are the same bid. -/
theorem decoding_faithful (hP : P.DecodesInjectively) :
    (∀ req bid, (BidSubmission.tryFrom P req).run = some (.ok bid) →
      BidSubmission.Decodes P req bid) ∧
    ∀ req req' bid, (BidSubmission.tryFrom P req).run = some (.ok bid) →
      (BidSubmission.tryFrom P req').run = some (.ok bid) → req.SameBid P req' := by
  have hdecodes : ∀ req bid, (BidSubmission.tryFrom P req).run = some (.ok bid) →
      BidSubmission.Decodes P req bid :=
    fun req bid => (BidSubmission.returns_tryFrom P req bid).mp
  refine ⟨hdecodes, ?_⟩
  intro req req' bid h h'
  exact (hdecodes req bid h).sameBid hP (hdecodes req' bid h')

end

namespace Sample

theorem decodesInjectively : prims.DecodesInjectively where
  keyValidate := by
    intro a b key ha hb
    cases ha
    cases hb
    rfl
  signatureFromBytes := by
    intro a b signature ha hb
    cases ha
    cases hb
    rfl

/-- The same bid, with a zero for the empty base fee and an empty bundle for the missing one. -/
def paddedMessage : Proto.BidRequest :=
  { bidMessage 2 1 1 with
    executionPayload := (bidMessage 2 1 1).executionPayload.map fun payload =>
      { payload with baseFeePerGas := [0] }
    blobsBundle := some default }

end Sample

/-- Both messages decode to the same submission. -/
theorem decoding_faithful_padded :
    Sample.prims.DecodesInjectively ∧
      (Sample.bidMessage 2 1 1).SameBid Sample.prims Sample.paddedMessage :=
  ⟨Sample.decodesInjectively,
    (decoding_faithful Sample.decodesInjectively).2 _ _ (Sample.bid 2 1 1) (by decide +kernel)
      (by decide +kernel)⟩

end MevRelay
