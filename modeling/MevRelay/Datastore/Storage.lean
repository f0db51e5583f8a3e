import MevRelay.Entity
import Mathlib.Data.List.AList

/-!
# The in-memory storage

`MemoryStorage` is one record behind one lock. Each method of the `Storage` trait takes that lock
once, so each is one pure function here, and one atomic call in `Datastore.Store`. The two methods
that no code path of the relay calls (`set_validator_registrations`, `read_proposer_duties`) are
left out.
-/

namespace MevRelay

/-- `std::collections::HashMap`, as far as the relay uses it: look up, insert, test for emptiness. -/
abbrev HashMap (κ β : Type) := AList fun _ : κ => β

/-- `MemoryStorageInner`. -/
structure MemoryStorage where
  headSlot : HeadSlot
  payloadAttributes : PayloadAttributes
  validatorRegistrations : HashMap BlsPublicKey ValidatorRegistration
  proposerDuties : List ProposerDuty
  whitelist : List BlsPublicKey
  blindedBlocks : HashMap BlsPublicKey BlindedBlockResponse
  deliveredBlocks : List B256

namespace MemoryStorage

def new (whitelist : List BlsPublicKey) : MemoryStorage where
  headSlot := ⟨0⟩
  payloadAttributes :=
    { timestamp := 0
      prevRandao := default
      suggestedFeeRecipient := default }
  validatorRegistrations := ∅
  proposerDuties := []
  whitelist := whitelist
  blindedBlocks := ∅
  deliveredBlocks := []

variable (st : MemoryStorage)

def setHeadSlot (slot : HeadSlot) : MemoryStorage := { st with headSlot := slot }

def readHeadSlot : HeadSlot := st.headSlot

def setPayloadAttributes (attrs : PayloadAttributes) : MemoryStorage :=
  { st with payloadAttributes := attrs }

def readPayloadAttributes : PayloadAttributes := st.payloadAttributes

def setValidatorRegistration (key : BlsPublicKey) (reg : ValidatorRegistration) : MemoryStorage :=
  { st with validatorRegistrations := st.validatorRegistrations.insert key reg }

def readValidatorRegistration (key : BlsPublicKey) : Option ValidatorRegistration :=
  st.validatorRegistrations.lookup key

def emptyValidatorRegs : Bool := st.validatorRegistrations.entries.isEmpty

def isWhitelistedBuilder (key : BlsPublicKey) : Bool := st.whitelist.contains key

def setProposerDuties (duties : List ProposerDuty) : MemoryStorage :=
  { st with proposerDuties := duties }

/-- The first duty listed for `slot`. -/
def findDutyBySlot (slot : UInt64) : Option ProposerDuty :=
  st.proposerDuties.find? fun d => d.slot == slot

def setBlindedBlockResponse (proposer : BlsPublicKey) (resp : BlindedBlockResponse) :
    MemoryStorage :=
  { st with blindedBlocks := st.blindedBlocks.insert proposer resp }

def readBlindedBlockResponse (proposer : BlsPublicKey) : Option BlindedBlockResponse :=
  st.blindedBlocks.lookup proposer

def setDeliveredBlocks (blockHash : B256) : MemoryStorage :=
  { st with deliveredBlocks := st.deliveredBlocks ++ [blockHash] }

/-! ## What a lookup sees after an update -/

variable {st}

theorem readValidatorRegistration_set (key k : BlsPublicKey) (reg : ValidatorRegistration) :
    (st.setValidatorRegistration key reg).readValidatorRegistration k =
      if k = key then some reg else st.readValidatorRegistration k := by
  unfold readValidatorRegistration setValidatorRegistration
  by_cases h : k = key
  · rw [if_pos h, h]; exact AList.lookup_insert _
  · rw [if_neg h]; exact AList.lookup_insert_ne h

theorem readValidatorRegistration_of_empty (h : st.emptyValidatorRegs = true) (key : BlsPublicKey) :
    st.readValidatorRegistration key = none := by
  have hempty : st.validatorRegistrations = ∅ := by
    apply AList.ext
    exact List.isEmpty_iff.mp h
  unfold readValidatorRegistration
  rw [hempty]
  exact AList.lookup_empty key

theorem readBlindedBlockResponse_set (proposer p : BlsPublicKey) (resp : BlindedBlockResponse) :
    (st.setBlindedBlockResponse proposer resp).readBlindedBlockResponse p =
      if p = proposer then some resp else st.readBlindedBlockResponse p := by
  unfold readBlindedBlockResponse setBlindedBlockResponse
  by_cases h : p = proposer
  · rw [if_pos h, h]; exact AList.lookup_insert _
  · rw [if_neg h]; exact AList.lookup_insert_ne h

/-- A duty that is found is listed, and is for the slot asked for. -/
theorem findDutyBySlot_eq_some {slot : UInt64} {d : ProposerDuty}
    (h : st.findDutyBySlot slot = some d) : d ∈ st.proposerDuties ∧ d.slot = slot := by
  refine ⟨List.mem_of_find?_eq_some h, ?_⟩
  have hd := List.find?_some h
  exact beq_iff_eq.mp hd

end MemoryStorage

end MevRelay
