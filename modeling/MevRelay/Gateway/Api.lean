import MevRelay.System
import MevRelay.SigningRoots

/-!
# Where the fork data comes from

At start-up the relay asks the beacon node for its fork data and falls back on the configuration if
that fails. The two sources build the builder's fork data differently: the configuration takes the
genesis version and a zero root, as the builder domain wants it, the answer of the node is used for
builder and proposer alike. So one chain has two builder domains, and which one a relay signs with
depends on whether the node answered.

`hex::decode` of a third-party crate is a parameter; an error is given by its text.
-/

namespace MevRelay

inductive BeaconError where
  | http (text : String)
  | api (status : UInt16) (body : String)
  | deserialize (text : String)
  | sse (text : String)
  | channel (text : String)
  deriving DecidableEq, Repr

/-- `GetForkResponse`, as deserialised from the head state of the node. -/
structure GetForkResponse where
  genesisValidatorsRoot : String
  currentVersion : String
  deriving DecidableEq, Repr

/-- `trim_start_matches("0x")` takes off every leading `0x`. -/
def dropHexPrefixes : List Char → List Char
  | '0' :: 'x' :: rest => dropHexPrefixes rest
  | text => text

def trimHexPrefix (text : String) : String := String.ofList (dropHexPrefixes text.toList)

section Fetch

variable (hexDecode : String → Except String (List UInt8))

/-- `hex_array_4`, for arrays of any length `n`. -/
def hexArray (n : Nat) (text : String) : Except BeaconError (FixedBytes n) :=
  match hexDecode (trimHexPrefix text) with
  | .error e => .error (.sse ("hex decode: " ++ e))
  | .ok bytes =>
    match FixedBytes.ofSlice? n bytes with
    | none =>
      .error (.sse ("expected " ++ Nat.repr n ++ " bytes, got " ++ Nat.repr bytes.length))
    | some arr => .ok arr

/-- `BeaconNodeApi::get_fork_data`, for what `get_json` returned. -/
def getForkData (resp : Except BeaconError GetForkResponse) : Except BeaconError ForkDatas :=
  match resp with
  | .error e => .error e
  | .ok resp =>
    match hexDecode (trimHexPrefix resp.genesisValidatorsRoot) with
    | .error e => .error (.sse ("hex decode genesis_validators_root: " ++ e))
    | .ok gvrBytes =>
      match FixedBytes.ofSlice? 32 gvrBytes with
      | none =>
        .error (.sse ("genesis_validators_root length mismatch: expected 32 bytes, got " ++
          Nat.repr gvrBytes.length))
      | some gvr =>
        match hexArray hexDecode 4 resp.currentVersion with
        | .error e => .error e
        | .ok cv => .ok { builder := ⟨cv, gvr⟩, proposer := ⟨cv, gvr⟩ }

/-- The node reports this version and this root. -/
structure GetForkResponse.Reports (resp : GetForkResponse) (cv : FixedBytes 4) (gvr : B256) :
    Prop where
  version : hexDecode (trimHexPrefix resp.currentVersion) = .ok cv.bytes
  root : hexDecode (trimHexPrefix resp.genesisValidatorsRoot) = .ok gvr.bytes

end Fetch

/-- `ForkDatas::from_genesis_and_current_version`. -/
def ForkDatas.fromGenesisAndCurrentVersion (genesisForkVersion currentVersion : FixedBytes 4)
    (genesisValidatorsRoot : B256) : ForkDatas where
  builder := { currentVersion := genesisForkVersion, genesisValidatorsRoot := default }
  proposer :=
    { currentVersion := currentVersion, genesisValidatorsRoot := genesisValidatorsRoot }

/-- The fork data that `run_inner` goes on with. -/
def runInnerForkDatas (fetched : Except BeaconError ForkDatas) (configured : ForkDatas) :
    ForkDatas :=
  match fetched with
  | .ok forkDatas => forkDatas
  | .error _ => configured

section Agreement

variable {hexDecode : String → Except String (List UInt8)} {resp : GetForkResponse}
  {cv : FixedBytes 4} {gvr : B256}

theorem FixedBytes.ofSlice?_bytes {n : Nat} (b : FixedBytes n) :
    FixedBytes.ofSlice? n b.bytes = some b := by
  unfold FixedBytes.ofSlice?
  rw [dif_pos b.length_eq]

/-- A node that answers is believed for both fork data. -/
theorem getForkData_of_reports (h : resp.Reports hexDecode cv gvr) :
    getForkData hexDecode (.ok resp) = .ok { builder := ⟨cv, gvr⟩, proposer := ⟨cv, gvr⟩ } := by
  simp only [getForkData, hexArray, h.root, h.version, FixedBytes.ofSlice?_bytes]

/-- A domain shows 28 bytes of its fork data root. -/
theorem computeDomain_injective {P : Primitives} {fd fd' : ForkData} {domainType : List UInt8}
    (hlen : domainType.length = 4)
    (h : fd.computeDomain P domainType = fd'.computeDomain P domainType) :
    (fd.treeHashRoot P).bytes.take 28 = (fd'.treeHashRoot P).bytes.take 28 := by
  have hroot := (fd.treeHashRoot P).length_eq
  have hroot' := (fd'.treeHashRoot P).length_eq
  have hbytes := FixedBytes.copyFrom_injective (by simp [hroot, hroot'])
    (by simp [hlen, hroot]) h
  exact List.append_cancel_left hbytes

/-- **When the two sources of fork data agree**: exactly if the chain is at its genesis version and
has a zero genesis validators root. The proposer's domain agrees always. -/
theorem fork_data_sources_agree_iff (P : Primitives)
    (hexDecode : String → Except String (List UInt8)) (gv cv : FixedBytes 4) (gvr : B256)
    (resp : GetForkResponse) (hresp : resp.Reports hexDecode cv gvr)
    (hfree : Merkle.CollisionFree (fun fd : ForkData => (fd.treeHashRoot P).bytes.take 28)
      [⟨cv, gvr⟩, ⟨gv, default⟩])
    (unreachable : BeaconError) :
    ∃ fetched, getForkData hexDecode (.ok resp) = .ok fetched ∧
      let configured := ForkDatas.fromGenesisAndCurrentVersion gv cv gvr
      let fallback := runInnerForkDatas (getForkData hexDecode (.error unreachable)) configured
      (fetched.computeBuilderDomain P = fallback.computeBuilderDomain P ∧
        fetched.computeProposerDomain P = fallback.computeProposerDomain P ↔
        cv = gv ∧ gvr = default) := by
  refine ⟨_, getForkData_of_reports hresp, ?_⟩
  intro configured fallback
  constructor
  · rintro ⟨hbuilder, -⟩
    have hprefix := computeDomain_injective rfl hbuilder
    have hdata : (⟨cv, gvr⟩ : ForkData) = ⟨gv, default⟩ :=
      hfree _ (by simp) _ (by simp) hprefix
    rwa [ForkData.mk.injEq] at hdata
  · rintro ⟨rfl, rfl⟩
    exact ⟨rfl, rfl⟩

end Agreement

namespace Sample

def hexDigit (c : Char) : Option UInt8 :=
  if '0' ≤ c ∧ c ≤ '9' then some (UInt8.ofNat (c.toNat - 48))
  else if 'a' ≤ c ∧ c ≤ 'f' then some (UInt8.ofNat (c.toNat - 87))
  else none

def hexPairs : List Char → Option (List UInt8)
  | [] => some []
  | [_] => none
  | hi :: lo :: rest => do return (16 * (← hexDigit hi) + (← hexDigit lo)) :: (← hexPairs rest)

/-- Two lower-case digits a byte. -/
def hexDecode (text : String) : Except String (List UInt8) :=
  match hexPairs text.toList with
  | some bytes => .ok bytes
  | none => .error "not hex"

/-- The head state of a chain that has forked since genesis. -/
def forkedState : GetForkResponse where
  genesisValidatorsRoot := "0x4b4b4b4b4b4b4b4b4b4b4b4b4b4b4b4b4b4b4b4b4b4b4b4b4b4b4b4b4b4b4b4b"
  currentVersion := "0x04000000"

theorem forkedState_reports :
    forkedState.Reports hexDecode (.copyFrom [4]) (.repeatByte 0x4b) where
  version := by decide +kernel
  root := by decide +kernel

theorem forkedState_free :
    Merkle.CollisionFree (fun fd : ForkData => (fd.treeHashRoot prims).bytes.take 28)
      [⟨.copyFrom [4], .repeatByte 0x4b⟩, ⟨default, default⟩] := by decide +kernel

end Sample

open Sample in
/-- A chain that has forked since genesis, asked for its fork data. -/
theorem fork_data_sources_forked :
    ∃ fetched, getForkData hexDecode (.ok forkedState) = .ok fetched ∧
      let configured := ForkDatas.fromGenesisAndCurrentVersion default (.copyFrom [4])
        (.repeatByte 0x4b)
      let fallback := runInnerForkDatas (getForkData hexDecode (.error (.http "refused")))
        configured
      (fetched.computeBuilderDomain prims = fallback.computeBuilderDomain prims ∧
        fetched.computeProposerDomain prims = fallback.computeProposerDomain prims ↔
        (.copyFrom [4] : FixedBytes 4) = default ∧ (.repeatByte 0x4b : B256) = default) :=
  fork_data_sources_agree_iff prims hexDecode default (.copyFrom [4]) (.repeatByte 0x4b) forkedState
    forkedState_reports forkedState_free (.http "refused")

open Sample in
/-- Its two builder domains differ. -/
theorem fork_data_sources_disagree :
    ¬ ∀ (P : Primitives) (hexDecode : String → Except String (List UInt8)) (gv cv : FixedBytes 4)
      (gvr : B256) (resp : GetForkResponse), resp.Reports hexDecode cv gvr →
      Merkle.CollisionFree (fun fd : ForkData => (fd.treeHashRoot P).bytes.take 28)
        [⟨cv, gvr⟩, ⟨gv, default⟩] →
      ∀ unreachable, ∃ fetched, getForkData hexDecode (.ok resp) = .ok fetched ∧
        let configured := ForkDatas.fromGenesisAndCurrentVersion gv cv gvr
        let fallback := runInnerForkDatas (getForkData hexDecode (.error unreachable)) configured
        fetched.computeBuilderDomain P = fallback.computeBuilderDomain P ∧
          fetched.computeProposerDomain P = fallback.computeProposerDomain P := by
  intro h
  obtain ⟨fetched, hfetched, hbuilder, -⟩ := h prims hexDecode default (.copyFrom [4])
    (.repeatByte 0x4b) forkedState forkedState_reports forkedState_free (.http "refused")
  rw [getForkData_of_reports forkedState_reports] at hfetched
  cases hfetched
  exact absurd hbuilder (by decide +kernel)

end MevRelay
