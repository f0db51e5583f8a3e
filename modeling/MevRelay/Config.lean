import MevRelay.Gateway.Api
import MevRelay.Process

/-!
# The configuration

`RelayConfig::try_from` turns the command line into a configuration, and `run_inner` starts the relay
with it. What the arguments may be, and which of them an error is about, is `config_exact`.
`only_configured_builders` is what the list of builders is for: nothing is cached, stored or sent but
what a builder on it has signed.

`hex::decode` and `blst::min_pk::SecretKey::from_bytes` are parameters, with errors by their texts.
-/

namespace MevRelay

open Atomic

/-- `CliArgs`, as parsed. -/
structure CliArgs where
  grpcPort : UInt16
  httpPort : UInt16
  beaconUrl : String
  blsSecretKey : String
  chain : String
  slotsPerEpoch : UInt64
  enabledBuilders : List String
  genesisForkVersion : String
  currentForkVersion : String
  genesisValidatorsRoot : String

structure RelayConfig where
  grpcPort : UInt16
  httpPort : UInt16
  beaconUrl : String
  blsSecretKey : BlsSecretKey
  chain : ForkName
  slotsPerEpoch : UInt64
  enabledBuilders : List BlsPublicKey
  forkDatas : ForkDatas
  pollingIntervalSecs : UInt64
  deriving DecidableEq

section TryFrom

variable (P : Primitives) (hexDecode : String → Except String (List UInt8))
  (secretKeyFromBytes : FixedBytes 32 → Except String BlsSecretKey)

/-- `BlsSecretKey::deserialize`. -/
def BlsSecretKey.deserialize (bytes : List UInt8) : Except String BlsSecretKey :=
  match FixedBytes.ofSlice? 32 bytes with
  | none => .error "invalid secret key length"
  | some arr => secretKeyFromBytes arr

namespace RelayConfig

/-- `hex::decode(text.trim_start_matches("0x"))`, an error after the text `what`. -/
def decodeHex (what text : String) : Except String (List UInt8) :=
  (hexDecode (trimHexPrefix text)).mapError (what ++ ·)

/-- The secret key of the arguments. -/
def trySecretKey (args : CliArgs) : Except String BlsSecretKey := do
  let skBytes ← decodeHex hexDecode "invalid bls secret key hex: " args.blsSecretKey
  (BlsSecretKey.deserialize secretKeyFromBytes skBytes).mapError ("invalid bls key: " ++ ·)

def tryChain (args : CliArgs) : Except String ForkName :=
  if args.chain = "mainnet" ∨ args.chain = "sepolia" ∨ args.chain = "holesky" then
    .ok .deneb
  else
    .error ("unknown chain: " ++ args.chain)

def tryValidatorsRoot (args : CliArgs) : Except String B256 := do
  let gvBytes ← decodeHex hexDecode "invalid genesis validators root: " args.genesisValidatorsRoot
  match FixedBytes.ofSlice? 32 gvBytes with
  | none => .error "genesis validators root must be 32 bytes"
  | some genesisValidatorsRoot => return genesisValidatorsRoot

/-- The genesis version and the current one. -/
def tryForkVersions (args : CliArgs) : Except String (FixedBytes 4 × FixedBytes 4) := do
  let genesisForkBytes ← decodeHex hexDecode "invalid genesis fork version: "
    args.genesisForkVersion
  let currentForkBytes ← decodeHex hexDecode "invalid current fork version: "
    args.currentForkVersion
  match FixedBytes.ofSlice? 4 genesisForkBytes, FixedBytes.ofSlice? 4 currentForkBytes with
  | some gvArr, some cvArr => return (gvArr, cvArr)
  | _, _ => .error "fork versions must be 4 bytes"

/-- One entry of the list of builders. -/
def tryBuilder (hexStr : String) : Except String BlsPublicKey := do
  let bytes ← decodeHex hexDecode "invalid builder pubkey: " hexStr
  (BlsPublicKey.deserialize P bytes).mapError ("invalid builder pubkey: " ++ ·)

/-- `RelayConfig::try_from`. -/
def tryFrom (args : CliArgs) : Except String RelayConfig := do
  let blsSecretKey ← trySecretKey hexDecode secretKeyFromBytes args
  let chain ← tryChain args
  let genesisValidatorsRoot ← tryValidatorsRoot hexDecode args
  let (gvArr, cvArr) ← tryForkVersions hexDecode args
  let enabledBuilders ← args.enabledBuilders.mapM (tryBuilder P hexDecode)
  return {
    grpcPort := args.grpcPort
    httpPort := args.httpPort
    beaconUrl := args.beaconUrl
    blsSecretKey := blsSecretKey
    chain := chain
    slotsPerEpoch := args.slotsPerEpoch
    enabledBuilders := enabledBuilders
    forkDatas := .fromGenesisAndCurrentVersion gvArr cvArr genesisValidatorsRoot
    pollingIntervalSecs := 6 }

/-! ## What the arguments may be -/

/-- The text is hex for these bytes, after any number of `0x`. -/
def Hex {n : Nat} (text : String) (bytes : FixedBytes n) : Prop :=
  hexDecode (trimHexPrefix text) = .ok bytes.bytes

/-- The text is the secret key `key`. -/
def IsSecretKey (text : String) (key : BlsSecretKey) : Prop :=
  ∃ bytes, Hex hexDecode text bytes ∧ secretKeyFromBytes bytes = .ok key

/-- The text is the public key `key`. -/
def IsBuilder (text : String) (key : BlsPublicKey) : Prop :=
  ∃ bytes, Hex hexDecode text bytes ∧ P.keyValidate bytes = .ok key

def IsChain (text : String) : Prop := text ∈ ["mainnet", "sepolia", "holesky"]

/-- The configuration is what the arguments say. -/
structure Describes (args : CliArgs) (config : RelayConfig) : Prop where
  secret_key : IsSecretKey hexDecode secretKeyFromBytes args.blsSecretKey config.blsSecretKey
  chain : IsChain args.chain ∧ config.chain = .deneb
  fork_datas : ∃ gvr gv cv, Hex hexDecode args.genesisValidatorsRoot gvr ∧
    Hex hexDecode args.genesisForkVersion gv ∧ Hex hexDecode args.currentForkVersion cv ∧
    config.forkDatas = .fromGenesisAndCurrentVersion gv cv gvr
  builders : List.Forall₂ (IsBuilder P hexDecode) args.enabledBuilders config.enabledBuilders
  rest : config.grpcPort = args.grpcPort ∧ config.httpPort = args.httpPort ∧
    config.beaconUrl = args.beaconUrl ∧ config.slotsPerEpoch = args.slotsPerEpoch ∧
    config.pollingIntervalSecs = 6

/-- The arguments that can be malformed, in the order in which they are looked at. -/
inductive Argument where
  | secretKey
  | chain
  | validatorsRoot
  | forkVersions
  | builders
  deriving DecidableEq, Repr

namespace Argument

def all : List Argument := [.secretKey, .chain, .validatorsRoot, .forkVersions, .builders]

/-- What must hold of the argument. -/
def Valid (args : CliArgs) : Argument → Prop
  | .secretKey => ∃ key, IsSecretKey hexDecode secretKeyFromBytes args.blsSecretKey key
  | .chain => IsChain args.chain
  | .validatorsRoot => ∃ gvr : B256, Hex hexDecode args.genesisValidatorsRoot gvr
  | .forkVersions => ∃ gv cv : FixedBytes 4, Hex hexDecode args.genesisForkVersion gv ∧
    Hex hexDecode args.currentForkVersion cv
  | .builders => ∃ keys, List.Forall₂ (IsBuilder P hexDecode) args.enabledBuilders keys

/-- How the errors about the argument begin. -/
def texts : Argument → List String
  | .secretKey => ["invalid bls secret key hex: ", "invalid bls key: "]
  | .chain => ["unknown chain: "]
  | .validatorsRoot =>
    ["invalid genesis validators root: ", "genesis validators root must be 32 bytes"]
  | .forkVersions =>
    ["invalid genesis fork version: ", "invalid current fork version: ",
      "fork versions must be 4 bytes"]
  | .builders => ["invalid builder pubkey: "]

/-- The error is about the argument. -/
def IsAbout (e : String) (a : Argument) : Prop := ∃ text ∈ a.texts, ∃ more, e = text ++ more

end Argument

/-- A step returns the one value that `Is` allows, or there is none and the error is about `a`. -/
def Settles {α : Type} (step : Except String α) (Is : α → Prop) (a : Argument) : Prop :=
  (∃ v, step = .ok v ∧ ∀ v', Is v' ↔ v' = v) ∨
    ∃ e, step = .error e ∧ Argument.IsAbout e a ∧ ∀ v, ¬ Is v

variable {P hexDecode secretKeyFromBytes}

/-! ## The steps -/

variable (hexDecode) in
/-- Hex of the right length, of another length, or no hex. -/
theorem decodeHex_cases (n : Nat) (what text : String) :
    (∃ bytes : FixedBytes n, decodeHex hexDecode what text = .ok bytes.bytes ∧
      ∀ b : FixedBytes n, Hex hexDecode text b ↔ b = bytes) ∨
    (∃ bytes, decodeHex hexDecode what text = .ok bytes ∧ FixedBytes.ofSlice? n bytes = none ∧
      ∀ b : FixedBytes n, ¬ Hex hexDecode text b) ∨
    ∃ e, decodeHex hexDecode what text = .error (what ++ e) ∧
      ∀ b : FixedBytes n, ¬ Hex hexDecode text b := by
  unfold decodeHex Hex
  cases hdecode : hexDecode (trimHexPrefix text) with
  | error e =>
    refine .inr (.inr ⟨e, rfl, ?_⟩)
    intro b h
    cases h
  | ok bytes =>
    by_cases hlen : bytes.length = n
    · refine .inl ⟨⟨bytes, hlen⟩, rfl, ?_⟩
      intro b
      rw [Except.ok.injEq]
      constructor
      · intro h
        exact FixedBytes.eq_of_bytes h.symm
      · rintro rfl
        rfl
    · refine .inr (.inl ⟨bytes, rfl, dif_neg hlen, ?_⟩)
      intro b h
      cases h
      exact hlen b.length_eq

/-- Hex, then a value of `n` bytes. -/
theorem settles_of_hex {α : Type} {n : Nat} {what text : String} {a : Argument}
    {next : List UInt8 → Except String α} {Is : FixedBytes n → α → Prop} (hwhat : what ∈ a.texts)
    (hnext : ∀ bytes : FixedBytes n, Settles (next bytes.bytes) (Is bytes) a)
    (hlength : ∀ bytes, FixedBytes.ofSlice? n bytes = none →
      ∃ e, next bytes = .error e ∧ a.IsAbout e) :
    Settles (decodeHex hexDecode what text >>= next)
      (fun v => ∃ bytes, Hex hexDecode text bytes ∧ Is bytes v) a := by
  rcases decodeHex_cases hexDecode n what text with
    ⟨bytes, hdecode, honly⟩ | ⟨bytes, hdecode, hslice, hno⟩ | ⟨e, hdecode, hno⟩
  · rw [hdecode]
    simp only [honly, exists_eq_left]
    exact hnext bytes
  · obtain ⟨e, he, habout⟩ := hlength bytes hslice
    rw [hdecode]
    refine .inr ⟨e, he, habout, ?_⟩
    rintro v ⟨b, hb, -⟩
    exact hno b hb
  · rw [hdecode]
    refine .inr ⟨what ++ e, rfl, ⟨what, hwhat, e, rfl⟩, ?_⟩
    rintro v ⟨b, hb, -⟩
    exact hno b hb

/-- What a library makes of the bytes; its errors are put after the text `what`. -/
theorem settles_mapError {α : Type} {result : Except String α} {what : String} {a : Argument}
    (hwhat : what ∈ a.texts) :
    Settles (result.mapError (what ++ ·)) (fun v => result = .ok v) a := by
  cases result with
  | error e =>
    refine .inr ⟨what ++ e, rfl, ⟨what, hwhat, e, rfl⟩, ?_⟩
    intro v h
    cases h
  | ok v =>
    refine .inl ⟨v, rfl, ?_⟩
    intro v'
    show Except.ok v = .ok v' ↔ v' = v
    rw [Except.ok.injEq]
    exact eq_comm

variable (hexDecode secretKeyFromBytes) in
theorem trySecretKey_settles (args : CliArgs) :
    Settles (trySecretKey hexDecode secretKeyFromBytes args)
      (IsSecretKey hexDecode secretKeyFromBytes args.blsSecretKey) .secretKey := by
  refine settles_of_hex (List.mem_cons_self) ?_ ?_
  · intro bytes
    simp only [BlsSecretKey.deserialize, FixedBytes.ofSlice?_bytes]
    exact settles_mapError (List.mem_cons_of_mem _ List.mem_cons_self)
  · intro bytes hslice
    refine ⟨"invalid bls key: " ++ "invalid secret key length", ?_, "invalid bls key: ",
      List.mem_cons_of_mem _ List.mem_cons_self, _, rfl⟩
    simp only [BlsSecretKey.deserialize, hslice]
    rfl

variable (P hexDecode) in
theorem tryBuilder_settles (text : String) :
    Settles (tryBuilder P hexDecode text) (IsBuilder P hexDecode text) .builders := by
  refine settles_of_hex (List.mem_cons_self) ?_ ?_
  · intro bytes
    simp only [BlsPublicKey.deserialize, FixedBytes.ofSlice?_bytes]
    exact settles_mapError List.mem_cons_self
  · intro bytes hslice
    refine ⟨"invalid builder pubkey: " ++ "invalid length", ?_, "invalid builder pubkey: ",
      List.mem_cons_self, _, rfl⟩
    simp only [BlsPublicKey.deserialize, hslice]
    rfl

theorem tryChain_settles (args : CliArgs) :
    Settles (tryChain args) (fun chain => IsChain args.chain ∧ chain = .deneb) .chain := by
  unfold tryChain IsChain
  simp only [List.mem_cons, List.not_mem_nil, or_false]
  split
  · next h => exact .inl ⟨_, rfl, fun chain => and_iff_right h⟩
  · next h => exact .inr ⟨_, rfl, ⟨_, List.mem_cons_self, _, rfl⟩, fun chain hc => h hc.1⟩

variable (hexDecode) in
theorem tryValidatorsRoot_settles (args : CliArgs) :
    Settles (tryValidatorsRoot hexDecode args)
      (fun gvr => ∃ bytes, Hex hexDecode args.genesisValidatorsRoot bytes ∧ gvr = bytes)
      .validatorsRoot := by
  refine settles_of_hex (List.mem_cons_self) ?_ ?_
  · intro bytes
    rw [FixedBytes.ofSlice?_bytes]
    exact .inl ⟨bytes, rfl, fun _ => Iff.rfl⟩
  · intro bytes hslice
    refine ⟨_, ?_, "genesis validators root must be 32 bytes",
      List.mem_cons_of_mem _ List.mem_cons_self, "", rfl⟩
    rw [hslice]
    rfl

variable (hexDecode) in
/-- The lengths are compared last, when both texts are known to be hex. -/
theorem tryForkVersions_settles (args : CliArgs) :
    Settles (tryForkVersions hexDecode args)
      (fun versions => ∃ gv, Hex hexDecode args.genesisForkVersion gv ∧
        ∃ cv, Hex hexDecode args.currentForkVersion cv ∧ versions = (gv, cv)) .forkVersions := by
  have habout : Argument.forkVersions.IsAbout "fork versions must be 4 bytes" :=
    ⟨_, List.mem_cons_of_mem _ (List.mem_cons_of_mem _ List.mem_cons_self), "", rfl⟩
  unfold tryForkVersions decodeHex Hex
  cases hgv : hexDecode (trimHexPrefix args.genesisForkVersion) with
  | error e =>
    refine .inr ⟨_, rfl, ⟨_, List.mem_cons_self, e, rfl⟩, ?_⟩
    rintro versions ⟨gv, h, -⟩
    cases h
  | ok gvBytes =>
    cases hcv : hexDecode (trimHexPrefix args.currentForkVersion) with
    | error e =>
      refine .inr ⟨_, rfl, ⟨_, List.mem_cons_of_mem _ List.mem_cons_self, e, rfl⟩, ?_⟩
      rintro versions ⟨gv, -, cv, h, -⟩
      cases h
    | ok cvBytes =>
      show Settles (match FixedBytes.ofSlice? 4 gvBytes, FixedBytes.ofSlice? 4 cvBytes with
        | some gvArr, some cvArr => .ok (gvArr, cvArr)
        | _, _ => .error "fork versions must be 4 bytes") _ _
      cases hgvArr : FixedBytes.ofSlice? 4 gvBytes with
      | none =>
        refine .inr ⟨_, rfl, habout, ?_⟩
        rintro versions ⟨gv, h, -⟩
        cases h
        rw [FixedBytes.ofSlice?_bytes] at hgvArr
        cases hgvArr
      | some gv =>
        cases hcvArr : FixedBytes.ofSlice? 4 cvBytes with
        | none =>
          refine .inr ⟨_, rfl, habout, ?_⟩
          rintro versions ⟨_, -, cv, h, -⟩
          cases h
          rw [FixedBytes.ofSlice?_bytes] at hcvArr
          cases hcvArr
        | some cv =>
          refine .inl ⟨(gv, cv), rfl, ?_⟩
          intro versions
          constructor
          · rintro ⟨gv', hgv', cv', hcv', rfl⟩
            cases hgv'
            cases hcv'
            rw [FixedBytes.ofSlice?_bytes, Option.some.injEq] at hgvArr hcvArr
            rw [hgvArr, hcvArr]
          · rintro rfl
            refine ⟨gv, ?_, cv, ?_, rfl⟩
            · rw [FixedBytes.bytes_of_ofSlice? hgvArr]
            · rw [FixedBytes.bytes_of_ofSlice? hcvArr]

variable (P hexDecode) in
/-- The list of builders is worked through up to the first bad entry. -/
theorem mapM_tryBuilder_settles (texts : List String) :
    Settles (texts.mapM (tryBuilder P hexDecode))
      (List.Forall₂ (IsBuilder P hexDecode) texts) .builders := by
  induction texts with
  | nil =>
    refine .inl ⟨[], rfl, ?_⟩
    intro keys
    exact List.forall₂_nil_left_iff
  | cons text texts ih =>
    rw [List.mapM_cons]
    rcases tryBuilder_settles P hexDecode text with
      ⟨key, hkey, honly⟩ | ⟨e, he, habout, hno⟩
    · rcases ih with ⟨keys, hkeys, hall⟩ | ⟨e, he, habout, hno⟩
      · rw [hkey, hkeys]
        refine .inl ⟨key :: keys, rfl, ?_⟩
        intro keys'
        cases keys' with
        | nil => simp
        | cons key' keys' => rw [List.forall₂_cons, honly, hall, List.cons.injEq]
      · rw [hkey, he]
        refine .inr ⟨e, rfl, habout, ?_⟩
        intro keys' h
        cases h with
        | cons _ h => exact hno _ h
    · rw [he]
      refine .inr ⟨e, rfl, habout, ?_⟩
      intro keys h
      cases h with
      | cons h _ => exact hno _ h

/-! ## The whole -/

variable (P hexDecode secretKeyFromBytes)

/-- What `tryFrom` does to arguments: it returns the configuration that they describe, or fails with an
error about the first one that is malformed. -/
structure Exact (args : CliArgs) : Prop where
  ok_iff : ∀ config, tryFrom P hexDecode secretKeyFromBytes args = .ok config ↔
    Describes P hexDecode secretKeyFromBytes args config
  error : ∀ e, tryFrom P hexDecode secretKeyFromBytes args = .error e →
    ∃ a : Argument, a.IsAbout e ∧ ¬ a.Valid P hexDecode secretKeyFromBytes args ∧
      ∀ b ∈ Argument.all.takeWhile (· ≠ a), b.Valid P hexDecode secretKeyFromBytes args

/-- What comes of looking at the arguments `steps` in turn: the one value that `Is` allows, or an error
about the first of them that is malformed. -/
def Reads {α : Type} (args : CliArgs) (steps : List Argument) (result : Except String α)
    (Is : α → Prop) : Prop :=
  (∃ v, result = .ok v ∧ ∀ v', Is v' ↔ v' = v) ∨
    ∃ e front a back, result = .error e ∧ steps = front ++ a :: back ∧ a.IsAbout e ∧
      ¬ a.Valid P hexDecode secretKeyFromBytes args ∧
      (∀ b ∈ front, b.Valid P hexDecode secretKeyFromBytes args) ∧ ∀ v, ¬ Is v

variable {P hexDecode secretKeyFromBytes}

theorem reads_ok {α : Type} (args : CliArgs) (v : α) :
    Reads P hexDecode secretKeyFromBytes args [] (.ok v) (· = v) :=
  .inl ⟨v, rfl, fun _ => Iff.rfl⟩

theorem Reads.congr {α : Type} {args : CliArgs} {steps : List Argument} {result : Except String α}
    {Is Is' : α → Prop} (h : Reads P hexDecode secretKeyFromBytes args steps result Is)
    (hiff : ∀ v, Is v ↔ Is' v) : Reads P hexDecode secretKeyFromBytes args steps result Is' := by
  simpa only [Reads, hiff] using h

/-- One more step before the others. -/
theorem Settles.reads_bind {α β : Type} {args : CliArgs} {a : Argument} {steps : List Argument}
    {step : Except String α} {Is : α → Prop} {next : α → Except String β} {Is' : α → β → Prop}
    (hstep : Settles step Is a)
    (hvalid : a.Valid P hexDecode secretKeyFromBytes args ↔ ∃ v, Is v)
    (hnext : ∀ v, Is v → Reads P hexDecode secretKeyFromBytes args steps (next v) (Is' v)) :
    Reads P hexDecode secretKeyFromBytes args (a :: steps) (step >>= next)
      (fun w => ∃ v, Is v ∧ Is' v w) := by
  rcases hstep with ⟨v, rfl, honly⟩ | ⟨e, rfl, habout, hno⟩
  · have hv : Is v := (honly v).mpr rfl
    simp only [honly, exists_eq_left]
    rcases hnext v hv with hok | ⟨e, front, b, back, he, hsteps, habout, hinvalid, hfront, hno⟩
    · exact .inl hok
    · refine .inr ⟨e, a :: front, b, back, he, congrArg (a :: ·) hsteps, habout, hinvalid, ?_, hno⟩
      exact List.forall_mem_cons.mpr ⟨hvalid.mpr ⟨v, hv⟩, hfront⟩
  · refine .inr ⟨e, [], a, steps, rfl, rfl, habout, ?_, fun _ hb => absurd hb List.not_mem_nil, ?_⟩
    · intro h
      obtain ⟨v, hv⟩ := hvalid.mp h
      exact hno v hv
    · rintro w ⟨v, hv, -⟩
      exact hno v hv

variable (P hexDecode secretKeyFromBytes) in
/-- The five steps of `tryFrom`, each with the argument that it looks at. -/
theorem tryFrom_reads (args : CliArgs) :
    Reads P hexDecode secretKeyFromBytes args Argument.all
      (tryFrom P hexDecode secretKeyFromBytes args)
      (Describes P hexDecode secretKeyFromBytes args) := by
  have hreads : Reads P hexDecode secretKeyFromBytes args Argument.all
      (tryFrom P hexDecode secretKeyFromBytes args) fun config =>
        ∃ sk, IsSecretKey hexDecode secretKeyFromBytes args.blsSecretKey sk ∧
        ∃ chain, (IsChain args.chain ∧ chain = .deneb) ∧
        ∃ gvr, (∃ bytes, Hex hexDecode args.genesisValidatorsRoot bytes ∧ gvr = bytes) ∧
        ∃ versions : FixedBytes 4 × FixedBytes 4, (∃ gv, Hex hexDecode args.genesisForkVersion gv ∧
          ∃ cv, Hex hexDecode args.currentForkVersion cv ∧ versions = (gv, cv)) ∧
        ∃ keys, List.Forall₂ (IsBuilder P hexDecode) args.enabledBuilders keys ∧
        config = { grpcPort := args.grpcPort
                   httpPort := args.httpPort
                   beaconUrl := args.beaconUrl
                   blsSecretKey := sk
                   chain := chain
                   slotsPerEpoch := args.slotsPerEpoch
                   enabledBuilders := keys
                   forkDatas := .fromGenesisAndCurrentVersion versions.1 versions.2 gvr
                   pollingIntervalSecs := 6 } := by
    refine (trySecretKey_settles hexDecode secretKeyFromBytes args).reads_bind Iff.rfl
      fun sk _ => ?_
    refine (tryChain_settles args).reads_bind ?_ fun chain _ => ?_
    · exact ⟨fun h => ⟨.deneb, h, rfl⟩, fun ⟨_, h, _⟩ => h⟩
    refine (tryValidatorsRoot_settles hexDecode args).reads_bind ?_ fun gvr _ => ?_
    · exact ⟨fun ⟨gvr, h⟩ => ⟨gvr, gvr, h, rfl⟩, fun ⟨_, gvr, h, _⟩ => ⟨gvr, h⟩⟩
    refine (tryForkVersions_settles hexDecode args).reads_bind ?_ fun versions _ => ?_
    · exact ⟨fun ⟨gv, cv, hgv, hcv⟩ => ⟨(gv, cv), gv, hgv, cv, hcv, rfl⟩,
        fun ⟨_, gv, hgv, cv, hcv, _⟩ => ⟨gv, cv, hgv, hcv⟩⟩
    exact (mapM_tryBuilder_settles P hexDecode args.enabledBuilders).reads_bind Iff.rfl
      fun keys _ => reads_ok args _
  -- what the steps have read is what the arguments say
  refine hreads.congr fun config => ?_
  constructor
  · rintro ⟨sk, hsk, chain, hchain, gvr, ⟨_, hgvr, rfl⟩, versions, ⟨gv, hgv, cv, hcv, rfl⟩, keys,
      hkeys, rfl⟩
    exact ⟨hsk, hchain, ⟨gvr, gv, cv, hgvr, hgv, hcv, rfl⟩, hkeys, rfl, rfl, rfl, rfl, rfl⟩
  · rintro ⟨hsk, hchain, ⟨gvr, gv, cv, hgvr, hgv, hcv, hfork⟩, hkeys, hgrpc, hhttp, hurl, hslots,
      hpolling⟩
    refine ⟨_, hsk, _, hchain, gvr, ⟨gvr, hgvr, rfl⟩, (gv, cv), ⟨gv, hgv, cv, hcv, rfl⟩, _, hkeys,
      ?_⟩
    cases config
    simp_all

/-- The whitelist of an accepted configuration is the list in the arguments. -/
theorem builders_of_tryFrom {args : CliArgs} {config : RelayConfig}
    (h : tryFrom P hexDecode secretKeyFromBytes args = .ok config) :
    List.Forall₂ (IsBuilder P hexDecode) args.enabledBuilders config.enabledBuilders := by
  rcases tryFrom_reads P hexDecode secretKeyFromBytes args with
    ⟨config', hok, honly⟩ | ⟨e, front, a, back, he, -⟩
  · cases h.symm.trans hok
    exact ((honly config).mpr rfl).builders
  · cases h.symm.trans he

/-- **The configuration is read exactly.** It is accepted if and only if every argument is well-formed,
and then it is what the arguments say; an error is about the first argument that is not. -/
theorem config_exact (P : Primitives) (hexDecode : String → Except String (List UInt8))
    (secretKeyFromBytes : FixedBytes 32 → Except String BlsSecretKey) (args : CliArgs) :
    Exact P hexDecode secretKeyFromBytes args := by
  rcases tryFrom_reads P hexDecode secretKeyFromBytes args with
    ⟨config, hok, honly⟩ | ⟨e, front, a, back, he, hall, habout, hinvalid, hfront, hno⟩
  · refine ⟨fun config' => ?_, fun e he => ?_⟩
    · rw [hok, Except.ok.injEq, honly]
      exact eq_comm
    · cases hok.symm.trans he
  · refine ⟨fun config => ?_, fun e' he' => ?_⟩
    · rw [he]
      exact iff_of_false (fun h => by cases h) (hno config)
    · cases he.symm.trans he'
      refine ⟨a, habout, hinvalid, ?_⟩
      -- the malformed one is not among those before it
      have hne : ∀ b ∈ front, decide (b ≠ a) = true := by
        intro b hb
        apply decide_eq_true
        rintro rfl
        exact hinvalid (hfront b hb)
      rw [hall, List.takeWhile_append_of_pos hne, List.takeWhile_cons_of_neg (by simp),
        List.append_nil]
      exact hfront

end RelayConfig

end TryFrom

/-! ## The relay that is started -/

/-- What `run_inner` makes of a configuration; `fetched` is the answer of the beacon node to the
request for fork data. -/
def RelayConfig.relay (P : Primitives) (build : Build) (config : RelayConfig)
    (fetched : Except BeaconError ForkDatas) : Relay where
  prims := P
  build := build
  forkDatas := runInnerForkDatas fetched config.forkDatas
  secretKey := config.blsSecretKey
  chain := config.chain
  slotsPerEpoch := config.slotsPerEpoch

/-- A `Retrieve` response that shows bids of one kind only. -/
structure ShowsOnly (R : Relay) (serde : Serde) (Good : BidSubmission → Prop)
    (resp : Proto.RetrieveResponse) : Prop where
  header : ∃ bid, Good bid ∧
    resp.signedHeader = unwrapOrDefault (serde.header (GetHeaderUseCase.signedHeader R bid))
  contents : (resp.executionPayload = [] ∧ resp.blobsBundle = []) ∨
    ∃ bid, Good bid ∧
      resp.executionPayload = unwrapOrDefault (serde.payload bid.executionPayload) ∧
      resp.blobsBundle = unwrapOrDefault (serde.blobs bid.blobsBundle)

/-- Everything in the store and everything that has been sent is of bids of one kind. -/
structure HoldsOnly (R : Relay) (serde : Serde) (Good : BidSubmission → Prop)
    (p : Pool StoreOp StoreOp.Ans Session SessionResult Store) : Prop where
  cached : ∀ slot bid, p.shared.best slot = some bid → Good bid
  stored : ∀ proposer resp, p.shared.storage.readBlindedBlockResponse proposer = some resp →
    ∃ bid, Good bid ∧ resp = bid.toBlindedBlockResponse
  retrieved : ∀ u ∈ p.threads, ∀ inStream sends resp, u.request = .retrieve inStream sends →
    RetrieverService.HasSent R serde sends 0 inStream u.trace resp → ShowsOnly R serde Good resp
  released : ∀ u ∈ p.threads, ∀ req resp, u.request = .submitBlindedBlock req →
    u.rest = .ret (.submitBlindedBlock (.ok resp)) →
    ∃ bid, Good bid ∧ serde.payload bid.executionPayload = .ok resp.executionPayload ∧
      resp.blobsBundle = unwrapOrDefault (serde.blobs bid.blobsBundle)

theorem ShowsOnly.mono {R : Relay} {serde : Serde} {Good Good' : BidSubmission → Prop}
    {resp : Proto.RetrieveResponse} (h : ShowsOnly R serde Good resp)
    (hgood : ∀ bid, Good bid → Good' bid) : ShowsOnly R serde Good' resp where
  header := h.header.imp fun bid hbid => ⟨hgood bid hbid.1, hbid.2⟩
  contents := h.contents.imp_right fun ⟨bid, hbid⟩ => ⟨bid, hgood bid hbid.1, hbid.2⟩

theorem HoldsOnly.mono {R : Relay} {serde : Serde} {Good Good' : BidSubmission → Prop}
    {p : Pool StoreOp StoreOp.Ans Session SessionResult Store} (h : HoldsOnly R serde Good p)
    (hgood : ∀ bid, Good bid → Good' bid) : HoldsOnly R serde Good' p where
  cached := fun slot bid hbest => hgood bid (h.cached slot bid hbest)
  stored := fun proposer resp hresp =>
    (h.stored proposer resp hresp).imp fun bid hbid => ⟨hgood bid hbid.1, hbid.2⟩
  retrieved := fun u hu inStream sends resp hrequest hsent =>
    (h.retrieved u hu inStream sends resp hrequest hsent).mono hgood
  released := fun u hu req resp hrequest hrest =>
    (h.released u hu req resp hrequest hrest).imp fun bid hbid => ⟨hgood bid hbid.1, hbid.2⟩

section Services

variable {R : Relay} {serde : Serde} {whitelist : List BlsPublicKey}
  {requests : List (Action Rpc.Request UInt64)} {t : RpcThread} {Good : BidSubmission → Prop}

/-- A `Retrieve` sends what it has read, and that has won before. -/
theorem retrieve_showsOnly
    (hgood : ∀ t ∈ ((R.api serde).after whitelist requests).threads, ∀ bid duty,
      Won R bid duty ((R.api serde).serves t.request) t.trace → Good bid)
    (ht : t ∈ ((R.api serde).after whitelist requests).threads)
    {resp : Proto.RetrieveResponse} (hret : t.rest = .ret (.retrieve (.ok resp))) :
    ShowsOnly R serde Good resp := by
  have hread : ∀ slot (bid : Arc BidSubmission), ⟨.getBestBid slot, .ok bid⟩ ∈ t.trace →
      Good bid.val := by
    intro slot bid he
    obtain ⟨-, t', ht', duty, hwon⟩ := Relay.Frontend.best_read ht he
    exact hgood t' ht' bid.val duty hwon
  obtain ⟨msg, first, second, hreq, hretrieved⟩ :=
    Rpc.returns_retrieve (Relay.Frontend.returns_of_ret ht hret)
  obtain ⟨parentHash, proposerPubkey, tr, -, hserved, htr⟩ := hretrieved.served
  have hfirst : ⟨.getBestBid msg.slot, .ok first⟩ ∈ t.trace := by
    rw [htr]
    exact List.mem_append_left _ hserved.best_mem
  rw [hretrieved.resp_eq]
  refine ⟨⟨first.val, hread _ _ hfirst, rfl⟩, ?_⟩
  cases second with
  | error e => exact .inl ⟨rfl, rfl⟩
  | ok second =>
    have hsecond : ⟨.getBestBid msg.slot, .ok second⟩ ∈ t.trace := by
      rw [htr]
      exact List.mem_concat_self
    exact .inr ⟨second.val, hread _ _ hsecond, rfl, rfl⟩

theorem submitBlindedBlock_won
    (ht : t ∈ ((R.api serde).after whitelist requests).threads)
    {resp : Proto.BlindedBlockResponse} (hret : t.rest = .ret (.submitBlindedBlock (.ok resp))) :
    ∃ t ∈ ((R.api serde).after whitelist requests).threads, ∃ bid duty,
      Won R bid duty ((R.api serde).serves t.request) t.trace ∧
      serde.payload bid.executionPayload = .ok resp.executionPayload ∧
      resp.blobsBundle = unwrapOrDefault (serde.blobs bid.blobsBundle) := by
  obtain ⟨req, stored, hreq, hunblinded⟩ :=
    Rpc.returns_submitBlindedBlock (Relay.Frontend.returns_of_ret ht hret)
  obtain ⟨blockHash, signature, duty, -, hchecked⟩ := hunblinded.checked
  obtain ⟨t', ht', bid, duty', rfl, hwon⟩ := Relay.Frontend.blinded_read ht hchecked.resp_read
  exact ⟨t', ht', bid, duty', hwon, hunblinded.payload_eq, hunblinded.blobs_eq⟩

end Services

/-- In every run of the process, to be submitted on a `Bid` stream and to win the auction is the only
way in. -/
theorem process_holdsOnly (R : Relay) (serde : Serde) (json : EventJson)
    (whitelist : List BlsPublicKey) (schedule : List (Action Session UInt64)) :
    HoldsOnly R serde
      (fun bid => Authentic R whitelist bid ∧
        R.HasWon (R.processAfter serde json whitelist schedule) bid)
      (R.processAfter serde json whitelist schedule) := by
  obtain ⟨requests, owners, hmade, hown⟩ := R.process_requests serde json whitelist schedule
  have hgood : ∀ t ∈ ((R.api serde).after whitelist requests).threads, ∀ bid duty,
      Won R bid duty ((R.api serde).serves t.request) t.trace →
        Authentic R whitelist bid ∧ R.HasWon (R.processAfter serde json whitelist schedule) bid :=
    fun t ht bid duty hwon => ⟨Relay.Frontend.authentic_of_won ht hwon,
      Relay.hasWon_of_won hmade (fun j u hj => (hown j u hj).1) ht hwon⟩
  refine ⟨?_, ?_, ?_, ?_⟩
  · intro slot bid hbest
    rw [← hmade.shared] at hbest
    obtain ⟨-, t, ht, duty, hwon⟩ := Relay.Frontend.best_written (F := R.api serde) hbest
    exact hgood t ht bid duty hwon
  · intro proposer resp hresp
    rw [← hmade.shared] at hresp
    obtain ⟨t, ht, bid, duty, hbid, -, hwon⟩ :=
      Relay.Frontend.blinded_written (F := R.api serde) hresp
    exact ⟨bid, hgood t ht bid duty hwon, hbid⟩
  · intro u hu inStream sends resp hrequest hsent
    obtain ⟨t, ht, hret⟩ := Relay.exists_retrieve hmade hu hrequest hsent
    exact retrieve_showsOnly hgood ht hret
  · intro u hu req resp hrequest hrest
    obtain ⟨t, ht, -, hret⟩ := Relay.exists_submitBlindedBlock hmade hu hrequest hrest
    obtain ⟨t', ht', bid, duty, hwon, hpayload, hblobs⟩ := submitBlindedBlock_won ht hret
    exact ⟨bid, hgood t' ht' bid duty hwon, hpayload, hblobs⟩

/-- The bid has a value and is signed by a builder named in the arguments, in the builder domain of
`forkDatas`. -/
structure FromConfigured (P : Primitives) (hexDecode : String → Except String (List UInt8))
    (args : CliArgs) (forkDatas : ForkDatas) (bid : BidSubmission) : Prop where
  value_ne : bid.message.value ≠ 0
  configured : ∃ text ∈ args.enabledBuilders,
    RelayConfig.IsBuilder P hexDecode text bid.message.builderPubkey
  signed : bid.message.verifySignature P bid.signature (forkDatas.computeBuilderDomain P) = true

/-- **Only configured builders count.** Start the process with accepted arguments, whatever the beacon
node says of its fork data. In every run, however streams, calls and events interleave: the bids in
the auction, the stored payloads, and the headers and payloads sent to proposers are all of bids
that some `Bid` stream has submitted and won the auction with, and that a builder named in the
arguments has signed. -/
theorem only_configured_builders (P : Primitives)
    (hexDecode : String → Except String (List UInt8))
    (secretKeyFromBytes : FixedBytes 32 → Except String BlsSecretKey) (args : CliArgs)
    (config : RelayConfig)
    (hconfig : RelayConfig.tryFrom P hexDecode secretKeyFromBytes args = .ok config)
    (build : Build) (fetched : Except BeaconError ForkDatas) (serde : Serde) (json : EventJson)
    (schedule : List (Action Session UInt64)) :
    HoldsOnly (config.relay P build fetched) serde
      (fun bid =>
        FromConfigured P hexDecode args (runInnerForkDatas fetched config.forkDatas) bid ∧
        (config.relay P build fetched).HasWon ((config.relay P build fetched).processAfter serde
          json config.enabledBuilders schedule) bid)
      ((config.relay P build fetched).processAfter serde json config.enabledBuilders
        schedule) := by
  apply (process_holdsOnly _ serde json config.enabledBuilders schedule).mono
  rintro bid ⟨hbid, hwon⟩
  refine ⟨⟨hbid.value_ne, ?_, hbid.signed⟩, hwon⟩
  have hbuilders := RelayConfig.builders_of_tryFrom hconfig
  obtain ⟨i, hi, hkey⟩ := List.getElem_of_mem hbid.whitelisted
  rw [List.forall₂_iff_get] at hbuilders
  obtain ⟨hlen, hget⟩ := hbuilders
  refine ⟨args.enabledBuilders.get ⟨i, hlen ▸ hi⟩, List.get_mem _ _, ?_⟩
  rw [← hkey]
  exact hget i (hlen ▸ hi) hi

namespace Sample

/-- The arguments for the relay of the examples. -/
def cliArgs : CliArgs where
  grpcPort := 50051
  httpPort := 9063
  beaconUrl := "http://127.0.0.1:3500"
  blsSecretKey := "0x0909090909090909090909090909090909090909090909090909090909090909"
  chain := "mainnet"
  slotsPerEpoch := 32
  enabledBuilders :=
    ["0x0707070707070707070707070707070707070707070707070707070707070707" ++
      "00000000000000000000000000000000"]
  genesisForkVersion := "0x00000000"
  currentForkVersion := "0x00000000"
  genesisValidatorsRoot := "0x0000000000000000000000000000000000000000000000000000000000000000"

/-- The configuration that they describe. -/
def config : RelayConfig where
  grpcPort := 50051
  httpPort := 9063
  beaconUrl := "http://127.0.0.1:3500"
  blsSecretKey := relay.secretKey
  chain := .deneb
  slotsPerEpoch := 32
  enabledBuilders := whitelist
  forkDatas := default
  pollingIntervalSecs := 6

/-- The relay that is started with it, with a beacon node that does not answer. -/
def configured : Relay := config.relay prims ⟨false⟩ (.error (.http "refused"))

end Sample

open SseByteStream in
/-- A builder bids and goes away; the bid in the auction is one that it has won with, and it is the one
configured builder. -/
theorem only_configured_builders_gone :
    (Sample.configured.processAfter Sample.serde sampleJson Sample.whitelist
        Sample.goneBuilder).shared.best 2 = some (Sample.bid 2 2 2) ∧
      FromConfigured Sample.prims Sample.hexDecode Sample.cliArgs default (Sample.bid 2 2 2) ∧
      Sample.configured.HasWon (Sample.configured.processAfter Sample.serde sampleJson
        Sample.whitelist Sample.goneBuilder) (Sample.bid 2 2 2) := by
  have hbest : (Sample.configured.processAfter Sample.serde sampleJson Sample.whitelist
      Sample.goneBuilder).shared.best 2 = some (Sample.bid 2 2 2) := by
    decide +kernel
  exact ⟨hbest, (only_configured_builders Sample.prims Sample.hexDecode (fun bytes => .ok ⟨bytes⟩)
    Sample.cliArgs Sample.config (by decide +kernel) ⟨false⟩ (.error (.http "refused")) Sample.serde
    sampleJson Sample.goneBuilder).cached 2 _ hbest⟩

end MevRelay
