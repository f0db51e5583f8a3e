import MevRelay.Duties

/-!
# Slot arithmetic

Head slots come from the beacon node and the length of an epoch from the command line, and neither
is checked before it is used.

`slots_exact_iff` says where the arithmetic is that of the natural numbers: for every head but the
last `u64`, and for epochs of at least two slots. With epochs of no slots every head event and every
poll panics, and only then (`serve_head_aborted_iff`); with epochs of one slot there is no second
slot to refresh the duties at. What is safe for every input is the epoch after that of a refresh
slot, which `sync_duties` asks for.
-/

namespace MevRelay

open Atomic RelayService

/-! ## The next slot -/

/-- Below the last `u64` the next slot is the next number, in every build. -/
theorem HeadSlot.isNextSlot_of_lt {head : HeadSlot} (h : head.slot.toNat < 2 ^ 64 - 1)
    (build : Build) (proposalSlot : UInt64) :
    head.isNextSlot build proposalSlot =
      some (decide (proposalSlot.toNat = head.slot.toNat + 1)) := by
  have hsucc : (head.slot + 1).toNat = head.slot.toNat + 1 := Relay.toNat_succ (by omega)
  unfold isNextSlot
  rw [Build.addU64_of_toNat hsucc, Option.map_some, Option.some_inj, Bool.eq_iff_iff, beq_iff_eq,
    decide_eq_true_iff, ← hsucc, UInt64.toNat_inj]
  exact eq_comm

/-- At the last `u64` a build that checks panics. -/
theorem HeadSlot.isNextSlot_of_last {head : HeadSlot} (h : 2 ^ 64 - 1 ≤ head.slot.toNat)
    (proposalSlot : UInt64) : head.isNextSlot ⟨true⟩ proposalSlot = none := by
  unfold isNextSlot
  rw [Build.addU64_of_overflow, Option.map_none]
  rw [UInt64.toNat_one]
  omega

namespace Relay

variable {R : Relay}

/-! ## Heads -/

/-- `sync_duties` is called with the epoch of a refresh slot, and the epoch after that can be
counted in every build. -/
theorem IsRefresh.addU64_epoch {head epoch : UInt64} (h : R.IsRefresh head)
    (hepoch : (⟨head⟩ : HeadSlot).epoch R.slotsPerEpoch = some epoch) (build : Build) :
    ∃ next, build.addU64 epoch 1 = some next ∧ next.toNat = epoch.toNat + 1 := by
  have hzero : R.slotsPerEpoch ≠ 0 := by
    intro hzero
    cases (HeadSlot.epoch_eq_none_iff.mpr hzero).symm.trans hepoch
  rw [HeadSlot.epoch_of_ne hzero] at hepoch
  cases hepoch
  have hnext : (head / R.slotsPerEpoch + 1).toNat = (head / R.slotsPerEpoch).toNat + 1 := by
    rw [h.next_epoch, UInt64.toNat_div]
  exact ⟨_, Build.addU64_of_toNat hnext, hnext⟩

/-- Moving the head panics exactly with epochs of no slots. -/
theorem headOutcome_eq_aborted_iff (beacon : Beacon) (head : UInt64) :
    headOutcome R beacon ⟨head⟩ = .aborted ↔ R.slotsPerEpoch = 0 := by
  unfold headOutcome
  by_cases hzero : R.slotsPerEpoch = 0
  · rw [HeadSlot.isDutyRefreshSlot_eq_none_iff.mpr hzero]
    exact iff_of_true rfl hzero
  · apply iff_of_false _ hzero
    have hepoch := HeadSlot.epoch_of_ne hzero ⟨head⟩
    rw [hepoch]
    cases hrefresh : (⟨head⟩ : HeadSlot).isDutyRefreshSlot R.slotsPerEpoch with
    | none => exact absurd (HeadSlot.isDutyRefreshSlot_eq_none_iff.mp hrefresh) hzero
    | some isRefresh =>
      cases isRefresh with
      | false =>
        intro h
        cases h
      | true =>
        -- the only sum on the way is the one of the lemma above
        obtain ⟨next, hadd, -⟩ := IsRefresh.addU64_epoch hrefresh hepoch R.build
        show (syncOutcome R beacon (head / R.slotsPerEpoch)).map _ ≠ .aborted
        rw [Ne, Outcome.map_eq_aborted, syncOutcome, hadd]
        cases beacon (head / R.slotsPerEpoch) with
        | ok duties =>
          intro h
          cases h
        | error e =>
          intro h
          cases h

/-- **When a head is a panic**: with epochs of no slots, whatever the head and the store. -/
theorem serve_head_aborted_iff {r : Request} {head : UInt64} (hr : r.headSlot = some head)
    (s : Store) : (R.system.serve s r).1 = .aborted ↔ R.slotsPerEpoch = 0 := by
  cases r with
  | background task =>
    have hserve : R.system.serve s (.background task) = _ :=
      Prog.run_map (RelayService.handle R task) Response.background s
    rw [hserve, system_exec, Outcome.map_eq_aborted]
    cases task with
    | headEvent event beacon =>
      show ((handleHeadEvent R beacon event).run Store.exec s).1 = .aborted ↔ _
      rw [run_handleHeadEvent]
      exact headOutcome_eq_aborted_iff beacon event.slot
    | poll found beacon =>
      cases found with
      | ok slot =>
        show ((pollingTick R beacon (.ok slot)).run Store.exec s).1 = .aborted ↔ _
        rw [run_pollingTick]
        exact headOutcome_eq_aborted_iff beacon slot
      | error e => cases hr
    | payloadAttributesEvent event => cases hr
    | syncDuties epoch beacon => cases hr
  | registerValidator registration => cases hr
  | submitBid bid => cases hr
  | getHeader slot parentHash proposerPubkey => cases hr
  | unblindBlock slot proposerIndex blockHash signature => cases hr

/-! ## Refresh slots -/

variable (R)

/-- `slot` is one of the slots of epoch `e`. -/
def InEpoch (e : Nat) (slot : UInt64) : Prop :=
  e * R.slotsPerEpoch.toNat ≤ slot.toNat ∧ slot.toNat < (e + 1) * R.slotsPerEpoch.toNat

/-- All the slots of epoch `e` are `u64`s. -/
def FullEpoch (e : Nat) : Prop := (e + 1) * R.slotsPerEpoch.toNat ≤ 2 ^ 64

variable {R}

/-- The slots of an epoch are those that `epoch()` says. -/
theorem inEpoch_iff (hpos : 0 < R.slotsPerEpoch.toNat) {e : Nat} {slot : UInt64} :
    R.InEpoch e slot ↔ slot.toNat / R.slotsPerEpoch.toNat = e := by
  unfold InEpoch
  rw [Nat.div_eq_iff hpos, Nat.add_mul]
  omega

/-- The refresh slot of an epoch is its second slot. -/
theorem InEpoch.isRefresh_iff {e : Nat} {slot : UInt64} (htwo : 2 ≤ R.slotsPerEpoch.toNat)
    (h : R.InEpoch e slot) :
    R.IsRefresh slot ↔ slot.toNat = e * R.slotsPerEpoch.toNat + 1 := by
  have hdiv := Nat.div_add_mod' slot.toNat R.slotsPerEpoch.toNat
  rw [(inEpoch_iff (by omega)).mp h] at hdiv
  rw [Relay.isRefresh_iff]
  omega

/-- A full epoch has one refresh slot. -/
theorem existsUnique_refresh (htwo : 2 ≤ R.slotsPerEpoch.toNat) {e : Nat} (h : R.FullEpoch e) :
    ∃! slot, R.InEpoch e slot ∧ R.IsRefresh slot := by
  unfold FullEpoch at h
  rw [Nat.add_mul] at h
  have hlt : e * R.slotsPerEpoch.toNat + 1 < 2 ^ 64 := by omega
  have hsecond : (UInt64.ofNat (e * R.slotsPerEpoch.toNat + 1)).toNat =
      e * R.slotsPerEpoch.toNat + 1 := UInt64.toNat_ofNat_of_lt' hlt
  have hin : R.InEpoch e (UInt64.ofNat (e * R.slotsPerEpoch.toNat + 1)) := by
    unfold InEpoch
    rw [hsecond, Nat.add_mul]
    omega
  refine ⟨_, ⟨hin, (hin.isRefresh_iff htwo).mpr hsecond⟩, ?_⟩
  intro slot hslot
  rw [← UInt64.toNat_inj, hsecond]
  exact (hslot.1.isRefresh_iff htwo).mp hslot.2

/-! ## Where slot arithmetic is exact -/

variable (R)

/-- Slot and epoch arithmetic is exact for a head and a proposal slot. An overflow shows as the
panic of a build that checks, so what is computed without overflow is computed in every build. -/
structure ExactSlots (head proposalSlot : UInt64) : Prop where
  next_slot : ∀ build, (⟨head⟩ : HeadSlot).isNextSlot build proposalSlot =
    some (decide (proposalSlot.toNat = head.toNat + 1))
  refresh_returns : (⟨head⟩ : HeadSlot).isDutyRefreshSlot R.slotsPerEpoch ≠ none
  epoch_returns : (⟨head⟩ : HeadSlot).epoch R.slotsPerEpoch ≠ none
  next_epoch : ∀ epoch, R.IsRefresh head →
    (⟨head⟩ : HeadSlot).epoch R.slotsPerEpoch = some epoch →
    ∀ build : Build, ∃ next, build.addU64 epoch 1 = some next ∧ next.toNat = epoch.toNat + 1
  served : ∀ (build : Build) (r : Request) (s : Store), r.headSlot = some head →
    (({ R with build := build } : Relay).system.serve s r).1 ≠ .aborted
  refreshed : ∀ e, R.FullEpoch e → ∃! slot, R.InEpoch e slot ∧ R.IsRefresh slot
  refresh_epoch : ∀ e slot, R.InEpoch e slot → R.IsRefresh slot →
    ((⟨slot⟩ : HeadSlot).epoch R.slotsPerEpoch).map UInt64.toNat = some e

variable {R}

theorem ExactSlots.head_lt {head proposalSlot : UInt64} (h : R.ExactSlots head proposalSlot) :
    head.toNat < 2 ^ 64 - 1 := by
  by_contra hlast
  have hnone := HeadSlot.isNextSlot_of_last (Nat.le_of_not_lt hlast) proposalSlot
  cases hnone.symm.trans (h.next_slot ⟨true⟩)

/-- The first epoch is full, and its refresh slot is the second of its slots. -/
theorem ExactSlots.two_le {head proposalSlot : UInt64} (h : R.ExactSlots head proposalSlot) :
    2 ≤ R.slotsPerEpoch.toNat := by
  have hfull : R.FullEpoch 0 := by
    have hlt := R.slotsPerEpoch.toNat_lt
    unfold FullEpoch
    omega
  obtain ⟨slot, ⟨-, hrefresh⟩, -⟩ := h.refreshed 0 hfull
  exact (isRefresh_iff.mp hrefresh).1

/-- **Where slot arithmetic is exact**: for every head but the last `u64`, and for epochs of at
least two slots. -/
theorem slots_exact_iff (R : Relay) (head proposalSlot : UInt64) :
    R.ExactSlots head proposalSlot ↔
      head.toNat < 2 ^ 64 - 1 ∧ 2 ≤ R.slotsPerEpoch.toNat := by
  constructor
  · intro h
    exact ⟨h.head_lt, h.two_le⟩
  · intro h
    obtain ⟨hhead, htwo⟩ := h
    have hzero : R.slotsPerEpoch ≠ 0 := by
      intro hzero
      rw [hzero, UInt64.toNat_zero] at htwo
      omega
    constructor
    · exact fun build => HeadSlot.isNextSlot_of_lt hhead build proposalSlot
    · rwa [Ne, HeadSlot.isDutyRefreshSlot_eq_none_iff]
    · rwa [Ne, HeadSlot.epoch_eq_none_iff]
    · intro epoch hrefresh hepoch build
      exact hrefresh.addU64_epoch hepoch build
    · intro build r s hr
      rwa [Ne, serve_head_aborted_iff hr]
    · intro e hfull
      exact existsUnique_refresh htwo hfull
    · intro e slot hin _
      rw [HeadSlot.epoch_of_ne hzero, Option.map_some, UInt64.toNat_div]
      exact congrArg some ((inEpoch_iff (by omega)).mp hin)

/-- The last `u64` as head, epochs of no slots, and epochs of one slot. -/
theorem slots_not_exact :
    ¬ Sample.relay.ExactSlots 18446744073709551615 0 ∧
      ¬ ({ Sample.relay with slotsPerEpoch := 0 } : Relay).ExactSlots 1 2 ∧
      ¬ ({ Sample.relay with slotsPerEpoch := 1 } : Relay).ExactSlots 1 2 := by
  refine ⟨?_, ?_, ?_⟩
  · intro h
    exact absurd h.head_lt (by decide)
  · intro h
    exact h.refresh_returns rfl
  · intro h
    exact absurd h.two_le (by decide)

end Relay

end MevRelay
