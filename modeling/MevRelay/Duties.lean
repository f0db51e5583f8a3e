import MevRelay.Sequential

/-!
# The duty table over time

The table of proposer duties is replaced as a whole, at heads `slot` with
`slot % slots_per_epoch = 1`, by the duties of the epoch of `slot` and of the next one, as far as
their validators are registered then. Here the beacon node answers every request, always the same
for an epoch, and names only slots of that epoch.

The table is then a function of the last refresh slot that was a head (`final_table`). As long as no
refresh slot is passed unseen it covers the slot after the head (`duty_found_after_head`); if one is
missed it may run out (`missed_slot_harmless_iff`).

The last section is about a single sync and lets the requests fail: a sync that gets only the first
of its two epochs forgets what the table had for the second one (`half_failed_sync_keeps_iff`).
-/

namespace MevRelay

open Atomic RelayService

/-- The head that a request brings. -/
def Request.headSlot : Request → Option UInt64
  | .background (.headEvent event _) => some event.slot
  | .background (.poll (.ok slot) _) => some slot
  | _ => none

/-- The heads of a run. -/
def headSlots (rs : List Request) : List UInt64 := rs.filterMap Request.headSlot

/-- Duties by epoch, as the beacon node lists them. -/
abbrev DutySchedule := UInt64 → List ProposerDuty

/-- A beacon node that answers from the schedule. -/
def DutySchedule.beacon (schedule : DutySchedule) : Beacon := fun epoch => .ok (schedule epoch)

/-- The request does not sync on its own, and if it asks a beacon node, then this one. -/
def Request.AsksBeacon (schedule : DutySchedule) : Request → Prop
  | .background (.headEvent _ beacon) => beacon = schedule.beacon
  | .background (.poll _ beacon) => beacon = schedule.beacon
  | .background (.syncDuties _ _) => False
  | _ => True

/-- A run that only handles head events. -/
def headEvents (schedule : DutySchedule) (events : List HeadEvent) : List Request :=
  events.map fun event => .background (.headEvent event schedule.beacon)

theorem headSlots_headEvents (schedule : DutySchedule) (events : List HeadEvent) :
    headSlots (headEvents schedule events) = events.map HeadEvent.slot := by
  induction events with
  | nil => rfl
  | cons event events ih => exact congrArg (event.slot :: ·) ih

theorem headEvents_asksBeacon (schedule : DutySchedule) (events : List HeadEvent) :
    ∀ r ∈ headEvents schedule events, r.AsksBeacon schedule := by
  intro r hr
  obtain ⟨event, -, rfl⟩ := List.mem_map.mp hr
  rfl

/-- For an epoch, only slots of that epoch are listed. -/
def DutySchedule.Confined (schedule : DutySchedule) (slotsPerEpoch : UInt64) : Prop :=
  ∀ epoch, ∀ d ∈ schedule epoch, (⟨d.slot⟩ : HeadSlot).epoch slotsPerEpoch = some epoch

/-- The first duty of a registered validator that is listed for `slot`. -/
def firstRegistered (st : MemoryStorage) (duties : List ProposerDuty) (slot : UInt64) :
    Option ProposerDuty :=
  duties.find? fun d => d.slot == slot && (st.readValidatorRegistration d.pubkey).isSome

/-! ## A relay with epochs of two slots -/

namespace Sample

def shortEpochs : Relay := { relay with slotsPerEpoch := 2 }

/-- Validator 5 is to propose in slot 5, in epoch 2. -/
def schedule : DutySchedule := fun epoch =>
  if epoch = 2 then [⟨prims.skToPk proposer, 5, 5⟩] else []

theorem schedule_confined : schedule.Confined shortEpochs.slotsPerEpoch := by
  intro epoch d hd
  unfold schedule at hd
  split at hd
  · next hepoch =>
    rw [List.mem_singleton.mp hd, hepoch]
    rfl
  · cases hd

def headEvent (slot : UInt64) : HeadEvent := ⟨slot, "", false, false⟩

/-- The proposer registers, then no slot is missed. -/
def fourHeads : List Request :=
  .registerValidator registration ::
    headEvents schedule [headEvent 1, headEvent 2, headEvent 3, headEvent 4]

theorem headSlots_fourHeads_bounds {head : UInt64} (h : head ∈ headSlots fourHeads) :
    1 ≤ head.toNat ∧ head.toNat ≤ 4 := by
  have hmem : head ∈ [1, 2, 3, 4] := h
  simp only [List.mem_cons, List.not_mem_nil, or_false] at hmem
  rcases hmem with rfl | rfl | rfl | rfl <;> decide

/-- The store in which only the proposer is registered. -/
def registered : Store := shortEpochs.after [] [.registerValidator registration]

/-- The proposer registers, and slot 3 becomes the head: the table has the duty of slot 5. -/
def synced : Store :=
  shortEpochs.system.final (Store.new [])
    [.registerValidator registration, .background (.poll (.ok 3) schedule.beacon)]

/-- A node that has lost the duties of epoch 2. -/
def halfBeacon : Beacon := fun epoch =>
  if epoch = 2 then .error "timeout" else .ok (schedule epoch)

end Sample

namespace Relay

variable (R : Relay)

/-- The duties are refreshed at `slot`. -/
def IsRefresh (slot : UInt64) : Prop :=
  (⟨slot⟩ : HeadSlot).isDutyRefreshSlot R.slotsPerEpoch = some true

instance IsRefresh.decidable (slot : UInt64) : Decidable (R.IsRefresh slot) :=
  inferInstanceAs (Decidable (_ = _))

variable {R}

/-! ## Epochs -/

theorem isRefresh_iff {slot : UInt64} :
    R.IsRefresh slot ↔
      2 ≤ R.slotsPerEpoch.toNat ∧ slot.toNat % R.slotsPerEpoch.toNat = 1 := by
  unfold IsRefresh
  by_cases hzero : R.slotsPerEpoch = 0
  · rw [HeadSlot.isDutyRefreshSlot_eq_none_iff.mpr hzero]
    simp [hzero]
  · have hpos : R.slotsPerEpoch.toNat ≠ 0 := by
      rwa [Ne, ← UInt64.toNat_zero, UInt64.toNat_inj]
    have hmod : slot.toNat % R.slotsPerEpoch.toNat < R.slotsPerEpoch.toNat :=
      Nat.mod_lt _ (Nat.pos_of_ne_zero hpos)
    rw [HeadSlot.isDutyRefreshSlot_of_ne hzero, Option.some_inj, beq_iff_eq, ← UInt64.toNat_inj,
      UInt64.toNat_mod, UInt64.toNat_one]
    constructor
    · intro (hone : slot.toNat % R.slotsPerEpoch.toNat = 1)
      exact ⟨by omega, hone⟩
    · rintro ⟨-, hone⟩
      exact hone

/-- The epoch after that of a refresh slot can be counted. -/
theorem IsRefresh.next_epoch {slot : UInt64} (h : R.IsRefresh slot) :
    (slot / R.slotsPerEpoch + 1).toNat = slot.toNat / R.slotsPerEpoch.toNat + 1 := by
  have htwo := (isRefresh_iff.mp h).1
  have hlt : slot.toNat < 2 ^ 64 := slot.toNat_lt
  have hdiv : slot.toNat / R.slotsPerEpoch.toNat ≤ slot.toNat / 2 :=
    Nat.div_le_div_left htwo (by omega)
  rw [UInt64.toNat_add, UInt64.toNat_div, UInt64.toNat_one, Nat.mod_eq_of_lt]
  omega

/-- At a refresh slot the table becomes the registered duties of two epochs. -/
theorem tableAtHead_refresh {slot : UInt64} (h : R.IsRefresh slot) (schedule : DutySchedule)
    (st : MemoryStorage) :
    tableAtHead R schedule.beacon ⟨slot⟩ st =
      registeredDuties st (schedule (slot / R.slotsPerEpoch)) ++
        registeredDuties st (schedule (slot / R.slotsPerEpoch + 1)) := by
  have hzero : R.slotsPerEpoch ≠ 0 := by
    intro hzero
    have htwo := (isRefresh_iff.mp h).1
    simp [hzero] at htwo
  have hepoch := HeadSlot.epoch_of_ne hzero ⟨slot⟩
  have hnext : R.build.addU64 (slot / R.slotsPerEpoch) 1 = some (slot / R.slotsPerEpoch + 1) := by
    apply Build.addU64_of_toNat
    rw [h.next_epoch, UInt64.toNat_div, UInt64.toNat_one]
  have hrefresh : (⟨slot⟩ : HeadSlot).isDutyRefreshSlot R.slotsPerEpoch = some true := h
  simp only [tableAtHead, hrefresh, hepoch, syncedTable, DutySchedule.beacon, hnext]

theorem tableAtHead_of_not_refresh {slot : UInt64} (h : ¬ R.IsRefresh slot) (beacon : Beacon)
    (st : MemoryStorage) : tableAtHead R beacon ⟨slot⟩ st = st.proposerDuties := by
  unfold tableAtHead
  split
  · next hrefresh _ => exact absurd hrefresh h
  · rfl

/-! ## The table after a run -/

/-- What a request does to the table. -/
theorem serve_table {schedule : DutySchedule} {r : Request} (hr : r.AsksBeacon schedule)
    (s : Store) :
    (R.system.serve s r).2.storage.proposerDuties =
      match r.headSlot with
      | some slot => tableAtHead R schedule.beacon ⟨slot⟩ s.storage
      | none => s.storage.proposerDuties := by
  cases r with
  | background task =>
    rw [serve_background]
    cases task with
    | headEvent event beacon =>
      cases hr
      rfl
    | payloadAttributesEvent event => rfl
    | syncDuties epoch beacon => exact absurd hr id
    | poll head beacon =>
      cases hr
      cases head with
      | ok slot => rfl
      | error e => rfl
  | _ =>
    refine (serve_keeps_background R s ?_).2.2
    intro task h
    cases h

/-- The last duty sync of the run was made at head `slot`, after the requests `before`. -/
def LastSync (R : Relay) (rs before : List Request) (slot : UInt64) : Prop :=
  ∃ r rest, rs = before ++ r :: rest ∧ r.headSlot = some slot ∧ R.IsRefresh slot ∧
    ∀ h ∈ headSlots rest, ¬ R.IsRefresh h

theorem LastSync.isRefresh {rs before : List Request} {slot : UInt64}
    (h : R.LastSync rs before slot) : R.IsRefresh slot := by
  obtain ⟨r, rest, -, -, hrefresh, -⟩ := h
  exact hrefresh

/-- **The table after a run** is that of its last sync. -/
theorem final_table {schedule : DutySchedule} {rs before : List Request} {slot : UInt64}
    (hlast : R.LastSync rs before slot) (hrs : ∀ r ∈ rs, r.AsksBeacon schedule) (s : Store) :
    (R.system.final s rs).storage.proposerDuties =
      registeredDuties (R.system.final s before).storage (schedule (slot / R.slotsPerEpoch)) ++
        registeredDuties (R.system.final s before).storage
          (schedule (slot / R.slotsPerEpoch + 1)) := by
  obtain ⟨r, rest, rfl, hslot, hrefresh, hrest⟩ := hlast
  -- from the sync on, nothing changes the table
  induction rest using List.reverseRecOn with
  | nil =>
    rw [System.final_concat, serve_table (hrs r (by simp)), hslot]
    exact tableAtHead_refresh hrefresh schedule _
  | append_singleton rest r' ih =>
    have hcons : before ++ r :: (rest ++ [r']) = (before ++ r :: rest) ++ [r'] := by simp
    rw [hcons, System.final_concat, serve_table (hrs r' (by simp))]
    have hkeep := ih (fun x hx => hrs x (by simp at hx ⊢; tauto))
      (fun h hh => hrest h (by simp [headSlots] at hh ⊢; exact .inl hh))
    cases hhead : r'.headSlot with
    | none => exact hkeep
    | some h =>
      have hnot : ¬ R.IsRefresh h := hrest h (by simp [headSlots, hhead])
      exact (tableAtHead_of_not_refresh hnot _ _).trans hkeep

/-- A run with a refresh slot among its heads made a last sync. -/
theorem exists_lastSync {rs : List Request} {slot : UInt64} (hslot : slot ∈ headSlots rs)
    (hrefresh : R.IsRefresh slot) : ∃ before last, R.LastSync rs before last := by
  induction rs using List.reverseRecOn with
  | nil => cases hslot
  | append_singleton rs r ih =>
    by_cases hr : ∃ h, r.headSlot = some h ∧ R.IsRefresh h
    · obtain ⟨h, hhead, hh⟩ := hr
      refine ⟨rs, h, r, [], rfl, hhead, hh, ?_⟩
      intro h' hmem
      cases hmem
    · -- the last request is no sync, so the last one was made before it
      have hmem : slot ∈ headSlots rs := by
        unfold headSlots at hslot
        rw [filterMap_concat, List.mem_append, Option.mem_toList] at hslot
        rcases hslot with hslot | hslot
        · exact hslot
        · exact absurd ⟨slot, hslot, hrefresh⟩ hr
      obtain ⟨before, last, r₀, rest, rfl, hhead, hlast, hrest⟩ := ih hmem
      refine ⟨before, last, r₀, rest ++ [r], by simp, hhead, hlast, ?_⟩
      intro h hh hrefresh'
      unfold headSlots at hh
      rw [filterMap_concat, List.mem_append, Option.mem_toList] at hh
      rcases hh with hh | hh
      · exact hrest h hh hrefresh'
      · exact hr ⟨h, hh, hrefresh'⟩

/-! ## What the table offers -/

theorem find_registeredDuties (st : MemoryStorage) (duties : List ProposerDuty) (slot : UInt64) :
    (registeredDuties st duties).find? (fun d => d.slot == slot) =
      firstRegistered st duties slot := by
  unfold registeredDuties firstRegistered
  rw [List.find?_filter]
  congr 1
  funext d
  rw [Bool.eq_iff_iff]
  simp [and_comm]

/-- The list of an epoch has nothing for the slots of another one. -/
theorem firstRegistered_of_other_epoch {schedule : DutySchedule}
    (hconfined : schedule.Confined R.slotsPerEpoch) {epoch slot : UInt64}
    (hslot : slot / R.slotsPerEpoch ≠ epoch) (st : MemoryStorage) :
    firstRegistered st (schedule epoch) slot = none := by
  unfold firstRegistered
  rw [List.find?_eq_none]
  intro d hd hfound
  have hd_slot : d.slot = slot := by
    simp at hfound
    exact hfound.1
  have hepoch := hconfined epoch d hd
  unfold HeadSlot.epoch divU64 at hepoch
  split at hepoch
  · cases hepoch
  · rw [hd_slot] at hepoch
    exact hslot (Option.some.inj hepoch)

/-- **What a lookup finds after a run**: the duties of the two epochs of the last sync, and nothing
for other epochs. -/
theorem final_findDuty {schedule : DutySchedule} (hconfined : schedule.Confined R.slotsPerEpoch)
    {rs before : List Request} {last : UInt64} (hlast : R.LastSync rs before last)
    (hrs : ∀ r ∈ rs, r.AsksBeacon schedule) (s : Store) (slot : UInt64) :
    (R.system.final s rs).storage.findDutyBySlot slot =
      if slot / R.slotsPerEpoch = last / R.slotsPerEpoch ∨
          slot / R.slotsPerEpoch = last / R.slotsPerEpoch + 1 then
        firstRegistered (R.system.final s before).storage (schedule (slot / R.slotsPerEpoch)) slot
      else none := by
  unfold MemoryStorage.findDutyBySlot
  rw [final_table hlast hrs, List.find?_append, find_registeredDuties, find_registeredDuties]
  by_cases hcur : slot / R.slotsPerEpoch = last / R.slotsPerEpoch
  · have hnext : slot / R.slotsPerEpoch ≠ last / R.slotsPerEpoch + 1 := by
      rw [hcur]
      simp
    rw [if_pos (.inl hcur), firstRegistered_of_other_epoch hconfined hnext, Option.or_none, hcur]
  · rw [firstRegistered_of_other_epoch hconfined hcur, Option.none_or]
    by_cases hnext : slot / R.slotsPerEpoch = last / R.slotsPerEpoch + 1
    · rw [if_pos (.inr hnext), hnext]
    · rw [if_neg (by tauto), firstRegistered_of_other_epoch hconfined hnext]

/-! ## No gap while the refresh slots are seen -/

/-- From a refresh slot that was a head on, no head passes a refresh slot that was not. -/
def SeesRefreshSlots (R : Relay) (heads : List UInt64) : Prop :=
  ∀ first ∈ heads, R.IsRefresh first → ∀ head ∈ heads, ∀ slot, first ≤ slot → slot ≤ head →
    R.IsRefresh slot → slot ∈ heads

/-- An epoch further on there is another refresh slot. -/
theorem IsRefresh.add_epoch {slot head : UInt64} (h : R.IsRefresh slot)
    (hpast : slot.toNat + R.slotsPerEpoch.toNat ≤ head.toNat) :
    R.IsRefresh (slot + R.slotsPerEpoch) ∧ slot < slot + R.slotsPerEpoch ∧
      slot + R.slotsPerEpoch ≤ head := by
  obtain ⟨htwo, hmod⟩ := isRefresh_iff.mp h
  have hadd : (slot + R.slotsPerEpoch).toNat = slot.toNat + R.slotsPerEpoch.toNat := by
    have hlt := head.toNat_lt
    rw [UInt64.toNat_add, Nat.mod_eq_of_lt (by omega)]
  refine ⟨isRefresh_iff.mpr ⟨htwo, ?_⟩, ?_, ?_⟩
  · rw [hadd, Nat.add_mod_right]
    exact hmod
  · rw [UInt64.lt_iff_toNat_lt, hadd]
    omega
  · rw [UInt64.le_iff_toNat_le, hadd]
    exact hpast

theorem toNat_succ {slot : UInt64} (h : slot.toNat + 1 < 2 ^ 64) :
    (slot + 1).toNat = slot.toNat + 1 := by
  rw [UInt64.toNat_add, UInt64.toNat_one, Nat.mod_eq_of_lt h]

/-- The two epochs of a sync are those up to the one after the refresh slot. -/
theorem IsRefresh.covers_iff {slot head : UInt64} (h : R.IsRefresh slot) (hle : slot ≤ head)
    (hhead : head.toNat + 1 < 2 ^ 64) :
    ((head + 1) / R.slotsPerEpoch = slot / R.slotsPerEpoch ∨
      (head + 1) / R.slotsPerEpoch = slot / R.slotsPerEpoch + 1) ↔
    (head + 1) / R.slotsPerEpoch ≤ slot / R.slotsPerEpoch + 1 := by
  have hle' := UInt64.le_iff_toNat_le.mp hle
  have hlower : slot.toNat / R.slotsPerEpoch.toNat ≤ (head.toNat + 1) / R.slotsPerEpoch.toNat :=
    Nat.div_le_div_right (by omega)
  rw [← UInt64.toNat_inj, ← UInt64.toNat_inj, UInt64.le_iff_toNat_le, h.next_epoch,
    UInt64.toNat_div, UInt64.toNat_div, toNat_succ hhead]
  omega

/-- Less than an epoch after a refresh slot, the next slot is in its epoch or in the one after. -/
theorem IsRefresh.covers {slot head : UInt64} (h : R.IsRefresh slot) (hle : slot ≤ head)
    (hnear : head.toNat < slot.toNat + R.slotsPerEpoch.toNat)
    (hhead : head.toNat + 1 < 2 ^ 64) :
    (head + 1) / R.slotsPerEpoch = slot / R.slotsPerEpoch ∨
      (head + 1) / R.slotsPerEpoch = slot / R.slotsPerEpoch + 1 := by
  obtain ⟨htwo, hmod⟩ := isRefresh_iff.mp h
  have hdiv := Nat.div_add_mod' slot.toNat R.slotsPerEpoch.toNat
  -- a refresh slot is the second of its epoch, so the slot after the head is not past the next epoch
  have hupper : (head.toNat + 1) / R.slotsPerEpoch.toNat <
      slot.toNat / R.slotsPerEpoch.toNat + 2 := by
    rw [Nat.div_lt_iff_lt_mul (by omega), Nat.add_mul]
    omega
  rw [h.covers_iff hle hhead, UInt64.le_iff_toNat_le, h.next_epoch, UInt64.toNat_div,
    toNat_succ hhead]
  omega

theorem headSlots_append (rs qs : List Request) :
    headSlots (rs ++ qs) = headSlots rs ++ headSlots qs := List.filterMap_append

theorem le_last_of_sorted {heads : List UInt64} {head : UInt64}
    (hsorted : heads.Pairwise (· ≤ ·)) (hlast : heads.getLast? = some head) {h : UInt64}
    (hh : h ∈ heads) : h ≤ head := by
  obtain ⟨init, rfl⟩ := List.getLast?_eq_some_iff.mp hlast
  rcases List.mem_append.mp hh with hh | hh
  · exact (List.pairwise_append.mp hsorted).2.2 h hh head (by simp)
  · rw [List.mem_singleton.mp hh]
    exact UInt64.le_refl _

/-- What is seen by the end of an ordered run was seen in time. -/
theorem SeesRefreshSlots.of_append {heads later : List UInt64}
    (hsorted : (heads ++ later).Pairwise (· ≤ ·)) (h : R.SeesRefreshSlots (heads ++ later)) :
    R.SeesRefreshSlots heads := by
  intro first hfirst hrefresh head hhead slot hlower hupper hslot
  have hmem := h first (by simp [hfirst]) hrefresh head (by simp [hhead]) slot hlower hupper hslot
  rcases List.mem_append.mp hmem with hmem | hmem
  · exact hmem
  · -- a later head that is not above this one is this one
    have hle := (List.pairwise_append.mp hsorted).2.2 head hhead slot hmem
    rwa [UInt64.le_antisymm hupper hle]

/-- The last sync of an ordered run was made at the last refresh slot among its heads. -/
theorem LastSync.bounds {rs before : List Request} {last : UInt64}
    (hlast : R.LastSync rs before last) (hsorted : (headSlots rs).Pairwise (· ≤ ·)) :
    last ∈ headSlots rs ∧ ∀ slot ∈ headSlots rs, R.IsRefresh slot → slot ≤ last := by
  obtain ⟨r, rest, rfl, hslot, hrefresh, hrest⟩ := hlast
  have hheads : headSlots (before ++ r :: rest) = headSlots before ++ last :: headSlots rest := by
    rw [headSlots_append]
    simp [headSlots, hslot]
  rw [hheads] at hsorted ⊢
  refine ⟨by simp, ?_⟩
  intro slot hmem hslot_refresh
  rcases List.mem_append.mp hmem with hmem | hmem
  · exact (List.pairwise_append.mp hsorted).2.2 slot hmem last (by simp)
  · rcases List.mem_cons.mp hmem with rfl | hmem
    · exact UInt64.le_refl _
    · exact absurd hslot_refresh (hrest slot hmem)

/-- In an ordered run that saw its refresh slots, the last sync was less than an epoch ago. -/
theorem LastSync.near {rs before : List Request} {last head : UInt64}
    (hlast : R.LastSync rs before last) (hsorted : (headSlots rs).Pairwise (· ≤ ·))
    (hseen : R.SeesRefreshSlots (headSlots rs)) (hhead : (headSlots rs).getLast? = some head) :
    last ≤ head ∧ head.toNat < last.toNat + R.slotsPerEpoch.toNat := by
  obtain ⟨hmem, hmax⟩ := hlast.bounds hsorted
  refine ⟨le_last_of_sorted hsorted hhead hmem, ?_⟩
  by_contra hpast
  -- the refresh slot of the next epoch was passed, so it was a head, and the last sync comes later
  obtain ⟨hnext, hlt, hle⟩ := hlast.isRefresh.add_epoch (Nat.le_of_not_lt hpast)
  have hseen_next := hseen last hmem hlast.isRefresh head (List.mem_of_getLast? hhead) _
    (UInt64.le_of_lt hlt) hle hnext
  exact absurd hlt (UInt64.not_lt.mpr (hmax _ hseen_next hnext))

/-- **No duty gap at epoch boundaries while the refresh slots are seen.** -/
theorem duty_found_after_head (R : Relay) (schedule : DutySchedule)
    (hconfined : schedule.Confined R.slotsPerEpoch) (s : Store) (rs : List Request)
    (hrs : ∀ r ∈ rs, r.AsksBeacon schedule) (hsorted : (headSlots rs).Pairwise (· ≤ ·))
    (hbound : ∀ head ∈ headSlots rs, head.toNat < 2 ^ 64 - 1)
    (hseen : R.SeesRefreshSlots (headSlots rs))
    (sofar : List Request) (hsofar : sofar <+: rs) (first head : UInt64)
    (hfirst : first ∈ headSlots sofar) (hrefresh : R.IsRefresh first)
    (hhead : (headSlots sofar).getLast? = some head) :
    ∃ before last, R.LastSync sofar before last ∧
      (R.system.final s sofar).storage.findDutyBySlot (head + 1) =
        firstRegistered (R.system.final s before).storage
          (schedule ((head + 1) / R.slotsPerEpoch)) (head + 1) := by
  obtain ⟨later, rfl⟩ := hsofar
  rw [headSlots_append] at hsorted hseen hbound
  obtain ⟨before, last, hlast⟩ := exists_lastSync hfirst hrefresh
  refine ⟨before, last, hlast, ?_⟩
  obtain ⟨hle, hnear⟩ := hlast.near (List.pairwise_append.mp hsorted).1
    (SeesRefreshSlots.of_append hsorted hseen) hhead
  have hhead_lt := hbound head (List.mem_append_left _ (List.mem_of_getLast? hhead))
  have hcovered := hlast.isRefresh.covers hle hnear (by omega)
  have hasks : ∀ r ∈ sofar, r.AsksBeacon schedule := by
    intro r hr
    exact hrs r (List.mem_append_left _ hr)
  rw [final_findDuty hconfined hlast hasks, if_pos hcovered]

/-- The proposer registers, and slots 1 to 4 become the head. -/
theorem duty_found_after_head_sample :
    ∃ before last, Sample.shortEpochs.LastSync Sample.fourHeads before last ∧
      (Sample.shortEpochs.system.final (Store.new []) Sample.fourHeads).storage.findDutyBySlot 5 =
        firstRegistered (Sample.shortEpochs.system.final (Store.new []) before).storage
          (Sample.schedule 2) 5 := by
  refine duty_found_after_head Sample.shortEpochs Sample.schedule Sample.schedule_confined
    (Store.new []) Sample.fourHeads ?_ (by decide) ?_ ?_ Sample.fourHeads
    (List.prefix_refl _) 1 4 (by decide) rfl rfl
  · intro r hr
    rcases List.mem_cons.mp hr with rfl | hr
    · trivial
    · exact headEvents_asksBeacon _ _ r hr
  · intro head hhead
    have hle := (Sample.headSlots_fourHeads_bounds hhead).2
    omega
  · intro first hfirst _ head hhead slot hlower hupper _
    -- there is no slot from 1 to 4 that was not a head
    have hslot : slot.toNat = 1 ∨ slot.toNat = 2 ∨ slot.toNat = 3 ∨ slot.toNat = 4 := by
      have hfirst_ge := (Sample.headSlots_fourHeads_bounds hfirst).1
      have hhead_le := (Sample.headSlots_fourHeads_bounds hhead).2
      rw [UInt64.le_iff_toNat_le] at hlower hupper
      omega
    have hslot : slot = 1 ∨ slot = 2 ∨ slot = 3 ∨ slot = 4 := by
      simpa [← UInt64.toNat_inj] using hslot
    rcases hslot with rfl | rfl | rfl | rfl <;> decide

/-! ## Missed slots -/

/-- Head events register nobody. -/
theorem final_headEvents_registrations (schedule : DutySchedule) (s : Store)
    {events : List HeadEvent} {rs rest : List Request}
    (hrs : rs ++ rest = headEvents schedule events) :
    (R.system.final s rs).storage.validatorRegistrations = s.storage.validatorRegistrations := by
  induction rs using List.reverseRecOn generalizing rest with
  | nil => rfl
  | append_singleton rs r ih =>
    have hr : r ∈ headEvents schedule events := by simp [← hrs]
    obtain ⟨event, -, rfl⟩ := List.mem_map.mp hr
    rw [List.append_assoc] at hrs
    rw [System.final_concat, serve_keeps_registrations R _ (by simp), ih hrs]

theorem firstRegistered_congr {st st' : MemoryStorage}
    (h : st.validatorRegistrations = st'.validatorRegistrations) (duties : List ProposerDuty)
    (slot : UInt64) : firstRegistered st duties slot = firstRegistered st' duties slot := by
  unfold firstRegistered MemoryStorage.readValidatorRegistration
  rw [h]

/-- A later refresh slot covers at least as much. -/
theorem IsRefresh.next_epoch_mono {slot last : UInt64} (h : R.IsRefresh slot)
    (hlast : R.IsRefresh last) (hle : slot ≤ last) :
    slot / R.slotsPerEpoch + 1 ≤ last / R.slotsPerEpoch + 1 := by
  have hle' := UInt64.le_iff_toNat_le.mp hle
  rw [UInt64.le_iff_toNat_le, h.next_epoch, hlast.next_epoch]
  exact Nat.succ_le_succ (Nat.div_le_div_right hle')

/-- After head events, a duty of a registered validator is found for the slot after the head exactly
if some refresh slot that was a head covers it. -/
theorem headEvents_find_iff {schedule : DutySchedule}
    (hconfined : schedule.Confined R.slotsPerEpoch) (s : Store) {earlier : List HeadEvent}
    {event : HeadEvent} (hsorted : ((earlier ++ [event]).map HeadEvent.slot).Pairwise (· ≤ ·))
    (hbound : event.slot.toNat + 1 < 2 ^ 64) (hfirst : ∃ first ∈ earlier, R.IsRefresh first.slot)
    {duty : ProposerDuty}
    (hduty : firstRegistered s.storage (schedule ((event.slot + 1) / R.slotsPerEpoch))
      (event.slot + 1) = some duty) :
    (R.system.final s (headEvents schedule (earlier ++ [event]))).storage.findDutyBySlot
        (event.slot + 1) = some duty ↔
      ∃ seen ∈ earlier ++ [event], R.IsRefresh seen.slot ∧
        (event.slot + 1) / R.slotsPerEpoch ≤ seen.slot / R.slotsPerEpoch + 1 := by
  have hheads := headSlots_headEvents schedule (earlier ++ [event])
  rw [← hheads] at hsorted
  obtain ⟨first, hfirst, hrefresh⟩ := hfirst
  have hfirst_mem : first.slot ∈ headSlots (headEvents schedule (earlier ++ [event])) := by
    rw [hheads]
    exact List.mem_map_of_mem (List.mem_append_left _ hfirst)
  obtain ⟨before, last, hlast⟩ := exists_lastSync hfirst_mem hrefresh
  obtain ⟨hmem, hmax⟩ := hlast.bounds hsorted
  have hle : last ≤ event.slot := le_last_of_sorted hsorted (by rw [hheads]; simp) hmem
  -- the registrations at the last sync are those of the start
  have hregs : (R.system.final s before).storage.validatorRegistrations =
      s.storage.validatorRegistrations := by
    obtain ⟨r, rest, hsplit, -⟩ := hlast
    exact final_headEvents_registrations schedule s hsplit.symm
  rw [final_findDuty hconfined hlast (headEvents_asksBeacon schedule _), firstRegistered_congr hregs,
    hduty]
  constructor
  · intro hfound
    have hcovered := (Option.ite_none_right_eq_some.mp hfound).1
    rw [hheads] at hmem
    obtain ⟨seen, hseen, rfl⟩ := List.mem_map.mp hmem
    exact ⟨seen, hseen, hlast.isRefresh, (hlast.isRefresh.covers_iff hle hbound).mp hcovered⟩
  · rintro ⟨seen, hseen, hseen_refresh, hcovered⟩
    have hseen_le : seen.slot ≤ last := by
      refine hmax seen.slot ?_ hseen_refresh
      rw [hheads]
      exact List.mem_map_of_mem hseen
    have hlast_covers := UInt64.le_trans hcovered
      (hseen_refresh.next_epoch_mono hlast.isRefresh hseen_le)
    rw [if_pos ((hlast.isRefresh.covers_iff hle hbound).mpr hlast_covers)]

/-- **When missed slots do no harm**: exactly if before every duty that matters a refresh slot of
its epoch or of the epoch before was a head. -/
theorem missed_slot_harmless_iff (R : Relay) (schedule : DutySchedule)
    (hconfined : schedule.Confined R.slotsPerEpoch) (s : Store) (events : List HeadEvent)
    (hsorted : (events.map HeadEvent.slot).Pairwise (· < ·)) :
    (∀ earlier event, earlier ++ [event] <+: events → event.slot.toNat + 1 < 2 ^ 64 →
      (∃ first ∈ earlier, R.IsRefresh first.slot) →
      ∀ duty, firstRegistered s.storage (schedule ((event.slot + 1) / R.slotsPerEpoch))
          (event.slot + 1) = some duty →
        (R.system.final s (headEvents schedule (earlier ++ [event]))).storage.findDutyBySlot
          (event.slot + 1) = some duty) ↔
    (∀ earlier event, earlier ++ [event] <+: events → event.slot.toNat + 1 < 2 ^ 64 →
      (∃ first ∈ earlier, R.IsRefresh first.slot) →
      ∀ duty, firstRegistered s.storage (schedule ((event.slot + 1) / R.slotsPerEpoch))
          (event.slot + 1) = some duty →
        ∃ seen ∈ earlier ++ [event], R.IsRefresh seen.slot ∧
          (event.slot + 1) / R.slotsPerEpoch ≤ seen.slot / R.slotsPerEpoch + 1) := by
  have hpoint : ∀ earlier event, earlier ++ [event] <+: events →
      ((earlier ++ [event]).map HeadEvent.slot).Pairwise (· ≤ ·) := by
    intro earlier event hprefix
    have hsub : ((earlier ++ [event]).map HeadEvent.slot).Sublist (events.map HeadEvent.slot) :=
      hprefix.sublist.map _
    exact (hsorted.sublist hsub).imp UInt64.le_of_lt
  constructor
  · intro h earlier event hprefix hbound hfirst duty hduty
    exact (headEvents_find_iff hconfined s (hpoint earlier event hprefix) hbound hfirst hduty).mp
      (h earlier event hprefix hbound hfirst duty hduty)
  · intro h earlier event hprefix hbound hfirst duty hduty
    exact (headEvents_find_iff hconfined s (hpoint earlier event hprefix) hbound hfirst hduty).mpr
      (h earlier event hprefix hbound hfirst duty hduty)

/-- Slot 2 is missed, but no refresh slot is: the duty of slot 5 is found at head 4. -/
theorem missed_slot_harmless_sample :
    (Sample.shortEpochs.system.final Sample.registered (headEvents Sample.schedule
      [Sample.headEvent 1, Sample.headEvent 3, Sample.headEvent 4])).storage.findDutyBySlot 5 =
      some ⟨Sample.prims.skToPk Sample.proposer, 5, 5⟩ := by
  refine (missed_slot_harmless_iff Sample.shortEpochs Sample.schedule Sample.schedule_confined
    Sample.registered [Sample.headEvent 1, Sample.headEvent 3, Sample.headEvent 4]
    (by decide)).mpr ?_ [Sample.headEvent 1, Sample.headEvent 3] (Sample.headEvent 4)
    (List.prefix_refl _) (by decide) ⟨Sample.headEvent 1, by simp, rfl⟩ _ rfl
  intro earlier event hprefix _ hfirst _ _
  obtain ⟨rest, hsplit⟩ := hprefix
  rcases earlier with _ | ⟨e₁, _ | ⟨e₂, _ | ⟨e₃, earlier⟩⟩⟩
  · obtain ⟨first, hfirst, -⟩ := hfirst
    cases hfirst
  · cases hsplit
    exact ⟨Sample.headEvent 3, by simp, rfl, by decide⟩
  · cases hsplit
    exact ⟨Sample.headEvent 3, by simp, rfl, by decide⟩
  · have hlen := congrArg List.length hsplit
    simp at hlen

/-- Slot 3 is missed: the table of refresh slot 1 ends with slot 3, and the duty of slot 5 is not
found at head 4. -/
theorem missed_slot_harms :
    ¬ ∀ (R : Relay) (schedule : DutySchedule) (s : Store) (events : List HeadEvent),
      2 ≤ R.slotsPerEpoch → schedule.Confined R.slotsPerEpoch →
      (events.map HeadEvent.slot).Pairwise (· < ·) →
      ∀ earlier event, earlier ++ [event] <+: events → event.slot.toNat + 1 < 2 ^ 64 →
        (∃ first ∈ earlier, R.IsRefresh first.slot) →
        ∀ duty, firstRegistered s.storage (schedule ((event.slot + 1) / R.slotsPerEpoch))
            (event.slot + 1) = some duty →
          (R.system.final s (headEvents schedule (earlier ++ [event]))).storage.findDutyBySlot
            (event.slot + 1) = some duty := by
  intro h
  have hfound := h Sample.shortEpochs Sample.schedule Sample.registered
    [Sample.headEvent 1, Sample.headEvent 2, Sample.headEvent 4] (by decide)
    Sample.schedule_confined (by decide) [Sample.headEvent 1, Sample.headEvent 2]
    (Sample.headEvent 4) (List.prefix_refl _) (by decide) ⟨Sample.headEvent 1, by simp, rfl⟩
    ⟨Sample.prims.skToPk Sample.proposer, 5, 5⟩ rfl
  have hnone : (Sample.shortEpochs.system.final Sample.registered (headEvents Sample.schedule
      [Sample.headEvent 1, Sample.headEvent 2, Sample.headEvent 4])).storage.findDutyBySlot 5 =
        none := rfl
  cases hnone.symm.trans hfound

/-! ## Syncs that half fail -/

/-- The sync for `epoch` forgets nothing that is still to come: if the request for `epoch` fails it
says so and leaves the table, and if the request for the next epoch fails, the duties of that epoch
are still found. -/
structure KeepsUpcoming (R : Relay) (beacon : Beacon) (epoch : UInt64) (s : Store) : Prop where
  first_failed : ∀ e, beacon epoch = .error e →
    ((syncDuties R beacon epoch).run Store.exec s).1 = .returned (.error e) ∧
      ((syncDuties R beacon epoch).run Store.exec s).2.storage.proposerDuties =
        s.storage.proposerDuties
  second_failed : ∀ next e, next.toNat = epoch.toNat + 1 → beacon next = .error e →
    ∀ slot duty, (⟨slot⟩ : HeadSlot).epoch R.slotsPerEpoch = some next →
      s.storage.findDutyBySlot slot = some duty →
      ((syncDuties R beacon epoch).run Store.exec s).2.storage.findDutyBySlot slot = some duty

/-- The table after a sync whose second request failed. -/
theorem syncedTable_of_second_failed {beacon : Beacon} {epoch next : UInt64}
    {duties : List ProposerDuty} {e : String} (hfirst : beacon epoch = .ok duties)
    (hnext : next.toNat = epoch.toNat + 1) (hsecond : beacon next = .error e)
    (st : MemoryStorage) : syncedTable R beacon epoch st = registeredDuties st duties := by
  have hadd : R.build.addU64 epoch 1 = some next := Build.addU64_of_toNat hnext
  simp only [syncedTable, hfirst, hadd, hsecond]

/-- **When a partly failed sync forgets nothing**: exactly if, whenever only the second request
fails, the answer to the first one lists the duties of the second epoch that the table held. -/
theorem half_failed_sync_keeps_iff (R : Relay) (beacon : Beacon) (epoch : UInt64) (s : Store) :
    R.KeepsUpcoming beacon epoch s ↔
      ∀ duties next e, beacon epoch = .ok duties → next.toNat = epoch.toNat + 1 →
        beacon next = .error e →
        ∀ slot duty, (⟨slot⟩ : HeadSlot).epoch R.slotsPerEpoch = some next →
          s.storage.findDutyBySlot slot = some duty →
          firstRegistered s.storage duties slot = some duty := by
  have hfind : ∀ duties next e slot, beacon epoch = .ok duties →
      next.toNat = epoch.toNat + 1 → beacon next = .error e →
      ((syncDuties R beacon epoch).run Store.exec s).2.storage.findDutyBySlot slot =
        firstRegistered s.storage duties slot := by
    intro duties next e slot hfirst hnext hsecond
    rw [run_syncDuties, syncedTable_of_second_failed hfirst hnext hsecond]
    exact find_registeredDuties s.storage duties slot
  constructor
  · intro h duties next e hfirst hnext hsecond slot duty hepoch hheld
    rw [← hfind duties next e slot hfirst hnext hsecond]
    exact h.second_failed next e hnext hsecond slot duty hepoch hheld
  · intro h
    refine ⟨?_, ?_⟩
    · intro e hfirst
      have hrun : (syncDuties R beacon epoch).run Store.exec s = (.returned (.error e), s) := by
        unfold syncDuties
        rw [hfirst]
        rfl
      rw [hrun]
      exact ⟨rfl, rfl⟩
    · intro next e hnext hsecond slot duty hepoch hheld
      cases hfirst : beacon epoch with
      | ok duties =>
        rw [hfind duties next e slot hfirst hnext hsecond]
        exact h duties next e hfirst hnext hsecond slot duty hepoch hheld
      | error e' =>
        -- the first request failed too, and the table is as it was
        rw [run_syncDuties]
        have htable : syncedTable R beacon epoch s.storage = s.storage.proposerDuties := by
          simp only [syncedTable, hfirst]
        rw [htable]
        exact hheld

/-- The same head is polled again, and the request for epoch 2 fails: the duty of slot 5 is gone. -/
theorem half_failed_sync_loses :
    ¬ ∀ (R : Relay) (beacon : Beacon) (epoch : UInt64) (s : Store),
      R.KeepsUpcoming beacon epoch s := by
  intro h
  have hfound := (h Sample.shortEpochs Sample.halfBeacon 1 Sample.synced).second_failed 2 "timeout"
    rfl rfl 5 ⟨Sample.prims.skToPk Sample.proposer, 5, 5⟩ rfl rfl
  cases hfound

end Relay

end MevRelay
