import Mathlib.Data.List.DropRight

/-!
# Stripping a list at both ends

`strip p l` is `l` without what satisfies `p` at its two ends. Two notions of space, one within the
other, are compared by what they leave: `strip_strip` says that the wider one leaves nothing for the
narrower one to take off, `countP_strip` that what is no space at all stays.
-/

namespace Strip

variable {α : Type*} {p q : α → Bool} {l xs : List α}

/-- `l` without what satisfies `p` at its ends. -/
def strip (p : α → Bool) (l : List α) : List α := (l.dropWhile p).rdropWhile p

theorem rdropWhile_append (h : ∀ x ∈ xs, p x) : (l ++ xs).rdropWhile p = l.rdropWhile p := by
  unfold List.rdropWhile
  rw [List.reverse_append, List.dropWhile_append_of_pos]
  intro x hx
  exact h x (List.mem_reverse.mp hx)

theorem strip_append_right (h : ∀ x ∈ xs, p x) : strip p (l ++ xs) = strip p l := by
  unfold strip
  rw [List.dropWhile_append]
  split
  · next hnil =>
    rw [List.isEmpty_iff.mp hnil, List.dropWhile_eq_nil_iff.mpr h]
  · exact rdropWhile_append h

/-- A list is what `strip` leaves, between what it takes off. -/
theorem exists_strip (p : α → Bool) (l : List α) :
    ∃ xs ys, l = xs ++ strip p l ++ ys ∧ (∀ x ∈ xs, p x) ∧ ∀ y ∈ ys, p y := by
  refine ⟨l.takeWhile p, (l.dropWhile p).rtakeWhile p, ?_, fun _ => List.mem_takeWhile_imp,
    fun _ => List.mem_rtakeWhile_imp⟩
  rw [strip, List.append_assoc, List.rdropWhile_append_rtakeWhile,
    List.takeWhile_append_dropWhile]

theorem strip_eq_nil_iff : strip p l = [] ↔ ∀ x ∈ l, p x := by
  constructor
  · intro h
    obtain ⟨xs, ys, hl, hxs, hys⟩ := exists_strip p l
    rw [h, List.append_nil] at hl
    rw [hl]
    exact List.forall_mem_append.mpr ⟨hxs, hys⟩
  · intro h
    unfold strip
    rw [List.dropWhile_eq_nil_iff.mpr h, List.rdropWhile_nil]

/-- What is left by the wider notion of space is left alone by the narrower one. -/
theorem strip_strip (hpq : ∀ x, p x → q x) (l : List α) : strip p (strip q l) = strip q l := by
  have hhead : (strip q l).dropWhile p = strip q l := by
    apply List.dropWhile_eq_self_iff.mpr
    intro hpos hp
    have hfront : strip q l <+: l.dropWhile q := List.rdropWhile_prefix q _
    have hlen : 0 < (l.dropWhile q).length := Nat.lt_of_lt_of_le hpos hfront.length_le
    apply List.dropWhile_get_zero_not q l hlen
    rw [List.get_eq_getElem, ← hfront.getElem hpos]
    exact hpq _ hp
  have hlast : (strip q l).rdropWhile p = strip q l := by
    apply List.rdropWhile_eq_self_iff.mpr
    intro hne hp
    exact List.rdropWhile_last_not q _ hne (hpq _ hp)
  rw [strip, hhead, hlast]

/-- What is not space stays. -/
theorem countP_strip (hpq : ∀ x, p x → q x) (l : List α) :
    (strip p l).countP (fun x => !q x) = l.countP (fun x => !q x) := by
  have hnone : ∀ xs : List α, (∀ x ∈ xs, p x) → xs.countP (fun x => !q x) = 0 := by
    intro xs hxs
    apply List.countP_eq_zero.mpr
    intro x hx
    simp [hpq x (hxs x hx)]
  obtain ⟨xs, ys, hl, hxs, hys⟩ := exists_strip p l
  conv_rhs => rw [hl]
  rw [List.countP_append, List.countP_append, hnone xs hxs, hnone ys hys, Nat.zero_add,
    Nat.add_zero]

end Strip
