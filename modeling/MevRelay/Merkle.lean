import Mathlib.Tactic.Common
import Mathlib.Algebra.Order.Ring.Nat

/-!
# Merkle trees over a two-to-one function

The root of a list of leaves in a binary tree of fixed depth, missing leaves filled with a zero
value. Stated for an arbitrary node type and an arbitrary two-to-one function.

A two-to-one function on a finite type has collisions. What a root says about its leaves therefore
rests on the inputs that were hashed, and on no others: `pairs` lists them, and `root_injective` asks
for `CollisionFree` on the pairs of the two trees that are compared.
-/

namespace Merkle

universe u

variable {β : Type u} (node : β → β → β) (zero : β)

/-- The root of a tree of depth `d` without any leaf. -/
def zeros : Nat → β
  | 0 => zero
  | d + 1 => node (zeros d) (zeros d)

/-- The root of the tree of depth `d` over `leaves`. Only the first `2 ^ d` leaves count. -/
def root : Nat → List β → β
  | 0, leaves => leaves.headD zero
  | d + 1, leaves =>
    if leaves.isEmpty then zeros node zero (d + 1)
    else node (root d (leaves.take (2 ^ d))) (root d (leaves.drop (2 ^ d)))

/-- The depth of the smallest tree with room for `n` leaves, for `n ≥ 1`. -/
def depthFor (n : Nat) : Nat := Nat.log2 (2 * n - 1)

example : [1, 2, 3, 4, 5, 9, 16, 17].map depthFor = [0, 1, 2, 2, 3, 4, 4, 5] := by decide

theorem le_two_pow_depthFor (n : Nat) : n ≤ 2 ^ depthFor n := by
  have hlt : 2 * n - 1 < 2 ^ (depthFor n + 1) := Nat.lt_log2_self
  rw [Nat.pow_succ] at hlt
  omega

/-! ## Roots bind their leaves -/

section CollisionFree

universe v

variable {α : Type u} {γ : Type v} {hash : α → γ}

/-- No two distinct inputs of the list are hashed to the same value. -/
def CollisionFree (hash : α → γ) (inputs : List α) : Prop :=
  ∀ x ∈ inputs, ∀ y ∈ inputs, hash x = hash y → x = y

instance CollisionFree.decidable [DecidableEq α] [DecidableEq γ] (hash : α → γ)
    (inputs : List α) : Decidable (CollisionFree hash inputs) :=
  inferInstanceAs (Decidable (∀ x ∈ inputs, ∀ y ∈ inputs, hash x = hash y → x = y))

theorem CollisionFree.mono {inputs inputs' : List α} (h : CollisionFree hash inputs)
    (hsub : inputs' ⊆ inputs) : CollisionFree hash inputs' := by
  intro x hx y hy
  exact h x (hsub hx) y (hsub hy)

/-- Two computations that hash in two parts are compared part by part. -/
theorem CollisionFree.parts {first second first' second' : List α}
    (h : CollisionFree hash ((first ++ second) ++ (first' ++ second'))) :
    CollisionFree hash (first ++ first') ∧ CollisionFree hash (second ++ second') := by
  constructor
  · apply h.mono
    intro x hx
    simp only [List.mem_append] at hx ⊢
    tauto
  · apply h.mono
    intro x hx
    simp only [List.mem_append] at hx ⊢
    tauto

end CollisionFree

/-- The pairs that are hashed for the root of `leaves`. Subtrees without a leaf are constants. -/
def pairs : Nat → List β → List (β × β)
  | 0, _ => []
  | d + 1, leaves =>
    if leaves.isEmpty then []
    else
      (root node zero d (leaves.take (2 ^ d)), root node zero d (leaves.drop (2 ^ d))) ::
        (pairs d (leaves.take (2 ^ d)) ++ pairs d (leaves.drop (2 ^ d)))

variable {node zero}

theorem root_succ (d : Nat) {leaves : List β} (h : leaves ≠ []) :
    root node zero (d + 1) leaves =
      node (root node zero d (leaves.take (2 ^ d))) (root node zero d (leaves.drop (2 ^ d))) := by
  rw [root, if_neg (by simpa using h)]

theorem pairs_succ (d : Nat) {leaves : List β} (h : leaves ≠ []) :
    pairs node zero (d + 1) leaves =
      [(root node zero d (leaves.take (2 ^ d)), root node zero d (leaves.drop (2 ^ d)))] ++
        (pairs node zero d (leaves.take (2 ^ d)) ++ pairs node zero d (leaves.drop (2 ^ d))) := by
  rw [pairs, if_neg (by simpa using h), List.singleton_append]

/-- **A root binds its leaves**, among lists of the same length that fit into the tree. -/
theorem root_injective {d : Nat} {leaves leaves' : List β}
    (hlen : leaves.length = leaves'.length) (hfit : leaves.length ≤ 2 ^ d)
    (hfree : CollisionFree (fun x : β × β => node x.1 x.2)
      (pairs node zero d leaves ++ pairs node zero d leaves'))
    (hroot : root node zero d leaves = root node zero d leaves') : leaves = leaves' := by
  induction d generalizing leaves leaves' with
  | zero =>
    -- at most one leaf, which is the root
    rcases leaves with _ | ⟨a, rest⟩
    · exact (List.length_eq_zero_iff.mp hlen.symm).symm
    · have hrest : rest = [] := by simpa using hfit
      subst hrest
      obtain ⟨b, rfl⟩ := List.length_eq_one_iff.mp hlen.symm
      exact congrArg (fun x => [x]) hroot
  | succ d ih =>
    by_cases hempty : leaves = []
    · subst hempty
      exact (List.length_eq_zero_iff.mp hlen.symm).symm
    have hempty' : leaves' ≠ [] := by
      intro h
      rw [h, List.length_nil] at hlen
      exact hempty (List.length_eq_zero_iff.mp hlen)
    rw [root_succ d hempty, root_succ d hempty'] at hroot
    rw [pairs_succ d hempty, pairs_succ d hempty'] at hfree
    obtain ⟨hfree_node, hfree_halves⟩ := hfree.parts
    obtain ⟨hfree_take, hfree_drop⟩ := hfree_halves.parts
    -- equal roots are hashes of equal pairs, so both halves have equal roots
    have hpair := hfree_node _ List.mem_cons_self _
      (List.mem_cons_of_mem _ List.mem_cons_self) hroot
    rw [Prod.mk.injEq] at hpair
    have htake : leaves.take (2 ^ d) = leaves'.take (2 ^ d) := by
      apply ih _ _ hfree_take hpair.1
      · rw [List.length_take, List.length_take, hlen]
      · rw [List.length_take]
        exact Nat.min_le_left _ _
    have hdrop : leaves.drop (2 ^ d) = leaves'.drop (2 ^ d) := by
      apply ih _ _ hfree_drop hpair.2
      · rw [List.length_drop, List.length_drop, hlen]
      · rw [List.length_drop]
        rw [Nat.pow_succ] at hfit
        omega
    rw [← List.take_append_drop (2 ^ d) leaves, htake, hdrop, List.take_append_drop]

end Merkle
