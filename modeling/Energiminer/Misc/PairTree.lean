import Mathlib.Data.Nat.Log
import Mathlib.Tactic.Ring

/-!
# Trees over a list, level by level

Each level of the tree combines the neighbours of the level below, and an odd last element with
itself, until one element is left: the root. The node at a position is combined with its sibling,
on the side that the position tells, to the node above; the siblings on the way from a leaf to the
root are the path of the leaf.
-/

namespace Energiminer.Misc.PairTree
variable {α : Type}

section Levels
variable (combine : α → α → α)

/-- The level above. -/
def pairUp : List α → List α
  | [] => []
  | [a] => [combine a a]
  | a :: b :: rest => combine a b :: pairUp rest

theorem length_pairUp (leaves : List α) :
    (pairUp combine leaves).length = (leaves.length + 1) / 2 := by
  fun_induction pairUp combine leaves with
  | case1 => simp
  | case2 a => simp
  | case3 a b rest ih =>
    simp only [List.length_cons, ih]
    omega

/-- The element that is left when the levels have been combined down to one. -/
def root (null : α) : List α → α
  | [] => null
  | [a] => a
  | a :: b :: rest => root null (combine a b :: pairUp combine rest)
termination_by leaves => leaves.length
decreasing_by
  simp only [List.length_cons, length_pairUp]
  omega

/-- Level `k` above the leaves. -/
def level (leaves : List α) : Nat → List α
  | 0 => leaves
  | k + 1 => pairUp combine (level leaves k)

/-- The node at position `j` of level `k`. -/
def node (null : α) (leaves : List α) (k j : Nat) : α := (level combine leaves k).getD j null

/-- The sibling of the node above leaf `i` on level `k`: the one beside it, or the node itself where
it is an odd last one. -/
def sibling (null : α) (leaves : List α) (i k : Nat) : α :=
  let j := i / 2 ^ k
  if j % 2 = 1 then node combine null leaves k (j - 1)
  else if j + 1 < (level combine leaves k).length then node combine null leaves k (j + 1)
  else node combine null leaves k j

/-- The siblings on the way from leaf `i` up to level `k`. -/
def path (null : α) (leaves : List α) (i k : Nat) : List α :=
  (List.range k).map (sibling combine null leaves i)

end Levels

variable {combine : α → α → α} {null : α} {leaves : List α} {i j k q : Nat}

theorem path_succ (i k : Nat) : path combine null leaves i (k + 1) =
    path combine null leaves i k ++ [sibling combine null leaves i k] := by
  rw [path, path, List.range_succ, List.map_append, List.map_singleton]

theorem length_path (i k : Nat) : (path combine null leaves i k).length = k := by
  rw [path, List.length_map, List.length_range]

/-! ## The size of a level -/

theorem length_level (leaves : List α) (k : Nat) :
    (level combine leaves k).length = (leaves.length + 2 ^ k - 1) / 2 ^ k := by
  induction k with
  | zero => simp [level]
  | succ k ih =>
    have hpos := Nat.two_pow_pos k
    rw [level, length_pairUp, ih, Nat.pow_succ, ← Nat.div_div_eq_div_mul]
    apply congrArg (· / 2)
    rw [show leaves.length + 2 ^ k * 2 - 1 = leaves.length + 2 ^ k - 1 + 2 ^ k by omega,
      Nat.add_div_right _ hpos]

/-- A level has as many nodes as it takes to cover the leaves. -/
theorem length_level_eq (hle : leaves.length ≤ q * 2 ^ k)
    (hlt : q * 2 ^ k < leaves.length + 2 ^ k) :
    (level combine leaves k).length = q := by
  have hpos := Nat.two_pow_pos k
  rw [length_level]
  apply Nat.div_eq_of_lt_le
  · omega
  · rw [Nat.succ_mul]
    omega

theorem le_length_level (h : q * 2 ^ k < leaves.length + 2 ^ k) :
    q ≤ (level combine leaves k).length := by
  have hpos := Nat.two_pow_pos k
  rw [length_level, Nat.le_div_iff_mul_le hpos]
  omega

theorem one_lt_length_level (h : 2 ^ k < leaves.length) : 1 < (level combine leaves k).length :=
  le_length_level (by omega)

/-! ## The nodes -/

theorem pairUp_getD (xs : List α) (j : Nat) :
    (2 * j + 1 < xs.length →
      (pairUp combine xs).getD j null = combine (xs.getD (2 * j) null) (xs.getD (2 * j + 1) null)) ∧
    (2 * j + 1 = xs.length →
      (pairUp combine xs).getD j null = combine (xs.getD (2 * j) null) (xs.getD (2 * j) null)) := by
  fun_induction pairUp combine xs generalizing j with
  | case1 => simp
  | case2 a =>
    refine ⟨fun h => ?_, fun h => ?_⟩
    · simp at h
    · obtain rfl : j = 0 := by simpa using h
      rfl
  | case3 a b rest ih =>
    cases j with
    | zero =>
      refine ⟨fun _ => rfl, fun h => ?_⟩
      simp only [List.length_cons] at h
      omega
    | succ j =>
      have hdouble : 2 * (j + 1) = 2 * j + 1 + 1 := by omega
      simp only [hdouble, List.length_cons, List.getD_cons_succ, Nat.add_lt_add_iff_right,
        Nat.add_right_cancel_iff]
      exact ih j

/-- Two neighbours are combined to the node above. -/
theorem node_succ (h : 2 * j + 1 < (level combine leaves k).length) :
    node combine null leaves (k + 1) j =
      combine (node combine null leaves k (2 * j)) (node combine null leaves k (2 * j + 1)) :=
  (pairUp_getD _ j).1 h

/-- An odd last node is combined with itself. -/
theorem node_succ_last (h : 2 * j + 1 = (level combine leaves k).length) :
    node combine null leaves (k + 1) j =
      combine (node combine null leaves k (2 * j)) (node combine null leaves k (2 * j)) :=
  (pairUp_getD _ j).2 h

theorem level_pairUp (leaves : List α) (k : Nat) :
    level combine (pairUp combine leaves) k = level combine leaves (k + 1) := by
  induction k with
  | zero => rfl
  | succ k ih => rw [level, ih, ← level]

/-- The root is the only node of the first level that has one. -/
theorem root_eq_node (hwide : ∀ l < k, 1 < (level combine leaves l).length)
    (hone : (level combine leaves k).length = 1) :
    root combine null leaves = node combine null leaves k 0 := by
  induction k generalizing leaves with
  | zero =>
    obtain ⟨a, rfl⟩ := List.length_eq_one_iff.mp hone
    rw [root]
    rfl
  | succ k ih =>
    rcases leaves with _ | ⟨a, _ | ⟨b, rest⟩⟩
    · exact absurd (hwide 0 (Nat.succ_pos k)) (by simp [level])
    · exact absurd (hwide 0 (Nat.succ_pos k)) (by simp [level])
    · rw [root, ← pairUp, ih, node, node, level_pairUp]
      · intro l hl
        rw [level_pairUp]
        exact hwide (l + 1) (Nat.succ_lt_succ hl)
      · rw [level_pairUp]
        exact hone

/-- The tree is as high as the logarithm of the number of leaves, rounded up. -/
theorem root_eq_node_clog (hpos : 0 < leaves.length) :
    root combine null leaves = node combine null leaves (Nat.clog 2 leaves.length) 0 := by
  apply root_eq_node
  · intro k hk
    exact one_lt_length_level ((Nat.lt_clog_iff_pow_lt (by decide)).mp hk)
  · have hcovers := Nat.le_pow_clog (by decide : 1 < 2) leaves.length
    apply length_level_eq <;> omega

/-! ## Siblings -/

/-- A node and its sibling are combined to the node above, on the side that the position tells. -/
theorem node_succ_sibling (hi : i < leaves.length) :
    node combine null leaves (k + 1) (i / 2 ^ (k + 1)) =
      if i / 2 ^ k % 2 = 1 then
        combine (sibling combine null leaves i k) (node combine null leaves k (i / 2 ^ k))
      else combine (node combine null leaves k (i / 2 ^ k)) (sibling combine null leaves i k) := by
  have hpos := Nat.two_pow_pos k
  have hlt : i / 2 ^ k < (level combine leaves k).length := by
    rw [length_level, Nat.lt_iff_add_one_le, Nat.le_div_iff_mul_le hpos, Nat.add_mul, Nat.one_mul]
    have hle := Nat.div_mul_le_self i (2 ^ k)
    omega
  have hhalf : i / 2 ^ (k + 1) = i / 2 ^ k / 2 := by rw [Nat.pow_succ, Nat.div_div_eq_div_mul]
  rw [hhalf, sibling]
  generalize i / 2 ^ k = j at hlt ⊢
  by_cases hodd : j % 2 = 1
  · rw [if_pos hodd, if_pos hodd, node_succ (by omega), show 2 * (j / 2) = j - 1 by omega,
      show j - 1 + 1 = j by omega]
  · rw [if_neg hodd, if_neg hodd]
    have hdouble : 2 * (j / 2) = j := by omega
    by_cases hnext : j + 1 < (level combine leaves k).length
    · rw [if_pos hnext, node_succ (by omega), hdouble]
    · rw [if_neg hnext, node_succ_last (by omega), hdouble]

end Energiminer.Misc.PairTree
