import Energiminer.Cuda.ComputeHash

/-!
# The CUDA permutations compute Keccak

The pruned θ sums are the column parities of the padded blocks, since the lanes they leave out
are zero; a pruned last round agrees with a full one on the lanes it computes.
-/

namespace Energiminer.Cuda
open Misc Misc.Keccak Nrghash Devices

theorem rotatesLanes_rol2 (arch : Arch) : RotatesLanes (rol2 arch) := by
  cases arch with
  | sm35 => exact rotatesLanes_rol2Shf
  | older => exact rotatesLanes_rol2Shift

theorem addColumns_columns (arch : Arch) (s : Lanes Uint2) :
    addColumns arch (columns s) s = theta (uint2Algebra (rol2 arch)) s := rfl

theorem rhoPiSteps_eq (arch : Arch) (s : Lanes Uint2) :
    rhoPiSteps arch s = rhoPi (uint2Algebra (rol2 arch)) s := rfl

theorem chiSteps_eq (arch : Arch) (s : Lanes Uint2) :
    chiSteps s = chi (uint2Algebra (rol2 arch)) s := rfl

theorem roundFrom_columns (arch : Arch) (s : Lanes Uint2) (i : Nat) :
    roundFrom arch (columns s) s i = keccakRound (uint2Algebra (rol2 arch)) s (roundConstant i) := by
  simp only [roundFrom, addColumns_columns, rhoPiSteps_eq, chiSteps_eq arch]
  rfl

/-- All twenty-four rounds in full. -/
def permute (arch : Arch) (s : Lanes Uint2) : Lanes Uint2 :=
  let s := middleRounds arch (roundFrom arch (columns s) s 0)
  roundFrom arch (columns s) s 23

theorem map_permute (arch : Arch) (s : Lanes Uint2) :
    (permute arch s).map Uint2.asUlong = keccakf (s.map Uint2.asUlong) := by
  have hconst : keccakRoundConstants.map Uint2.ofUlong =
      roundConstant 0 :: ((List.range 22).map fun i => roundConstant (i + 1)) ++
        [roundConstant 23] := rfl
  have hmap : (keccakRoundConstants.map Uint2.ofUlong).map Uint2.asUlong = RC := by
    rw [List.map_map]
    exact (List.map_congr_left fun w _ => asUlong_ofUlong w).trans (List.map_id _)
  rw [keccakf_eq, ← hmap]
  refine Eq.trans ?_ (map_rounds (uint2Hom (rotatesLanes_rol2 arch)) _ s)
  rw [hconst, rounds, List.foldl_append]
  simp only [List.foldl_cons, List.foldl_nil, List.foldl_map, permute, middleRounds,
    roundFrom_columns]
  rfl

@[simp] theorem xor_zero (a : Uint2) : a ^^^ Uint2.zero = a :=
  Uint2.ext (BitVec.xor_zero) (BitVec.xor_zero)

theorem xor_assoc (a b c : Uint2) : a ^^^ b ^^^ c = a ^^^ (b ^^^ c) :=
  Uint2.ext (BitVec.xor_assoc _ _ _) (BitVec.xor_assoc _ _ _)

theorem initColumns_eq (header : H256) (nonce : Uint2) :
    initColumns (initBlock header nonce) = columns (initBlock header nonce) := by
  have hx : ∀ a : Uint2, a ^^^ ⟨1, 0⟩ = ⟨a.x ^^^ 1, a.y⟩ := fun a => Uint2.ext rfl BitVec.xor_zero
  have hy : ∀ a : Uint2, a ^^^ ⟨0, 0x80000000⟩ = ⟨a.x, a.y ^^^ 0x80000000⟩ :=
    fun a => Uint2.ext BitVec.xor_zero rfl
  simp only [initColumns, columns, xor5, initBlock, Lanes.ofFn, Nat.reduceLT, Nat.reduceEqDiff,
    if_true, if_false, xor_zero, hx, hy]

theorem finalColumns_eq (state : Vector Uint2 12) :
    finalColumns (finalBlock state) = columns (finalBlock state) := by
  simp only [finalColumns, columns, xor5, xor3, finalBlock, Lanes.ofFn, Nat.reduceLT,
    Nat.reduceEqDiff, reduceIte, xor_zero]

theorem get_initLastRound (arch : Arch) (s : Lanes Uint2) (k : Nat) (hk : k < 8) :
    (initLastRound arch s).get k = (roundFrom arch (columns s) s 23).get k :=
  Lanes.get_congr_eight (a := initLastRound arch s) (b := roundFrom arch (columns s) s 23)
    rfl rfl rfl rfl rfl rfl rfl rfl k hk

theorem finalLastRound_eq (arch : Arch) (s : Lanes Uint2) :
    finalLastRound arch s = (roundFrom arch (columns s) s 23).l0.asUlong := by
  have hrc : (roundConstant 23).asUlong = keccakRoundConstants.getD 23 0 := asUlong_ofUlong _
  simp only [finalLastRound, xor3, xor_assoc, ← hrc, ← asUlong_xor]
  rfl

theorem map_initBlock (header : H256) (nonce : BitVec 64) :
    (initBlock header (.ofUlong nonce)).map Uint2.asUlong =
      padLanes 5 9 fun k => if k < 4 then messageWord header.toList k else nonce := by
  refine Lanes.ofFn_congr fun k hk => ?_
  rw [initBlock, Lanes.get_ofFn _ k hk]
  by_cases h4 : k < 4
  · rw [if_pos h4, if_pos (by omega)]
    exact (asUlong_ofUlong _).trans (if_pos h4).symm
  · by_cases h5 : k < 5
    · rw [if_neg h4, if_pos (by omega), if_pos h5]
      exact (asUlong_ofUlong _).trans (if_neg h4).symm
    · rw [if_neg h4, if_neg (by omega), if_neg h5]
      split
      · decide
      · split <;> decide

theorem keccakF1600Init_seed (arch : Arch) (header : H256) (nonce : BitVec 64) (k : Nat)
    (hk : k < 8) :
    (cell (keccakF1600Init arch header (.ofUlong nonce)) k).asUlong =
      (seedLanes header nonce).get k := by
  rw [seedLanes, ← map_initBlock, ← map_permute arch, Lanes.get_map, permute,
    ← get_initLastRound _ _ _ hk]
  simp only [keccakF1600Init, initColumns_eq, cell_ofFn _ (show k < 12 by omega)]

theorem keccakF1600Final_eq (arch : Arch) (state : Vector Uint2 12) :
    keccakF1600Final arch state = (keccakf ((finalBlock state).map Uint2.asUlong)).l0 := by
  rw [← map_permute arch, Lanes.l0_map, permute]
  simp only [keccakF1600Final, finalColumns_eq, finalLastRound_eq]

end Energiminer.Cuda
