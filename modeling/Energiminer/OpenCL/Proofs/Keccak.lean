import Energiminer.OpenCL.Nrghash

/-!
# The permutation of the OpenCL kernel

`KECCAKF_1600_RND` is a Keccak round on pairs of words. Its last application computes only the
rows that are read afterwards, so `keccakProcess` agrees with the permutation on the first
lanes: lane 0 whatever the output size, and the first ten lanes when the size is above four.
-/

namespace Energiminer.OpenCL
open Misc Misc.Keccak Misc.Lockstep Nrghash Devices
open Uint2 (bitselect)

/-- The rotation of a build: the two macros share the amounts between them. -/
def rotlOf (build : RotlBuild) (x : Uint2) (n : Nat) : Uint2 :=
  if n < 32 then rotl64_1 build x n else rotl64_2 build x (n - 32)

theorem rotatesLanes_rotlOf (build : RotlBuild) : RotatesLanes (rotlOf build) := by
  cases build with
  | amdMediaOps =>
    refine rotatesLanes_of_funnel (fun a n h0 hn => ?_) fun a n h0 hn => ?_
    · rw [rotlOf, if_pos hn, rotl64_1, amdBitalign2, amdBitalign_eq_funnel _ _ n h0 hn,
        amdBitalign_eq_funnel _ _ n h0 hn]
      rfl
    · rw [rotlOf, if_neg (by omega), rotl64_2, amdBitalign2,
        amdBitalign_eq_funnel _ _ (n - 32) (by omega) (by omega),
        amdBitalign_eq_funnel _ _ (n - 32) (by omega) (by omega)]
      rfl
  | rotate =>
    intro a n h0 h64 h32
    by_cases h : n < 32
    · rw [rotlOf, if_pos h, rotl64_1, asUlong_ofUlong]
    · rw [rotlOf, if_neg h, rotl64_2, rotl64_1, asUlong_ofUlong, Nat.sub_add_cancel (by omega)]

/-- The lanes of a build. -/
abbrev buildAlgebra (build : RotlBuild) : LaneAlgebra Uint2 := uint2Algebra (rotlOf build)

theorem rndRhoPi_rndTheta (build : RotlBuild) (a : Lanes Uint2) :
    rndRhoPi build (rndTheta build a).1 (rndTheta build a).2 =
      rhoPi (buildAlgebra build) (theta (buildAlgebra build) a) := rfl

theorem rndChi_full (rc : Uint2) (a : Lanes Uint2) :
    rndChi rc 25 a = { chiSelect a with l0 := (chiSelect a).l0 ^^^ rc } := rfl

theorem keccakf1600Rnd_full (build : RotlBuild) (a : Lanes Uint2) (i : Nat) :
    keccakf1600Rnd build a i 25 = keccakRound (buildAlgebra build) a (keccakF1600RC.getD i .zero) := by
  rw [keccakf1600Rnd, rndRhoPi_rndTheta, rndChi_full, chiSelect_eq (rotlOf build)]
  rfl

theorem rndChi_get_eight (rc : Uint2) (a : Lanes Uint2) (k : Nat) (hk : k < 8) :
    (rndChi rc 8 a).get k = (rndChi rc 25 a).get k :=
  Lanes.get_congr_eight (a := rndChi rc 8 a) (b := rndChi rc 25 a)
    rfl rfl rfl rfl rfl rfl rfl rfl k hk

theorem rndChi_get_one (rc : Uint2) (a : Lanes Uint2) :
    (rndChi rc 1 a).l0 = (rndChi rc 25 a).l0 := rfl

theorem keccakF1600RC_map : keccakF1600RC.map Uint2.asUlong = RC := by decide

theorem keccakProcess_full (build : RotlBuild) {isolate : Word} (h : isolate ≠ 0)
    (st : Lanes Uint2) :
    (keccakProcess build isolate 25 st).map Uint2.asUlong = keccakf (st.map Uint2.asUlong) := by
  rw [keccakf_eq, ← keccakF1600RC_map]
  refine Eq.trans ?_ (map_rounds (uint2Hom (rotatesLanes_rotlOf build)) keccakF1600RC st)
  congr 1
  simp only [keccakProcess, if_pos h, ite_self, keccakf1600Rnd_full]
  rfl

/-- The output size is looked at in the last χ only. -/
theorem keccakProcess_last (build : RotlBuild) {isolate : Word} (h : isolate ≠ 0)
    (st : Lanes Uint2) :
    ∃ rc b, ∀ outSize, keccakProcess build isolate outSize st = rndChi rc outSize b := by
  let st' := (List.range 23).foldl (fun st r => keccakf1600Rnd build st r 25) st
  have hinit : ∀ outSize, (List.range 23).foldl (fun st r =>
      if isolate ≠ 0 then keccakf1600Rnd build st r (if r < 23 then 25 else outSize) else st) st =
      st' := by
    intro outSize
    refine List.foldl_ext _ _ _ fun st r hr => ?_
    rw [if_pos h, if_pos (List.mem_range.mp hr)]
  refine ⟨keccakF1600RC.getD 23 .zero,
    rndRhoPi build (rndTheta build st').1 (rndTheta build st').2, fun outSize => ?_⟩
  rw [keccakProcess, show List.range 24 = List.range 23 ++ [23] from rfl, List.foldl_append, hinit,
    List.foldl_cons, List.foldl_nil, if_pos h]
  rfl

theorem keccakProcess_eight (build : RotlBuild) {isolate : Word} (h : isolate ≠ 0)
    (st : Lanes Uint2) (k : Nat) (hk : k < 8) :
    ((keccakProcess build isolate 8 st).get k).asUlong =
      (keccakf (st.map Uint2.asUlong)).get k := by
  obtain ⟨rc, b, hlast⟩ := keccakProcess_last build h st
  rw [← keccakProcess_full build h, Lanes.get_map, hlast, hlast, rndChi_get_eight _ _ _ hk]

theorem keccakProcess_one (build : RotlBuild) {isolate : Word} (h : isolate ≠ 0)
    (st : Lanes Uint2) :
    (keccakProcess build isolate 1 st).l0.asUlong = (keccakf (st.map Uint2.asUlong)).l0 := by
  obtain ⟨rc, b, hlast⟩ := keccakProcess_last build h st
  rw [← keccakProcess_full build h, Lanes.l0_map, hlast, hlast, rndChi_get_one]

end Energiminer.OpenCL
