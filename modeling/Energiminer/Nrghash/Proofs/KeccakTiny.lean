import Energiminer.Nrghash.KeccakTiny

/-!
# keccak-tiny computes the Keccak rounds

`keccakfRound` is the abstract round over 64-bit words. Only the ρ and π loop needs an
argument: it moves lanes along a cycle through the temporary `t`, and `rhoPiLoop_get` says
what each lane holds at its end as long as no lane is visited twice. For an input shorter
than one block the sponge is a single permutation of the padded block, `padLanes`.
-/

namespace Energiminer.Nrghash
open Misc Misc.Keccak

/-- Lanes as 64-bit words. -/
def word64Algebra : LaneAlgebra Word64 where
  xor := (· ^^^ ·)
  andNot := fun a b => ~~~a &&& b
  rotl := rol

theorem thetaB_eq (a : Lanes Word64) (x : Nat) : thetaB a x = columnParity word64Algebra a x := by
  simp [thetaB, columnParity, word64Algebra]

theorem thetaStep_eq (a : Lanes Word64) : thetaStep a = theta word64Algebra a := by
  simp only [thetaStep, theta, thetaDelta, thetaB_eq]
  rfl

theorem setLane_get (a : Lanes Word64) (i j : Nat) (v : Word64) (hj : j < 25) :
    (setLane a i v).get j = if j = i then v else a.get j := Lanes.get_ofFn _ j hj

/-- The lane a cell ends up with, and the rotation it gets on the way: `prev` is the cell
visited before the head of the list. -/
def cycleSource : List (Nat × Nat) → Nat → Nat → Option (Nat × Nat)
  | [], _, _ => none
  | (p, r) :: rest, prev, j => if j = p then some (prev, r) else cycleSource rest p j

theorem rhoPiLoop_get_notMem (cells : List (Nat × Nat)) (a : Lanes Word64) (t : Word64) (j : Nat)
    (hj : j < 25) (habs : j ∉ cells.map Prod.fst) : (rhoPiLoop cells a t).get j = a.get j := by
  induction cells generalizing a t with
  | nil => rfl
  | cons cell rest ih =>
    obtain ⟨p, r⟩ := cell
    simp only [List.map_cons, List.mem_cons, not_or] at habs
    rw [rhoPiLoop, ih _ _ habs.2, setLane_get _ _ _ _ hj, if_neg habs.1]

/-- Each visited cell receives the lane of the cell visited before it. -/
theorem rhoPiLoop_get (cells : List (Nat × Nat)) (a : Lanes Word64) (prev j s r : Nat)
    (hnodup : (cells.map Prod.fst).Nodup) (hcells : ∀ c ∈ cells, c.1 < 25) (hj : j < 25)
    (hs : cycleSource cells prev j = some (s, r)) :
    (rhoPiLoop cells a (a.get prev)).get j = rol (a.get s) r := by
  -- The temporary always holds an original lane, so the induction carries an arbitrary `t`
  -- and remembers which original lane it is.
  suffices h : ∀ (cells : List (Nat × Nat)) (a b : Lanes Word64) (prev : Nat),
      (cells.map Prod.fst).Nodup → (∀ c ∈ cells, c.1 < 25) →
      (∀ c ∈ cells, b.get c.1 = a.get c.1) → cycleSource cells prev j = some (s, r) →
      (rhoPiLoop cells b (a.get prev)).get j = rol (a.get s) r from
    h cells a a prev hnodup hcells (fun _ _ => rfl) hs
  clear hs hcells hnodup a prev cells
  intro cells
  induction cells with
  | nil => intro a b prev _ _ _ hs; simp [cycleSource] at hs
  | cons cell rest ih =>
    intro a b prev hnodup hcells hagree hs
    obtain ⟨p, r'⟩ := cell
    simp only [List.map_cons, List.nodup_cons] at hnodup
    rw [rhoPiLoop]
    by_cases hjp : j = p
    · rw [cycleSource, if_pos hjp, Option.some.injEq, Prod.mk.injEq] at hs
      rw [rhoPiLoop_get_notMem _ _ _ _ hj (hjp ▸ hnodup.1), setLane_get _ _ _ _ hj, if_pos hjp,
        hs.1, hs.2]
    · rw [cycleSource, if_neg hjp] at hs
      have hp : b.get p = a.get p := hagree (p, r') (by simp)
      rw [hp]
      refine ih a _ p hnodup.2 (fun c hc => hcells c (List.mem_cons_of_mem _ hc)) ?_ hs
      intro c hc
      have hne : c.1 ≠ p := fun e => hnodup.1 (e ▸ List.mem_map_of_mem hc)
      rw [setLane_get _ _ _ _ (hcells c (List.mem_cons_of_mem _ hc)), if_neg hne]
      exact hagree c (List.mem_cons_of_mem _ hc)

/-- The tables `pi` and `rho` describe the lane moves of ρ and π. -/
theorem cycleSource_pi_rho :
    ∀ j < 25, j ≠ 0 →
      cycleSource (pi.zip rho) 1 j = some (rhoPiSource j, rhoPiOffset j) := by
  decide

theorem rhoPiStep_eq (a : Lanes Word64) : rhoPiStep a = rhoPi word64Algebra a := by
  rw [← Lanes.ofFn_get (rhoPiStep a)]
  refine Lanes.ofFn_congr fun j hj => ?_
  split
  · next h0 =>
    subst h0
    exact rhoPiLoop_get_notMem _ _ _ _ hj (by decide)
  · next h0 =>
    exact rhoPiLoop_get _ a 1 j _ _ (by decide) (by decide) hj (cycleSource_pi_rho j hj h0)

theorem chiStep_eq (a : Lanes Word64) : chiStep a = chi word64Algebra a := rfl

theorem keccakfRound_eq (a : Lanes Word64) (rc : Word64) :
    keccakfRound a rc = keccakRound word64Algebra a rc := by
  unfold keccakfRound keccakRound
  rw [thetaStep_eq, rhoPiStep_eq, chiStep_eq]
  rfl

theorem keccakf_eq (a : Lanes Word64) : keccakf a = rounds word64Algebra RC a := by
  unfold keccakf rounds
  congr 1
  funext a rc
  exact keccakfRound_eq a rc

/-- The lanes of a padded block: `m` message words, the delimiter in the next word, and the
final bit in the last of the `r` words of the rate. -/
def padLanes (m r : Nat) (words : Nat → Word64) : Lanes Word64 :=
  .ofFn fun k =>
    if k < m then words k else if k = m then 1
    else if k = r - 1 then 0x8000000000000000 else 0

/-- Word `k` of a byte string. -/
def messageWord (inp : List Byte) (k : Nat) : Word64 := leWord 64 fun j => inp.getD (8 * k + j) 0

/-- A word with the final bit of the padding, the delimiter, both or none. -/
theorem leWord_padding (last first : Prop) [Decidable last] [Decidable first] :
    (leWord 64 fun j =>
      (if last ∧ j = 7 then 0x80 else 0) ^^^ (if first ∧ j = 0 then 0x01 else 0)) =
        (if last then 0x8000000000000000 else 0) ^^^ (if first then 1 else 0) := by
  by_cases hlast : last
  · by_cases hfirst : first
    · simp only [hlast, hfirst, true_and, if_true]
      decide
    · simp only [hlast, hfirst, true_and, false_and, if_true, if_false]
      decide
  · by_cases hfirst : first
    · simp only [hlast, hfirst, true_and, false_and, if_true, if_false]
      decide
    · simp only [hlast, hfirst, false_and, if_false]
      decide

/-- The state before the last permutation, for an input of `m` whole words: the delimiter is in the
word behind the input and the final bit in the last word of the rate. -/
theorem lanes_block (m r : Nat) (inp : List Byte) (hlen : inp.length = 8 * m) (hm : m < r)
    (hr : r < 25) :
    ((((Sponge.ofFn fun _ => 0).xorAt inp.length 0x01).xorAt (8 * r - 1) 0x80).xorin inp
      inp.length).lanes = .ofFn fun k => if k < m then messageWord inp k
        else (if k = r - 1 then 0x8000000000000000 else 0) ^^^ (if k = m then 1 else 0) := by
  unfold Sponge.lanes
  refine Lanes.ofFn_congr fun k hk => ?_
  have hbyte : ∀ j, j < 8 →
      ((((Sponge.ofFn fun _ => 0).xorAt inp.length 0x01).xorAt (8 * r - 1) 0x80).xorin inp
        inp.length).get (8 * k + j) =
      if k < m then inp.getD (8 * k + j) 0
      else (if k = r - 1 ∧ j = 7 then 0x80 else 0) ^^^ (if k = m ∧ j = 0 then 0x01 else 0) := by
    intro j hj
    have hlt : 8 * k + j < 200 := by omega
    have hinput : 8 * k + j < inp.length ↔ k < m := by omega
    have hfirst : 8 * k + j = inp.length ↔ k = m ∧ j = 0 := by omega
    have hlast : 8 * k + j = 8 * r - 1 ↔ k = r - 1 ∧ j = 7 := by omega
    simp only [Sponge.xorin, Sponge.xorAt, Sponge.get_ofFn _ _ hlt, hinput, hfirst, hlast]
    by_cases hk : k < m
    · rw [if_pos hk, if_pos hk, if_neg (by omega), if_neg (by omega)]
      exact BitVec.zero_xor
    · rw [if_neg hk, if_neg hk]
      split <;> split <;> rfl
  rw [leWord_congr 64 fun j hj => hbyte j (by omega)]
  by_cases hk : k < m
  · simp only [if_pos hk, messageWord]
  · simp only [if_neg hk]
    exact leWord_padding (k = r - 1) (k = m)

/-- The state before the last permutation, for an input of `m` whole words that leaves at
least two words of the rate free. -/
theorem lanes_padded (m r : Nat) (inp : List Byte) (hlen : inp.length = 8 * m) (hm : m + 1 < r)
    (hr : r < 25) :
    ((((Sponge.ofFn fun _ => 0).xorAt inp.length 0x01).xorAt (8 * r - 1) 0x80).xorin inp
      inp.length).lanes = padLanes m r (messageWord inp) := by
  rw [lanes_block m r inp hlen (by omega) hr, padLanes]
  refine Lanes.ofFn_congr fun k _ => ?_
  by_cases hk : k < m
  · rw [if_pos hk, if_pos hk]
  · rw [if_neg hk, if_neg hk]
    by_cases hfirst : k = m
    · rw [if_pos hfirst, if_pos hfirst, if_neg (by omega)]
      exact BitVec.zero_xor
    · rw [if_neg hfirst, if_neg hfirst]
      exact BitVec.xor_zero

/-- The lanes of a block with `m` message words and all of the padding in the next word. -/
def filledLanes (m : Nat) (words : Nat → Word64) : Lanes Word64 :=
  .ofFn fun k => if k < m then words k else if k = m then 0x8000000000000001 else 0

/-- The state before the last permutation, for an input that leaves one word of the rate free. -/
theorem lanes_filled (m : Nat) (inp : List Byte) (hlen : inp.length = 8 * m) (hm : m < 24) :
    ((((Sponge.ofFn fun _ => 0).xorAt inp.length 0x01).xorAt (8 * (m + 1) - 1) 0x80).xorin inp
      inp.length).lanes = filledLanes m (messageWord inp) := by
  rw [lanes_block m (m + 1) inp hlen (by omega) (by omega), filledLanes]
  refine Lanes.ofFn_congr fun k _ => ?_
  rw [Nat.add_sub_cancel]
  by_cases hfirst : k = m
  · simp only [if_pos hfirst]
    rfl
  · simp only [if_neg hfirst]
    rfl

/-- A message shorter than the rate is hashed by one permutation of its padded block. -/
theorem sha3_of_lanes (bits outlen r : Nat) (inp : List Byte) {block : Lanes Word64}
    (hrate : 200 - bits / 4 = 8 * r) (hlen : inp.length < 8 * r) (hr : r < 25)
    (hout : outlen ≤ bits / 8) (hsqueeze : outlen < 8 * r)
    (hblock : ((((Sponge.ofFn fun _ => 0).xorAt inp.length 0x01).xorAt (8 * r - 1) 0x80).xorin inp
      inp.length).lanes = block) :
    sha3 bits outlen inp = some ((List.range outlen).map fun i =>
      byteOf ((keccakf block).get (i / 8)) (i % 8)) := by
  have habsorb : Sponge.foldPXorin (8 * r) (Sponge.ofFn fun _ => 0) inp =
      (Sponge.ofFn fun _ => 0, inp) := by
    rw [Sponge.foldPXorin, if_neg (by omega)]
  rw [sha3, if_neg (by omega), hrate, hash, if_neg (by omega), habsorb]
  simp only [Sponge.P, hblock]
  rw [Sponge.foldPSetout, if_neg (by omega), Option.some.injEq]
  refine List.map_congr_left fun i hi => ?_
  rw [Sponge.get_ofFn _ _ (by rw [List.mem_range] at hi; omega)]

/-- A message of `m` whole words that leaves at least two words of the rate free. -/
theorem sha3_single_block (bits outlen m r : Nat) (inp : List Byte) (hrate : 200 - bits / 4 = 8 * r)
    (hlen : inp.length = 8 * m) (hm : m + 1 < r) (hr : r < 25) (hout : outlen ≤ bits / 8)
    (hsqueeze : outlen < 8 * r) :
    sha3 bits outlen inp = some ((List.range outlen).map fun i =>
      byteOf ((keccakf (padLanes m r (messageWord inp))).get (i / 8)) (i % 8)) :=
  sha3_of_lanes bits outlen r inp hrate (by omega) hr hout hsqueeze
    (lanes_padded m r inp hlen hm hr)

end Energiminer.Nrghash
