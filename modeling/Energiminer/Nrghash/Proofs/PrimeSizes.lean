import Energiminer.Misc.Float64Order
import Energiminer.Misc.ForLoop
import Energiminer.Nrghash.Proofs.Sizes

/-!
# Sizes are the largest primes

`is_prime` compares its divisor with a root that was rounded twice. No divisor up to the root is
missed for it, and no divisor that is tested in excess is the number itself, so `is_prime` decides
primality of every number of 64 bits. The search of the size functions then stops at the largest
prime below its start: the start is an odd number of units, and odd numbers are all it passes over.
-/

namespace Energiminer.Nrghash
open Misc

/-! ## The rounded root -/

theorem toDouble_eq_rounded (x : Nat) : toDouble x = rounded x := by
  rw [toDouble]
  split
  next h => rw [rounded_of_lt h]
  next h =>
    rw [rounded, nearest]
    have hmod := Nat.mod_lt x (Nat.two_pow_pos (x.log2 - 52))
    generalize x.log2 - 52 = k at hmod ⊢
    dsimp only
    by_cases hdown : 2 * (x % 2 ^ k) < 2 ^ k ∨ (2 * (x % 2 ^ k) = 2 ^ k ∧ x / 2 ^ k % 2 = 0)
    · rw [if_pos hdown, if_neg (by omega)]
    · rw [if_neg hdown, if_pos (by omega)]

/-- What rounding takes away is too little to bring the root below a number it reaches. -/
theorem rounding_defect {i x : Nat} (hle : i * i ≤ x) (hlt : rounded x < i * i) (hx : x < 2 ^ 64) :
    (i * i - rounded x) * 2 ^ (52 - (rounded x).log2 / 2) < i := by
  have hx53 : 2 ^ 53 ≤ x := by
    by_contra hsmall
    rw [rounded_of_lt (Nat.not_le.mp hsmall)] at hlt
    omega
  have hlog53 : 53 ≤ x.log2 := (Nat.le_log2 (by omega)).mpr hx53
  have hlog64 : x.log2 < 64 := (Nat.log2_lt (by omega)).mpr hx
  have hlow := le_rounded (show x ≠ 0 by omega)
  have hpos := Nat.two_pow_pos x.log2
  -- the rounded number is below `x`, so it has the same logarithm
  have hlog : (rounded x).log2 = x.log2 := by
    rw [Nat.log2_eq_iff (by omega)]
    exact ⟨hlow, lt_of_lt_of_le hlt (le_trans hle Nat.lt_log2_self.le)⟩
  have hdefect : i * i - rounded x ≤ 2 ^ (x.log2 - 53) := by
    have hhalf := two_mul_le_rounded x
    rw [show x.log2 - 52 = x.log2 - 53 + 1 by omega, Nat.pow_succ] at hhalf
    omega
  rw [hlog]
  refine Nat.mul_self_lt_mul_self_iff.mp ?_
  have hexp : x.log2 - 53 + (52 - x.log2 / 2) + (x.log2 - 53 + (52 - x.log2 / 2)) ≤ x.log2 := by
    omega
  calc (i * i - rounded x) * 2 ^ (52 - x.log2 / 2) * ((i * i - rounded x) * 2 ^ (52 - x.log2 / 2))
      ≤ 2 ^ (x.log2 - 53) * 2 ^ (52 - x.log2 / 2) * (2 ^ (x.log2 - 53) * 2 ^ (52 - x.log2 / 2)) :=
        Nat.mul_self_le_mul_self (Nat.mul_le_mul_right _ hdefect)
    _ ≤ 2 ^ x.log2 := by
        rw [← Nat.pow_add, ← Nat.pow_add]
        exact Nat.pow_le_pow_right (by decide) hexp
    _ < i * i := lt_of_le_of_lt hlow hlt

/-- The rounded root is not below a number whose square is not above `x`. -/
theorem le_stdSqrt {i x : Nat} (hi : 0 < i) (hle : i * i ≤ x) (hx : x < 2 ^ 64) :
    i * 2 ^ (stdSqrt x).2 ≤ (stdSqrt x).1 := by
  rw [stdSqrt, toDouble_eq_rounded]
  dsimp only
  apply le_sqrt_nearest
  have hroot : (0 : Nat) < i * 2 ^ (52 - (rounded x).log2 / 2) :=
    Nat.mul_pos hi (Nat.two_pow_pos _)
  have hpow : (4 : Nat) ^ (52 - (rounded x).log2 / 2) =
      2 ^ (52 - (rounded x).log2 / 2) * 2 ^ (52 - (rounded x).log2 / 2) := by
    rw [← Nat.mul_pow]
  have hdefect := rounding_defect hle
  rw [hpow]
  generalize 2 ^ (52 - (rounded x).log2 / 2) = t at *
  have hsquare : i * t * (i * t) = i * i * (t * t) := by ring
  rw [hsquare]
  rcases Nat.lt_or_ge (rounded x) (i * i) with hlt | hge
  · obtain ⟨d, hd⟩ : ∃ d, i * i = rounded x + d := ⟨i * i - rounded x, by omega⟩
    have hdt := hdefect hlt hx
    rw [hd, Nat.add_sub_cancel_left] at hdt
    have hmul := Nat.mul_lt_mul_of_pos_right hdt (show 0 < t from Nat.pos_of_mul_pos_left hroot)
    rw [hd, Nat.add_mul, ← Nat.mul_assoc d]
    omega
  · have hmul := Nat.mul_le_mul_right (t * t) hge
    omega

theorem stdSqrt_lt_of_ge {x : Nat} (hx : 2 ^ 53 ≤ x) : (stdSqrt x).1 < x * 2 ^ (stdSqrt x).2 := by
  rw [stdSqrt, toDouble_eq_rounded]
  dsimp only
  have hdouble : rounded x ≤ 2 * x := by
    have hlog := Nat.log2_self_le (show x ≠ 0 by omega)
    have hround := rounded_le x
    rw [Nat.pow_succ] at hround
    omega
  have hpow : (4 : Nat) ^ (52 - (rounded x).log2 / 2) =
      2 ^ (52 - (rounded x).log2 / 2) * 2 ^ (52 - (rounded x).log2 / 2) := by
    rw [← Nat.mul_pow]
  rw [hpow]
  have hpos := Nat.two_pow_pos (52 - (rounded x).log2 / 2)
  generalize 2 ^ (52 - (rounded x).log2 / 2) = t at *
  have hroot : Nat.sqrt (rounded x * (t * t)) + 1 < x * t := by
    have hlarge : 8 * t ≤ x * t := Nat.mul_le_mul_right _ (by omega)
    obtain ⟨z, hz⟩ : ∃ z, x * t = z + 2 := ⟨x * t - 2, by omega⟩
    have hsq : Nat.sqrt (rounded x * (t * t)) < z + 1 := by
      rw [Nat.sqrt_lt]
      calc rounded x * (t * t) ≤ 2 * x * (t * t) := Nat.mul_le_mul_right _ hdouble
        _ = 2 * t * (z + 2) := by rw [← hz]; ring
        _ < (z + 1) * (z + 1) := by nlinarith
    omega
  split <;> omega

/-! ## `is_prime` -/

theorem isPrimeLoop_of_dvd {x m e p : Nat} (hp : p * 2 ^ e ≤ m) (hdvd : p ∣ x) (fuel i : Nat)
    (hi : i ≤ p) (hfuel : p < i + fuel) : isPrimeLoop x m e fuel i = false := by
  induction fuel generalizing i with
  | zero => omega
  | succ fuel ih =>
    have hroot : i * 2 ^ e ≤ m := le_trans (Nat.mul_le_mul_right _ hi) hp
    rw [isPrimeLoop, if_pos hroot]
    split
    next => rfl
    next hmod =>
      have hne : i ≠ p := by
        rintro rfl
        exact hmod (Nat.mod_eq_zero_of_dvd hdvd)
      exact ih (i + 1) (by omega) (by omega)

/-- The loop decides primality for any bound that the root does not exceed. -/
theorem prime_of_isPrimeLoop {x r : Nat} (hx : 2 ≤ x) (hr : x < (r + 1) * (r + 1))
    (h : isPrimeLoop x r 0 r 2 = true) : x.Prime := by
  by_contra hprime
  have htwo := (Nat.minFac_prime (show x ≠ 1 by omega)).two_le
  have hsq := Nat.minFac_sq_le_self (by omega) hprime
  rw [Nat.pow_two] at hsq
  have hle : x.minFac < r + 1 := Nat.mul_self_lt_mul_self_iff.mp (lt_of_le_of_lt hsq hr)
  rw [isPrimeLoop_of_dvd (by omega) (Nat.minFac_dvd x) r 2 htwo (by omega)] at h
  exact Bool.false_ne_true h

theorem isPrime_of_dvd {x p : Nat} (htwo : 2 ≤ p) (hp : p * 2 ^ (stdSqrt x).2 ≤ (stdSqrt x).1)
    (hdvd : p ∣ x) : isPrime x = false := by
  have hfuel : p ≤ (stdSqrt x).1 / 2 ^ (stdSqrt x).2 :=
    (Nat.le_div_iff_mul_le (Nat.two_pow_pos _)).mpr hp
  exact isPrimeLoop_of_dvd hp hdvd _ 2 htwo (by omega)

/-- `is_prime` is right for every number of 64 bits from three on. -/
theorem isPrime_iff {x : Nat} (hx : 3 ≤ x) (hlt : x < 2 ^ 64) : isPrime x = true ↔ x.Prime := by
  constructor
  · intro h
    by_contra hprime
    have htwo := (Nat.minFac_prime (show x ≠ 1 by omega)).two_le
    have hsq := Nat.minFac_sq_le_self (by omega) hprime
    rw [Nat.pow_two] at hsq
    rw [isPrime_of_dvd htwo (le_stdSqrt (by omega) hsq hlt) (Nat.minFac_dvd x)] at h
    exact Bool.false_ne_true h
  · intro hprime
    refine isPrime_of_prime hprime ?_
    rcases Nat.lt_or_ge x (2 ^ 53) with hsmall | hlarge
    · exact stdSqrt_lt hx hsmall
    · exact stdSqrt_lt_of_ge hlarge

/-- `is_prime` returns `result`: its loop is left, at a divisor or beyond the root. -/
def IsPrimeReturns (x : Nat) (result : Bool) : Prop :=
  ∃ fuel ran i, forLoop (fun i => decide (i * 2 ^ (stdSqrt x).2 ≤ (stdSqrt x).1) && x % i != 0)
      (fun i => some (i + 1)) (fun _ => false) fuel 0 2 = some (ran, i) ∧
    result = !decide (i * 2 ^ (stdSqrt x).2 ≤ (stdSqrt x).1)

/-- The loop passes `n` candidates over and is left at the next one. -/
theorem isPrimeReturns_of_stop {x n : Nat}
    (hpass : ∀ k < n, (k + 2) * 2 ^ (stdSqrt x).2 ≤ (stdSqrt x).1 ∧ ¬ (k + 2) ∣ x)
    (hstop : (n + 2) * 2 ^ (stdSqrt x).2 ≤ (stdSqrt x).1 → (n + 2) ∣ x) :
    IsPrimeReturns x (!decide ((n + 2) * 2 ^ (stdSqrt x).2 ≤ (stdSqrt x).1)) := by
  refine ⟨n + 1, _, n + 2, forLoop_of_count (fun k => k + 2) n (fun _ => rfl) ?_ ?_ ?_ 0, rfl⟩
  · intro k hk
    obtain ⟨hle, hdvd⟩ := hpass k hk
    rw [Nat.dvd_iff_mod_eq_zero] at hdvd
    simp [hle, hdvd]
  · intro k _
    rfl
  · by_cases hle : (n + 2) * 2 ^ (stdSqrt x).2 ≤ (stdSqrt x).1
    · simp [Nat.mod_eq_zero_of_dvd (hstop hle)]
    · simp [hle]

theorem isPrime_returns (x : Nat) : IsPrimeReturns x (isPrime x) := by
  have hroot : ∀ i, i * 2 ^ (stdSqrt x).2 ≤ (stdSqrt x).1 ↔
      i ≤ (stdSqrt x).1 / 2 ^ (stdSqrt x).2 :=
    fun i => (Nat.le_div_iff_mul_le (Nat.two_pow_pos _)).symm
  by_cases hfound : ∃ p, 2 ≤ p ∧ p * 2 ^ (stdSqrt x).2 ≤ (stdSqrt x).1 ∧ p ∣ x
  · -- the loop is left at the least divisor
    obtain ⟨htwo, hp, hdvd⟩ := Nat.find_spec hfound
    have hleast := fun k => Nat.find_min hfound (m := k)
    rw [isPrime_of_dvd htwo hp hdvd]
    generalize Nat.find hfound = p at *
    obtain ⟨n, rfl⟩ : ∃ n, p = n + 2 := ⟨p - 2, by omega⟩
    have hreturns : IsPrimeReturns x _ := isPrimeReturns_of_stop (n := n) ?_ fun _ => hdvd
    · rw [decide_eq_true hp] at hreturns
      exact hreturns
    · intro k hk
      have hle : (k + 2) * 2 ^ (stdSqrt x).2 ≤ (stdSqrt x).1 := by
        rw [hroot] at hp ⊢
        omega
      exact ⟨hle, fun h => hleast (k + 2) (by omega) ⟨by omega, hle, h⟩⟩
  · -- no divisor is found, and the loop is left beyond the root
    have hprime : isPrime x = true :=
      isPrimeLoop_of_not_dvd _ 2 fun j hj hle hdvd => hfound ⟨j, hj, hle, hdvd⟩
    have hbeyond : ¬ ((stdSqrt x).1 / 2 ^ (stdSqrt x).2 - 1 + 2) * 2 ^ (stdSqrt x).2 ≤
        (stdSqrt x).1 := by
      rw [hroot]
      omega
    have hreturns : IsPrimeReturns x _ :=
      isPrimeReturns_of_stop ?_ fun hle => absurd hle hbeyond
    · rw [decide_eq_false hbeyond] at hreturns
      rw [hprime]
      exact hreturns
    · intro k hk
      have hle : (k + 2) * 2 ^ (stdSqrt x).2 ≤ (stdSqrt x).1 := by
        rw [hroot]
        omega
      exact ⟨hle, fun h => hfound ⟨k + 2, by omega, hle, h⟩⟩

/-! ## The search for a prime quotient -/

/-- The search from `size` on leaves its loop with `result`. -/
def SearchReturns (unit size result : Nat) : Prop :=
  ∃ fuel ran, forLoop (fun size => !isPrime (size / unit))
    (fun size => some (u64 (size + 2 ^ 64 - 2 * unit))) (fun _ => false) fuel 0 size =
      some (ran, result)

/-- The fuel of `primeSizeLoop` is enough if it is not below the number of sizes that are passed
over. -/
theorem primeSizeLoop_of_count {unit : Nat} (f : Nat → Nat) (n : Nat)
    (hcond : ∀ k < n, isPrime (f k / unit) = false)
    (hnext : ∀ k < n, u64 (f k + 2 ^ 64 - 2 * unit) = f (k + 1))
    (hlast : isPrime (f n / unit) = true) (fuel : Nat) (hfuel : n ≤ fuel) :
    primeSizeLoop unit fuel (f 0) = f n := by
  induction n generalizing f fuel with
  | zero =>
    cases fuel with
    | zero => rfl
    | succ fuel => rw [primeSizeLoop, if_pos hlast]
  | succ n ih =>
    cases fuel with
    | zero => omega
    | succ fuel =>
      have hzero := hcond 0 (Nat.succ_pos n)
      rw [primeSizeLoop, hzero, hnext 0 (Nat.succ_pos n)]
      exact ih (fun k => f (k + 1)) (fun k hk => hcond (k + 1) (by omega))
        (fun k hk => hnext (k + 1) (by omega)) hlast fuel (by omega)

/-- The primes below a number. -/
def PrimesBelow (n : Nat) : Set Nat := { p | p.Prime ∧ p < n }

/-- The greatest prime below an even number is an odd number `2 * l + 1`. -/
theorem exists_isGreatest_primesBelow {m : Nat} (hm : 2 ≤ m) :
    ∃ l, 1 ≤ l ∧ l < m ∧ IsGreatest (PrimesBelow (2 * m)) (2 * l + 1) := by
  have hthree := Nat.le_findGreatest (show 3 ≤ 2 * m - 1 by omega) Nat.prime_three
  have hprime : (Nat.findGreatest Nat.Prime (2 * m - 1)).Prime :=
    Nat.findGreatest_spec (show 3 ≤ 2 * m - 1 by omega) Nat.prime_three
  have hle := Nat.findGreatest_le (P := Nat.Prime) (2 * m - 1)
  have hmax : ∀ q, q.Prime → q < 2 * m → q ≤ Nat.findGreatest Nat.Prime (2 * m - 1) :=
    fun q hq hlt => Nat.le_findGreatest (by omega) hq
  generalize Nat.findGreatest Nat.Prime (2 * m - 1) = p at *
  obtain ⟨l, rfl⟩ : ∃ l, p = 2 * l + 1 := by
    rcases hprime.eq_two_or_odd with h | h
    · omega
    · exact ⟨p / 2, by omega⟩
  exact ⟨l, by omega, by omega, ⟨hprime, by omega⟩, fun q hq => hmax q hq.1 hq.2⟩

section Odd
variable {unit : Nat} (hunit : 0 < unit)
include hunit

theorem isPrime_odd_iff {j : Nat} (hj : 1 ≤ j) (hlt : unit * (2 * j + 1) < 2 ^ 64) :
    isPrime (unit * (2 * j + 1) / unit) = true ↔ (2 * j + 1).Prime := by
  have hsmall : 2 * j + 1 < 2 ^ 64 := lt_of_le_of_lt (Nat.le_mul_of_pos_left _ hunit) hlt
  rw [Nat.mul_div_cancel_left _ hunit, isPrime_iff (by omega) hsmall]

omit hunit in
/-- The step from an odd multiple of the unit leads to the one below. -/
theorem u64_odd_step {j : Nat} (hlt : unit * (2 * j + 1) < 2 ^ 64) :
    u64 (unit * (2 * (j + 1) + 1) + 2 ^ 64 - 2 * unit) = unit * (2 * j + 1) := by
  have hstep : unit * (2 * (j + 1) + 1) = unit * (2 * j + 1) + 2 * unit := by ring
  have hsub : unit * (2 * j + 1) + 2 * unit + 2 ^ 64 - 2 * unit =
      unit * (2 * j + 1) + 2 ^ 64 := by omega
  rw [hstep, hsub, u64, Nat.add_mod_right, Nat.mod_eq_of_lt hlt]

/-- The search that starts one unit below an even number of units ends at the greatest prime. -/
theorem search_largest_prime {m : Nat} (hm : 2 ≤ m)
    (hlt : unit * (2 * m) < 2 ^ 64) : ∃ p, IsGreatest (PrimesBelow (2 * m)) p ∧
      SearchReturns unit (unit * (2 * m) - unit) (unit * p) ∧
      primeSizeLoop unit ((unit * (2 * m) - unit) / unit) (unit * (2 * m) - unit) = unit * p := by
  obtain ⟨l, hl, hlm, hgreatest⟩ := exists_isGreatest_primesBelow hm
  -- the sizes on the way: the odd multiples of the unit from the start down to the prime
  have hbound : ∀ j, 2 * j + 1 < 2 * m → unit * (2 * j + 1) < 2 ^ 64 := fun j hj =>
    lt_of_le_of_lt (Nat.mul_le_mul_left unit hj.le) hlt
  have hstart : unit * (2 * m) - unit = unit * (2 * (m - 1 - 0) + 1) := by
    obtain ⟨m', rfl⟩ : ∃ m', m = m' + 1 := ⟨m - 1, by omega⟩
    rw [show unit * (2 * (m' + 1)) = unit * (2 * m' + 1) + unit by ring, Nat.add_sub_cancel]
    rfl
  have hend : m - 1 - (m - 1 - l) = l := by omega
  have hcond : ∀ k < m - 1 - l, isPrime (unit * (2 * (m - 1 - k) + 1) / unit) = false := by
    intro k hk
    rw [← Bool.not_eq_true, isPrime_odd_iff hunit (by omega) (hbound (m - 1 - k) (by omega))]
    intro hprime
    have hle : 2 * (m - 1 - k) + 1 ≤ 2 * l + 1 := hgreatest.2 ⟨hprime, by omega⟩
    omega
  have hnext : ∀ k < m - 1 - l, u64 (unit * (2 * (m - 1 - k) + 1) + 2 ^ 64 - 2 * unit) =
      unit * (2 * (m - 1 - (k + 1)) + 1) := by
    intro k hk
    have hstep := u64_odd_step (hbound (m - 1 - (k + 1)) (by omega))
    rw [show m - 1 - (k + 1) + 1 = m - 1 - k by omega] at hstep
    exact hstep
  have hlast : isPrime (unit * (2 * (m - 1 - (m - 1 - l)) + 1) / unit) = true := by
    rw [hend, isPrime_odd_iff hunit hl (hbound l (by omega))]
    exact hgreatest.1.1
  refine ⟨2 * l + 1, hgreatest, ?_, ?_⟩
  · have hloop : forLoop (fun size => !isPrime (size / unit))
        (fun size => some (u64 (size + 2 ^ 64 - 2 * unit))) (fun _ => false) (m - 1 - l + 1) 0
        (unit * (2 * (m - 1 - 0) + 1)) = some (_, unit * (2 * (m - 1 - (m - 1 - l)) + 1)) :=
      forLoop_of_count (fun k => unit * (2 * (m - 1 - k) + 1)) (m - 1 - l) (fun _ => rfl)
        (fun k hk => by rw [hcond k hk]; rfl) (fun k hk => by rw [hnext k hk])
        (by rw [hlast]; rfl) 0
    rw [hend] at hloop
    rw [hstart]
    exact ⟨_, _, hloop⟩
  · have hloop := primeSizeLoop_of_count (fun k => unit * (2 * (m - 1 - k) + 1)) (m - 1 - l)
      hcond hnext hlast (2 * (m - 1 - 0) + 1) (by omega)
    rw [hstart, Nat.mul_div_cancel_left _ hunit, hloop, hend]

end Odd

/-! ## The two sizes -/

/-- A size of an epoch is the prescribed one: its search ends, at `unit` times the greatest prime
below the quotient of the linear size. -/
structure Prescribed (unit linear size : Nat) : Prop where
  returns : SearchReturns unit (linear - unit) size
  largest : ∃ p, IsGreatest (PrimesBelow (linear / unit)) p ∧ size = unit * p

theorem prescribed_primeSize {init growth unit b m : Nat} (hunit : 0 < unit) (hm : 2 ≤ m)
    (hlinear : init + growth * (b / EPOCH_LENGTH) = unit * (2 * m))
    (hlt : init + growth * (b / EPOCH_LENGTH) < 2 ^ 64) :
    Prescribed unit (init + growth * (b / EPOCH_LENGTH)) (primeSize init growth unit b) := by
  have hunit_le : unit ≤ unit * (2 * m) := Nat.le_mul_of_pos_right _ (by omega)
  have hsize : u64 (u64 (init + u64 (growth * (b / EPOCH_LENGTH))) + 2 ^ 64 - unit) =
      unit * (2 * m) - unit := by
    rw [u64, u64, u64, Nat.mod_eq_of_lt (a := growth * (b / EPOCH_LENGTH)) (by omega),
      Nat.mod_eq_of_lt hlt, hlinear]
    rw [hlinear] at hlt
    omega
  rw [hlinear] at hlt
  obtain ⟨p, hgreatest, hreturns, hloop⟩ := search_largest_prime hunit hm hlt
  rw [hlinear, primeSize, hsize, hloop]
  refine ⟨hreturns, p, ?_, rfl⟩
  rw [Nat.mul_div_cancel_left _ hunit]
  exact hgreatest

theorem prescribed_getFullSize {b : Nat}
    (h : DATASET_BYTES_INIT + DATASET_BYTES_GROWTH * (b / EPOCH_LENGTH) < 2 ^ 64) :
    Prescribed 128 (DATASET_BYTES_INIT + DATASET_BYTES_GROWTH * (b / EPOCH_LENGTH))
      (getFullSize b) := by
  refine prescribed_primeSize (m := 2 ^ 22 + 2 ^ 15 * 182 + 2 ^ 15 * (b / EPOCH_LENGTH))
    (by decide) (by omega) ?_ h
  simp only [DATASET_BYTES_INIT, DATASET_BYTES_GROWTH]
  omega

theorem prescribed_getCacheSize {b : Nat}
    (h : CACHE_BYTES_INIT + CACHE_BYTES_GROWTH * (b / EPOCH_LENGTH) < 2 ^ 64) :
    Prescribed 64 (CACHE_BYTES_INIT + CACHE_BYTES_GROWTH * (b / EPOCH_LENGTH))
      (getCacheSize b) := by
  refine prescribed_primeSize (m := 2 ^ 17 + 2 ^ 10 * 182 + 2 ^ 10 * (b / EPOCH_LENGTH))
    (by decide) (by omega) ?_ h
  simp only [CACHE_BYTES_INIT, CACHE_BYTES_GROWTH]
  omega

theorem Prescribed.le {unit linear size q : Nat} (h : Prescribed unit linear size) (hq : q.Prime)
    (hlt : q < linear / unit) : unit * q ≤ size := by
  obtain ⟨p, hp, rfl⟩ := h.largest
  exact Nat.mul_le_mul_left unit (hp.2 ⟨hq, hlt⟩)

/-- All calls of `is_prime` return. Where the linear sizes of a block do not wrap, the searches for
the sizes end with the prescribed ones, which depend on the epoch alone. -/
theorem sizes_prescribed :
    (∀ x, IsPrimeReturns x (isPrime x)) ∧
    (∀ b, DATASET_BYTES_INIT + DATASET_BYTES_GROWTH * (b / EPOCH_LENGTH) < 2 ^ 64 →
      Prescribed 128 (DATASET_BYTES_INIT + DATASET_BYTES_GROWTH * (b / EPOCH_LENGTH))
        (getFullSize b)) ∧
    (∀ b, CACHE_BYTES_INIT + CACHE_BYTES_GROWTH * (b / EPOCH_LENGTH) < 2 ^ 64 →
      Prescribed 64 (CACHE_BYTES_INIT + CACHE_BYTES_GROWTH * (b / EPOCH_LENGTH))
        (getCacheSize b)) ∧
    ∀ b b', b / EPOCH_LENGTH = b' / EPOCH_LENGTH →
      getFullSize b = getFullSize b' ∧ getCacheSize b = getCacheSize b' :=
  ⟨isPrime_returns, fun _ => prescribed_getFullSize, fun _ => prescribed_getCacheSize,
    fun _ _ h => ⟨getFullSize_congr h, getCacheSize_congr h⟩⟩

/-- The sizes of the first epoch. -/
theorem sizes_prescribed_first :
    Prescribed 128 (DATASET_BYTES_INIT + DATASET_BYTES_GROWTH * (0 / EPOCH_LENGTH))
      (getFullSize 0) ∧
    Prescribed 64 (CACHE_BYTES_INIT + CACHE_BYTES_GROWTH * (0 / EPOCH_LENGTH)) (getCacheSize 0) :=
  ⟨sizes_prescribed.2.1 0 (by decide), sizes_prescribed.2.2.1 0 (by decide)⟩

end Energiminer.Nrghash
