import Mathlib.Data.List.DropRight
import Mathlib.Data.Nat.Digits.Lemmas
import Mathlib.Tactic.Ring

/-!
# Change of base

Numbers as digits in a base, least significant first, in a buffer of fixed size. To read a number
that is given in another base, one digit after the other, the buffer is multiplied by that base and
the digit is added; the digits beyond those in use are zero and are left alone.
-/

namespace Energiminer.Misc.Radix

/-- Multiply the digits in base `b` from position `i` on by `m` and add `carry`, up to the end of
the `length` digits in use and of the carry. Also the position that was reached and the carry that
is left. -/
def mulAdd (b m length : Nat) : (i carry : Nat) → List Nat → List Nat × Nat × Nat
  | i, carry, [] => ([], i, carry)
  | i, carry, d :: ds =>
    if carry ≠ 0 ∨ i < length then
      let r := mulAdd b m length (i + 1) ((carry + m * d) / b) ds
      ((carry + m * d) % b :: r.1, r.2)
    else (d :: ds, i, carry)

/-- A buffer of digits in base `b`, of which `length` are in use. -/
structure Holds (b length : Nat) (ds : List Nat) : Prop where
  digits : ∀ d ∈ ds, d < b
  fits : length ≤ ds.length
  rest : ∀ d ∈ ds.drop length, d = 0

variable {b m length i carry : Nat} {ds : List Nat}

theorem ofDigits_eq_zero (h : ∀ d ∈ ds, d = 0) : Nat.ofDigits b ds = 0 := by
  induction ds with
  | nil => rfl
  | cons d ds ih =>
    rw [Nat.ofDigits_cons, h d List.mem_cons_self, ih fun x hx => h x (List.mem_cons_of_mem _ hx)]
    simp

theorem length_mulAdd (b m length i carry : Nat) (ds : List Nat) :
    (mulAdd b m length i carry ds).1.length = ds.length := by
  induction ds generalizing i carry with
  | nil => rfl
  | cons d ds ih =>
    rw [mulAdd]
    split
    · simp [ih]
    · rfl

theorem mulAdd_digits (hb : 0 < b) (h : ∀ d ∈ ds, d < b) (i carry : Nat) :
    ∀ d ∈ (mulAdd b m length i carry ds).1, d < b := by
  induction ds generalizing i carry with
  | nil => exact h
  | cons d ds ih =>
    rw [mulAdd]
    split
    · intro x hx
      rcases List.mem_cons.mp hx with rfl | hx
      · exact Nat.mod_lt _ hb
      · exact ih (fun y hy => h y (List.mem_cons_of_mem _ hy)) _ _ x hx
    · exact h

/-- The digits after the first are as the rest of the loop leaves them. -/
theorem drop_rest {d : Nat} (h : ∀ x ∈ (d :: ds).drop (length - i), x = 0) :
    ∀ x ∈ ds.drop (length - (i + 1)), x = 0 := by
  intro x hx
  rcases Nat.lt_or_ge i length with hlt | hge
  · rw [show length - i = length - (i + 1) + 1 by omega, List.drop_succ_cons] at h
    exact h x hx
  · rw [Nat.sub_eq_zero_of_le hge] at h
    exact h x (List.mem_cons_of_mem _ (List.mem_of_mem_drop hx))

/-- The number is multiplied and the carry is added, if what lies beyond the digits in use is
zero. -/
theorem mulAdd_value (h : ∀ d ∈ ds.drop (length - i), d = 0) :
    Nat.ofDigits b (mulAdd b m length i carry ds).1 +
      b ^ ds.length * (mulAdd b m length i carry ds).2.2 = m * Nat.ofDigits b ds + carry := by
  induction ds generalizing i carry with
  | nil => simp [mulAdd]
  | cons d ds ih =>
    rw [mulAdd]
    split
    next =>
      have hvalue := @ih (i + 1) ((carry + m * d) / b) (drop_rest h)
      have hdiv := Nat.mod_add_div (carry + m * d) b
      dsimp only
      generalize mulAdd b m length (i + 1) ((carry + m * d) / b) ds = r at hvalue ⊢
      rw [Nat.ofDigits_cons, Nat.ofDigits_cons, List.length_cons, Nat.pow_succ]
      calc (carry + m * d) % b + b * Nat.ofDigits b r.1 + b ^ ds.length * b * r.2.2
          = (carry + m * d) % b + b * (Nat.ofDigits b r.1 + b ^ ds.length * r.2.2) := by ring
        _ = (carry + m * d) % b + b * ((carry + m * d) / b) + b * (m * Nat.ofDigits b ds) := by
          rw [hvalue]
          ring
        _ = m * (d + b * Nat.ofDigits b ds) + carry := by
          rw [hdiv]
          ring
    next hstop =>
      have hlength : length - i = 0 := by omega
      have hzero : Nat.ofDigits b (d :: ds) = 0 := ofDigits_eq_zero (by rwa [hlength] at h)
      rw [hzero, show carry = 0 by omega]
      rfl

/-- The digits beyond the position that was reached are zero. -/
theorem mulAdd_rest (h : ∀ d ∈ ds.drop (length - i), d = 0) :
    i ≤ (mulAdd b m length i carry ds).2.1 ∧
      (mulAdd b m length i carry ds).2.1 ≤ i + ds.length ∧
      ∀ d ∈ (mulAdd b m length i carry ds).1.drop ((mulAdd b m length i carry ds).2.1 - i),
        d = 0 := by
  induction ds generalizing i carry with
  | nil => exact ⟨Nat.le_refl i, Nat.le_refl i, fun d hd => by simp [mulAdd] at hd⟩
  | cons d ds ih =>
    rw [mulAdd]
    split
    next =>
      obtain ⟨hle, hfits, hrest⟩ := @ih (i + 1) ((carry + m * d) / b) (drop_rest h)
      dsimp only
      generalize mulAdd b m length (i + 1) ((carry + m * d) / b) ds = r at hle hfits hrest ⊢
      refine ⟨by omega, by rw [List.length_cons]; omega, fun x hx => ?_⟩
      rw [show r.2.1 - i = r.2.1 - (i + 1) + 1 by omega, List.drop_succ_cons] at hx
      exact hrest x hx
    next hstop =>
      have hlength : length - i = 0 := by omega
      rw [hlength] at h
      refine ⟨Nat.le_refl i, Nat.le_add_right i _, ?_⟩
      rw [Nat.sub_self]
      exact h

/-- If the result fits into the buffer, nothing is left to carry, and the buffer holds it. -/
theorem Holds.mulAdd (h : Holds b length ds) (hb : 0 < b)
    (hfits : m * Nat.ofDigits b ds + carry < b ^ ds.length) :
    (mulAdd b m length 0 carry ds).2.2 = 0 ∧
      Holds b (mulAdd b m length 0 carry ds).2.1 (mulAdd b m length 0 carry ds).1 ∧
      Nat.ofDigits b (mulAdd b m length 0 carry ds).1 = m * Nat.ofDigits b ds + carry := by
  have hzero : ∀ d ∈ ds.drop (length - 0), d = 0 := h.rest
  have hvalue : Nat.ofDigits b (Radix.mulAdd b m length 0 carry ds).1 +
      b ^ ds.length * (Radix.mulAdd b m length 0 carry ds).2.2 = m * Nat.ofDigits b ds + carry :=
    mulAdd_value hzero
  have hdigits := @mulAdd_digits b m length ds hb h.digits 0 carry
  have hlength := length_mulAdd b m length 0 carry ds
  obtain ⟨-, hle, hrest⟩ : _ ≤ (Radix.mulAdd b m length 0 carry ds).2.1 ∧ _ ∧ _ := mulAdd_rest hzero
  generalize Radix.mulAdd b m length 0 carry ds = r at hvalue hdigits hlength hle hrest ⊢
  have hcarry : r.2.2 = 0 := by
    by_contra hne
    have hpos := Nat.le_mul_of_pos_right (b ^ ds.length) (Nat.pos_of_ne_zero hne)
    omega
  rw [hcarry, Nat.mul_zero, Nat.add_zero] at hvalue
  rw [Nat.zero_add] at hle
  exact ⟨hcarry, ⟨hdigits, hlength ▸ hle, hrest⟩, hvalue⟩

/-- If it does not fit, something is left to carry. -/
theorem Holds.carry_ne_zero (h : Holds b length ds) (hb : 1 < b)
    (hlarge : b ^ ds.length ≤ m * Nat.ofDigits b ds + carry) :
    (Radix.mulAdd b m length 0 carry ds).2.2 ≠ 0 := by
  intro hzero
  have hvalue : Nat.ofDigits b (Radix.mulAdd b m length 0 carry ds).1 +
      b ^ ds.length * (Radix.mulAdd b m length 0 carry ds).2.2 = m * Nat.ofDigits b ds + carry :=
    mulAdd_value h.rest
  have hlt := Nat.ofDigits_lt_base_pow_length hb
    (@mulAdd_digits b m length ds (by omega) h.digits 0 carry)
  rw [hzero, Nat.mul_zero, Nat.add_zero] at hvalue
  rw [length_mulAdd] at hlt
  omega

/-- The digits in use, without leading zeros, are those of the number. -/
theorem Holds.digits_eq (h : Holds b length ds) (hb : 1 < b) :
    ((ds.take length).reverse.dropWhile (· = 0)) = (Nat.digits b (Nat.ofDigits b ds)).reverse := by
  have hused : Nat.ofDigits b ds = Nat.ofDigits b (ds.take length) := by
    conv_lhs => rw [← List.take_append_drop length ds]
    rw [Nat.ofDigits_append, ofDigits_eq_zero h.rest, Nat.mul_zero, Nat.add_zero]
  have hstripped : Nat.ofDigits b (ds.take length) =
      Nat.ofDigits b ((ds.take length).rdropWhile (· = 0)) := by
    have hsplit : (ds.take length).rdropWhile (· = 0) ++ (ds.take length).rtakeWhile (· = 0) =
        ds.take length := List.rdropWhile_append_rtakeWhile
    have hzero : Nat.ofDigits b ((ds.take length).rtakeWhile (· = 0)) = 0 :=
      ofDigits_eq_zero fun _ hd => by simpa using List.mem_rtakeWhile_imp hd
    conv_lhs => rw [← hsplit]
    rw [Nat.ofDigits_append, hzero, Nat.mul_zero, Nat.add_zero]
  have hdigits : Nat.digits b (Nat.ofDigits b ((ds.take length).rdropWhile (· = 0))) =
      (ds.take length).rdropWhile (· = 0) := by
    refine Nat.digits_ofDigits b hb _ (fun d hd => ?_) fun hne hlast => ?_
    · exact h.digits d (List.mem_of_mem_take ((List.rdropWhile_prefix _ _).subset hd))
    · exact List.rdropWhile_last_not _ _ hne (decide_eq_true hlast)
  rw [hused, hstripped, hdigits, List.rdropWhile, List.reverse_reverse]

theorem holds_replicate (b n : Nat) (hb : 0 < b) : Holds b 0 (List.replicate n 0) where
  digits d hd := by
    rw [List.eq_of_mem_replicate hd]
    exact hb
  fits := Nat.zero_le _
  rest d hd := List.eq_of_mem_replicate (List.mem_of_mem_drop hd)

/-! ## Numerals with leading zeros -/

/-- The number that digits are, most significant first. -/
def value (b : Nat) (ds : List Nat) : Nat := Nat.ofDigits b ds.reverse

/-- How many zeros the digits begin with. -/
def zeros (ds : List Nat) : Nat := (ds.takeWhile (· = 0)).length

/-- `z` zeros and the digits of `n`, most significant first. -/
def numeral (b z n : Nat) : List Nat := List.replicate z 0 ++ (Nat.digits b n).reverse

theorem value_cons (m x : Nat) (xs : List Nat) :
    value m (x :: xs) = m ^ xs.length * x + value m xs := by
  rw [value, List.reverse_cons, Nat.ofDigits_append, Nat.ofDigits_singleton, List.length_reverse,
    value]
  ring

theorem value_lt (hm : 1 < m) {xs : List Nat} (h : ∀ x ∈ xs, x < m) :
    value m xs < m ^ xs.length := by
  have hlt := Nat.ofDigits_lt_base_pow_length hm fun x hx => h x (List.mem_reverse.mp hx)
  rw [List.length_reverse] at hlt
  exact hlt

theorem value_dropWhile (m : Nat) (xs : List Nat) : value m (xs.dropWhile (· = 0)) = value m xs := by
  induction xs with
  | nil => rfl
  | cons x xs ih =>
    rw [List.dropWhile_cons]
    split
    next h => rw [ih, value_cons, of_decide_eq_true h, Nat.mul_zero, Nat.zero_add]
    next => rfl

theorem numeral_lt (hb : 1 < b) (z n : Nat) : ∀ d ∈ numeral b z n, d < b := by
  intro d hd
  rcases List.mem_append.mp hd with hd | hd
  · rw [List.eq_of_mem_replicate hd]
    omega
  · exact Nat.digits_lt_base hb (List.mem_reverse.mp hd)

theorem value_numeral (b z n : Nat) : value b (numeral b z n) = n := by
  rw [value, numeral, List.reverse_append, List.reverse_reverse, Nat.ofDigits_append,
    Nat.ofDigits_digits, List.reverse_replicate,
    ofDigits_eq_zero fun d hd => List.eq_of_mem_replicate hd, Nat.mul_zero, Nat.add_zero]

theorem zeros_replicate_append (z : Nat) (ds : List Nat) :
    zeros (List.replicate z 0 ++ ds) = z + zeros ds := by
  induction z with
  | zero => simp
  | succ z ih =>
    rw [zeros] at ih
    rw [zeros, List.replicate_succ, List.cons_append, List.takeWhile_cons_of_pos (by simp),
      List.length_cons, ih]
    omega

theorem zeros_numeral (b z n : Nat) : zeros (numeral b z n) = z := by
  have hhead : zeros (Nat.digits b n).reverse = 0 := by
    rw [zeros, List.length_eq_zero_iff]
    rcases hds : (Nat.digits b n).reverse with _ | ⟨d, ds⟩
    · rfl
    · -- the first digit is the last one of `digits`, which is not zero
      have hne : Nat.digits b n ≠ [] := by
        intro h
        rw [h] at hds
        cases hds
      have hlast : (Nat.digits b n).getLast hne = d := by
        rw [← List.head_reverse (by simpa using hne)]
        simp only [hds, List.head_cons]
      have hd : d ≠ 0 := by
        rw [← hlast]
        exact Nat.getLast_digit_ne_zero b fun h => hne (by rw [h, Nat.digits_zero])
      exact List.takeWhile_cons_of_neg (by simpa using hd)
  rw [numeral, zeros_replicate_append, hhead, Nat.add_zero]

/-- Digits are the numeral of their number behind as many zeros. -/
theorem numeral_value (hb : 1 < b) (h : ∀ d ∈ ds, d < b) :
    numeral b (zeros ds) (value b ds) = ds := by
  have hsplit : List.replicate (zeros ds) 0 ++ ds.dropWhile (· = 0) = ds := by
    conv_rhs => rw [← List.takeWhile_append_dropWhile (p := (· = 0)) (l := ds)]
    have hall : ∀ d ∈ ds.takeWhile (· = 0), d = 0 := fun d hd => by
      simpa using List.mem_takeWhile_imp hd
    rw [zeros, ← List.eq_replicate_of_mem hall]
  have hholds : Holds b ds.length ds.reverse :=
    ⟨fun d hd => h d (List.mem_reverse.mp hd), List.length_reverse.ge,
      fun d hd => by rw [List.drop_of_length_le List.length_reverse.le] at hd; cases hd⟩
  have hdigits := hholds.digits_eq hb
  rw [List.take_of_length_le List.length_reverse.le, List.reverse_reverse] at hdigits
  rw [numeral, value, ← hdigits, hsplit]

/-- The numeral in base `m` of what is given in base `b`, with as many leading zeros. -/
def convert (b m : Nat) (ds : List Nat) : List Nat := numeral m (zeros ds) (value b ds)

theorem convert_lt (hm : 1 < m) (b : Nat) (ds : List Nat) : ∀ d ∈ convert b m ds, d < m :=
  numeral_lt hm _ _

/-- A change of base is undone by the opposite one. -/
theorem convert_convert (hb : 1 < b) (h : ∀ d ∈ ds, d < b) (m : Nat) :
    convert m b (convert b m ds) = ds := by
  rw [convert, convert, zeros_numeral, value_numeral, numeral_value hb h]

/-! ## Reading a numeral into the buffer -/

/-- Read digits in base `m`, most significant first; nothing if something is left to carry. -/
def load (b m : Nat) : (ds : List Nat) → (length : Nat) → List Nat → Option (List Nat × Nat)
  | ds, length, [] => some (ds, length)
  | ds, length, x :: xs =>
    let r := mulAdd b m length 0 x ds
    if r.2.2 = 0 then load b m r.1 r.2.1 xs else none

theorem horner (m v x : Nat) (xs : List Nat) :
    m ^ (x :: xs).length * v + value m (x :: xs) = m ^ xs.length * (m * v + x) + value m xs := by
  rw [value_cons, List.length_cons, Nat.pow_succ]
  ring

theorem Holds.load {xs : List Nat} (h : Holds b length ds) (hb : 0 < b) (hm : 0 < m)
    (hfits : m ^ xs.length * Nat.ofDigits b ds + value m xs < b ^ ds.length) :
    ∃ ds' length', load b m ds length xs = some (ds', length') ∧ Holds b length' ds' ∧
      Nat.ofDigits b ds' = m ^ xs.length * Nat.ofDigits b ds + value m xs := by
  induction xs generalizing ds length with
  | nil => exact ⟨ds, length, rfl, h, by simp [value]⟩
  | cons x xs ih =>
    rw [horner] at hfits ⊢
    have hstep : m * Nat.ofDigits b ds + x < b ^ ds.length := by
      have hpos : 0 < m ^ xs.length := Nat.pow_pos hm
      have hle := Nat.le_mul_of_pos_left (m * Nat.ofDigits b ds + x) hpos
      omega
    obtain ⟨hcarry, hholds, hvalue⟩ := h.mulAdd hb hstep
    rw [Radix.load, if_pos hcarry, ← hvalue]
    refine ih hholds ?_
    rw [hvalue, length_mulAdd]
    exact hfits

theorem Holds.load_eq_none {xs : List Nat} (h : Holds b length ds) (hb : 1 < b)
    (hlarge : b ^ ds.length ≤ m ^ xs.length * Nat.ofDigits b ds + value m xs) :
    Radix.load b m ds length xs = none := by
  induction xs generalizing ds length with
  | nil =>
    have hlt := Nat.ofDigits_lt_base_pow_length hb h.digits
    simp [value] at hlarge
    omega
  | cons x xs ih =>
    rw [horner] at hlarge
    rw [Radix.load]
    by_cases hstep : m * Nat.ofDigits b ds + x < b ^ ds.length
    · obtain ⟨hcarry, hholds, hvalue⟩ := h.mulAdd (by omega) hstep
      rw [if_pos hcarry]
      refine ih hholds ?_
      rw [hvalue, length_mulAdd]
      exact hlarge
    · exact if_neg (h.carry_ne_zero hb (Nat.le_of_not_lt hstep))

/-- A number that fits into an empty buffer is read, and the digits in use are its numeral. -/
theorem load_zeros {n : Nat} {xs : List Nat} (hb : 1 < b) (hm : 0 < m) (hfits : value m xs < b ^ n) :
    ∃ ds length, load b m (List.replicate n 0) 0 xs = some (ds, length) ∧
      (ds.take length).reverse.dropWhile (· = 0) = (Nat.digits b (value m xs)).reverse := by
  have hzero : Nat.ofDigits b (List.replicate n 0) = 0 :=
    ofDigits_eq_zero fun d hd => List.eq_of_mem_replicate hd
  have hroom : m ^ xs.length * Nat.ofDigits b (List.replicate n 0) + value m xs <
      b ^ (List.replicate n 0).length := by
    rw [hzero, List.length_replicate, Nat.mul_zero, Nat.zero_add]
    exact hfits
  obtain ⟨ds, length, hrun, hholds, hvalue⟩ :=
    (holds_replicate b n (by omega)).load (by omega) hm hroom
  rw [hzero, Nat.mul_zero, Nat.zero_add] at hvalue
  exact ⟨ds, length, hrun, hvalue ▸ hholds.digits_eq hb⟩

theorem load_zeros_eq_none {n : Nat} {xs : List Nat} (hb : 1 < b) (hlarge : b ^ n ≤ value m xs) :
    load b m (List.replicate n 0) 0 xs = none := by
  refine (holds_replicate b n (by omega)).load_eq_none hb ?_
  rw [ofDigits_eq_zero fun d hd => List.eq_of_mem_replicate hd, List.length_replicate, Nat.mul_zero,
    Nat.zero_add]
  exact hlarge

/-! ## The size of the buffer -/

/-- A number of `n` digits in base `m` has at most as many digits in base `b` as the logarithms
tell: `p / q` bounds the one of `m` in base `b`. -/
theorem pow_lt_pow_of_ratio {p q : Nat} (hb : 1 < b) (hq : 0 < q) (h : m ^ q ≤ b ^ p) (n : Nat) :
    m ^ n < b ^ (n * p / q + 1) := by
  refine lt_of_pow_lt_pow_left₀ q (Nat.zero_le _) ?_
  calc (m ^ n) ^ q = (m ^ q) ^ n := by rw [← Nat.pow_mul, ← Nat.pow_mul, Nat.mul_comm]
    _ ≤ (b ^ p) ^ n := Nat.pow_le_pow_left h n
    _ = b ^ (n * p) := by rw [← Nat.pow_mul, Nat.mul_comm]
    _ < b ^ ((n * p / q + 1) * q) := by
      refine Nat.pow_lt_pow_right hb ?_
      rw [Nat.add_mul, Nat.one_mul, Nat.mul_comm _ q]
      have hmod := Nat.mod_lt (n * p) hq
      have hdiv := Nat.div_add_mod (n * p) q
      omega
    _ = (b ^ (n * p / q + 1)) ^ q := Nat.pow_mul _ _ _

end Energiminer.Misc.Radix
