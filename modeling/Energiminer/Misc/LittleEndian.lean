import Mathlib.Data.BitVec

/-!
# Bytes and machine words

Little- and big-endian views of fixed-width words. A word is read from a byte function
(`leWord`), and `byteOf` gives the byte of a word at an index; the two are inverse to each
other. Every lemma is proved bit by bit from `getLsbD_leWord` and `getLsbD_byteOf`.
-/

namespace Energiminer.Misc

/-- An octet. -/
abbrev Byte := BitVec 8

/-- The first `n` bytes of `f`, byte `i` standing at bit `8 * i`. -/
def leWordAux (w : Nat) (f : Nat → Byte) : Nat → BitVec w
  | 0 => 0
  | n + 1 => leWordAux w f n ||| ((f n).setWidth w <<< (8 * n))

/-- The `w`-bit word whose byte `i` (from the least significant end) is `f i`. -/
def leWord (w : Nat) (f : Nat → Byte) : BitVec w := leWordAux w f ((w + 7) / 8)

/-- Byte `i` of a word, counted from the least significant end. -/
def byteOf {w : Nat} (x : BitVec w) (i : Nat) : Byte := x.extractLsb' (8 * i) 8

/-- The `n` low bytes of a word, least significant first. -/
def leBytes {w : Nat} (n : Nat) (x : BitVec w) : List Byte := (List.range n).map (byteOf x)

/-- The `8 * n`-bit word of `n` bytes written most significant first. -/
def beWord (n : Nat) (f : Nat → Byte) : BitVec (8 * n) := leWord (8 * n) fun i => f (n - 1 - i)

theorem getLsbD_leWordAux (w : Nat) (f : Nat → Byte) (n z : Nat) (hz : z < w) :
    (leWordAux w f n).getLsbD z = (decide (z < 8 * n) && (f (z / 8)).getLsbD (z % 8)) := by
  induction n with
  | zero => simp [leWordAux]
  | succ n ih =>
    rw [leWordAux, BitVec.getLsbD_or, ih, BitVec.getLsbD_shiftLeft, BitVec.getLsbD_setWidth]
    by_cases hn : z < 8 * n
    · simp [hn, show z < 8 * (n + 1) by omega]
    · by_cases hs : z < 8 * (n + 1)
      · have hdiv : z / 8 = n := by omega
        have hmod : z % 8 = z - 8 * n := by omega
        simp [hn, hs, hdiv, hmod, hz, show z - 8 * n < w by omega]
      · have hout : (f n).getLsbD (z - 8 * n) = false := BitVec.getLsbD_of_ge _ _ (by omega)
        simp [hn, hs, hout]

theorem getLsbD_leWord (w : Nat) (f : Nat → Byte) (z : Nat) (hz : z < w) :
    (leWord w f).getLsbD z = (f (z / 8)).getLsbD (z % 8) := by
  rw [leWord, getLsbD_leWordAux _ _ _ _ hz]
  simp [show z < 8 * ((w + 7) / 8) by omega]

theorem getLsbD_byteOf {w : Nat} (x : BitVec w) (i z : Nat) (hz : z < 8) :
    (byteOf x i).getLsbD z = x.getLsbD (8 * i + z) := by
  simp [byteOf, hz]

theorem leWord_byteOf {w : Nat} (x : BitVec w) : leWord w (byteOf x) = x := by
  apply BitVec.eq_of_getLsbD_eq
  intro z hz
  rw [getLsbD_leWord _ _ _ hz, getLsbD_byteOf _ _ _ (Nat.mod_lt _ (by decide))]
  congr 1
  omega

theorem byteOf_leWord (w : Nat) (f : Nat → Byte) (i : Nat) (hi : 8 * i + 8 ≤ w) :
    byteOf (leWord w f) i = f i := by
  apply BitVec.eq_of_getLsbD_eq
  intro z hz
  rw [getLsbD_byteOf _ _ _ hz, getLsbD_leWord _ _ _ (by omega)]
  congr 2 <;> omega

theorem leWord_congr (w : Nat) {f g : Nat → Byte} (h : ∀ i, 8 * i < w → f i = g i) :
    leWord w f = leWord w g := by
  apply BitVec.eq_of_getLsbD_eq
  intro z hz
  rw [getLsbD_leWord _ _ _ hz, getLsbD_leWord _ _ _ hz, h (z / 8) (by omega)]

/-- A word read from consecutive bytes of a longer one is a slice of it. -/
theorem leWord_byteOf_add {w : Nat} (v : Nat) (x : BitVec w) (o : Nat) :
    leWord v (fun j => byteOf x (o + j)) = x.extractLsb' (8 * o) v := by
  apply BitVec.eq_of_getLsbD_eq
  intro z hz
  rw [getLsbD_leWord _ _ _ hz, getLsbD_byteOf _ _ _ (Nat.mod_lt _ (by decide)),
    BitVec.getLsbD_extractLsb', decide_eq_true hz, Bool.true_and]
  congr 1
  omega

/-- A byte of a slice that starts at a byte boundary. -/
theorem byteOf_extractLsb' {w : Nat} (x : BitVec w) (o v i : Nat) (hi : 8 * i + 8 ≤ v) :
    byteOf (x.extractLsb' (8 * o) v) i = byteOf x (o + i) := by
  apply BitVec.eq_of_getLsbD_eq
  intro z hz
  rw [getLsbD_byteOf _ _ _ hz, getLsbD_byteOf _ _ _ hz, BitVec.getLsbD_extractLsb',
    decide_eq_true (by omega : 8 * i + z < v), Bool.true_and]
  congr 1
  omega

theorem byteOf_append {v w : Nat} (hi : BitVec v) (lo : BitVec (8 * w)) (i : Nat) :
    byteOf (hi ++ lo) i = if i < w then byteOf lo i else byteOf hi (i - w) := by
  apply BitVec.eq_of_getLsbD_eq
  intro z hz
  rw [getLsbD_byteOf _ _ _ hz, BitVec.getLsbD_append]
  split
  next h =>
    have hlt : i < w := by omega
    rw [if_pos hlt, getLsbD_byteOf _ _ _ hz]
  next h =>
    have hge : ¬ i < w := by omega
    rw [if_neg hge, getLsbD_byteOf _ _ _ hz]
    congr 1
    omega

/-- The bytes of a word in the opposite order. -/
def swab (n : Nat) (x : BitVec (8 * n)) : BitVec (8 * n) := beWord n (byteOf x)

@[simp] theorem length_leBytes {w : Nat} (n : Nat) (x : BitVec w) : (leBytes n x).length = n := by
  simp [leBytes]

theorem getD_leBytes {w : Nat} (n : Nat) (x : BitVec w) (i : Nat) (hi : i < n) :
    (leBytes n x).getD i 0 = byteOf x i := by
  simp [leBytes, List.getD, hi]

end Energiminer.Misc
