import Energiminer.Common.Proofs.Hex
import Energiminer.Primitives.Solution
import Mathlib.Data.List.TakeWhile

/-!
# The texts of a solution

Numbers are submitted as hexadecimal digits of a fixed width, hashes as the digits of their bytes
from the last to the first, and a block as the digits of its bytes. Reading the digits gives the
number, the hash, and the bytes, again.
-/

namespace Energiminer.Primitives
open Misc Common

theorem hexValue_digitChar {d : Nat} (h : d < 16) : hexValue d.digitChar = some d := by
  have hall : ∀ d < 16, hexValue (Nat.digitChar d) = some d := by decide
  exact hall d h

theorem hexNumber_append (digits : List Char) (c : Char) :
    hexNumber (digits ++ [c]) = 16 * hexNumber digits + (hexValue c).getD 0 := by
  rw [hexNumber, List.foldl_append]
  rfl

theorem hexNumber_toDigits (n : Nat) : hexNumber (Nat.toDigits 16 n) = n := by
  induction n using Nat.strong_induction_on with
  | h n ih =>
    by_cases hlt : n < 16
    · rw [Nat.toDigits_of_lt_base hlt, ← List.nil_append [n.digitChar], hexNumber_append,
        hexValue_digitChar hlt]
      exact Nat.zero_add n
    · rw [Nat.toDigits_of_base_le (by decide) (Nat.not_lt.mp hlt), hexNumber_append,
        ih (n / 16) (by omega), hexValue_digitChar (Nat.mod_lt _ (by decide)), Option.getD_some]
      omega

theorem hexNumber_replicate_append (k : Nat) (digits : List Char) :
    hexNumber (List.replicate k '0' ++ digits) = hexNumber digits := by
  induction k with
  | zero => rfl
  | succ k ih =>
    rw [List.replicate_succ, List.cons_append]
    exact ih

theorem hexNumber_hexPadded (width n : Nat) : hexNumber (hexPadded width n).toList = n := by
  rw [hexPadded, String.toList_ofList, hexNumber_replicate_append, hexNumber_toDigits]

theorem digitChar_eq_hexDigit {d : Nat} (h : d < 16) : d.digitChar = hexDigit d := by
  have hall : ∀ d < 16, Nat.digitChar d = hexDigit d := by decide
  exact hall d h

theorem hexPadded_two (b : Byte) : (hexPadded 2 b.toNat).toList = hexByte b := by
  have hlt : b.toNat < 256 := b.isLt
  rw [hexPadded, String.toList_ofList, hexByte]
  by_cases hsmall : b.toNat < 16
  · rw [Nat.toDigits_of_lt_base hsmall, digitChar_eq_hexDigit hsmall, Nat.div_eq_of_lt hsmall,
      Nat.mod_eq_of_lt hsmall]
    rfl
  · rw [Nat.toDigits_of_base_le (by decide) (Nat.not_lt.mp hsmall),
      Nat.toDigits_of_lt_base (by omega), digitChar_eq_hexDigit (by omega),
      digitChar_eq_hexDigit (Nat.mod_lt _ (by decide))]
    rfl

theorem parseHexFrom_hexByte (b : Byte) (text : List Char) :
    parseHexFrom none (hexByte b ++ text) = b :: parseHexFrom none text := by
  have hlt : b.toNat < 256 := b.isLt
  have hbyte : BitVec.ofNat 8 (16 * (b.toNat / 16) + b.toNat % 16) = b := by
    rw [Nat.div_add_mod, BitVec.ofNat_toNat, BitVec.setWidth_eq]
  rw [hexByte, List.cons_append, List.cons_append, List.nil_append,
    parseHexFrom_cons_cons (hexValue_hexDigit (by omega))
      (hexValue_hexDigit (Nat.mod_lt _ (by decide))), hbyte]

theorem strToHex_eq_hexStr (bytes : List Byte) : strToHex bytes = hexStr bytes := by
  rw [← String.toList_inj, hexStr, String.toList_ofList]
  induction bytes with
  | nil => rfl
  | cons b bytes ih =>
    rw [strToHex, List.map_cons, String.join_cons, String.toList_append, hexPadded_two,
      List.flatMap_cons, ← ih, strToHex]

theorem parseHex_hexStr (bytes : List Byte) : parseHex (hexStr bytes) = bytes := by
  rw [parseHex, hexStr, String.toList_ofList]
  induction bytes with
  | nil => rfl
  | cons b bytes ih => rw [List.flatMap_cons, parseHexFrom_hexByte, ih]

/-! ## Text of digits alone -/

section Digits
variable {text : List Char}

theorem ne_of_isHexDigit {c : Char} (h : isHexDigit c = true) :
    c ≠ 'x' ∧ c ≠ 'X' ∧ c ≠ '-' ∧ c ≠ '+' := by
  refine ⟨?_, ?_, ?_, ?_⟩ <;>
  · rintro rfl
    exact absurd h (by decide)

theorem dropWhile_isSpace_digits (h : ∀ c ∈ text, isHexDigit c = true) :
    text.dropWhile isSpace = text := by
  cases text with
  | nil => rfl
  | cons c text =>
    obtain ⟨n, hn⟩ := exists_hexValue (h c List.mem_cons_self)
    rw [List.dropWhile_cons_of_neg]
    rw [(digitFacts hn).2.2]
    decide

theorem takeWhile_isHexDigit_digits (h : ∀ c ∈ text, isHexDigit c = true) :
    text.takeWhile isHexDigit = text :=
  List.takeWhile_eq_self_iff.mpr h

/-- `strtoul` reads all of the digits. -/
theorem stoulDigits_digits (h : ∀ c ∈ text, isHexDigit c = true) :
    stoulDigits text = (false, text) := by
  have hsign : signOf text = (false, text) := by
    unfold signOf
    split
    next => exact absurd rfl (ne_of_isHexDigit (h _ List.mem_cons_self)).2.2.1
    next => exact absurd rfl (ne_of_isHexDigit (h _ List.mem_cons_self)).2.2.2
    next => rfl
  have hmark : dropHexMark text = text := by
    unfold dropHexMark
    split
    next x d rest =>
      obtain ⟨hx, hX, -⟩ := ne_of_isHexDigit (h x (by simp))
      simp [hx, hX]
    next => rfl
  rw [stoulDigits, dropWhile_isSpace_digits h, hsign]
  dsimp only
  rw [hmark, takeWhile_isHexDigit_digits h]

theorem stoul16_digits (h : ∀ c ∈ text, isHexDigit c = true) (hne : text ≠ [])
    (hle : hexNumber text ≤ ULONG_MAX) : stoul16 text = .ok (BitVec.ofNat 64 (hexNumber text)) := by
  rw [stoul16, stoulDigits_digits h]
  dsimp only
  rw [if_neg hne, if_neg (Nat.not_lt.mpr hle)]
  rfl

theorem hexDigits_digits (h : ∀ c ∈ text, isHexDigit c = true) : Uint256.hexDigits text = text := by
  rw [Uint256.hexDigits, dropWhile_isSpace_digits h]
  split
  next x rest =>
    obtain ⟨hx, hX, -⟩ := ne_of_isHexDigit (h x (by simp))
    rw [if_neg (by simp [hx, hX]), takeWhile_isHexDigit_digits h]
  next => exact takeWhile_isHexDigit_digits h

end Digits

theorem isHexDigit_digitChar {d : Nat} (h : d < 16) : isHexDigit d.digitChar = true := by
  rw [isHexDigit, hexValue_digitChar h]
  rfl

theorem isHexDigit_toDigits (n : Nat) : ∀ c ∈ Nat.toDigits 16 n, isHexDigit c = true := by
  induction n using Nat.strong_induction_on with
  | h n ih =>
    by_cases hlt : n < 16
    · rw [Nat.toDigits_of_lt_base hlt]
      intro c hc
      rw [List.mem_singleton.mp hc]
      exact isHexDigit_digitChar hlt
    · rw [Nat.toDigits_of_base_le (by decide) (Nat.not_lt.mp hlt)]
      intro c hc
      rcases List.mem_append.mp hc with hc | hc
      · exact ih (n / 16) (by omega) c hc
      · rw [List.mem_singleton.mp hc]
        exact isHexDigit_digitChar (Nat.mod_lt _ (by decide))

theorem isHexDigit_hexPadded (width n : Nat) :
    ∀ c ∈ (hexPadded width n).toList, isHexDigit c = true := by
  intro c hc
  rw [hexPadded, String.toList_ofList] at hc
  rcases List.mem_append.mp hc with hc | hc
  · rw [List.eq_of_mem_replicate hc]
    decide
  · exact isHexDigit_toDigits n c hc

/-- A number of 32 bits is read from its digits by `std::stoul`. -/
theorem stoul16_hexPadded (width : Nat) (n : BitVec 32) :
    stoul16 (hexPadded width n.toNat).toList = .ok (n.setWidth 64) := by
  have hlt := n.isLt
  have hnumber := hexNumber_hexPadded width n.toNat
  rw [stoul16_digits (isHexDigit_hexPadded width n.toNat), hnumber]
  · rw [BitVec.ofNat_toNat]
  · intro hnil
    have hdigits : (hexPadded width n.toNat).toList.length ≠ 0 := by
      rw [hexPadded, String.toList_ofList, List.length_append]
      have := Nat.length_toDigits_pos (b := 16) (n := n.toNat)
      omega
    exact hdigits (by rw [hnil]; rfl)
  · rw [hnumber, ULONG_MAX]
    omega

namespace Uint256

theorem getElem?_pairs {α β : Type} (f g : α → β) (l : List α) (i : Nat) :
    (l.flatMap fun a => [f a, g a])[2 * i]? = l[i]?.map f ∧
      (l.flatMap fun a => [f a, g a])[2 * i + 1]? = l[i]?.map g := by
  induction l generalizing i with
  | nil => exact ⟨rfl, rfl⟩
  | cons a l ih =>
    cases i with
    | zero => exact ⟨rfl, rfl⟩
    | succ i => exact ih i

theorem isHexDigit_getHex (u : Uint256) : ∀ c ∈ u.getHex, isHexDigit c = true := by
  intro c hc
  obtain ⟨b, -, hc⟩ := List.mem_flatMap.mp hc
  have hlt : b.toNat < 256 := b.isLt
  rcases List.mem_pair.mp hc with rfl | rfl
  · rw [isHexDigit, hexValue_hexDigit (by omega)]
    rfl
  · rw [isHexDigit, hexValue_hexDigit (Nat.mod_lt _ (by decide))]
    rfl

/-- The digits of a hash, from the first byte on. -/
theorem reverse_getHex (u : Uint256) : u.getHex.reverse =
    u.data.toList.flatMap fun b => [hexDigit (b.toNat % 16), hexDigit (b.toNat / 16)] := by
  rw [getHex, List.reverse_flatMap, List.reverse_reverse]
  rfl

theorem setHex_getHex (u : Uint256) : setHex u.getHex = u := by
  obtain ⟨data⟩ := u
  rw [setHex, hexDigits_digits (isHexDigit_getHex _), reverse_getHex, List.map_flatMap, mk.injEq]
  refine Vector.ext fun i hi => ?_
  have hlt : data[i].toNat < 256 := data[i].isLt
  obtain ⟨hlow, hhigh⟩ := getElem?_pairs
    (fun b : Byte => (hexValue (hexDigit (b.toNat % 16))).getD 0)
    (fun b : Byte => (hexValue (hexDigit (b.toNat / 16))).getD 0) data.toList i
  rw [List.getElem?_eq_getElem (l := data.toList) (i := i) (by simpa using hi)] at hlow hhigh
  rw [Vector.getElem_ofFn]
  simp only [List.map_cons, List.map_nil, List.getD_eq_getElem?_getD, hlow, hhigh, Option.map_some,
    Option.getD_some, Vector.getElem_toList]
  rw [hexValue_hexDigit (Nat.mod_lt _ (by decide)), hexValue_hexDigit (by omega), Option.getD_some,
    Option.getD_some, Nat.mod_add_div, BitVec.ofNat_toNat, BitVec.setWidth_eq]

end Uint256

end Energiminer.Primitives
