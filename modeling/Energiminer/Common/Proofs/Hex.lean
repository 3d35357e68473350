import Energiminer.Common.Hex

/-!
# Hexadecimal text and its bytes

A text that `IsHex` accepts is what `HexStr` makes of its bytes, up to the case of its letters.
-/

namespace Energiminer.Common
open Misc

theorem toNat_lt_of_hexValue {c : Char} {n : Nat} (h : hexValue c = some n) : c.toNat < 128 := by
  have hbound : c ≤ '9' ∨ c ≤ 'f' ∨ c ≤ 'F' := by
    simp only [hexValue] at h
    split at h
    next hc => exact .inl hc.2
    next =>
      split at h
      next hc => exact .inr (.inl hc.2)
      next =>
        split at h
        next hc => exact .inr (.inr hc.2)
        next => cases h
  have hle : c.toNat ≤ 57 ∨ c.toNat ≤ 102 ∨ c.toNat ≤ 70 := hbound
  omega

/-- The value of a digit is below 16, stands for the digit in lower case, and is not a blank's. -/
theorem digit_ascii : ∀ k : Fin 128, (hexValue (Char.ofNat k)).all fun n =>
    decide (n < 16 ∧ hexDigit n = (Char.ofNat k).toLower ∧ isSpace (Char.ofNat k) = false) := by
  decide

theorem digitFacts {c : Char} {n : Nat} (h : hexValue c = some n) :
    n < 16 ∧ hexDigit n = c.toLower ∧ isSpace c = false := by
  have hfacts := digit_ascii ⟨c.toNat, toNat_lt_of_hexValue h⟩
  rwa [Char.ofNat_toNat, h, Option.all_some, decide_eq_true_eq] at hfacts

theorem exists_hexValue {c : Char} (h : isHexDigit c) : ∃ n, hexValue c = some n :=
  Option.isSome_iff_exists.mp h

theorem hexByte_of_hexValue {c d : Char} {high low : Nat} (hc : hexValue c = some high)
    (hd : hexValue d = some low) :
    hexByte (BitVec.ofNat 8 (16 * high + low)) = [c.toLower, d.toLower] := by
  obtain ⟨hhigh, hchigh, -⟩ := digitFacts hc
  obtain ⟨hlow, hdlow, -⟩ := digitFacts hd
  have hval : (BitVec.ofNat 8 (16 * high + low)).toNat = 16 * high + low := by
    rw [BitVec.toNat_ofNat, Nat.mod_eq_of_lt (by omega)]
  have hdiv : (16 * high + low) / 16 = high := by omega
  have hmod : (16 * high + low) % 16 = low := by omega
  rw [hexByte, hval, hdiv, hmod, hchigh, hdlow]

theorem parseHexFrom_cons_cons {c d : Char} {high low : Nat} (hc : hexValue c = some high)
    (hd : hexValue d = some low) (text : List Char) :
    parseHexFrom none (c :: d :: text) =
      BitVec.ofNat 8 (16 * high + low) :: parseHexFrom none text := by
  simp only [parseHexFrom, (digitFacts hc).2.2, hc, hd, Bool.false_eq_true, if_false]

theorem flatMap_hexByte_parseHexFrom (n : Nat) (text : List Char) (hlen : text.length = 2 * n)
    (hhex : ∀ c ∈ text, isHexDigit c) :
    (parseHexFrom none text).flatMap hexByte = text.map Char.toLower := by
  induction n generalizing text with
  | zero =>
    obtain rfl := List.length_eq_zero_iff.mp hlen
    rfl
  | succ n ih =>
    match text, hlen with
    | c :: d :: text, hlen =>
      obtain ⟨high, hc⟩ := exists_hexValue (hhex c (by simp))
      obtain ⟨low, hd⟩ := exists_hexValue (hhex d (by simp))
      have hrest := ih text (by simp at hlen; omega) fun x hx => hhex x (by simp [hx])
      rw [parseHexFrom_cons_cons hc hd, List.flatMap_cons, hexByte_of_hexValue hc hd, hrest]
      rfl

/-- Text of hexadecimal digits, up to the case of its letters, is the text of its bytes. -/
theorem hexStr_parseHex {str : String} (h : isHex str) : hexStr (parseHex str) = lowerCase str := by
  simp only [isHex, Bool.and_eq_true, List.all_eq_true, decide_eq_true_eq] at h
  obtain ⟨⟨hhex, -⟩, heven⟩ := h
  rw [hexStr, parseHex, lowerCase,
    flatMap_hexByte_parseHexFrom (str.toList.length / 2) str.toList (by omega) hhex]

end Energiminer.Common
