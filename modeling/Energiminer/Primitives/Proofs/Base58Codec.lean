import Energiminer.Primitives.Proofs.Base58

/-!
# Base 58 is a bijection

Both directions change the base of a numeral and keep the number of its leading zeros, so each
undoes the other. A buffer of `138 / 100` digits for a byte has room, as one of `733 / 1000` bytes
for a digit has, as long as an `int` holds its size: from 1556147571 bytes on it does not, and
`EncodeBase58` never returns.
-/

namespace Energiminer.Primitives
open Misc Common

/-! ## Texts and bytes as digits -/

/-- The text of digits below 58. -/
def digitsText (ds : List Nat) : List Char := ds.map fun d => pszBase58.getD d '\x00'

/-- Bytes as digits. -/
def byteDigits (v : List Byte) : List Nat := v.map BitVec.toNat

/-- The bytes of digits below 256. -/
def digitsBytes (ds : List Nat) : List Byte := ds.map (BitVec.ofNat 8)

theorem map_map_cancel {α β : Type} {f : α → β} {g : β → α} {xs : List α}
    (h : ∀ x ∈ xs, g (f x) = x) : (xs.map f).map g = xs := by
  rw [List.map_map]
  exact (List.map_congr_left h).trans (List.map_id xs)

theorem byteDigits_lt (v : List Byte) : ∀ d ∈ byteDigits v, d < 256 := by
  intro d hd
  obtain ⟨x, -, rfl⟩ := List.mem_map.mp hd
  exact x.isLt

theorem digitsBytes_byteDigits (v : List Byte) : digitsBytes (byteDigits v) = v := by
  apply map_map_cancel
  intro x _
  rw [BitVec.ofNat_toNat, BitVec.setWidth_eq]

theorem byteDigits_digitsBytes {ds : List Nat} (h : ∀ d ∈ ds, d < 256) :
    byteDigits (digitsBytes ds) = ds := by
  apply map_map_cancel
  intro d hd
  exact Nat.mod_eq_of_lt (h d hd)

section Alphabet
variable {text : List Char} {ds : List Nat}

theorem nodup_pszBase58 : pszBase58.Nodup := by decide

theorem pszBase58_getD {d : Nat} (h : d < 58) :
    pszBase58.getD d '\x00' ∈ pszBase58 ∧ pszBase58.idxOf (pszBase58.getD d '\x00') = d := by
  have hlength : d < pszBase58.length := h
  have hget : pszBase58.getD d '\x00' = pszBase58[d] := by
    rw [List.getD_eq_getElem?_getD, List.getElem?_eq_getElem hlength, Option.getD_some]
  rw [hget]
  exact ⟨List.getElem_mem hlength, nodup_pszBase58.idxOf_getElem d hlength⟩

theorem mem_digitsText (h : ∀ d ∈ ds, d < 58) : ∀ c ∈ digitsText ds, c ∈ pszBase58 := by
  intro c hc
  obtain ⟨d, hd, rfl⟩ := List.mem_map.mp hc
  exact (pszBase58_getD (h d hd)).1

theorem textDigits_digitsText (h : ∀ d ∈ ds, d < 58) : textDigits (digitsText ds) = ds := by
  apply map_map_cancel
  intro d hd
  exact (pszBase58_getD (h d hd)).2

theorem digitsText_textDigits (h : ∀ c ∈ text, c ∈ pszBase58) :
    digitsText (textDigits text) = text := by
  apply map_map_cancel
  intro c hc
  have hlt : pszBase58.idxOf c < pszBase58.length := idxOf_lt (h c hc)
  rw [List.getD_eq_getElem?_getD, List.getElem?_eq_getElem hlt, Option.getD_some,
    List.getElem_idxOf]

/-- The bytes that a text stands for are its numeral in base 256. -/
theorem base58Bytes_eq (text : List Char) :
    base58Bytes text = digitsBytes (Radix.convert 58 256 (textDigits text)) := by
  rw [Radix.convert, Radix.numeral, zeros_textDigits, digitsBytes, List.map_append,
    List.map_replicate, base58Bytes]
  rfl

end Alphabet

/-! ## The encoder -/

/-- The text that stands for a byte string. -/
def base58Chars (v : List Byte) : List Char := digitsText (Radix.convert 256 58 (byteDigits v))

/-- The number that bytes are, most significant first. -/
def byteValue (v : List Byte) : Nat := Radix.value 256 (byteDigits v)

/-- The `int`s of `EncodeBase58` are large enough for a byte string. -/
structure EncodeFits (v : List Byte) : Prop where
  zeroes : (v.takeWhile (· = 0)).length < 2 ^ 31
  size : (v.dropWhile (· = 0)).length * 138 / 100 + 1 < 2 ^ 31

theorem toNat_eq_zero (x : Byte) : decide (x.toNat = 0) = decide (x = 0) :=
  decide_eq_decide.mpr (BitVec.toNat_inj (y := 0#8))

theorem zeros_byteDigits (v : List Byte) :
    Radix.zeros (byteDigits v) = (v.takeWhile (· = 0)).length := by
  rw [Radix.zeros, byteDigits, List.takeWhile_map, List.length_map]
  apply congrArg fun p => (v.takeWhile p).length
  funext x
  exact toNat_eq_zero x

theorem byteValue_dropWhile (v : List Byte) : byteValue (v.dropWhile (· = 0)) = byteValue v := by
  have hdrop : byteDigits (v.dropWhile (· = 0)) = (byteDigits v).dropWhile (· = 0) := by
    rw [byteDigits, byteDigits, List.dropWhile_map]
    apply congrArg fun p => (v.dropWhile p).map BitVec.toNat
    funext x
    exact (toNat_eq_zero x).symm
  rw [byteValue, hdrop, Radix.value_dropWhile, byteValue]

theorem encodeBytes_eq (b58 : List Nat) (length : Nat) (bytes : List Byte) :
    encodeBytes b58 length bytes =
      (Radix.load 58 256 b58 length (byteDigits bytes)).elim (.error .assertion) .ok := by
  induction bytes generalizing b58 length with
  | nil => rfl
  | cons x bytes ih =>
    rw [encodeBytes, byteDigits, List.map_cons, Radix.load]
    split
    next => exact ih _ _
    next => rfl

theorem encode_room (bytes : List Byte) :
    byteValue bytes < 58 ^ (bytes.length * 138 / 100 + 1) := by
  have hratio : 256 ^ 100 ≤ 58 ^ 138 := by decide +kernel
  have hlt := Radix.value_lt (by decide) (byteDigits_lt bytes)
  rw [byteDigits, List.length_map] at hlt
  exact hlt.trans (Radix.pow_lt_pow_of_ratio (by decide) (by decide) hratio _)

/-- `EncodeBase58` gives the text that stands for the bytes, and its assertion holds. -/
theorem encodeBase58_eq {v : List Byte} (h : EncodeFits v) :
    encodeBase58 v = .ok (base58Chars v) := by
  obtain ⟨b58, length, hload, hdigits⟩ :=
    Radix.load_zeros (by decide) (by decide) (encode_room (v.dropWhile (· = 0)))
  rw [← byteValue, byteValue_dropWhile] at hdigits
  rw [encodeBase58]
  dsimp only
  rw [countZeroes, if_pos h.zeroes, Except.ok_bind, encodeSize, intOf_of_lt h.size,
    allocate_of_nonneg (Int.natCast_nonneg _), Except.ok_bind, Int.toNat_natCast, encodeBytes_eq,
    hload, Option.elim_some, Except.ok_bind, hdigits, base58Chars, Radix.convert, Radix.numeral,
    zeros_byteDigits, digitsText, List.map_append, List.map_replicate, byteValue]
  rfl

theorem le_byteValue {v : List Byte} (h : ∀ x ∈ v.head?, x ≠ 0) (hne : v ≠ []) :
    256 ^ (v.length - 1) ≤ byteValue v := by
  cases v with
  | nil => exact absurd rfl hne
  | cons x v =>
    have hpos : 0 < x.toNat := Nat.pos_of_ne_zero fun hx => h x rfl (BitVec.toNat_inj.mp hx)
    have hle := Nat.le_mul_of_pos_right (256 ^ v.length) hpos
    rw [byteValue, byteDigits, List.map_cons, Radix.value_cons, List.length_map, List.length_cons,
      Nat.add_sub_cancel]
    omega

/-- A size that does not fit an `int` is negative there, or too small. -/
theorem encodeSize_too_small {n : Nat} (h : 2 ^ 31 ≤ n * 138 / 100 + 1)
    (hsize : 0 ≤ encodeSize n) : 58 ^ (encodeSize n).toNat ≤ 256 ^ (n - 1) := by
  have hlt := intOf_lt (n * 138 / 100 + 1)
  have hlong : 1610612737 ≤ n := by
    by_contra hshort
    exact absurd hsize (Int.not_le.mpr (intOf_neg h (by omega)))
  calc 58 ^ (encodeSize n).toNat ≤ (2 ^ 6) ^ (encodeSize n).toNat :=
        Nat.pow_le_pow_left (by decide) _
    _ = 2 ^ (6 * (encodeSize n).toNat) := (Nat.pow_mul _ _ _).symm
    _ ≤ 2 ^ (8 * (n - 1)) := Nat.pow_le_pow_right (by decide) (by rw [encodeSize]; omega)
    _ = 256 ^ (n - 1) := Nat.pow_mul _ _ _

/-- Where an `int` is too small, `EncodeBase58` does not return. -/
theorem encodeBase58_error {v : List Byte} (h : ¬ EncodeFits v) :
    ∃ f, encodeBase58 v = .error f := by
  rw [encodeBase58]
  dsimp only
  by_cases hzeroes : (v.takeWhile (· = 0)).length < 2 ^ 31
  · have hlarge := Nat.le_of_not_lt fun hsize => h ⟨hzeroes, hsize⟩
    rw [countZeroes, if_pos hzeroes, Except.ok_bind]
    by_cases hsize : 0 ≤ encodeSize (v.dropWhile (· = 0)).length
    · have hne : v.dropWhile (· = 0) ≠ [] := fun hnil => by
        rw [hnil] at hlarge
        exact absurd hlarge (by decide)
      have hvalue : 58 ^ (encodeSize (v.dropWhile (· = 0)).length).toNat ≤
          byteValue (v.dropWhile (· = 0)) :=
        (encodeSize_too_small hlarge hsize).trans
          (le_byteValue (fun x hx => of_decide_eq_false (dropWhile_head v x hx)) hne)
      rw [allocate_of_nonneg hsize, Except.ok_bind, encodeBytes_eq,
        Radix.load_zeros_eq_none (by decide) hvalue]
      exact ⟨_, rfl⟩
    · rw [allocate, if_pos (Int.not_le.mp hsize)]
      exact ⟨_, rfl⟩
  · rw [countZeroes, if_neg hzeroes]
    exact ⟨_, rfl⟩

theorem encodeBase58_eq_ok {v : List Byte} {text : List Char} :
    encodeBase58 v = .ok text ↔ EncodeFits v ∧ base58Chars v = text := by
  by_cases hfits : EncodeFits v
  · rw [encodeBase58_eq hfits, Except.ok.injEq]
    exact (and_iff_right hfits).symm
  · obtain ⟨f, hf⟩ := encodeBase58_error hfits
    rw [hf]
    constructor
    · intro h
      cases h
    · intro h
      exact absurd h.1 hfits

/-! ## Round trips -/

/-- The size that `DecodeBase58` computes for a text fits an `int`. -/
structure DecodeFits (psz : List Char) : Prop where
  zeroes : ((psz.dropWhile isSpace).takeWhile (· = '1')).length < 2 ^ 31
  size : (base58Digits psz).length * 733 / 1000 + 1 < 2 ^ 31

theorem DecodeFits.decodable {psz : List Char} (h : DecodeFits psz) : Decodable psz := by
  have hratio : 58 ^ 1000 ≤ 256 ^ 733 := by decide +kernel
  have hsize : decodeSize (base58Digits psz).length =
      ((base58Digits psz).length * 733 / 1000 + 1 : Nat) := by
    have hfits := h.size
    rw [decodeSize, Nat.mod_eq_of_lt (by omega), intOf_of_lt hfits]
  refine ⟨h.zeroes, by omega, ?_⟩
  rw [hsize, Int.toNat_natCast]
  have hall : ∀ c ∈ (base58Digits psz).takeWhile (· ∈ pszBase58), c ∈ pszBase58 := fun c hc => by
    simpa using List.mem_takeWhile_imp hc
  have hlt := Radix.value_lt (by decide) (textDigits_lt hall)
  rw [textDigits, List.length_map] at hlt
  calc base58Value ((base58Digits psz).takeWhile (· ∈ pszBase58))
      < 58 ^ ((base58Digits psz).takeWhile (· ∈ pszBase58)).length := hlt
    _ ≤ 58 ^ (base58Digits psz).length :=
        Nat.pow_le_pow_right (by decide) (List.takeWhile_prefix _).length_le
    _ ≤ 256 ^ ((base58Digits psz).length * 733 / 1000 + 1) :=
        Nat.le_of_lt (Radix.pow_lt_pow_of_ratio (by decide) (by decide) hratio _)

theorem dropWhile_of_forall {text : List Char} (h : ∀ c ∈ text, isSpace c = false) :
    text.dropWhile isSpace = text := by
  cases text with
  | nil => rfl
  | cons c text => rw [List.dropWhile_cons_of_neg (by simp [h c List.mem_cons_self])]

theorem base58Text_of_forall {text : List Char} (h : ∀ c ∈ text, isSpace c = false) :
    base58Text text = text ∧ base58Rest text = [] := by
  have hrun : ∀ c ∈ text, (! isSpace c) = true := fun c hc => by simp [h c hc]
  rw [base58Text, base58Rest, dropWhile_of_forall h]
  exact ⟨List.takeWhile_eq_self_iff.mpr hrun, List.dropWhile_eq_nil_iff.mpr hrun⟩

/-- What `DecodeBase58` says of a text without blanks. -/
theorem decodeBase58_eq_ok {text : List Char} (h : ∀ c ∈ text, isSpace c = false) {v : List Byte} :
    decodeBase58 text = .ok (some v) ↔
      Decodable text ∧ (∀ c ∈ text, c ∈ pszBase58) ∧ base58Bytes text = v := by
  obtain ⟨htext, hrest⟩ := base58Text_of_forall h
  have hiff : IsBase58 text ↔ ∀ c ∈ text, c ∈ pszBase58 := by
    rw [IsBase58, htext, hrest]
    simp
  by_cases hd : Decodable text
  · rw [decodeBase58_eq hd, base58Decoded, htext, ← hiff]
    by_cases hbase : IsBase58 text
    · simp [hbase, hd]
    · simp [hbase]
  · obtain ⟨f, hf⟩ := decodeBase58_error hd
    simp [hf, hd]

theorem mem_base58Chars (v : List Byte) : ∀ c ∈ base58Chars v, c ∈ pszBase58 :=
  mem_digitsText (Radix.convert_lt (by decide) _ _)

theorem textDigits_base58Chars (v : List Byte) :
    textDigits (base58Chars v) = Radix.convert 256 58 (byteDigits v) :=
  textDigits_digitsText (Radix.convert_lt (by decide) _ _)

/-- The text of bytes for which the `int`s are large enough is short enough to be decoded. -/
theorem EncodeFits.decodeFits {v : List Byte} (h : EncodeFits v) : DecodeFits (base58Chars v) := by
  have hspace := dropWhile_of_forall fun c hc => not_space_of_mem (mem_base58Chars v c hc)
  have hzeros : ((base58Chars v).takeWhile (· = '1')).length = (v.takeWhile (· = 0)).length := by
    rw [← zeros_textDigits, textDigits_base58Chars, Radix.convert, Radix.zeros_numeral,
      zeros_byteDigits]
  have hlength : (base58Chars v).length =
      (v.takeWhile (· = 0)).length + (Nat.digits 58 (byteValue v)).length := by
    rw [base58Chars, digitsText, List.length_map, Radix.convert, Radix.numeral, List.length_append,
      List.length_replicate, List.length_reverse, zeros_byteDigits, byteValue]
  have hdigits : (Nat.digits 58 (byteValue v)).length ≤
      (v.dropWhile (· = 0)).length * 138 / 100 + 1 := by
    rw [Nat.digits_length_le_iff (by decide), ← byteValue_dropWhile]
    exact encode_room _
  have hsplit := congrArg List.length
    (List.takeWhile_append_dropWhile (p := (· = '1')) (l := base58Chars v))
  rw [List.length_append] at hsplit
  refine ⟨?_, ?_⟩
  · rw [hspace, hzeros]
    exact h.zeroes
  · have hsize := h.size
    rw [base58Digits, hspace]
    omega

theorem base58Bytes_base58Chars (v : List Byte) : base58Bytes (base58Chars v) = v := by
  rw [base58Bytes_eq, textDigits_base58Chars, Radix.convert_convert (by decide) (byteDigits_lt v),
    digitsBytes_byteDigits]

theorem base58Chars_base58Bytes {text : List Char} (h : ∀ c ∈ text, c ∈ pszBase58) :
    base58Chars (base58Bytes text) = text := by
  have hlt := Radix.convert_lt (by decide : 1 < 256) 58 (textDigits text)
  rw [base58Bytes_eq, base58Chars, byteDigits_digitsBytes hlt,
    Radix.convert_convert (by decide) (textDigits_lt h), digitsText_textDigits h]

/-- A byte string is decoded from its text, and a text without blanks that is accepted is the one of
its bytes, exactly if the `int`s of `EncodeBase58` are large enough for the bytes; otherwise it does
not return. `DecodeBase58` returns for every text whose size fits an `int`. -/
theorem base58_bijection_iff (v : List Byte) (text : List Char) :
    (v ≠ [] →
      ((∃ text, encodeBase58 v = .ok text ∧ decodeBase58 text = .ok (some v)) ↔ EncodeFits v)) ∧
    ((∀ c ∈ text, isSpace c = false) → decodeBase58 text = .ok (some v) → v ≠ [] →
      (encodeBase58 v = .ok text ↔ EncodeFits v)) ∧
    (Except.Succeeds (encodeBase58 v) ↔ EncodeFits v) ∧
    (Except.Succeeds (decodeBase58 text) ↔ Decodable text) ∧
    (DecodeFits text → Decodable text) := by
  refine ⟨fun _ => ⟨?_, fun h => ?_⟩, fun hspace hdecode _ => ?_,
    ⟨?_, fun h => ⟨_, encodeBase58_eq h⟩⟩, ⟨fun h => ?_, fun h => ⟨_, decodeBase58_eq h⟩⟩,
    fun h => h.decodable⟩
  · rintro ⟨text, hencode, -⟩
    exact (encodeBase58_eq_ok.mp hencode).1
  · have hmem := mem_base58Chars v
    refine ⟨base58Chars v, encodeBase58_eq h, ?_⟩
    rw [decodeBase58_eq_ok fun c hc => not_space_of_mem (hmem c hc)]
    exact ⟨h.decodeFits.decodable, hmem, base58Bytes_base58Chars v⟩
  · obtain ⟨-, hmem, rfl⟩ := (decodeBase58_eq_ok hspace).mp hdecode
    rw [encodeBase58_eq_ok]
    exact and_iff_left (base58Chars_base58Bytes hmem)
  · rintro ⟨text, hencode⟩
    exact (encodeBase58_eq_ok.mp hencode).1
  · by_contra hd
    obtain ⟨f, hf⟩ := decodeBase58_error hd
    obtain ⟨decoded, hok⟩ := h
    rw [hf] at hok
    cases hok

/-- Two leading zero bytes and two others. -/
theorem base58_bijection_iff_zeros :
    ∃ text, encodeBase58 [0, 0, 1, 255] = .ok text ∧
      decodeBase58 text = .ok (some [0, 0, 1, 255]) :=
  ((base58_bijection_iff [0, 0, 1, 255] []).1 (by decide)).mpr ⟨by decide, by decide⟩

/-- The size of 1556147571 bytes is negative as an `int`. The one of 3112295142 bytes is zero there,
and the first byte does not fit. -/
theorem size_not_int :
    encodeBase58 (List.replicate 1556147571 1) = .error .lengthError ∧
      encodeBase58 (List.replicate 3112295142 1) = .error .assertion := by
  have hrun : ∀ n, encodeBase58 (List.replicate (n + 1) 1) = (do
      let b58 ← allocate (encodeSize (n + 1))
      let encoded ← encodeBytes b58 0 (List.replicate (n + 1) 1)
      let digits := (encoded.1.take encoded.2).reverse.dropWhile (· = 0)
      pure (digits.map fun d => pszBase58.getD d '\x00')) := by
    intro n
    rw [encodeBase58, List.replicate_succ, List.takeWhile_cons_of_neg (by decide),
      List.dropWhile_cons_of_neg (by decide)]
    dsimp only
    rw [List.length_cons, List.length_replicate]
    rfl
  constructor
  · have hsize : allocate (encodeSize (1556147570 + 1)) = .error .lengthError := by decide
    rw [hrun 1556147570, hsize]
    rfl
  · have hsize : allocate (encodeSize (3112295141 + 1)) = .ok [] := by decide
    rw [hrun 3112295141, hsize, Except.ok_bind, List.replicate_succ, encodeBytes]
    rfl

end Energiminer.Primitives
