import Energiminer.Primitives.Base58

/-!
# What an address stands for

The text that `DecodeBase58` accepts is a run of characters of the alphabet between blanks, and its
bytes are a zero for every leading `1` and the number that the rest is in base 58. The buffer is
large enough for every text whose size fits an `int`. `GetKeyID` accepts every version byte, not
only those of the hashes of public keys that `base58.h:92-97` lists.
-/

namespace Energiminer.Primitives
open Misc Common

/-! ## Texts -/

section Runs
variable {α : Type} {p : α → Bool} {ys : List α}

/-- What is left begins with what stopped the run. -/
theorem dropWhile_head (xs : List α) : ∀ x ∈ (xs.dropWhile p).head?, p x = false := by
  induction xs with
  | nil => simp
  | cons y xs ih =>
    rw [List.dropWhile_cons]
    split
    next => exact ih
    next h => simpa using h

theorem run_append (xs : List α) (h : ∀ y ∈ ys.head?, p y = false) :
    (xs ++ ys).takeWhile p = xs.takeWhile p ∧ (xs ++ ys).dropWhile p = xs.dropWhile p ++ ys := by
  induction xs with
  | nil =>
    cases ys with
    | nil => simp
    | cons y ys => simp [h y rfl]
  | cons x xs ih =>
    rw [List.cons_append, List.takeWhile_cons, List.takeWhile_cons, List.dropWhile_cons,
      List.dropWhile_cons]
    split
    next => exact ⟨congrArg (x :: ·) ih.1, ih.2⟩
    next => exact ⟨rfl, rfl⟩

end Runs

/-- The digits of a text of the alphabet. -/
def textDigits (text : List Char) : List Nat := text.map pszBase58.idxOf

/-- The number that a text is in base 58. -/
def base58Value (text : List Char) : Nat := Radix.value 58 (textDigits text)

/-- The bytes that a text stands for. -/
def base58Bytes (text : List Char) : List Byte :=
  List.replicate (text.takeWhile (· = '1')).length 0 ++
    (Nat.digits 256 (base58Value text)).reverse.map (BitVec.ofNat 8)

/-- The first run without blanks of a text. -/
def base58Text (psz : List Char) : List Char := (psz.dropWhile isSpace).takeWhile (! isSpace ·)

/-- What follows the first run without blanks. -/
def base58Rest (psz : List Char) : List Char := (psz.dropWhile isSpace).dropWhile (! isSpace ·)

/-- A run of characters of the alphabet, with nothing but blanks around it. -/
def IsBase58 (psz : List Char) : Prop :=
  (∀ c ∈ base58Text psz, c ∈ pszBase58) ∧ (base58Rest psz).dropWhile isSpace = []

instance (psz : List Char) : Decidable (IsBase58 psz) := inferInstanceAs (Decidable (_ ∧ _))

/-- The bytes that a text with blanks around it stands for, if it is one of base 58. -/
def base58Decoded (psz : List Char) : Option (List Byte) :=
  if IsBase58 psz then some (base58Bytes (base58Text psz)) else none

/-- The text behind the blanks and the `1`s that begin it, over which the loop runs. -/
def base58Digits (psz : List Char) : List Char := (psz.dropWhile isSpace).dropWhile (· = '1')

/-- The `int`s of `DecodeBase58` are large enough for a text. -/
structure Decodable (psz : List Char) : Prop where
  zeroes : ((psz.dropWhile isSpace).takeWhile (· = '1')).length < 2 ^ 31
  size : 0 ≤ decodeSize (base58Digits psz).length
  room : base58Value ((base58Digits psz).takeWhile (· ∈ pszBase58)) <
    256 ^ (decodeSize (base58Digits psz).length).toNat

theorem idxOf_lt {c : Char} (h : c ∈ pszBase58) : pszBase58.idxOf c < 58 :=
  List.idxOf_lt_length_of_mem h

theorem idxOf?_of_mem {c : Char} (h : c ∈ pszBase58) :
    pszBase58.idxOf? c = some (pszBase58.idxOf c) := by
  obtain ⟨i, hi⟩ := Option.isSome_iff_exists.mp (List.isSome_idxOf?.mpr h)
  rw [List.idxOf_eq_getD_idxOf?, hi]
  rfl

theorem not_space_of_mem {c : Char} (h : c ∈ pszBase58) : isSpace c = false := by
  have hall : pszBase58.all (fun c => !isSpace c) = true := by decide
  simpa using List.all_eq_true.mp hall c h

theorem textDigits_lt {text : List Char} (h : ∀ c ∈ text, c ∈ pszBase58) :
    ∀ d ∈ textDigits text, d < 58 := by
  intro d hd
  obtain ⟨c, hc, rfl⟩ := List.mem_map.mp hd
  exact idxOf_lt (h c hc)

theorem idxOf_eq_zero (c : Char) : decide (pszBase58.idxOf c = 0) = decide (c = '1') := by
  rw [show pszBase58 = '1' :: pszBase58.tail from rfl, List.idxOf_cons]
  by_cases hc : c = '1'
  · simp [hc]
  · have hne : ('1' == c) = false := by simpa using Ne.symm hc
    simp [hne, hc]

theorem zeros_textDigits (text : List Char) :
    Radix.zeros (textDigits text) = (text.takeWhile (· = '1')).length := by
  rw [Radix.zeros, textDigits, List.takeWhile_map, List.length_map]
  apply congrArg fun p => (text.takeWhile p).length
  funext c
  exact idxOf_eq_zero c

theorem base58Value_dropWhile (text : List Char) :
    base58Value (text.dropWhile (· = '1')) = base58Value text := by
  have hdrop : textDigits (text.dropWhile (· = '1')) = (textDigits text).dropWhile (· = 0) := by
    rw [textDigits, textDigits, List.dropWhile_map]
    apply congrArg fun p => (text.dropWhile p).map pszBase58.idxOf
    funext c
    exact (idxOf_eq_zero c).symm
  rw [base58Value, hdrop, Radix.value_dropWhile, base58Value]

/-! ## The decoder -/

theorem intOf_of_lt {n : Nat} (h : n < 2 ^ 31) : intOf n = n := by
  rw [intOf, BitVec.toInt_ofNat', Int.bmod]
  omega

theorem intOf_neg {n : Nat} (h : 2 ^ 31 ≤ n) (hlt : n < 2 ^ 32) : intOf n < 0 := by
  rw [intOf, BitVec.toInt_eq_toNat_cond, BitVec.toNat_ofNat, Nat.mod_eq_of_lt hlt,
    if_neg (by omega)]
  omega

theorem intOf_lt (n : Nat) : intOf n < 2 ^ 31 := BitVec.toInt_lt

theorem allocate_of_nonneg {size : Int} (h : 0 ≤ size) :
    allocate size = .ok (List.replicate size.toNat 0) := if_neg (Int.not_lt.mpr h)

/-- The loop reads a run of the alphabet as digits. -/
theorem decodeChars_append {text : List Char} (h : ∀ c ∈ text, c ∈ pszBase58) (b256 : List Nat)
    (length : Nat) (rest : List Char) :
    decodeChars b256 length (text ++ rest) =
      (Radix.load 256 58 b256 length (textDigits text)).elim (.error .assertion)
        fun r => decodeChars r.1 r.2 rest := by
  induction text generalizing b256 length with
  | nil => rfl
  | cons c text ih =>
    rw [List.forall_mem_cons] at h
    rw [List.cons_append, decodeChars, not_space_of_mem h.1, idxOf?_of_mem h.1, textDigits,
      List.map_cons, Radix.load]
    simp only [Bool.false_eq_true, if_false]
    split
    next => exact ih h.2 _ _
    next => rfl

theorem decodeChars_of_space (b256 : List Nat) (length : Nat) {rest : List Char}
    (h : ∀ c ∈ rest.head?, isSpace c = true) :
    decodeChars b256 length rest = .ok (some (b256, length, rest)) := by
  cases rest with
  | nil => rfl
  | cons c rest => rw [decodeChars, if_pos (h c rfl)]

theorem decodeChars_of_other (b256 : List Nat) (length : Nat) {text : List Char}
    (hhead : ∀ c ∈ text.head?, decide (c ∈ pszBase58) = false)
    (hspace : ∀ c ∈ text, isSpace c = false) (hne : text ≠ []) (rest : List Char) :
    decodeChars b256 length (text ++ rest) = .ok none := by
  cases text with
  | nil => exact absurd rfl hne
  | cons c text =>
    have hmem : c ∉ pszBase58 := of_decide_eq_false (hhead c rfl)
    rw [List.cons_append, decodeChars, hspace c List.mem_cons_self,
      List.idxOf?_eq_none_iff.mpr hmem]
    rfl

theorem alphabet_of_dropWhile {text : List Char}
    (h : ∀ c ∈ text.dropWhile (· = '1'), c ∈ pszBase58) : ∀ c ∈ text, c ∈ pszBase58 := by
  induction text with
  | nil => exact h
  | cons c text ih =>
    rw [List.dropWhile_cons] at h
    split at h
    next hone =>
      refine List.forall_mem_cons.mpr ⟨?_, ih h⟩
      rw [of_decide_eq_true hone]
      decide
    next => exact h

section Parts
variable (psz : List Char)

theorem base58Text_not_space : ∀ c ∈ base58Text psz, isSpace c = false := fun c hc => by
  simpa using List.mem_takeWhile_imp hc

theorem base58Rest_head : ∀ c ∈ (base58Rest psz).head?, isSpace c = true := fun c hc => by
  simpa using dropWhile_head _ c hc

/-- The leading `1`s are those of the text before a blank, and the loop runs over the rest of it and
what follows. -/
theorem ones_append :
    (psz.dropWhile isSpace).takeWhile (· = '1') = (base58Text psz).takeWhile (· = '1') ∧
      base58Digits psz = (base58Text psz).dropWhile (· = '1') ++ base58Rest psz := by
  have hsplit : psz.dropWhile isSpace = base58Text psz ++ base58Rest psz :=
    List.takeWhile_append_dropWhile.symm
  rw [base58Digits, hsplit]
  apply run_append
  intro c hc
  rw [decide_eq_false]
  rintro rfl
  exact absurd (base58Rest_head psz _ hc) (by decide)

/-- The characters of the alphabet that the loop reads, and what it finds behind them. -/
theorem alphabet_append :
    (base58Digits psz).takeWhile (· ∈ pszBase58) =
        ((base58Text psz).dropWhile (· = '1')).takeWhile (· ∈ pszBase58) ∧
      (base58Digits psz).dropWhile (· ∈ pszBase58) =
        ((base58Text psz).dropWhile (· = '1')).dropWhile (· ∈ pszBase58) ++ base58Rest psz := by
  rw [(ones_append psz).2]
  apply run_append
  intro c hc
  rw [decide_eq_false]
  intro hmem
  have hspace := base58Rest_head psz c hc
  rw [not_space_of_mem hmem] at hspace
  cases hspace

end Parts

/-- What the loop and the end of `DecodeBase58` make of the text behind the leading `1`s. -/
theorem decodeResult_eq {psz : List Char} {b256 : List Nat} {length : Nat}
    (hbytes : (b256.take length).reverse.dropWhile (· = 0) = (Nat.digits 256
      (base58Value ((base58Digits psz).takeWhile (· ∈ pszBase58)))).reverse) :
    ∃ decoded,
      decodeChars b256 length ((base58Digits psz).dropWhile (· ∈ pszBase58)) = .ok decoded ∧
      decodeResult ((psz.dropWhile isSpace).takeWhile (· = '1')).length decoded =
        base58Decoded psz := by
  have hsub := (List.dropWhile_suffix (· = '1') (l := base58Text psz)).subset
  rw [(alphabet_append psz).1] at hbytes
  rw [(alphabet_append psz).2, (ones_append psz).1]
  by_cases hall : ∀ c ∈ base58Text psz, c ∈ pszBase58
  · have hrun : ∀ c ∈ (base58Text psz).dropWhile (· = '1'), decide (c ∈ pszBase58) = true :=
      fun c hc => decide_eq_true (hall c (hsub hc))
    rw [List.takeWhile_eq_self_iff.mpr hrun, base58Value_dropWhile] at hbytes
    rw [List.dropWhile_eq_nil_iff.mpr hrun, List.nil_append]
    refine ⟨_, decodeChars_of_space b256 length (base58Rest_head psz), ?_⟩
    rw [decodeResult, base58Decoded]
    by_cases hblank : (base58Rest psz).dropWhile isSpace = []
    · rw [if_neg (not_not.mpr hblank), if_pos ⟨hall, hblank⟩, base58Bytes, ← hbytes]
    · rw [if_pos hblank, if_neg fun h => hblank h.2]
  · -- a character of the text stops the loop
    have hother : ((base58Text psz).dropWhile (· = '1')).dropWhile (· ∈ pszBase58) ≠ [] := by
      intro hnil
      rw [List.dropWhile_eq_nil_iff] at hnil
      exact hall (alphabet_of_dropWhile fun c hc => of_decide_eq_true (hnil c hc))
    have hspace := fun c hc =>
      base58Text_not_space psz c (hsub ((List.dropWhile_suffix (· ∈ pszBase58)).subset hc))
    refine ⟨none, decodeChars_of_other b256 length (dropWhile_head _) hspace hother _, ?_⟩
    rw [base58Decoded, if_neg fun h => hall h.1]
    rfl

theorem decodeChars_base58Digits (psz : List Char) (b256 : List Nat) :
    decodeChars b256 0 (base58Digits psz) =
      (Radix.load 256 58 b256 0
        (textDigits ((base58Digits psz).takeWhile (· ∈ pszBase58)))).elim (.error .assertion)
        fun r => decodeChars r.1 r.2 ((base58Digits psz).dropWhile (· ∈ pszBase58)) := by
  have hall : ∀ c ∈ (base58Digits psz).takeWhile (· ∈ pszBase58), c ∈ pszBase58 := fun c hc => by
    simpa using List.mem_takeWhile_imp hc
  rw [← decodeChars_append hall, List.takeWhile_append_dropWhile]

/-- `DecodeBase58` gives the bytes that the text stands for, and its assertion holds. -/
theorem decodeBase58_eq {psz : List Char} (h : Decodable psz) :
    decodeBase58 psz = .ok (base58Decoded psz) := by
  obtain ⟨b256, length, hload, hbytes⟩ := Radix.load_zeros (by decide) (by decide) h.room
  obtain ⟨decoded, hrun, hresult⟩ := decodeResult_eq hbytes
  have hloop := decodeChars_base58Digits psz
    (List.replicate (decodeSize (base58Digits psz).length).toNat 0)
  rw [hload, Option.elim_some, hrun] at hloop
  rw [decodeBase58]
  dsimp only
  rw [countZeroes, if_pos h.zeroes, Except.ok_bind, ← base58Digits, allocate_of_nonneg h.size,
    Except.ok_bind, hloop, Except.ok_bind, hresult]
  rfl

/-- Where an `int` is too small, it does not return. -/
theorem decodeBase58_error {psz : List Char} (h : ¬ Decodable psz) :
    ∃ f, decodeBase58 psz = .error f := by
  rw [decodeBase58]
  dsimp only
  rw [← base58Digits]
  by_cases hzeroes : ((psz.dropWhile isSpace).takeWhile (· = '1')).length < 2 ^ 31
  · rw [countZeroes, if_pos hzeroes, Except.ok_bind]
    by_cases hsize : 0 ≤ decodeSize (base58Digits psz).length
    · have hlarge := Nat.le_of_not_lt fun hroom => h ⟨hzeroes, hsize, hroom⟩
      have hloop := decodeChars_base58Digits psz
        (List.replicate (decodeSize (base58Digits psz).length).toNat 0)
      rw [Radix.load_zeros_eq_none (by decide) hlarge, Option.elim_none] at hloop
      rw [allocate_of_nonneg hsize, Except.ok_bind, hloop]
      exact ⟨_, rfl⟩
    · rw [allocate, if_pos (Int.not_le.mp hsize)]
      exact ⟨_, rfl⟩
  · rw [countZeroes, if_neg hzeroes]
    exact ⟨_, rfl⟩

/-! ## Addresses -/

/-- The text decodes to the bytes and their checksum. -/
def Base58Check (a : String) (payload : List Byte) : Prop :=
  base58Decoded (cStr a.toList) = some (payload ++ checksum payload)

instance (a : String) (payload : List Byte) : Decidable (Base58Check a payload) :=
  inferInstanceAs (Decidable (_ = _))

theorem length_checksum (payload : List Byte) : (checksum payload).length = 4 := by
  simp [checksum, Uint256.serialize]

/-- Bytes split into a payload and its checksum in one way only. -/
theorem eq_append_checksum {vch payload : List Byte} (h : vch = payload ++ checksum payload) :
    vch.take (vch.length - 4) = payload ∧ vch.drop (vch.length - 4) = checksum payload := by
  have hlength : vch.length - 4 = payload.length := by
    rw [h, List.length_append, length_checksum, Nat.add_sub_cancel]
  rw [hlength, h]
  exact ⟨List.take_left, List.drop_left⟩

theorem withoutChecksum_eq_some {vch payload : List Byte} :
    withoutChecksum vch = some payload ↔ vch = payload ++ checksum payload := by
  rw [withoutChecksum]
  constructor
  · intro h
    split at h
    next => cases h
    next =>
      obtain ⟨hhash, hpayload⟩ := Option.ite_none_right_eq_some.mp h
      rw [← Option.some.inj hpayload, hhash, List.take_append_drop]
  · intro h
    obtain ⟨htake, hdrop⟩ := eq_append_checksum h
    have hlong : ¬ vch.length < 4 := by
      rw [h, List.length_append, length_checksum]
      omega
    rw [if_neg hlong, htake, hdrop, if_pos rfl]

theorem decodeBase58Check_eq {a : String} (h : Decodable (cStr a.toList)) :
    ∃ decoded, decodeBase58Check (cStr a.toList) = .ok decoded ∧
      ∀ payload, decoded = some payload ↔ Base58Check a payload := by
  refine ⟨(base58Decoded (cStr a.toList)).bind withoutChecksum, ?_, fun payload => ?_⟩
  · rw [decodeBase58Check, decodeBase58_eq h, Except.ok_bind]
    rfl
  · rw [Base58Check, Option.bind_eq_some_iff]
    constructor
    · rintro ⟨vch, hvch, hpayload⟩
      rw [hvch, withoutChecksum_eq_some.mp hpayload]
    · intro h
      exact ⟨_, h, withoutChecksum_eq_some.mpr rfl⟩

/-- The version bytes of a hash of a public key, on the main network and on the test network. -/
def pubkeyHashVersions : List Byte := [76, 140]

/-- The address of the hash of a public key. -/
def IsPubkeyHash (a : String) (keyID : CKeyID) : Prop :=
  ∃ version ∈ pubkeyHashVersions, Base58Check a (version :: keyID.toList)

/-- `CBitcoinAddress(a).GetKeyID(keyID)` returns true. -/
def GivesKeyID (a : String) (keyID : CKeyID) : Prop :=
  ∃ address, CBitcoinAddress.new a = .ok address ∧ CBitcoinAddress.getKeyID address = some keyID

theorem getKeyID_eq_some {address : CBase58Data} {keyID : CKeyID} :
    CBitcoinAddress.getKeyID address = some keyID ↔ address.vchData = keyID.toList := by
  rw [CBitcoinAddress.getKeyID, CBitcoinAddress.isValid, Option.ite_none_right_eq_some,
    decide_eq_true_eq, Option.some.injEq]
  constructor
  · rintro ⟨hlength, rfl⟩
    refine List.ext_getElem (by simp [hlength]) fun i hi hi' => ?_
    simp [List.getD, hi]
  · intro h
    rw [h]
    refine ⟨keyID.length_toList, Vector.ext fun i hi => ?_⟩
    simp [List.getD]

theorem toList_keyID_ne_nil (keyID : CKeyID) : keyID.toList ≠ [] := by
  rw [← List.length_pos_iff, keyID.length_toList]
  decide

/-- An address is read as any byte and the bytes of the key. -/
theorem givesKeyID_iff_of_decodable {a : String} (h : Decodable (cStr a.toList)) {keyID : CKeyID} :
    GivesKeyID a keyID ↔ ∃ version, Base58Check a (version :: keyID.toList) := by
  obtain ⟨decoded, hdecoded, hpayload⟩ := decodeBase58Check_eq h
  simp only [GivesKeyID, getKeyID_eq_some, ← hpayload, CBitcoinAddress.new, CBase58Data.setString,
    hdecoded, Except.ok_bind]
  cases decoded with
  | none =>
    constructor
    · rintro ⟨address, hnew, hdata⟩
      cases hnew
      exact absurd hdata.symm (toList_keyID_ne_nil keyID)
    · rintro ⟨version, ⟨⟩⟩
  | some vchTemp =>
    cases vchTemp with
    | nil =>
      constructor
      · rintro ⟨address, hnew, hdata⟩
        cases hnew
        exact absurd hdata.symm (toList_keyID_ne_nil keyID)
      · rintro ⟨version, ⟨⟩⟩
    | cons version data =>
      constructor
      · rintro ⟨address, hnew, hdata⟩
        cases hnew
        exact ⟨version, congrArg (fun data => some (version :: data)) hdata⟩
      · rintro ⟨version', h⟩
        cases h
        exact ⟨_, rfl, rfl⟩

theorem givesKeyID_iff {a : String} {keyID : CKeyID} :
    GivesKeyID a keyID ↔
      Decodable (cStr a.toList) ∧ ∃ version, Base58Check a (version :: keyID.toList) := by
  by_cases hd : Decodable (cStr a.toList)
  · rw [givesKeyID_iff_of_decodable hd]
    exact (and_iff_right hd).symm
  · obtain ⟨f, hf⟩ := decodeBase58_error hd
    constructor
    · rintro ⟨address, hnew, -⟩
      rw [CBitcoinAddress.new, CBase58Data.setString, decodeBase58Check, hf] at hnew
      cases hnew
    · intro h
      exact absurd h.1 hd

theorem Base58Check.unique {a : String} {payload payload' : List Byte} (h : Base58Check a payload)
    (h' : Base58Check a payload') : payload = payload' := by
  have heq : payload ++ checksum payload = payload' ++ checksum payload' :=
    Option.some.inj (h.symm.trans h')
  exact (eq_append_checksum rfl).1.symm.trans (eq_append_checksum heq).1

theorem getScriptForDestination_eq (keyID : CKeyID) :
    getScriptForDestination keyID = [0x76, 0xa9, 0x14] ++ keyID.toList ++ [0x88, 0xac] := by
  rw [getScriptForDestination, pushBytes, keyID.length_toList]
  rfl

/-- Only the address of a hash of a public key is paid to, with the script of that hash. -/
structure PaysKeyOnly (a : String) : Prop where
  accepts : ∀ keyID, GivesKeyID a keyID ↔ IsPubkeyHash a keyID
  script : ∀ keyID, GivesKeyID a keyID →
    getScriptForDestination keyID = [0x76, 0xa9, 0x14] ++ keyID.toList ++ [0x88, 0xac]

/-- That is so for exactly the texts of which those of twenty bytes have one of the two versions, and
can be decoded. -/
theorem paysKeyOnly_iff (a : String) :
    PaysKeyOnly a ↔ ∀ version (keyID : CKeyID), Base58Check a (version :: keyID.toList) →
      (version ∈ pubkeyHashVersions ↔ Decodable (cStr a.toList)) := by
  constructor
  · intro h version keyID hcheck
    constructor
    · intro hmem
      exact (givesKeyID_iff.mp ((h.accepts keyID).mpr ⟨version, hmem, hcheck⟩)).1
    · intro hd
      obtain ⟨version', hmem, hcheck'⟩ :=
        (h.accepts keyID).mp (givesKeyID_iff.mpr ⟨hd, version, hcheck⟩)
      rw [(List.cons.inj (hcheck.unique hcheck')).1]
      exact hmem
  · intro h
    refine ⟨fun keyID => ?_, fun keyID _ => getScriptForDestination_eq keyID⟩
    rw [givesKeyID_iff]
    constructor
    · rintro ⟨hd, version, hcheck⟩
      exact ⟨version, (h version keyID hcheck).mpr hd, hcheck⟩
    · rintro ⟨version, hmem, hcheck⟩
      exact ⟨(h version keyID hcheck).mp hmem, version, hcheck⟩

/-- The address of the hash of a script: version 16. -/
def scriptHashAddress : String := "7SVyqiBykMKdoNuuf1AehnVxASmtdfqsFF"

/-- The hash of the script. -/
def scriptHash : CKeyID := Vector.ofFn fun i => BitVec.ofNat 8 (i + 1)

theorem decodable_scriptHashAddress : Decodable (cStr scriptHashAddress.toList) := by
  constructor <;> decide +kernel

theorem base58Check_scriptHashAddress :
    Base58Check scriptHashAddress (16 :: scriptHash.toList) := by
  obtain ⟨decoded, hdecoded, hpayload⟩ := decodeBase58Check_eq decodable_scriptHashAddress
  have hrun : decodeBase58Check (cStr scriptHashAddress.toList) =
      .ok (some (16 :: scriptHash.toList)) := by
    decide +kernel
  exact (hpayload _).mp (Except.ok.inj (hdecoded.symm.trans hrun))

/-- The address of a script is taken for one of a key. -/
theorem scriptHashAddress_accepted : ¬ PaysKeyOnly scriptHashAddress := by
  intro h
  have hgives : GivesKeyID scriptHashAddress scriptHash :=
    givesKeyID_iff.mpr ⟨decodable_scriptHashAddress, 16, base58Check_scriptHashAddress⟩
  obtain ⟨version, hmem, hcheck⟩ := (h.accepts scriptHash).mp hgives
  have hversion : 16 = version := (List.cons.inj (base58Check_scriptHashAddress.unique hcheck)).1
  rw [← hversion] at hmem
  exact absurd hmem (by decide)

end Energiminer.Primitives
