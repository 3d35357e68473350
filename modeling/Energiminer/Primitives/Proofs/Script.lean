import Energiminer.Primitives.Work
import Mathlib.Data.List.GetD
import Mathlib.Data.Nat.Digits.Lemmas

/-!
# Reading a coinbase script back

What `CScript` is pushed is what `GetOp` reads: the operand of a push in each of its four forms, and
a number that is not negative, which `CScriptNum` accepts as minimal. A coinbase of a template
therefore shows the height and the extra nonces, and nothing else.
-/

namespace Energiminer.Primitives
open Misc Common

/-! ## Pushes -/

theorem pushBytes_eq_append (script b : List Byte) :
    pushBytes script b = script ++ pushBytes [] b := by
  simp [pushBytes]

theorem toNat_leWord_leBytes {n size : Nat} (hsize : size < 2 ^ (8 * n)) (rest : List Byte) :
    (leWord (8 * n) fun i => (leBytes n (BitVec.ofNat (8 * n) size) ++ rest).getD i 0).toNat =
      size := by
  have hword : leWord (8 * n) (fun i => (leBytes n (BitVec.ofNat (8 * n) size) ++ rest).getD i 0) =
      BitVec.ofNat (8 * n) size := by
    rw [← leWord_byteOf (BitVec.ofNat (8 * n) size)]
    refine leWord_congr _ fun i hi => ?_
    rw [List.getD_append _ _ _ _ (by rw [length_leBytes]; omega), leWord_byteOf,
      getD_leBytes _ _ _ (by omega)]
  rw [hword, BitVec.toNat_ofNat, Nat.mod_eq_of_lt hsize]

/-- The size of an operand that the operation itself gives. -/
theorem operandSize_direct {size : Nat} (h : size < 0x4c) (rest : List Byte) :
    operandSize (BitVec.ofNat 8 size) rest = some (size, rest) := by
  have hcode : (BitVec.ofNat 8 size).toNat = size := by
    rw [BitVec.toNat_ofNat, Nat.mod_eq_of_lt (by omega)]
  rw [operandSize, hcode, if_pos h]

/-- The size of an operand that stands behind the operation. -/
theorem operandSize_leBytes {opcode : Byte} {size : Nat} (hcode : ¬ opcode.toNat < 0x4c)
    (hsize : size < 2 ^ (8 * sizeWidth opcode)) (rest : List Byte) :
    operandSize opcode
        (leBytes (sizeWidth opcode) (BitVec.ofNat (8 * sizeWidth opcode) size) ++ rest) =
      some (size, rest) := by
  rw [operandSize, if_neg hcode, if_neg (by simp), toNat_leWord_leBytes hsize,
    List.drop_left' (length_leBytes _ _)]

/-- An operation that pushes as many bytes as follow. -/
theorem getOp_operand {opcode : Byte} {b rest pc : List Byte} (hcode : opcode.toNat ≤ 0x4e)
    (hsize : operandSize opcode pc = some (b.length, b ++ rest)) :
    getOp (opcode :: pc) = some (opcode, b, rest) := by
  rw [getOp, if_pos hcode, hsize]
  simp

theorem getOp_pushBytes {b : List Byte} (h : b.length < 2 ^ 32) (rest : List Byte) :
    ∃ opcode : Byte, opcode.toNat ≤ 0x4e ∧ (b.length < 0x4c → opcode.toNat = b.length) ∧
      getOp (pushBytes [] b ++ rest) = some (opcode, b, rest) := by
  rw [pushBytes]
  split
  next hdirect =>
    have hcode : (BitVec.ofNat 8 b.length).toNat = b.length := by
      rw [BitVec.toNat_ofNat, Nat.mod_eq_of_lt (by omega)]
    refine ⟨BitVec.ofNat 8 b.length, by omega, fun _ => hcode, ?_⟩
    rw [List.nil_append, List.append_assoc]
    exact getOp_operand (by omega) (operandSize_direct hdirect _)
  next hlong =>
    split
    next hbyte =>
      refine ⟨0x4c, by decide, fun hlt => absurd hlt hlong, ?_⟩
      have hsize := @operandSize_leBytes 0x4c b.length (by decide)
        (Nat.lt_of_le_of_lt hbyte (by decide)) (b ++ rest)
      have hone : leBytes 1 (BitVec.ofNat 8 b.length) = [BitVec.ofNat 8 b.length] := by
        simp [leBytes, byteOf]
      rw [List.nil_append, List.append_assoc]
      exact getOp_operand (by decide) (hone ▸ hsize)
    next hmore =>
      split
      next hshort =>
        refine ⟨0x4d, by decide, fun hlt => absurd hlt hlong, ?_⟩
        have hsize := @operandSize_leBytes 0x4d b.length (by decide)
          (Nat.lt_of_le_of_lt hshort (by decide)) (b ++ rest)
        rw [List.nil_append, List.append_assoc]
        exact getOp_operand (by decide) hsize
      next =>
        refine ⟨0x4e, by decide, fun hlt => absurd hlt hlong, ?_⟩
        have hsize := @operandSize_leBytes 0x4e b.length (by decide) h (b ++ rest)
        rw [List.nil_append, List.append_assoc]
        exact getOp_operand (by decide) hsize

/-! ## Numbers -/

/-- The bytes of a number are its digits in base 256. -/
theorem scriptNumBytes_eq {fuel n : Nat} (h : n < 256 ^ fuel) :
    scriptNumBytes fuel n = (Nat.digits 256 n).map (BitVec.ofNat 8) := by
  induction fuel generalizing n with
  | zero =>
    rw [Nat.lt_one_iff.mp h]
    rfl
  | succ fuel ih =>
    rw [scriptNumBytes]
    split
    next hzero => simp [hzero]
    next hpos =>
      rw [Nat.pow_succ, Nat.mul_comm] at h
      rw [ih (Nat.div_lt_of_lt_mul h), Nat.digits_def' (by decide) (Nat.pos_of_ne_zero hpos),
        List.map_cons]

section Number
variable {x : BitVec 64}

theorem getD_scriptNumBytes (x : BitVec 64) (i : Nat) :
    (scriptNumBytes 8 x.toNat).getD i 0 = byteOf x i := by
  have hdigit := Nat.getD_digits x.toNat i (b := 256) (by decide)
  have hmap : ((Nat.digits 256 x.toNat).map (BitVec.ofNat 8)).getD i 0 =
      BitVec.ofNat 8 ((Nat.digits 256 x.toNat).getD i 0) := List.getD_map _ 0 (BitVec.ofNat 8)
  rw [scriptNumBytes_eq x.isLt, hmap, hdigit]
  apply BitVec.eq_of_toNat_eq
  rw [byteOf, BitVec.toNat_ofNat, BitVec.extractLsb'_toNat, Nat.shiftRight_eq_div_pow, Nat.pow_mul]
  exact Nat.mod_mod _ 256

/-- The bytes of a number, with or without a zero for the sign, are read as the number. -/
theorem leWordAux_getD {vch : List Byte} (hbytes : ∀ i, vch.getD i 0 = byteOf x i)
    (hfits : x.toNat < 256 ^ vch.length) :
    leWordAux 64 (vch.getD · 0) vch.length = x := by
  apply BitVec.eq_of_getLsbD_eq
  intro z hz
  rw [getLsbD_leWordAux _ _ _ _ hz]
  by_cases hlt : z < 8 * vch.length
  · rw [decide_eq_true hlt, Bool.true_and, hbytes, getLsbD_byteOf _ _ _ (Nat.mod_lt _ (by decide))]
    congr 1
    omega
  · have hbound : x.toNat < 2 ^ z := by
      refine Nat.lt_of_lt_of_le hfits ?_
      rw [show 256 = 2 ^ 8 by rfl, ← Nat.pow_mul]
      exact Nat.pow_le_pow_right (by decide) (Nat.le_of_not_lt hlt)
    have hzero : x.getLsbD z = false := by
      rw [← BitVec.testBit_toNat, Nat.testBit_lt_two_pow hbound]
    rw [decide_eq_false hlt, Bool.false_and, hzero]

/-- Such bytes without a sign in the last one are the number. -/
theorem setVch_eq {vch : List Byte} (hbytes : ∀ i, vch.getD i 0 = byteOf x i)
    (hfits : x.toNat < 256 ^ vch.length) (hsign : (vch.getLastD 0).msb = false) :
    setVch vch = x := by
  rw [setVch, hsign, leWordAux_getD hbytes hfits]
  split
  next hnil =>
    subst hnil
    exact (BitVec.eq_of_toNat_eq (Nat.lt_one_iff.mp hfits)).symm
  next => rfl

/-- The bytes of a number other than zero end with one that is not zero. -/
theorem scriptNumBytes_last (hx : x ≠ 0) :
    ∃ bytes back, scriptNumBytes 8 x.toNat = bytes ++ [back] ∧ back ≠ 0 := by
  have hpos : x.toNat ≠ 0 := fun h => hx (BitVec.eq_of_toNat_eq h)
  have hne : Nat.digits 256 x.toNat ≠ [] := Nat.digits_ne_nil_iff_ne_zero.mpr hpos
  refine ⟨(Nat.digits 256 x.toNat).dropLast.map (BitVec.ofNat 8),
    BitVec.ofNat 8 ((Nat.digits 256 x.toNat).getLast hne), ?_, fun hzero => ?_⟩
  · conv_lhs => rw [scriptNumBytes_eq x.isLt, ← List.dropLast_append_getLast hne]
    rw [List.map_append, List.map_singleton]
  · have hlt := Nat.digits_lt_base (by decide : 1 < 256) (List.getLast_mem hne)
    have hmod := congrArg BitVec.toNat hzero
    rw [BitVec.toNat_ofNat, Nat.mod_eq_of_lt hlt] at hmod
    exact Nat.getLast_digit_ne_zero 256 hpos hmod

theorem lt_pow_length_scriptNumBytes (x : BitVec 64) :
    x.toNat < 256 ^ (scriptNumBytes 8 x.toNat).length := by
  rw [scriptNumBytes_eq x.isLt, List.length_map]
  exact Nat.lt_base_pow_length_digits (by decide)

theorem length_scriptNumBytes_le {k : Nat} (h : x.toNat < 256 ^ k) :
    (scriptNumBytes 8 x.toNat).length ≤ k := by
  rw [scriptNumBytes_eq x.isLt, List.length_map]
  exact (Nat.digits_length_le_iff (by decide) _).mpr h

/-- A number above zero: its bytes, and a zero where the last one would show a sign. -/
theorem scriptNumSerialize_pos (hx : x ≠ 0) (hneg : x.msb = false) :
    scriptNumSerialize x = scriptNumBytes 8 x.toNat ++
      if ((scriptNumBytes 8 x.toNat).getLastD 0).msb then [0] else [] := by
  rw [scriptNumSerialize, if_neg hx, hneg]
  simp only [Bool.false_eq_true, if_false]
  split
  next => rfl
  next => rw [List.append_nil]

theorem low_bits_ne_zero : ∀ back : Byte, back ≠ 0 → back.msb = false → back &&& 0x7f ≠ 0 := by
  decide

/-- A zero at the end does not show in what stands beyond the end. -/
theorem getD_append_zero (vch : List Byte) (i : Nat) : (vch ++ [0]).getD i 0 = vch.getD i 0 := by
  rcases Nat.lt_or_ge i vch.length with hlt | hge
  · rw [List.getD_append _ _ _ _ hlt]
  · rw [List.getD_append_right _ _ _ _ hge, List.getD_eq_default _ _ hge]
    cases i - vch.length <;> rfl

/-- What is written for such a number is minimal and is read as the number. -/
theorem scriptNum_serialize {k : Nat} (hx : x ≠ 0) (hneg : x.msb = false) (hk : x.toNat < 256 ^ k) :
    scriptNum (scriptNumSerialize x) true (k + 1) = .ok x := by
  obtain ⟨bytes, back, hlast, hback⟩ := scriptNumBytes_last hx
  have hlength := length_scriptNumBytes_le hk
  have hfits := lt_pow_length_scriptNumBytes x
  have hbytes := getD_scriptNumBytes x
  have hserialize := scriptNumSerialize_pos hx hneg
  rw [hlast] at hlength hfits hbytes hserialize
  rw [List.getLastD_concat] at hserialize
  cases hsign : back.msb with
  | false =>
    rw [hsign] at hserialize
    simp only [Bool.false_eq_true, if_false, List.append_nil] at hserialize
    have hminimal : isMinimal (bytes ++ [back]) = true := by
      rw [isMinimal, List.getLastD_concat, decide_eq_true (low_bits_ne_zero back hback hsign)]
      rfl
    rw [hserialize, scriptNum, if_neg (by omega), hminimal, if_neg (by simp),
      setVch_eq hbytes hfits (by rw [List.getLastD_concat, hsign])]
  | true =>
    rw [hsign, if_pos rfl] at hserialize
    have hminimal : isMinimal (bytes ++ [back] ++ [0]) = true := by
      simp [isMinimal, hsign]
    have hbytes' : ∀ i, (bytes ++ [back] ++ [0]).getD i 0 = byteOf x i := by
      intro i
      rw [getD_append_zero, hbytes]
    have hfits' : x.toNat < 256 ^ (bytes ++ [back] ++ [0]).length := by
      rw [List.length_append, Nat.pow_add]
      exact Nat.lt_of_lt_of_le hfits (Nat.le_mul_of_pos_right _ (by decide))
    rw [hserialize, scriptNum, if_neg (by rw [List.length_append, List.length_singleton]; omega),
      hminimal, if_neg (by simp), setVch_eq hbytes' hfits' (by rw [List.getLastD_concat]; rfl)]

end Number

/-! ## Scripts -/

/-- The operations that `GetOp` reads from a script, one after the other to its end. -/
inductive Ops : List Byte → List (Byte × List Byte) → Prop
  | done : Ops [] []
  | op {script rest opcode vch ops} (h : getOp script = some (opcode, vch, rest))
    (hrest : Ops rest ops) : Ops script ((opcode, vch) :: ops)

/-- The number that an operation yields: one of its own, or a push that `CScriptNum` reads with at
most five bytes as few as can be. -/
def numberOf (opcode : Byte) (vch : List Byte) : Option (BitVec 64) :=
  match decodeOpN opcode with
  | some n => some n
  | none => if opcode.toNat ≤ 0x4e then (scriptNum vch true 5).toOption else none

theorem getOp_plain {opcode : Byte} (h : ¬ opcode.toNat ≤ 0x4e) (rest : List Byte) :
    getOp (opcode :: rest) = some (opcode, [], rest) := by
  rw [getOp, if_neg h]

theorem decodeOpN_small {x : BitVec 64} (hpos : 1 ≤ x.toNat) (hle : x.toNat ≤ 16) :
    ((x + 0x50).setWidth 8).toNat = x.toNat + 0x50 ∧
      decodeOpN ((x + 0x50).setWidth 8) = some x := by
  have hnat : ((x + 0x50).setWidth 8).toNat = x.toNat + 0x50 := by
    rw [BitVec.toNat_setWidth, BitVec.toNat_add]
    change (x.toNat + 0x50) % 2 ^ 64 % 2 ^ 8 = x.toNat + 0x50
    omega
  have hne : (x + 0x50).setWidth 8 ≠ 0 := by
    intro hzero
    rw [hzero] at hnat
    exact Nat.noConfusion hnat
  refine ⟨hnat, ?_⟩
  rw [decodeOpN, if_neg hne, if_pos (by omega)]
  congr 1
  apply BitVec.eq_of_toNat_eq
  rw [BitVec.toNat_sub, BitVec.toNat_setWidth, hnat]
  change (2 ^ 64 - 0x50 + (x.toNat + 0x50) % 2 ^ 64) % 2 ^ 64 = x.toNat
  omega

/-- A number that is read has no more bytes than are allowed, and some if it is not zero. -/
theorem length_of_scriptNum {vch : List Byte} {minimal : Bool} {k : Nat} {x : BitVec 64}
    (h : scriptNum vch minimal k = .ok x) (hx : x ≠ 0) : 0 < vch.length ∧ vch.length ≤ k := by
  rw [scriptNum] at h
  split at h
  next => cases h
  next hle =>
    split at h
    next => cases h
    next =>
      refine ⟨List.length_pos_iff.mpr ?_, Nat.le_of_not_lt hle⟩
      rintro rfl
      exact hx (Except.ok.inj h).symm

/-- The number that was pushed first, for a number of 32 bits. -/
theorem getOp_pushInt64 (nHeight : BitVec 32) (rest : List Byte) :
    ∃ opcode vch, getOp (pushInt64 [] (nHeight.setWidth 64) ++ rest) = some (opcode, vch, rest) ∧
      numberOf opcode vch = some (nHeight.setWidth 64) := by
  have hnat : (nHeight.setWidth 64).toNat = nHeight.toNat := by
    rw [BitVec.toNat_setWidth, Nat.mod_eq_of_lt (by omega)]
  have hneg : (nHeight.setWidth 64).msb = false := by
    rw [BitVec.msb_eq_false_iff_two_mul_lt, hnat]
    omega
  have hint : (nHeight.setWidth 64).toInt = (nHeight.setWidth 64).toNat :=
    BitVec.toInt_eq_toNat_of_msb hneg
  have hbound := nHeight.isLt
  generalize nHeight.setWidth 64 = x at hnat hneg hint ⊢
  have hminus : x ≠ -1 := by
    rintro rfl
    exact absurd hneg (by decide)
  rw [pushInt64]
  split
  next hsmall =>
    have hrange : 1 ≤ x.toNat ∧ x.toNat ≤ 16 := by
      have := hsmall.resolve_left hminus
      omega
    obtain ⟨hcode, hdecode⟩ := decodeOpN_small hrange.1 hrange.2
    refine ⟨_, [], getOp_plain (by omega) rest, ?_⟩
    rw [numberOf, hdecode]
  next =>
    split
    next hzero =>
      subst hzero
      exact ⟨0, [], rfl, rfl⟩
    next hpos =>
      have hread : scriptNum (scriptNumSerialize x) true 5 = .ok x :=
        scriptNum_serialize hpos hneg (by omega)
      obtain ⟨hlength, hle⟩ := length_of_scriptNum hread hpos
      obtain ⟨opcode, hpush, hdirect, hop⟩ :=
        getOp_pushBytes (b := scriptNumSerialize x) (by omega) rest
      have hcode := hdirect (by omega)
      have hdecode : decodeOpN opcode = none := by
        have hne : opcode ≠ 0 := by
          rintro rfl
          exact absurd hcode (Nat.ne_of_lt hlength)
        rw [decodeOpN, if_neg hne, if_neg (by omega)]
      refine ⟨opcode, _, hop, ?_⟩
      rw [numberOf, hdecode, if_pos hpush, hread]
      rfl

/-- The script of the first input of the coinbase. -/
def Work.coinbaseScriptSig (w : Work) : Option (List Byte) := do
  let coinbaseTx ← w.vtx.head?
  let i ← coinbaseTx.vin.head?
  pure i.scriptSig

/-- For a template with a coinbase to change, the script that is made reads back as two operations:
one that yields the height and one that pushes the extra nonces. -/
theorem Work.mutateCoinbase_reads_back (w : Work) (extraNonce1 extraNonce2 : String)
    (htemplate : w.stratumCoinbase1 = "") (hcoinbase : w.coinbaseScriptSig.isSome)
    (hnonce : (parseHex (extraNonce1 ++ extraNonce2)).length ≤ 520) :
    ∃ w' script height vch push,
      w.mutateCoinbase extraNonce1 extraNonce2 = some w' ∧ w'.coinbaseScriptSig = some script ∧
      Ops script [(height, vch), (push, parseHex (extraNonce1 ++ extraNonce2))] ∧
      numberOf height vch = some (w.nHeight.setWidth 64) := by
  obtain ⟨coinbaseTx, vtx, hvtx⟩ : ∃ coinbaseTx vtx, w.vtx = coinbaseTx :: vtx := by
    cases hvtx : w.vtx with
    | nil => simp [coinbaseScriptSig, hvtx] at hcoinbase
    | cons coinbaseTx vtx => exact ⟨_, _, rfl⟩
  obtain ⟨i, vin, hvin⟩ : ∃ i vin, coinbaseTx.vin = i :: vin := by
    cases hvin : coinbaseTx.vin with
    | nil => simp [coinbaseScriptSig, hvtx, hvin] at hcoinbase
    | cons i vin => exact ⟨_, _, rfl⟩
  obtain ⟨push, -, -, hpush⟩ :=
    getOp_pushBytes (b := parseHex (extraNonce1 ++ extraNonce2)) (by omega) []
  obtain ⟨height, vch, hheight, hnumber⟩ :=
    getOp_pushInt64 w.nHeight (pushBytes [] (parseHex (extraNonce1 ++ extraNonce2)))
  rw [List.append_nil] at hpush
  rw [← pushBytes_eq_append] at hheight
  have hops := Ops.op hheight (Ops.op hpush .done)
  rw [mutateCoinbase, hvtx]
  simp only [if_pos htemplate, templateCoinbase, hvin, Option.map_some]
  exact ⟨_, _, height, vch, push, rfl, rfl, hops, hnumber⟩

/-- A template at the first height whose bytes would show a sign. -/
def signTemplate : Work :=
  { Work.blank with vtx := [{ CTransaction.new with vin := [CTxIn.new] }], nHeight := 0x80 }

theorem signTemplate_reads_back :
    ∃ w' script height vch push,
      signTemplate.mutateCoinbase "f000000f" "deadbeef" = some w' ∧
      w'.coinbaseScriptSig = some script ∧
      Ops script [(height, vch), (push, parseHex ("f000000f" ++ "deadbeef"))] ∧
      numberOf height vch = some (signTemplate.nHeight.setWidth 64) :=
  Work.mutateCoinbase_reads_back signTemplate "f000000f" "deadbeef" rfl rfl (by decide +kernel)

end Energiminer.Primitives
