import Energiminer.Common.Serialize

/-!
# The codecs of the serialization templates

A compact size is its first byte, which says how many bytes follow, and the rest. Each size has one
form that `ReadCompactSize` accepts, and it is the one that `WriteCompactSize` writes.
-/

namespace Energiminer.Common
open Misc Misc.Codec

/-- The first byte of a compact size. -/
def sizeMark (nSize : Nat) : BitVec 8 :=
  if nSize < 253 then BitVec.ofNat 8 nSize
  else if nSize ≤ 0xffff then 253
  else if nSize ≤ 0xffffffff then 254
  else 255

/-- The other bytes of a compact size. -/
def sizeTail (nSize : Nat) : List Byte :=
  if nSize < 253 then []
  else if nSize ≤ 0xffff then leBytes 2 (BitVec.ofNat 16 nSize)
  else if nSize ≤ 0xffffffff then leBytes 4 (BitVec.ofNat 32 nSize)
  else leBytes 8 (BitVec.ofNat 64 nSize)

theorem writeCompactSize_eq (nSize : Nat) :
    writeCompactSize nSize = leBytes 1 (sizeMark nSize) ++ sizeTail nSize := by
  simp only [writeCompactSize, sizeMark, sizeTail]
  split
  · simp
  · split
    · rfl
    · split <;> rfl

/-- The first byte tells how long the size is. -/
theorem toNat_sizeMark (nSize : Nat) :
    nSize < 253 ∧ (sizeMark nSize).toNat = nSize ∨
      253 ≤ nSize ∧ nSize ≤ 0xffff ∧ (sizeMark nSize).toNat = 253 ∨
      0xffff < nSize ∧ nSize ≤ 0xffffffff ∧ (sizeMark nSize).toNat = 254 ∨
      0xffffffff < nSize ∧ (sizeMark nSize).toNat = 255 := by
  rw [sizeMark]
  split
  next hshort =>
    rw [BitVec.toNat_ofNat, Nat.mod_eq_of_lt (by omega)]
    exact .inl ⟨hshort, rfl⟩
  next hlong =>
    split
    next h2 => exact .inr (.inl ⟨Nat.not_lt.mp hlong, h2, rfl⟩)
    next h2 =>
      split
      next h4 => exact .inr (.inr (.inl ⟨Nat.not_le.mp h2, h4, rfl⟩))
      next h4 => exact .inr (.inr (.inr ⟨Nat.not_le.mp h4, rfl⟩))

section Codecs
variable {σ α : Type} [LawfulByteStream σ Failure]

theorem codes_readLongSize (n least : Nat) :
    Codes (readLongSize n least : Reader σ Failure Nat)
      (fun nSize => leBytes n (BitVec.ofNat (8 * n) nSize))
      fun nSize => nSize < 2 ^ (8 * n) ∧ least ≤ nSize := by
  have hword : Codes (readWord n >>= fun word => pure word.toNat : Reader σ Failure Nat)
      (fun nSize => leBytes n (BitVec.ofNat (8 * n) nSize)) fun nSize => nSize < 2 ^ (8 * n) := by
    refine ((Codes.readWord n).map BitVec.toNat (BitVec.ofNat (8 * n)) fun word _ => ?_).congr
      (fun _ _ => rfl) fun nSize => ?_
    · simp
    · rw [true_and, BitVec.toNat_ofNat]
      exact ⟨fun h => Nat.mod_eq_of_lt h, fun h => h ▸ Nat.mod_lt _ (Nat.two_pow_pos _)⟩
  refine (hword.refuse (fun nSize => nSize < least) .nonCanonical).congr (fun _ _ => rfl)
    fun nSize => ?_
  rw [Nat.not_lt]

/-- After its first byte, a size is read exactly from its other bytes. -/
theorem codes_readSizeAfter (chSize : BitVec 8) :
    Codes (readSizeAfter chSize : Reader σ Failure Nat) sizeTail
      fun nSize => sizeMark nSize = chSize ∧ nSize < 2 ^ 64 := by
  have hbyte := chSize.isLt
  rw [readSizeAfter]
  split
  next hshort =>
    refine (Codes.pure chSize.toNat).congr (fun nSize h => ?_) fun nSize => ?_
    · rw [sizeTail, if_pos (h ▸ hshort)]
    · have hmark := toNat_sizeMark nSize
      rw [← BitVec.toNat_inj]
      omega
  next hshort =>
    split
    next h253 =>
      subst h253
      refine (codes_readLongSize 2 253).congr (fun nSize h => ?_) fun nSize => ?_
      · rw [sizeTail, if_neg (by omega), if_pos (by omega)]
      · have hmark := toNat_sizeMark nSize
        rw [← BitVec.toNat_inj, show (253 : BitVec 8).toNat = 253 from rfl]
        omega
    next h253 =>
      split
      next h254 =>
        subst h254
        refine (codes_readLongSize 4 0x10000).congr (fun nSize h => ?_) fun nSize => ?_
        · rw [sizeTail, if_neg (by omega), if_neg (by omega), if_pos (by omega)]
        · have hmark := toNat_sizeMark nSize
          rw [← BitVec.toNat_inj, show (254 : BitVec 8).toNat = 254 from rfl]
          omega
      next h254 =>
        have h255 : chSize.toNat = 255 := by
          have h253 : chSize.toNat ≠ 253 := fun h => h253 (BitVec.eq_of_toNat_eq h)
          have h254 : chSize.toNat ≠ 254 := fun h => h254 (BitVec.eq_of_toNat_eq h)
          omega
        refine (codes_readLongSize 8 0x100000000).congr (fun nSize h => ?_) fun nSize => ?_
        · rw [sizeTail, if_neg (by omega), if_neg (by omega), if_neg (by omega)]
        · have hmark := toNat_sizeMark nSize
          rw [← BitVec.toNat_inj, h255]
          omega

theorem codes_readCompactSize :
    Codes (readCompactSize : Reader σ Failure Nat) writeCompactSize fun nSize => nSize ≤ MAX_SIZE := by
  have hsize : Codes (readWord 1 >>= fun chSize => readSizeAfter chSize : Reader σ Failure Nat)
      writeCompactSize fun nSize => nSize < 2 ^ 64 := by
    refine ((Codes.readWord 1).bind sizeMark fun chSize _ => codes_readSizeAfter chSize).congr
      (fun nSize _ => writeCompactSize_eq nSize) fun nSize => ?_
    rw [true_and]
  refine (hsize.refuse (fun nSize => MAX_SIZE < nSize) .tooLarge).congr (fun _ _ => rfl) fun nSize => ?_
  rw [Nat.not_lt, MAX_SIZE]
  omega

end Codecs

section Readers
variable {σ α : Type} [ByteStream σ Failure]

theorem reader_unserializeBytes (old : List Byte) :
    (unserializeBytes : Into σ Failure _).reader old = readCompactSize >>= fun nSize =>
      readChunks ByteStream.read (1 + 4999999 / 1) nSize nSize := by
  have hpiece : (fun n => (readInto n : Into σ Failure _).reader []) = ByteStream.read :=
    funext fun n => Into.reader_assign _ (List.replicate n 0)
  simp only [unserializeBytes, Into.reader_andThen, Into.reader_update, pure_bind,
    Into.reader_after, Into.reader_chunks, hpiece]

theorem reader_unserializeVector (sizeofT : Nat) (new : α) (unserialize : Into σ Failure α)
    (old : List α) :
    (unserializeVector sizeofT new unserialize).reader old = readCompactSize >>= fun nSize =>
      readChunks (readMany (unserialize.reader new)) (5000000 / sizeofT) nSize nSize := by
  have hpiece : (fun n => (Into.many unserialize new n).reader []) =
      readMany (unserialize.reader new) :=
    funext fun n => Into.reader_many unserialize new n []
  simp only [unserializeVector, Into.reader_andThen, Into.reader_update, pure_bind,
    Into.reader_after, Into.reader_chunks, hpiece]

end Readers

section Codecs
variable {σ α : Type} [LawfulByteStream σ Failure]

theorem codes_unserializeBytes (old : List Byte) :
    Codes ((unserializeBytes : Into σ Failure _).reader old) serializeBytes
      fun v => v.length ≤ MAX_SIZE := by
  have hread : ∀ n, Codes (ByteStream.read n : Reader σ Failure (List Byte)) id
      fun v => v.length = n ∧ ∀ x ∈ v, True := fun n =>
    (Codes.read n).congr (fun _ _ => rfl) fun v => by simp
  rw [reader_unserializeBytes]
  refine (codes_readCompactSize.bind List.length (V := fun _ => True) fun nSize _ => ?_).congr
    (fun v _ => rfl) fun v => ?_
  · refine (Codes.readChunks hread (fun _ _ => rfl) (by decide) (Nat.le_refl nSize)).congr
      (fun v _ => rfl) fun v => ?_
    simp
  · rw [and_true]

theorem codes_unserializeVector {unserialize : Into σ Failure α} {new : α} {w : α → List Byte}
    {v : α → Prop} (h : Codes (unserialize.reader new) w v) {sizeofT : Nat}
    (hsize : 0 < 5000000 / sizeofT) (old : List α) :
    Codes ((unserializeVector sizeofT new unserialize).reader old) (serializeVector w)
      fun xs => xs.length ≤ MAX_SIZE ∧ ∀ x ∈ xs, v x := by
  rw [reader_unserializeVector]
  refine (codes_readCompactSize.bind List.length (V := fun xs => ∀ x ∈ xs, v x)
    fun nSize _ => ?_).congr (fun xs _ => rfl) fun xs => Iff.rfl
  exact Codes.readChunks h.readMany (fun xs ys => List.flatMap_append) hsize (Nat.le_refl nSize)

end Codecs

section Preservation
variable {σ α : Type} [ByteStream σ Failure] {P : σ → Prop}

theorem preserves_readCompactSize (hread : ∀ n, Preserves P (ByteStream.read (σ := σ) n)) :
    Preserves P (readCompactSize : Reader σ Failure Nat) := by
  have hlong : ∀ n least, Preserves P (readLongSize n least : Reader σ Failure Nat) :=
    fun n least => ((Preserves.readWord hread n).bind fun _ => Preserves.pure _).bind fun _ =>
      (Preserves.throw _).ite (Preserves.pure _)
  have hafter : ∀ chSize, Preserves P (readSizeAfter chSize : Reader σ Failure Nat) :=
    fun chSize => (Preserves.pure _).ite <| (hlong _ _).ite <| (hlong _ _).ite (hlong _ _)
  exact ((Preserves.readWord hread 1).bind hafter).bind fun _ =>
    (Preserves.throw _).ite (Preserves.pure _)

theorem preserves_unserializeBytes (hread : ∀ n, Preserves P (ByteStream.read (σ := σ) n))
    (old : List Byte) : Preserves P ((unserializeBytes : Into σ Failure _).reader old) := by
  rw [reader_unserializeBytes]
  exact (preserves_readCompactSize hread).bind fun _ => Preserves.readChunks hread _ _ _

theorem preserves_unserializeVector (hread : ∀ n, Preserves P (ByteStream.read (σ := σ) n))
    {unserialize : Into σ Failure α} {new : α} (h : Preserves P (unserialize.reader new))
    (sizeofT : Nat) (old : List α) :
    Preserves P ((unserializeVector sizeofT new unserialize).reader old) := by
  rw [reader_unserializeVector]
  exact (preserves_readCompactSize hread).bind fun _ => Preserves.readChunks h.readMany _ _ _

end Preservation

end Energiminer.Common
