import Energiminer.Common.Proofs.Hex
import Energiminer.Primitives.Proofs.Codec
import Energiminer.Primitives.Work

/-!
# The coinbase of a stratum job

The coinbase that is mined on is the one that the text of the job stands for: decoding loses
nothing, so that what is submitted is the same text, and what is hashed are its bytes.
-/

namespace Energiminer.Primitives
open Misc Misc.Codec Common

section Preservation
variable {σ : Type} [ByteStream σ Failure] {P : σ → Prop}

/-- A transaction is read by reads of bytes alone. -/
theorem preserves_transaction (hread : ∀ n, Preserves P (ByteStream.read (σ := σ) n))
    (old : CTransaction) : Preserves P (CTransaction.unserialize.reader old) := by
  have hword : ∀ n (old : BitVec (8 * n)),
      Preserves P ((Into.assign (readWord n) : Into σ Failure _).reader old) := fun n old => by
    rw [Into.reader_assign]
    exact Preserves.readWord hread n
  have huint256 : ∀ old, Preserves P ((Uint256.unserialize : Into σ Failure _).reader old) :=
    fun old => by
      rw [Uint256.unserialize, Into.reader_assign]
      exact (hread 32).bind fun _ => Preserves.pure _
  have hpoint : ∀ old, Preserves P ((COutPoint.unserialize : Into σ Failure _).reader old) :=
    fun old => by
      simp only [COutPoint.unserialize, Into.reader_andThen, Into.reader_field, bind_assoc,
        pure_bind]
      exact (huint256 _).bind fun _ => (hword 4 _).bind fun _ => Preserves.pure _
  have hin : ∀ old, Preserves P ((CTxIn.unserialize : Into σ Failure _).reader old) := fun old => by
    simp only [CTxIn.unserialize, Into.reader_andThen, Into.reader_field, bind_assoc, pure_bind]
    exact (hpoint _).bind fun _ => (preserves_unserializeBytes hread _).bind fun _ =>
      (hword 4 _).bind fun _ => Preserves.pure _
  have hout : ∀ old, Preserves P ((CTxOut.unserialize : Into σ Failure _).reader old) :=
    fun old => by
      simp only [CTxOut.unserialize, Into.reader_andThen, Into.reader_field, bind_assoc, pure_bind]
      exact (hword 8 _).bind fun _ => (preserves_unserializeBytes hread _).bind fun _ =>
        Preserves.pure _
  simp only [CTransaction.unserialize, Into.reader_andThen, Into.reader_field,
    Into.reader_update, bind_assoc, pure_bind]
  exact (hword 4 _).bind fun _ => (preserves_unserializeVector hread (hin _) _ _).bind fun _ =>
    (preserves_unserializeVector hread (hout _) _ _).bind fun _ => (hword 4 _).bind fun _ =>
      Preserves.pure _

end Preservation

/-- The bytes decode as a transaction, and none of them is left. -/
def DecodesWhole (bytes : List Byte) : Prop :=
  ∃ tx t, CTransaction.unserialize CTransaction.new (CDataStream.mk bytes 0) = (tx, .ok t) ∧
    t.size = 0

/-- The decoder reads all of the bytes. -/
def decodesWhole (bytes : List Byte) : Bool :=
  match CTransaction.unserialize CTransaction.new (CDataStream.mk bytes 0) with
  | (_, .ok t) => decide (t.size = 0)
  | (_, .error _) => false

theorem decodesWhole_iff {bytes : List Byte} : decodesWhole bytes = true ↔ DecodesWhole bytes := by
  rw [decodesWhole]
  split
  next tx t hread =>
    constructor
    · intro h
      exact ⟨tx, t, hread, of_decide_eq_true h⟩
    · rintro ⟨tx', t', hread', hsize⟩
      cases hread.symm.trans hread'
      exact decide_eq_true hsize
  next hread =>
    refine ⟨nofun, ?_⟩
    rintro ⟨tx', t', hread', -⟩
    cases hread.symm.trans hread'

instance (bytes : List Byte) : Decidable (DecodesWhole bytes) :=
  decidable_of_iff (decodesWhole bytes = true) decodesWhole_iff

/-- Data too long for the read position of the stream are never read to the end. -/
theorem DecodesWhole.length_lt {bytes : List Byte} (h : DecodesWhole bytes) :
    bytes.length < 2 ^ 32 := by
  obtain ⟨tx, t, hread, hsize⟩ := h
  rcases Nat.lt_or_ge bytes.length (2 ^ 32) with hlt | hge
  · exact hlt
  · have hvch : t.vch = bytes :=
      preserves_transaction (CDataStream.preserves_long bytes hge) CTransaction.new
        _ _ _ rfl (Into.reader_eq_ok.mpr hread)
    have hpos := t.nReadPos.isLt
    rw [CDataStream.size, hvch] at hsize
    omega

/-- Such bytes are the form of the transaction that is read from them, whose hash is theirs. -/
theorem decodeHexTx_eq {str : String} (hhex : isHex str) (h : DecodesWhole (parseHex str)) :
    ∃ tx, decodeHexTx CTransaction.new str = (tx, true) ∧ tx.serialize = parseHex str ∧
      tx.updateHash = tx := by
  have hlength := h.length_lt
  obtain ⟨tx, t, hread, hsize⟩ := h
  obtain ⟨⟨hhash, -⟩, tail, hbytes, -, htail⟩ := (codes_transaction CTransaction.new).canonical
    (CDataStream.left_mk hlength) (Into.reader_eq_ok.mpr hread)
  have hnil : tail = [] := by
    rw [← htail, CDataStream.rest]
    exact List.drop_eq_nil_of_le (Nat.le_of_sub_eq_zero hsize)
  refine ⟨tx, ?_, ?_, hhash⟩
  · rw [decodeHexTx, if_pos hhex, hread]
  · rw [hbytes, hnil, List.append_nil]

/-- A new extra nonce changes the coinbase and the merkle root. -/
theorem Work.updateExtraNonce_eq {w updated : Work} {extraNonce : BitVec 32}
    (h : w.updateExtraNonce extraNonce = some updated) :
    ∃ tx vtx coinbase, w.vtx = tx :: vtx ∧
      (if w.stratumCoinbase1 = "" then
        w.templateCoinbase tx w.extraNonce1 (hexStrMemory extraNonce)
      else some (w.stratumCoinbase w.extraNonce1 (hexStrMemory extraNonce))) = some coinbase ∧
      updated = { w with
        extraNonce2 := extraNonce, vtx := coinbase :: vtx
        hashMerkleRoot := computeMerkleRoot ((coinbase :: vtx).map CTransaction.hash) } := by
  rw [updateExtraNonce, mutateCoinbase] at h
  split at h
  next => cases h
  next tx vtx hvtx =>
    obtain ⟨coinbase, hcoinbase, rfl⟩ := Option.map_eq_some_iff.mp h
    exact ⟨tx, vtx, coinbase, hvtx, hcoinbase, rfl⟩

/-- The coinbase that a stratum job is mined on is the text of the job. -/
theorem Work.stratumCoinbase_fidelity (w : Work) (extraNonce1 H : String)
    (hjob : w.stratumCoinbase1 ≠ "") (hvtx : w.vtx ≠ [])
    (hH : H = w.stratumCoinbase1 ++ extraNonce1 ++ w.getExtraNonce2 ++ w.stratumCoinbase2)
    (hhex : isHex H) (hwhole : DecodesWhole (parseHex H)) :
    ∃ w', w.mutateCoinbase extraNonce1 w.getExtraNonce2 = some w' ∧
      w'.getBlockTransaction = some (lowerCase H) ∧
      H = w.stratumCoinbase1 ++ extraNonce1 ++ w'.getExtraNonce2 ++ w.stratumCoinbase2 ∧
      w'.hashMerkleRoot = computeMerkleRoot
        (Sha256.hash256 (parseHex H) :: (w.vtx.drop 1).map CTransaction.hash) := by
  obtain ⟨tx, hdecode, hserialize, -⟩ := decodeHexTx_eq hhex hwhole
  obtain ⟨coinbaseTx, vtx, hcons⟩ := List.exists_cons_of_ne_nil hvtx
  have hcoinbase : w.stratumCoinbase extraNonce1 w.getExtraNonce2 = tx.updateHash := by
    rw [stratumCoinbase, ← hH, hdecode]
  refine ⟨{ w with
    vtx := tx.updateHash :: vtx
    hashMerkleRoot := blockMerkleRoot { w.toBlock with vtx := tx.updateHash :: vtx } }, ?_, ?_, hH, ?_⟩
  · rw [mutateCoinbase, hcons]
    simp only [if_neg hjob, hcoinbase, Option.map_some]
  · simp only [getBlockTransaction, List.head?_cons, Option.map_some,
      CTransaction.serialize_updateHash, hserialize, hexStr_parseHex hhex]
  · simp only [blockMerkleRoot, List.map_cons, hcons, List.drop_succ_cons, List.drop_zero,
      CTransaction.updateHash, hserialize]

/-- A job with one input and no output in its coinbase, whose script ends with the extra nonces. -/
def sampleJob : Work :=
  { Work.blank with
    stratumCoinbase1 := "0100000001" ++
      "0000000000000000000000000000000000000000000000000000000000000000" ++ "FFFFFFFF0951"
    stratumCoinbase2 := "FFFFFFFF0000000000"
    vtx := [CTransaction.new]
    nHeight := 1
    extraNonce2 := 0xdeadbeef }

/-- The coinbase transaction that the job stands for. -/
def sampleJobCoinbase : CTransaction :=
  ⟨Uint256.null, 1, [⟨COutPoint.new, [0x51, 0xf0, 0, 0, 0x0f, 0xef, 0xbe, 0xad, 0xde], 0xffffffff⟩],
    [], 0⟩

def sampleJobText : String :=
  sampleJob.stratumCoinbase1 ++ "f000000f" ++ sampleJob.getExtraNonce2 ++ sampleJob.stratumCoinbase2

theorem decodesWhole_sampleJob : DecodesWhole (parseHex sampleJobText) := by
  have hfits : sampleJobCoinbase.updateHash.Fits := by
    simp [CTransaction.Fits, CTxIn.Fits, CTransaction.updateHash, sampleJobCoinbase, MAX_SIZE]
  have hbytes : parseHex sampleJobText = sampleJobCoinbase.updateHash.serialize ++ [] := by
    rw [CTransaction.serialize_updateHash]
    decide +kernel
  have hleft : Left (CDataStream.mk (parseHex sampleJobText) 0)
      (sampleJobCoinbase.updateHash.serialize ++ []) :=
    hbytes ▸ CDataStream.left_mk (by decide +kernel)
  obtain ⟨t, ht, haddr, htail⟩ := (codes_transaction CTransaction.new).decodes
    ⟨CTransaction.updateHash_updateHash _, hfits⟩ hleft
  refine ⟨_, t, Into.reader_eq_ok.mp ht, ?_⟩
  have hlen := congrArg List.length htail
  rwa [CDataStream.rest, List.length_drop] at hlen

theorem sampleJob_fidelity :
    ∃ w', sampleJob.mutateCoinbase "f000000f" sampleJob.getExtraNonce2 = some w' ∧
      w'.getBlockTransaction = some (lowerCase sampleJobText) ∧
      sampleJobText = sampleJob.stratumCoinbase1 ++ "f000000f" ++ w'.getExtraNonce2 ++
        sampleJob.stratumCoinbase2 ∧
      w'.hashMerkleRoot = computeMerkleRoot [Sha256.hash256 (parseHex sampleJobText)] :=
  Work.stratumCoinbase_fidelity sampleJob "f000000f" sampleJobText (by decide) (by simp [sampleJob])
    rfl (by decide +kernel) decodesWhole_sampleJob

end Energiminer.Primitives
