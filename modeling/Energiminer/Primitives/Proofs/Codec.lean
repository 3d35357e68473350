import Energiminer.Common.Proofs.Serialize
import Energiminer.Primitives.Block

/-!
# The codec of transactions and blocks

Every structure that goes over the wire has one form, which its reader accepts and its writer
writes. The codecs are built along the fields, from words, blobs and vectors up to blocks. On the
way back the hash of each transaction is computed anew.
-/

namespace Energiminer.Primitives
open Misc Misc.Codec Common

variable {σ : Type} [LawfulByteStream σ Failure]

theorem Uint256.serialize_ofBytes {bytes : List Byte} (h : bytes.length = 32) :
    (ofBytes bytes).serialize = bytes := by
  refine List.ext_getElem (by simp [serialize, h]) fun i hi hi' => ?_
  simp [serialize, ofBytes, List.getD, hi']

theorem Uint256.ofBytes_serialize (u : Uint256) : ofBytes u.serialize = u := by
  obtain ⟨data⟩ := u
  refine congrArg mk (Vector.ext fun i hi => ?_)
  simp [serialize, List.getD]

theorem codes_uint256 (old : Uint256) :
    Codes ((Uint256.unserialize : Into σ Failure _).reader old) Uint256.serialize
      fun _ => True := by
  rw [Uint256.unserialize, Into.reader_assign]
  refine ((Codes.read 32).map Uint256.ofBytes Uint256.serialize fun bytes h =>
    Uint256.serialize_ofBytes h).congr (fun u _ => rfl) fun u => ?_
  rw [Uint256.ofBytes_serialize]
  simp [Uint256.serialize]

theorem codes_word (n : Nat) (old : BitVec (8 * n)) :
    Codes ((Into.assign (readWord n) : Into σ Failure _).reader old) (leBytes n)
      fun _ => True := by
  rw [Into.reader_assign]
  exact Codes.readWord n

theorem codes_outPoint (old : COutPoint) :
    Codes ((COutPoint.unserialize : Into σ Failure _).reader old) COutPoint.serialize
      fun _ => True := by
  simp only [COutPoint.unserialize, Into.reader_andThen, Into.reader_field, bind_assoc, pure_bind]
  refine (Codes.next (K := fun _ => True) COutPoint.hash (codes_uint256 _) fun hash _ =>
    (codes_word 4 _).last COutPoint.n _ fun n p => ?_).congr (fun p _ => rfl) fun p => ?_
  · cases p
    simp [eq_comm]
  · simp

/-- The script of an input can be read back. -/
def CTxIn.Fits (i : CTxIn) : Prop := i.scriptSig.length ≤ MAX_SIZE

instance (i : CTxIn) : Decidable i.Fits := inferInstanceAs (Decidable (_ ≤ _))

theorem codes_txIn (old : CTxIn) :
    Codes ((CTxIn.unserialize : Into σ Failure _).reader old) CTxIn.serialize CTxIn.Fits := by
  simp only [CTxIn.unserialize, Into.reader_andThen, Into.reader_field, bind_assoc, pure_bind]
  refine (Codes.next (K := fun _ => True) CTxIn.prevout (codes_outPoint _) fun prevout _ =>
    Codes.next CTxIn.scriptSig (codes_unserializeBytes _) fun scriptSig _ =>
    (codes_word 4 _).last CTxIn.nSequence _ fun nSequence i => ?_).congr (fun i _ => ?_) fun i => ?_
  · cases i
    simp [eq_comm, and_assoc]
  · rw [CTxIn.serialize, List.append_assoc]
  · simp [CTxIn.Fits]

/-- The script of an output can be read back. -/
def CTxOut.Fits (o : CTxOut) : Prop := o.scriptPubKey.length ≤ MAX_SIZE

instance (o : CTxOut) : Decidable o.Fits := inferInstanceAs (Decidable (_ ≤ _))

theorem codes_txOut (old : CTxOut) :
    Codes ((CTxOut.unserialize : Into σ Failure _).reader old) CTxOut.serialize CTxOut.Fits := by
  simp only [CTxOut.unserialize, Into.reader_andThen, Into.reader_field, bind_assoc, pure_bind]
  refine (Codes.next (K := fun _ => True) CTxOut.nValue (codes_word 8 _) fun nValue _ =>
    (codes_unserializeBytes _).last CTxOut.scriptPubKey _ fun scriptPubKey o => ?_).congr
    (fun o _ => rfl) fun o => ?_
  · cases o
    simp [eq_comm]
  · simp [CTxOut.Fits]

namespace CTransaction

/-- The numbers of inputs and outputs and the sizes of their scripts. -/
def Fits (tx : CTransaction) : Prop :=
  (tx.vin.length ≤ MAX_SIZE ∧ ∀ i ∈ tx.vin, i.Fits) ∧
    (tx.vout.length ≤ MAX_SIZE ∧ ∀ o ∈ tx.vout, o.Fits)

instance (tx : CTransaction) : Decidable tx.Fits :=
  inferInstanceAs (Decidable ((_ ∧ ∀ i ∈ tx.vin, i.Fits) ∧ (_ ∧ ∀ o ∈ tx.vout, o.Fits)))

/-- The hash that a transaction keeps is not part of its form. -/
theorem serialize_withHash (tx : CTransaction) (h : Uint256) :
    ({ tx with hash := h } : CTransaction).serialize = tx.serialize := rfl

@[simp] theorem serialize_updateHash (tx : CTransaction) :
    tx.updateHash.serialize = tx.serialize := tx.serialize_withHash _

theorem updateHash_withHash (tx : CTransaction) (h : Uint256) :
    ({ tx with hash := h } : CTransaction).updateHash = tx.updateHash := by
  rw [updateHash, updateHash, serialize_withHash]

@[simp] theorem updateHash_updateHash (tx : CTransaction) :
    tx.updateHash.updateHash = tx.updateHash := tx.updateHash_withHash _

theorem hash_of_updateHash_eq {tx : CTransaction} (h : tx.updateHash = tx) :
    tx.hash = Sha256.hash256 tx.serialize := (congrArg hash h).symm

theorem fits_withHash (tx : CTransaction) (h : Uint256) :
    ({ tx with hash := h } : CTransaction).Fits ↔ tx.Fits := Iff.rfl

end CTransaction

/-- What is read is a transaction with its hash up to date. -/
theorem codes_transaction (old : CTransaction) :
    Codes ((CTransaction.unserialize : Into σ Failure _).reader old) CTransaction.serialize
      fun tx => tx.updateHash = tx ∧ tx.Fits := by
  simp only [CTransaction.unserialize, Into.reader_andThen, Into.reader_field,
    Into.reader_update, bind_assoc, pure_bind]
  refine (Codes.next (K := fun tx => tx.updateHash = tx) CTransaction.nVersion (codes_word 4 _)
    fun nVersion _ =>
    Codes.next CTransaction.vin (codes_unserializeVector (codes_txIn _) (by decide) _) fun vin _ =>
    Codes.next CTransaction.vout (codes_unserializeVector (codes_txOut _) (by decide) _)
      fun vout _ =>
    (codes_word 4 _).last CTransaction.nLockTime _ fun nLockTime tx => ?_).congr
      (fun tx _ => ?_) fun tx => ?_
  · constructor
    · rintro rfl
      exact ⟨⟨⟨⟨CTransaction.updateHash_updateHash _, rfl⟩, rfl⟩, rfl⟩, rfl⟩
    · rintro ⟨⟨⟨⟨h, rfl⟩, rfl⟩, rfl⟩, rfl⟩
      exact (tx.updateHash_withHash old.hash).trans h
  · simp only [CTransaction.serialize, List.append_assoc]
  · simp [CTransaction.Fits]

theorem codes_blockHeader (old : BlockHeader) :
    Codes ((BlockHeader.unserialize : Into σ Failure _).reader old) BlockHeader.serialize
      fun _ => True := by
  simp only [BlockHeader.unserialize, Into.reader_andThen, Into.reader_field, bind_assoc, pure_bind]
  refine (Codes.next (K := fun _ => True) BlockHeader.nVersion (codes_word 4 _) fun nVersion _ =>
    Codes.next BlockHeader.hashPrevBlock (codes_uint256 _) fun hashPrevBlock _ =>
    Codes.next BlockHeader.hashMerkleRoot (codes_uint256 _) fun hashMerkleRoot _ =>
    Codes.next BlockHeader.nTime (codes_word 4 _) fun nTime _ =>
    Codes.next BlockHeader.nBits (codes_word 4 _) fun nBits _ =>
    Codes.next BlockHeader.nHeight (codes_word 4 _) fun nHeight _ =>
    Codes.next BlockHeader.hashMix (codes_uint256 _) fun hashMix _ =>
    (codes_word 8 _).last BlockHeader.nNonce _ fun nNonce h => ?_).congr
      (fun h _ => ?_) fun h => ?_
  · cases h
    simp [eq_comm, and_assoc]
  · simp only [BlockHeader.serialize, List.append_assoc]
  · simp

/-- A block keeps the parts of its coinbase when the rest is read into it. -/
theorem codes_block (old : Block) :
    Codes ((Block.unserialize : Into σ Failure _).reader old) Block.serialize
      fun b => (b.stratumCoinbase1 = old.stratumCoinbase1 ∧
        b.stratumCoinbase2 = old.stratumCoinbase2) ∧ b.vtx.length ≤ MAX_SIZE ∧
          ∀ tx ∈ b.vtx, tx.updateHash = tx ∧ tx.Fits := by
  simp only [Block.unserialize, Into.reader_andThen, Into.reader_field, bind_assoc, pure_bind]
  refine (Codes.next (K := fun b => b.stratumCoinbase1 = old.stratumCoinbase1 ∧
      b.stratumCoinbase2 = old.stratumCoinbase2) Block.toBlockHeader (codes_blockHeader _)
    fun header _ =>
    (codes_unserializeVector (codes_transaction _) (by decide) _).last Block.vtx _
      fun vtx b => ?_).congr (fun b _ => rfl) fun b => ?_
  · cases b
    simp [eq_comm]
    grind
  · simp

/-- The counts of a block whose form can be read back. -/
def Block.Fits (b : Block) : Prop := b.vtx.length ≤ MAX_SIZE ∧ ∀ tx ∈ b.vtx, tx.Fits

instance (b : Block) : Decidable b.Fits :=
  inferInstanceAs (Decidable (_ ∧ ∀ tx ∈ b.vtx, tx.Fits))

/-- A block is restored from its form, each transaction with its hash up to date, and no byte more
is read. A transaction is only read from the form that it is written in, and its hash is the hash of
the bytes it was read from. -/
theorem codec_block_transaction :
    (∀ (b old : Block) (s : σ) (tail : List Byte), b.Fits → Left s (b.serialize ++ tail) →
      ∃ t, Block.unserialize old s = ({ old with
        toBlockHeader := b.toBlockHeader, vtx := b.vtx.map CTransaction.updateHash }, .ok t) ∧
        Left t tail) ∧
    (∀ (tx old : CTransaction) (s t : σ) (bytes : List Byte), Left s bytes →
      CTransaction.unserialize old s = (tx, .ok t) →
      ∃ received tail, bytes = received ++ tail ∧ Left t tail ∧ tx.serialize = received ∧
        tx.hash = Sha256.hash256 received) := by
  refine ⟨fun b old s tail hfits hs => ?_, fun tx old s t bytes hs hread => ?_⟩
  · let b' : Block := { old with
      toBlockHeader := b.toBlockHeader, vtx := b.vtx.map CTransaction.updateHash }
    have hwrite : b'.serialize = b.serialize := by
      simp [b', Block.serialize, serializeVector, List.flatMap_map]
    have hvalid : b'.vtx.length ≤ MAX_SIZE ∧ ∀ tx ∈ b'.vtx, tx.updateHash = tx ∧ tx.Fits := by
      refine ⟨by simpa [b'] using hfits.1, fun tx htx => ?_⟩
      obtain ⟨tx, hmem, rfl⟩ := List.mem_map.mp htx
      exact ⟨tx.updateHash_updateHash, (tx.fits_withHash _).mpr (hfits.2 tx hmem)⟩
    obtain ⟨t, ht, hleft⟩ :=
      (codes_block old).decodes (x := b') ⟨⟨rfl, rfl⟩, hvalid⟩ (hwrite ▸ hs)
    exact ⟨t, Into.reader_eq_ok.mp ht, hleft⟩
  · obtain ⟨⟨hhash, -⟩, tail, hbytes, ht⟩ :=
      (codes_transaction old).canonical hs (Into.reader_eq_ok.mpr hread)
    exact ⟨tx.serialize, tail, hbytes, ht, rfl, CTransaction.hash_of_updateHash_eq hhash⟩

/-- A coinbase transaction with one input and one output. -/
def sampleCoinbase : CTransaction :=
  ⟨Uint256.null, 1, [⟨COutPoint.new, [0x51, 0x04], 0xffffffff⟩], [⟨5000000000, [0x76, 0xa9]⟩], 0⟩

/-- A block of the coinbase alone. -/
def sampleBlock : Block where
  nVersion := 4
  hashPrevBlock := Uint256.null
  hashMerkleRoot := Uint256.null
  nTime := 1523000000
  nBits := 0x1e0fffff
  nHeight := 1
  hashMix := Uint256.null
  nNonce := 7
  vtx := [sampleCoinbase]
  stratumCoinbase1 := ""
  stratumCoinbase2 := ""

theorem sampleBlock_fits : sampleBlock.Fits := by
  simp [Block.Fits, CTransaction.Fits, CTxIn.Fits, CTxOut.Fits, sampleBlock, sampleCoinbase,
    MAX_SIZE]

theorem codec_sampleBlock :
    (∃ t, Block.unserialize sampleBlock sampleBlock.serialize = ({ sampleBlock with
      vtx := [sampleCoinbase.updateHash] }, .ok t) ∧ Left t []) ∧
    ∃ tx t, CTransaction.unserialize CTransaction.new sampleCoinbase.serialize = (tx, .ok t) ∧
      ∃ received tail, sampleCoinbase.serialize = received ++ tail ∧ Left t tail ∧
        tx.serialize = received ∧ tx.hash = Sha256.hash256 received := by
  have hself : ∀ bytes : List Byte, Left bytes bytes := fun bytes => rfl
  have hwhole : ∀ bytes : List Byte, Left bytes (bytes ++ []) := fun bytes =>
    (List.append_nil bytes).symm
  refine ⟨codec_block_transaction.1 sampleBlock sampleBlock _ [] sampleBlock_fits (hwhole _), ?_⟩
  have hleft : Left sampleCoinbase.serialize (sampleCoinbase.updateHash.serialize ++ []) := by
    rw [CTransaction.serialize_updateHash]
    exact hwhole _
  have hfits := sampleBlock_fits.2 sampleCoinbase List.mem_cons_self
  obtain ⟨t, ht, -⟩ := (codes_transaction CTransaction.new).decodes
    ⟨sampleCoinbase.updateHash_updateHash, (sampleCoinbase.fits_withHash _).mpr hfits⟩ hleft
  have hread := Into.reader_eq_ok.mp ht
  exact ⟨_, t, hread, codec_block_transaction.2 _ _ _ t _ (hself _) hread⟩

end Energiminer.Primitives
