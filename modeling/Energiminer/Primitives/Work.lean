import Energiminer.Common.Hex
import Energiminer.Common.Streams
import Energiminer.Misc.Json
import Energiminer.Primitives.ArithUint256
import Energiminer.Primitives.Merkle
import Energiminer.Primitives.Script

/-!
# Work

`Work` of `primitives/work.{h,cpp}` and the `Block` it is built from, for a job of a stratum pool
(`block.h:119-145`, `work.cpp:16-69`). `DecodeHexTx` catches every exception of the decoder, so of a
transaction only the conversion of its JSON text decides whether the construction throws.
-/

namespace Energiminer.Primitives
open Misc Misc.Json Common

/-- `DecodeHexTx` (`transaction.h:379-394`), and the transaction as it leaves it. A read past the
end of the data, which needs text of eight gigabytes, counts as a failure. -/
def decodeHexTx (tx : CTransaction) (strHexTx : String) : CTransaction × Bool :=
  if isHex strHexTx then
    match CTransaction.unserialize tx (CDataStream.mk (parseHex strHexTx) 0) with
    | (tx, .ok _) => (tx, true)
    | (tx, .error _) => (tx, false)
  else (tx, false)

/-- `Work` (`work.h:31-35`). -/
structure Work extends Block where
  extraNonce1 : String
  extraNonce2 : BitVec 32
  jobName : String
  hashTarget : ArithUint256
  deriving DecidableEq

namespace Work

/-- `Block::SetNull` (`block.h:263-270`), which leaves `nBits` and the parts of the coinbase as they
are. -/
def setNull (w : Work) : Work :=
  { w with
    nVersion := 0, hashPrevBlock := Uint256.null, hashMerkleRoot := Uint256.null, nTime := 0
    nHeight := 0, hashMix := Uint256.null, nNonce := 0, vtx := [] }

/-- `Work()`. -/
def blank : Work where
  nVersion := 0
  hashPrevBlock := Uint256.null
  hashMerkleRoot := Uint256.null
  nTime := 0
  nBits := 0
  nHeight := 0
  hashMix := Uint256.null
  nNonce := 0
  vtx := []
  stratumCoinbase1 := ""
  stratumCoinbase2 := ""
  extraNonce1 := ""
  extraNonce2 := 0
  jobName := ""
  hashTarget := ⟨Vector.replicate WIDTH 0⟩

instance : Inhabited Work := ⟨blank⟩

/-- `operator==` (`work.h:48-56`): the previous block, the height, the extra nonce and the target. -/
def eqv (a b : Work) : Bool :=
  decide (a.hashPrevBlock = b.hashPrevBlock) && decide (a.nHeight = b.nHeight) &&
    decide (a.extraNonce1 = b.extraNonce1) && decide (a.hashTarget = b.hashTarget)

/-- `Work::reset` (`work.h:63-68`). -/
def reset (w : Work) : Work := { w.setNull with jobName := "", extraNonce1 := "" }

/-- `isValid()` (`work.h:70-73`). -/
def isValid (w : Work) : Bool := decide (0 < w.nHeight)

/-- The text of parameter `i`, `jPrm.get(i, "").asString()`. -/
def paramText (jPrm : Value) (i : Nat) : Except Exn String :=
  (jPrm.getAt i (.string "")).asString

/-- Parameter `i` as a hexadecimal number, cut to 32 bits. -/
def paramHex (jPrm : Value) (i : Nat) : Except Exn (BitVec 32) := do
  let text ← paramText jPrm i
  let n ← stoul16 text.toList
  pure (n.setWidth 32)

/-- `branch["data"].asString()` for a transaction of the job. -/
def branchData (branch : Value) : Except Exn String := do
  let data ← branch.index "data"
  data.asString

/-- `Work(stratum, extraNonce1, hashTarget)` (`work.cpp:16-23`). -/
def ofStratum (jPrm : Value) (extraNonce1 : String) (hashTarget : ArithUint256) :
    Except Exn Work := do
  let hashPrevBlock ← paramText jPrm 1
  let nVersion ← paramHex jPrm 5
  let nTime ← paramHex jPrm 7
  let nBits ← paramHex jPrm 6
  let nHeight ← (jPrm.getAt 9 (.string "")).asUInt
  let stratumCoinbase1 ← paramText jPrm 2
  let stratumCoinbase2 ← paramText jPrm 3
  let hexData := stratumCoinbase1 ++ extraNonce1 ++ extraNonce1 ++ stratumCoinbase2
  let coinbaseTx := (decodeHexTx CTransaction.new hexData).1.updateHash
  let branches ← (jPrm.getAt 4 (.string "")).values.mapM branchData
  let jobName ← paramText jPrm 0
  pure {
    nVersion, hashPrevBlock := Uint256.setHex hashPrevBlock.toList
    hashMerkleRoot := Uint256.null, nTime, nBits, nHeight, hashMix := Uint256.null, nNonce := 0
    vtx := coinbaseTx :: branches.map fun data => (decodeHexTx CTransaction.new data).1
    stratumCoinbase1, stratumCoinbase2, extraNonce1, extraNonce2 := 0, jobName, hashTarget }

/-- `getExtraNonce2()` (`work.h:100-103`). -/
def getExtraNonce2 (w : Work) : String := hexStrMemory w.extraNonce2

/-- `getBlockTransaction()` (`work.cpp:45-50`), which needs a transaction. -/
def getBlockTransaction (w : Work) : Option String :=
  w.vtx.head?.map fun tx => hexStr tx.serialize

/-- The coinbase of a template, with the height and the extra nonces in the script of its first
input. -/
def templateCoinbase (w : Work) (coinbaseTx : CTransaction) (extraNonce1 extraNonce2 : String) :
    Option CTransaction :=
  match coinbaseTx.vin with
  | [] => none
  | i :: vin =>
    let scriptSig := pushBytes (pushInt64 [] (w.nHeight.setWidth 64))
      (parseHex (extraNonce1 ++ extraNonce2))
    some { coinbaseTx with vin := { i with scriptSig := scriptSig } :: vin }.updateHash

/-- The coinbase of a stratum job, decoded from its parts. -/
def stratumCoinbase (w : Work) (extraNonce1 extraNonce2 : String) : CTransaction :=
  let hexData := w.stratumCoinbase1 ++ extraNonce1 ++ extraNonce2 ++ w.stratumCoinbase2
  (decodeHexTx CTransaction.new hexData).1.updateHash

/-- `mutateCoinbase` (`work.cpp:52-69`), which needs a transaction and for a template an input of
it. -/
def mutateCoinbase (w : Work) (extraNonce1 extraNonce2 : String) : Option Work :=
  match w.vtx with
  | [] => none
  | coinbaseTx :: vtx =>
    let coinbase :=
      if w.stratumCoinbase1 = "" then w.templateCoinbase coinbaseTx extraNonce1 extraNonce2
      else some (w.stratumCoinbase extraNonce1 extraNonce2)
    coinbase.map fun coinbase =>
      let block := { w.toBlock with vtx := coinbase :: vtx }
      { w with toBlock := { block with hashMerkleRoot := blockMerkleRoot block } }

/-- `updateExtraNonce` (`work.cpp:32-38`), with the number that the generator gives. -/
def updateExtraNonce (w : Work) (extraNonce : BitVec 32) : Option Work :=
  let w := { w with extraNonce2 := extraNonce }
  w.mutateCoinbase w.extraNonce1 w.getExtraNonce2

@[simp] theorem eqv_refl (w : Work) : w.eqv w = true := by simp [eqv]

theorem eqv_symm {a b : Work} (h : a.eqv b) : b.eqv a := by
  simp only [eqv, Bool.and_eq_true, decide_eq_true_eq] at h ⊢
  obtain ⟨⟨⟨hprev, hheight⟩, hnonce⟩, htarget⟩ := h
  exact ⟨⟨⟨hprev.symm, hheight.symm⟩, hnonce.symm⟩, htarget.symm⟩

theorem eqv_trans {a b c : Work} (hab : a.eqv b) (hbc : b.eqv c) : a.eqv c := by
  simp only [eqv, Bool.and_eq_true, decide_eq_true_eq] at hab hbc ⊢
  obtain ⟨⟨⟨hprev, hheight⟩, hnonce⟩, htarget⟩ := hab
  obtain ⟨⟨⟨hprev', hheight'⟩, hnonce'⟩, htarget'⟩ := hbc
  exact ⟨⟨⟨hprev.trans hprev', hheight.trans hheight'⟩, hnonce.trans hnonce'⟩,
    htarget.trans htarget'⟩

end Work

end Energiminer.Primitives
