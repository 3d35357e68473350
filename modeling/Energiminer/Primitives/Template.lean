import Energiminer.Primitives.ArithOps
import Energiminer.Primitives.Base58
import Energiminer.Primitives.Work

/-!
# Work of a block template

`Work` and `Block` for the result of `getblocktemplate` (`block.h:33-43`, `block.h:147-252`,
`work.cpp:25-30`): the coinbase with the payments that the template asks for, and the transactions
it lists. The payments that the block keeps besides, which nothing reads, are left out.
-/

namespace Energiminer.Primitives
open Misc Misc.Json Common

/-- How the construction from a template ends without a work. -/
inductive Refusal
  /-- a conversion throws -/
  | threw (e : Exn)
  /-- `WorkException` -/
  | workException (what : String)
  /-- `exit(1)` -/
  | exit
  /-- the address does not fit an `int` -/
  | aborted (f : Base58Failure)
  deriving DecidableEq

/-- A conversion of the template. -/
def reads {α : Type} (x : Except Exn α) : Except Refusal α := x.mapError .threw

/-- `json[key]`, converted. -/
def readMember {α : Type} (json : Value) (key : String) (convert : Value → Except Exn α) :
    Except Refusal α := do
  let member ← reads (json.index key)
  reads (convert member)

/-- The amount and the script of an entry. -/
def payTo (json : Value) : Except Refusal CTxOut := do
  let scriptStr ← readMember json "script" Value.asString
  if isHex scriptStr then
    let amount ← readMember json "amount" Value.asUInt64
    pure ⟨amount, parseHex scriptStr⟩
  else throw (.workException "Cannot decode script")

/-- The members that an entry must have to be paid. -/
def listsPayee (json : Value) : Except Exn Bool := do
  let payee ← json.isMember "payee"
  let script ← json.isMember "script"
  let amount ← json.isMember "amount"
  pure (payee && script && amount)

/-- `Block::outTransaction` (`block.h:239-252`). -/
def outTransaction (json : Value) : Except Refusal CTxOut := do
  let listed ← reads (listsPayee json)
  if listed then payTo json else pure CTxOut.new

/-- The payment to the masternode. -/
def masternodePayment (gbt : Value) : Except Refusal (Option CTxOut) := do
  let masternodePaymentsStarted ← readMember gbt "masternode_payments_started" Value.asBool
  let mast ← readMember gbt "masternode" pure
  if masternodePaymentsStarted && !mast.empty then
    let txoutMasternode ← payTo mast
    pure (some txoutMasternode)
  else pure none

/-- The payments of a superblock; the block is one if there are any. -/
def superblockPayments (gbt : Value) : Except Refusal (List CTxOut) := do
  let superblocksEnabled ← readMember gbt "superblocks_enabled" Value.asBool
  if superblocksEnabled then
    let superblock ← readMember gbt "superblock" pure
    superblock.values.mapM outTransaction
  else pure []

/-- Where the block is no superblock, the outputs for the backbone and for the miner, who gets what
is left of the value. -/
def minerPayments (gbt : Value) (isSuperblock : Bool) (coinbaseValue masternodeAmount : BitVec 64)
    (keyID : CKeyID) : Except Refusal (List CTxOut) :=
  if isSuperblock then pure []
  else do
    let backbone ← readMember gbt "backbone" pure
    let txoutBackbone ← outTransaction backbone
    pure [txoutBackbone, ⟨coinbaseValue - txoutBackbone.nValue - masternodeAmount,
      getScriptForDestination keyID⟩]

/-- `CBitcoinAddress(coinbaseAddress).GetKeyID(keyID)`, or else the exception. -/
def keyIDOf (coinbaseAddress : String) : Except Refusal CKeyID := do
  let address ← (CBitcoinAddress.new coinbaseAddress).mapError .aborted
  match CBitcoinAddress.getKeyID address with
  | some keyID => pure keyID
  | none => throw (.workException "Could not get KeyID for address")

/-- The coinbase transaction of `Block::fillTransactions`. -/
def coinbaseTransaction (gbt : Value) (coinbaseAddress : String) :
    Except Refusal CTransaction := do
  if coinbaseAddress = "" then throw .exit
  else
    let coinbaseValue ← readMember gbt "coinbasevalue" Value.asInt64
    let keyID ← keyIDOf coinbaseAddress
    let masternode ← masternodePayment gbt
    let masternodeAmount := (masternode.map CTxOut.nValue).getD 0
    let superblock ← superblockPayments gbt
    let miner ← minerPayments gbt (!superblock.isEmpty) coinbaseValue masternodeAmount keyID
    let vout := masternode.toList ++ superblock ++ miner
    pure { CTransaction.new with vin := [CTxIn.new], vout := vout }.updateHash

/-- The texts of the transactions that a template lists. -/
def templateData (gbt : Value) : Except Refusal (List String) := do
  let transactions ← readMember gbt "transactions" pure
  reads (transactions.values.mapM Work.branchData)

/-- `Block::fillTransactions` (`block.h:163-237`). -/
def fillTransactions (gbt : Value) (coinbaseAddress : String) :
    Except Refusal (List CTransaction) := do
  let coinbase ← coinbaseTransaction gbt coinbaseAddress
  let data ← templateData gbt
  pure (coinbase :: data.map fun data => (decodeHexTx CTransaction.new data).1)

/-- `BlockHeader(gbt)` (`block.h:33-43`). -/
def BlockHeader.ofTemplate (gbt : Value) : Except Refusal BlockHeader := do
  let nVersion ← readMember gbt "version" Value.asInt
  let hashPrevBlock ← readMember gbt "previousblockhash" Value.asString
  let nTime ← readMember gbt "curtime" Value.asInt
  let nBits ← readMember gbt "bits" Value.asString
  let nHeight ← readMember gbt "height" Value.asInt
  pure {
    nVersion, hashPrevBlock := Uint256.setHex hashPrevBlock.toList, hashMerkleRoot := Uint256.null
    nTime, nBits := (strtol16 nBits.toList).setWidth 32, nHeight, hashMix := Uint256.null
    nNonce := 0 }

/-- The members without which `Block(gbt, coinbaseAddress)` throws. -/
def hasHeader (gbt : Value) : Except Exn Bool := do
  let height ← gbt.isMember "height"
  let version ← gbt.isMember "version"
  let previousblockhash ← gbt.isMember "previousblockhash"
  pure (height && version && previousblockhash)

/-- `Work(gbt, coinbase_addr)` (`work.cpp:25-30`). -/
def Work.ofTemplate (gbt : Value) (coinbaseAddress : String) : Except Refusal Work := do
  let header ← BlockHeader.ofTemplate gbt
  let complete ← reads (hasHeader gbt)
  if complete then
    let vtx ← fillTransactions gbt coinbaseAddress
    pure { header with
      vtx, stratumCoinbase1 := "", stratumCoinbase2 := "", extraNonce1 := "", extraNonce2 := 0
      jobName := "", hashTarget := ArithUint256.setCompact header.nBits }
  else throw (.workException "Height or Version or Previous Block Hash not found")

end Energiminer.Primitives
