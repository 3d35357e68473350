import Energiminer.Primitives.Proofs.Codec
import Energiminer.Primitives.Template

/-!
# What a coinbase of a template pays

The masternode is left out of the coinbase where the template does not list it, but in the place of
a backbone that is not listed stands an output of its own, with the value `-1` of a `CTxOut` that
was not set; the miner's output is one more than it may be.
-/

namespace Energiminer.Primitives
open Misc Misc.Json Misc.Except Common

/-- The value that a template allows. -/
def coinbaseValueOf (gbt : Value) : Except Refusal (BitVec 64) :=
  readMember gbt "coinbasevalue" Value.asInt64

/-- The payment to the backbone, if the template lists one. -/
def backbonePayment (gbt : Value) : Except Refusal (Option CTxOut) := do
  let backbone ← readMember gbt "backbone" pure
  let listed ← reads (listsPayee backbone)
  if listed then
    let txoutBackbone ← payTo backbone
    pure (some txoutBackbone)
  else pure none

/-- A template lists a payee, a script and an amount for the backbone. -/
def ListsBackbone (gbt : Value) : Prop :=
  ∃ backbone, gbt.index "backbone" = .ok backbone ∧ listsPayee backbone = .ok true

/-- What a listed payment amounts to. -/
def amountOf (payment : Option CTxOut) : Nat := ((payment.map CTxOut.nValue).getD 0).toNat

/-- The payments that a template lists are not more than the value it allows. -/
structure Affordable (gbt : Value) (value : BitVec 64) (masternode backbone : Option CTxOut) :
    Prop where
  hasValue : coinbaseValueOf gbt = .ok value
  hasMasternode : masternodePayment gbt = .ok masternode
  hasBackbone : backbonePayment gbt = .ok backbone
  nonneg : 0 ≤ value.toInt
  fits : amountOf masternode + amountOf backbone ≤ value.toNat

/-- Outputs for the payments that are listed, and for the miner the rest of the value. -/
structure PaysOut (value : BitVec 64) (masternode backbone : Option CTxOut) (vout : List CTxOut) :
    Prop where
  outputs : ∃ miner, vout = masternode.toList ++ backbone.toList ++ [miner]
  nonneg : ∀ out ∈ vout, 0 ≤ out.nValue.toInt
  total : (vout.map fun out => out.nValue.toInt).sum = value.toInt

section
variable {gbt : Value} {coinbaseAddress : String} {value : BitVec 64}
  {masternode backbone : Option CTxOut}

@[simp] theorem reads_eq_ok {α : Type} {x : Except Exn α} {a : α} :
    reads x = .ok a ↔ x = .ok a := by
  cases x with
  | error e => exact iff_of_false (by rintro ⟨⟩) (by rintro ⟨⟩)
  | ok a => exact ⟨fun h => congrArg _ (Except.ok.inj h), fun h => congrArg _ (Except.ok.inj h)⟩

theorem readMember_pure {json : Value} {key : String} {member : Value} :
    readMember json key pure = .ok member ↔ json.index key = .ok member := by
  rw [readMember, bind_eq_ok]
  constructor
  · rintro ⟨member', hindex, hmember⟩
    obtain rfl := Except.ok.inj (reads_eq_ok.mp hmember)
    exact reads_eq_ok.mp hindex
  · intro h
    exact ⟨member, reads_eq_ok.mpr h, rfl⟩

/-- Where the template lists no backbone, `outTransaction` gives an output that is not set. -/
theorem backbonePayment_eq_ok (h : backbonePayment gbt = .ok backbone) :
    ∃ json, gbt.index "backbone" = .ok json ∧ listsPayee json = .ok backbone.isSome ∧
      outTransaction json = .ok (backbone.getD CTxOut.new) := by
  obtain ⟨json, hjson, h⟩ := bind_eq_ok.mp h
  obtain ⟨listed, hlisted, h⟩ := bind_eq_ok.mp h
  refine ⟨json, readMember_pure.mp hjson, ?_⟩
  rw [outTransaction, hlisted, ok_bind]
  cases listed with
  | false =>
    obtain rfl := Except.ok.inj h
    exact ⟨reads_eq_ok.mp hlisted, rfl⟩
  | true =>
    obtain ⟨out, hout, h⟩ := bind_eq_ok.mp h
    obtain rfl := Except.ok.inj h
    exact ⟨reads_eq_ok.mp hlisted, hout⟩

theorem listsBackbone_iff (h : backbonePayment gbt = .ok backbone) :
    ListsBackbone gbt ↔ backbone.isSome := by
  obtain ⟨json, hjson, hlisted, -⟩ := backbonePayment_eq_ok h
  constructor
  · rintro ⟨json', hjson', hlisted'⟩
    obtain rfl := Except.ok.inj (hjson.symm.trans hjson')
    exact Except.ok.inj (hlisted.symm.trans hlisted')
  · intro hsome
    exact ⟨json, hjson, hsome ▸ hlisted⟩

theorem vout_coinbaseTransaction {tx : CTransaction}
    (h : coinbaseTransaction gbt coinbaseAddress = .ok tx)
    (hsuper : superblockPayments gbt = .ok [])
    (hafford : Affordable gbt value masternode backbone) :
    ∃ keyID, tx.vout = masternode.toList ++ [backbone.getD CTxOut.new,
      ⟨value - (backbone.getD CTxOut.new).nValue - (masternode.map CTxOut.nValue).getD 0,
        getScriptForDestination keyID⟩] := by
  obtain ⟨json, hjson, -, hout⟩ := backbonePayment_eq_ok hafford.hasBackbone
  rw [coinbaseTransaction] at h
  split at h
  next => cases h
  obtain ⟨value', hvalue, h⟩ := bind_eq_ok.mp h
  obtain ⟨keyID, -, h⟩ := bind_eq_ok.mp h
  obtain rfl := Except.ok.inj (hafford.hasValue.symm.trans hvalue)
  have hminer : minerPayments gbt (!([] : List CTxOut).isEmpty) value
      ((masternode.map CTxOut.nValue).getD 0) keyID = .ok [backbone.getD CTxOut.new,
        ⟨value - (backbone.getD CTxOut.new).nValue - (masternode.map CTxOut.nValue).getD 0,
          getScriptForDestination keyID⟩] := by
    rw [minerPayments, if_neg (by decide), readMember_pure.mpr hjson, ok_bind, hout, ok_bind]
    rfl
  rw [hafford.hasMasternode, ok_bind, hsuper, ok_bind, hminer, ok_bind] at h
  obtain rfl := Except.ok.inj h
  exact ⟨keyID, by simp [CTransaction.updateHash]⟩

theorem updateHash_coinbaseTransaction {tx : CTransaction}
    (h : coinbaseTransaction gbt coinbaseAddress = .ok tx) : tx.updateHash = tx := by
  rw [coinbaseTransaction] at h
  split at h
  next => cases h
  obtain ⟨_, -, h⟩ := bind_eq_ok.mp h
  obtain ⟨_, -, h⟩ := bind_eq_ok.mp h
  obtain ⟨_, -, h⟩ := bind_eq_ok.mp h
  obtain ⟨_, -, h⟩ := bind_eq_ok.mp h
  obtain ⟨_, -, h⟩ := bind_eq_ok.mp h
  obtain rfl := Except.ok.inj h
  exact CTransaction.updateHash_updateHash _

/-- What is left of a value that covers two amounts. -/
theorem toInt_rest {a b : BitVec 64} (hvalue : 0 ≤ value.toInt)
    (hfits : a.toNat + b.toNat ≤ value.toNat) :
    0 ≤ a.toInt ∧ 0 ≤ b.toInt ∧ 0 ≤ (value - b - a).toInt ∧
      a.toInt + b.toInt + (value - b - a).toInt = value.toInt := by
  have hmsb : value.msb = false := by
    rw [BitVec.msb_eq_toInt]
    exact decide_eq_false (Int.not_lt.mpr hvalue)
  have hbound : 2 * value.toNat < 2 ^ 64 := BitVec.msb_eq_false_iff_two_mul_lt.mp hmsb
  have hrest : (value - b - a).toNat = value.toNat - b.toNat - a.toNat := by
    bv_omega
  rw [BitVec.toInt_eq_toNat_of_lt hbound,
    BitVec.toInt_eq_toNat_of_lt (show 2 * a.toNat < _ by omega),
    BitVec.toInt_eq_toNat_of_lt (show 2 * b.toNat < _ by omega),
    BitVec.toInt_eq_toNat_of_lt (by omega), hrest]
  omega

theorem head_fillTransactions {vtx : List CTransaction}
    (h : fillTransactions gbt coinbaseAddress = .ok vtx) :
    ∃ tx, vtx.head? = some tx ∧ coinbaseTransaction gbt coinbaseAddress = .ok tx := by
  obtain ⟨tx, htx, h⟩ := bind_eq_ok.mp h
  obtain ⟨data, -, h⟩ := bind_eq_ok.mp h
  obtain rfl := Except.ok.inj h
  exact ⟨tx, rfl, htx⟩

/-- An amount that is listed is the value of its output. -/
theorem sum_toList (payment : Option CTxOut) :
    (payment.toList.map fun out => out.nValue.toInt).sum =
      ((payment.map CTxOut.nValue).getD 0).toInt := by
  cases payment with
  | none => rfl
  | some out => simp

/-- A coinbase pays what the template lists and the rest to the miner exactly if the template lists
a backbone. -/
theorem paysOut_iff {vtx : List CTransaction}
    (hfill : fillTransactions gbt coinbaseAddress = .ok vtx)
    (hsuper : superblockPayments gbt = .ok [])
    (hafford : Affordable gbt value masternode backbone) :
    ∃ tx, vtx.head? = some tx ∧
      (PaysOut value masternode backbone tx.vout ↔ ListsBackbone gbt) := by
  obtain ⟨tx, hhead, htx⟩ := head_fillTransactions hfill
  obtain ⟨keyID, hvout⟩ := vout_coinbaseTransaction htx hsuper hafford
  refine ⟨tx, hhead, ?_⟩
  rw [listsBackbone_iff hafford.hasBackbone, hvout]
  cases backbone with
  | none =>
    constructor
    · intro h
      have hminus := h.nonneg CTxOut.new (by simp)
      exact absurd hminus (by decide)
    · rintro ⟨⟩
  | some out =>
    obtain ⟨hmasternode, hbackbone, hminer, htotal⟩ := toInt_rest hafford.nonneg hafford.fits
    refine ⟨fun _ => rfl, fun _ => ⟨⟨_, (List.append_assoc _ [out] [_]).symm⟩, ?_, ?_⟩⟩
    · intro o ho
      rcases List.mem_append.mp ho with ho | ho
      · rw [Option.mem_toList] at ho
        rw [ho] at hmasternode
        exact hmasternode
      · rcases List.mem_pair.mp ho with rfl | rfl
        · exact hbackbone
        · exact hminer
    · rw [List.map_append, List.sum_append, sum_toList, ← htotal]
      simp [Int.add_assoc]

end

/-- A template with a masternode and, if it is listed, a backbone. -/
def sampleTemplate (backbone : List (String × Value)) : Value :=
  .object ([("coinbasevalue", .int 100), ("masternode_payments_started", .bool true),
    ("masternode", .object [("script", .string "51"), ("amount", .int 40)]),
    ("superblocks_enabled", .bool false), ("transactions", .array [])] ++ backbone)

def sampleBackbone : List (String × Value) :=
  [("backbone", .object
    [("payee", .string ""), ("script", .string "52"), ("amount", .int 10)])]

/-- The address of the hash of a public key. -/
def sampleAddress : String := "XanAvE5GMB8CsPH78B9moJq9viEVKvCS4f"

theorem sampleTemplate_pays :
    ∃ vtx, fillTransactions (sampleTemplate sampleBackbone) sampleAddress = .ok vtx ∧
      ∃ tx, vtx.head? = some tx ∧
        (PaysOut 100 (some ⟨40, [0x51]⟩) (some ⟨10, [0x52]⟩) tx.vout ↔
          ListsBackbone (sampleTemplate sampleBackbone)) := by
  obtain ⟨vtx, hfill⟩ : Succeeds (fillTransactions (sampleTemplate sampleBackbone) sampleAddress) := by
    decide +kernel
  exact ⟨vtx, hfill, paysOut_iff hfill (by decide +kernel) ⟨by decide +kernel, by decide +kernel,
    by decide +kernel, by decide, by decide⟩⟩

/-- Without a backbone the template is paid out with an output of value `-1`. -/
theorem sampleTemplate_overpays :
    Affordable (sampleTemplate []) 100 (some ⟨40, [0x51]⟩) none ∧
      superblockPayments (sampleTemplate []) = .ok [] ∧
      ∃ vtx tx, fillTransactions (sampleTemplate []) sampleAddress = .ok vtx ∧
        vtx.head? = some tx ∧ ¬ PaysOut 100 (some ⟨40, [0x51]⟩) none tx.vout := by
  have hafford : Affordable (sampleTemplate []) 100 (some ⟨40, [0x51]⟩) none :=
    ⟨by decide +kernel, by decide +kernel, by decide +kernel, by decide, by decide⟩
  have hsuper : superblockPayments (sampleTemplate []) = .ok [] := by decide +kernel
  obtain ⟨vtx, hfill⟩ : Succeeds (fillTransactions (sampleTemplate []) sampleAddress) := by
    decide +kernel
  obtain ⟨tx, hhead, htx⟩ := head_fillTransactions hfill
  obtain ⟨keyID, hvout⟩ := vout_coinbaseTransaction htx hsuper hafford
  refine ⟨hafford, hsuper, vtx, tx, hfill, hhead, fun hpays => ?_⟩
  have hminus := hpays.nonneg CTxOut.new (by rw [hvout]; simp)
  exact absurd hminus (by decide)

end Energiminer.Primitives
