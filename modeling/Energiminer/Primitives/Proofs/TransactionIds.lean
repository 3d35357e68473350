import Energiminer.Misc.Runs
import Energiminer.Primitives.Proofs.Coinbase
import Energiminer.Primitives.Proofs.Template

/-!
# The hashes that transactions keep

A transaction keeps its hash, and the merkle root is made of the hashes that are kept. The callers
of `DecodeHexTx` ignore whether it succeeds, so a transaction whose text does not decode as a whole
stays in the block as far as it was read, with a hash that is not its own.
-/

namespace Energiminer.Primitives
open Misc Misc.Json Misc.Except Common

/-- What a work is made of. -/
inductive JobSource
  | stratum (jPrm : Value) (extraNonce1 : String) (hashTarget : ArithUint256)
  | template (gbt : Value) (coinbaseAddress : String)

namespace JobSource

/-- The constructor of `Work`. -/
def work : JobSource → Except Refusal Work
  | stratum jPrm extraNonce1 hashTarget => reads (Work.ofStratum jPrm extraNonce1 hashTarget)
  | template gbt coinbaseAddress => Work.ofTemplate gbt coinbaseAddress

/-- The texts of the transactions that are listed. -/
def listed : JobSource → Except Refusal (List String)
  | stratum jPrm _ _ => reads ((jPrm.getAt 4 (.string "")).values.mapM Work.branchData)
  | template gbt _ => templateData gbt

/-- The two parts of the coinbase of a stratum job and the extra nonce between them; those of a
template are empty. -/
def coinbaseParts : JobSource → Except Refusal (String × String × String)
  | stratum jPrm extraNonce1 _ => do
    let stratumCoinbase1 ← reads (Work.paramText jPrm 2)
    let stratumCoinbase2 ← reads (Work.paramText jPrm 3)
    pure (stratumCoinbase1, extraNonce1, stratumCoinbase2)
  | template _ _ => pure ("", "", "")

/-- The work that is made, and the calls of `updateExtraNonce` on it. -/
def updates (source : JobSource) : Machine Work (BitVec 32) Empty where
  init w := source.work = .ok w
  step w extraNonce := (w.updateExtraNonce extraNonce).map .ok

end JobSource

/-- The text of the coinbase of a stratum job, with what is put in the place of the second extra
nonce. A work without a first part is one of a template (`work.cpp:53`). -/
def Work.coinbaseText (w : Work) (extraNonce2 : String) : String :=
  w.stratumCoinbase1 ++ w.extraNonce1 ++ extraNonce2 ++ w.stratumCoinbase2

/-- The text is that of a transaction, from the first to the last digit. -/
def Whole (str : String) : Prop := isHex str ∧ DecodesWhole (parseHex str)

instance (str : String) : Decidable (Whole str) := inferInstanceAs (Decidable (_ ∧ _))

/-- The transaction is what the whole text stands for. -/
def DecodedFrom (str : String) (tx : CTransaction) : Prop :=
  isHex str ∧ tx.serialize = parseHex str

/-- The hash of each transaction is its own, and there is one for each text besides the coinbase. -/
structure Truthful (source : JobSource) (w : Work) : Prop where
  hashes : ∀ tx ∈ w.vtx, tx.hash = Sha256.hash256 tx.serialize
  entries : ∃ data coinbase vtx, source.listed = .ok data ∧ w.vtx = coinbase :: vtx ∧
    List.Forall₂ DecodedFrom data vtx ∧
    (w.stratumCoinbase1 ≠ "" →
      DecodedFrom (w.coinbaseText w.extraNonce1) coinbase ∨
      DecodedFrom (w.coinbaseText w.getExtraNonce2) coinbase)

/-- All texts that the work is made of are whole. At first the coinbase has the extra nonce
twice. -/
structure JobSource.Complete (source : JobSource) : Prop where
  listed : ∀ data, source.listed = .ok data → ∀ str ∈ data, Whole str
  coinbase : ∀ part1 extraNonce1 part2, source.coinbaseParts = .ok (part1, extraNonce1, part2) →
    part1 ≠ "" → Whole (part1 ++ extraNonce1 ++ extraNonce1 ++ part2)

/-- The coinbase with a new extra nonce is whole. -/
def KeepsWhole (w : Work) (extraNonce : BitVec 32) : Prop :=
  w.stratumCoinbase1 ≠ "" → Whole (w.coinbaseText (hexStrMemory extraNonce))

section
variable {source : JobSource} {w w' : Work}

/-- The transaction that `DecodeHexTx` leaves, whether it succeeds or not. -/
def decodedTx (str : String) : CTransaction := (decodeHexTx CTransaction.new str).1

theorem Whole.decoded {str : String} (h : Whole str) :
    DecodedFrom str (decodedTx str) ∧ (decodedTx str).updateHash = decodedTx str := by
  obtain ⟨tx, hdecode, hserialize, hhash⟩ := decodeHexTx_eq h.1 h.2
  rw [decodedTx, hdecode]
  exact ⟨⟨h.1, hserialize⟩, hhash⟩

/-- What the constructor makes of a source. -/
structure JobSource.Made (source : JobSource) (w : Work) (data : List String)
    (coinbase : CTransaction) : Prop where
  listed : source.listed = .ok data
  vtx : w.vtx = coinbase :: data.map decodedTx
  hash : coinbase.updateHash = coinbase
  parts : source.coinbaseParts = .ok (w.stratumCoinbase1, w.extraNonce1, w.stratumCoinbase2)
  text : w.stratumCoinbase1 ≠ "" → coinbase = (decodedTx (w.coinbaseText w.extraNonce1)).updateHash

theorem ofStratum_made {jPrm : Value} {extraNonce1 : String} {hashTarget : ArithUint256}
    (h : Work.ofStratum jPrm extraNonce1 hashTarget = .ok w) :
    ∃ data coinbase, (JobSource.stratum jPrm extraNonce1 hashTarget).Made w data coinbase := by
  obtain ⟨hashPrevBlock, -, h⟩ := bind_eq_ok.mp h
  obtain ⟨nVersion, -, h⟩ := bind_eq_ok.mp h
  obtain ⟨nTime, -, h⟩ := bind_eq_ok.mp h
  obtain ⟨nBits, -, h⟩ := bind_eq_ok.mp h
  obtain ⟨nHeight, -, h⟩ := bind_eq_ok.mp h
  obtain ⟨part1, hpart1, h⟩ := bind_eq_ok.mp h
  obtain ⟨part2, hpart2, h⟩ := bind_eq_ok.mp h
  obtain ⟨data, hdata, h⟩ := bind_eq_ok.mp h
  obtain ⟨jobName, -, h⟩ := bind_eq_ok.mp h
  obtain rfl := Except.ok.inj h
  refine ⟨data, _, reads_eq_ok.mpr hdata, rfl, CTransaction.updateHash_updateHash _, ?_,
    fun _ => rfl⟩
  rw [JobSource.coinbaseParts, reads_eq_ok.mpr hpart1, ok_bind, reads_eq_ok.mpr hpart2, ok_bind]
  rfl

theorem ofTemplate_made {gbt : Value} {coinbaseAddress : String}
    (h : Work.ofTemplate gbt coinbaseAddress = .ok w) :
    ∃ data coinbase, (JobSource.template gbt coinbaseAddress).Made w data coinbase := by
  obtain ⟨header, -, h⟩ := bind_eq_ok.mp h
  obtain ⟨complete, -, h⟩ := bind_eq_ok.mp h
  cases complete with
  | false => cases h
  | true =>
    obtain ⟨vtx, hvtx, h⟩ := bind_eq_ok.mp h
    obtain ⟨coinbase, hcoinbase, hvtx⟩ := bind_eq_ok.mp hvtx
    obtain ⟨data, hdata, hvtx⟩ := bind_eq_ok.mp hvtx
    obtain rfl := Except.ok.inj hvtx
    obtain rfl := Except.ok.inj h
    exact ⟨data, coinbase, hdata, rfl, updateHash_coinbaseTransaction hcoinbase, rfl,
      fun hne => absurd rfl hne⟩

theorem JobSource.made (h : source.work = .ok w) :
    ∃ data coinbase, source.Made w data coinbase := by
  cases source with
  | stratum jPrm extraNonce1 hashTarget => exact ofStratum_made (reads_eq_ok.mp h)
  | template gbt coinbaseAddress => exact ofTemplate_made h

/-- What a new extra nonce makes of a work. -/
structure Updated (w w' : Work) (extraNonce : BitVec 32) (vtx : List CTransaction)
    (coinbase : CTransaction) : Prop where
  old : w.vtx.tail = vtx
  vtx : w'.vtx = coinbase :: vtx
  hash : coinbase.updateHash = coinbase
  part : w'.stratumCoinbase1 = w.stratumCoinbase1
  text : w'.coinbaseText w'.getExtraNonce2 = w.coinbaseText (hexStrMemory extraNonce)
  decoded : w.stratumCoinbase1 ≠ "" →
    coinbase = (decodedTx (w.coinbaseText (hexStrMemory extraNonce))).updateHash

theorem updateHash_templateCoinbase {tx coinbase : CTransaction} {extraNonce1 extraNonce2 : String}
    (h : w.templateCoinbase tx extraNonce1 extraNonce2 = some coinbase) :
    coinbase.updateHash = coinbase := by
  rw [Work.templateCoinbase] at h
  split at h
  next => cases h
  next =>
    obtain rfl := Option.some.inj h
    exact CTransaction.updateHash_updateHash _

theorem updateExtraNonce_updated {extraNonce : BitVec 32}
    (h : w.updateExtraNonce extraNonce = some w') :
    ∃ vtx coinbase, Updated w w' extraNonce vtx coinbase := by
  rw [Work.updateExtraNonce, Work.mutateCoinbase] at h
  split at h
  next => cases h
  next old vtx hvtx =>
    obtain ⟨coinbase, hcoinbase, rfl⟩ := Option.map_eq_some_iff.mp h
    have htail : w.vtx.tail = vtx := congrArg List.tail hvtx
    refine ⟨vtx, coinbase, ?_⟩
    split at hcoinbase
    next hempty =>
      exact ⟨htail, rfl, updateHash_templateCoinbase hcoinbase, rfl, rfl,
        fun hne => absurd hempty hne⟩
    next =>
      obtain rfl := Option.some.inj hcoinbase
      exact ⟨htail, rfl, CTransaction.updateHash_updateHash _, rfl, rfl, fun _ => rfl⟩

/-- A coinbase that was decoded from a whole text, with its hash brought up to date again. -/
theorem Whole.updateHash {str : String} (h : Whole str) :
    DecodedFrom str (decodedTx str).updateHash := by
  rw [h.decoded.2]
  exact h.decoded.1

theorem JobSource.Made.truthful {data : List String} {coinbase : CTransaction}
    (h : source.Made w data coinbase) (hcomplete : source.Complete) : Truthful source w := by
  have hwhole := hcomplete.listed data h.listed
  refine ⟨fun tx htx => ?_, data, coinbase, _, h.listed, h.vtx, ?_, fun hne => .inl ?_⟩
  · rw [h.vtx] at htx
    apply CTransaction.hash_of_updateHash_eq
    rcases List.mem_cons.mp htx with rfl | htx
    · exact h.hash
    · obtain ⟨str, hstr, rfl⟩ := List.mem_map.mp htx
      exact (hwhole str hstr).decoded.2
  · rw [List.forall₂_map_right_iff, List.forall₂_same]
    exact fun str hstr => (hwhole str hstr).decoded.1
  · rw [h.text hne]
    exact Whole.updateHash (hcomplete.coinbase _ _ _ h.parts hne)

theorem Updated.truthful {extraNonce : BitVec 32} {vtx : List CTransaction}
    {coinbase : CTransaction} (h : Updated w w' extraNonce vtx coinbase) (hw : Truthful source w)
    (hkeeps : KeepsWhole w extraNonce) : Truthful source w' := by
  obtain ⟨data, old, vtx', hlisted, hvtx, hdecoded, -⟩ := hw.entries
  have htail : vtx' = vtx := by
    rw [← h.old, hvtx]
    rfl
  subst htail
  refine ⟨fun tx htx => ?_, data, coinbase, vtx', hlisted, h.vtx, hdecoded, fun hne => .inr ?_⟩
  · rw [h.vtx] at htx
    rcases List.mem_cons.mp htx with rfl | htx
    · exact CTransaction.hash_of_updateHash_eq h.hash
    · exact hw.hashes tx (hvtx ▸ List.mem_cons_of_mem _ htx)
  · rw [h.part] at hne
    rw [h.text, h.decoded hne]
    exact Whole.updateHash (hkeeps hne)

/-- Every hash that is kept is truthful, however often the extra nonce changes, if all texts that
the work is made of are whole. -/
theorem transactionIds_truthful (hcomplete : source.Complete)
    (h : source.updates.Reachable KeepsWhole w) : Truthful source w := by
  refine h.invariant (fun w hw => ?_) fun w extraNonce w' hw hkeeps hstep => ?_
  · obtain ⟨data, coinbase, hmade⟩ := JobSource.made hw
    exact hmade.truthful hcomplete
  · have hnext := Machine.eq_some_of_map_ok hstep
    obtain ⟨vtx, coinbase, hupdated⟩ := updateExtraNonce_updated hnext
    exact hupdated.truthful hw hkeeps

end

/-- A template with a transaction. -/
def sampleListing (data : String) : JobSource :=
  .template (.object [("version", .int 4), ("previousblockhash", .string "00"),
    ("curtime", .int 1523000000), ("bits", .string "1e0fffff"), ("height", .int 7),
    ("coinbasevalue", .int 100),
    ("transactions", .array [.object [("data", .string data)]])]) sampleAddress

/-- The text of a transaction without inputs and outputs. -/
def sampleData : String := "01000000000000000000"

/-- The work is made and takes an extra nonce. -/
def JobSource.runs (source : JobSource) : Bool :=
  match source.work with
  | .ok w => source.updates.endsIn (fun _ => true) w [1]
  | .error _ => false

theorem JobSource.reaches {source : JobSource} (h : source.runs = true) :
    ∃ w, source.work = .ok w ∧ source.updates.endsIn (fun _ => true) w [1] = true := by
  rw [runs] at h
  split at h
  next w hwork => exact ⟨w, hwork, h⟩
  next => cases h

theorem sampleListing_listed (data : String) : (sampleListing data).listed = .ok [data] := rfl

theorem sampleListing_complete : (sampleListing sampleData).Complete where
  listed data hdata str hstr := by
    rw [sampleListing_listed] at hdata
    obtain rfl := Except.ok.inj hdata
    rw [List.mem_singleton.mp hstr]
    decide +kernel
  coinbase part1 extraNonce1 part2 hparts hne := by
    cases hparts
    exact absurd rfl hne

/-- A work of the template has no parts of a stratum coinbase. -/
theorem sampleListing_keeps {data : String} {w : Work} (h : (sampleListing data).work = .ok w)
    (extraNonce : BitVec 32) : KeepsWhole w extraNonce := by
  obtain ⟨_, _, hmade⟩ := JobSource.made h
  have hparts : ("", "", "") = (w.stratumCoinbase1, w.extraNonce1, w.stratumCoinbase2) :=
    Except.ok.inj hmade.parts
  exact fun hne => absurd (congrArg Prod.fst hparts).symm hne

theorem sampleListing_truthful :
    ∃ w, (sampleListing sampleData).updates.Reachable KeepsWhole w ∧
      Truthful (sampleListing sampleData) w := by
  have hruns : (sampleListing sampleData).runs = true := by decide +kernel
  obtain ⟨w, hwork, hends⟩ := JobSource.reaches hruns
  have hmeets : (sampleListing sampleData).updates.Meets KeepsWhole w [1] := by
    refine ⟨sampleListing_keeps hwork 1, ?_⟩
    split <;> trivial
  obtain ⟨w', hsteps, -⟩ := Machine.steps_of_endsIn hmeets hends
  exact ⟨w', ⟨w, hwork, hsteps⟩, transactionIds_truthful sampleListing_complete ⟨w, hwork, hsteps⟩⟩

/-- A transaction whose text ends after its first byte stays in the block, with no hash. -/
theorem sampleListing_keeps_null :
    ∃ w, (sampleListing "00").updates.Reachable (fun _ _ => True) w ∧
      ¬ Truthful (sampleListing "00") w := by
  obtain ⟨w, hwork⟩ : Succeeds (sampleListing "00").work := by decide +kernel
  refine ⟨w, ⟨w, hwork, .refl⟩, fun h => ?_⟩
  obtain ⟨data, coinbase, hmade⟩ := JobSource.made hwork
  obtain rfl := Except.ok.inj ((sampleListing_listed "00").symm.trans hmade.listed)
  have hhash := h.hashes (decodedTx "00") (by rw [hmade.vtx]; simp)
  exact absurd hhash (by decide +kernel)

end Energiminer.Primitives
