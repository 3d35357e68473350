import Energiminer.Nrghash.Dataset

/-!
# Hashimoto

`hashimoto::hash` of `nrghash/nrghash.cpp:1145-1185` and the two mediators that call it:
`full::hash` looks rows up in a generated dataset, `light::hash` computes each row from the
cache. An access the language leaves undefined, a read past the end of the dataset or a
remainder by a page count of zero, is a `Fault`.
-/

namespace Energiminer.Nrghash
open Misc

/-- Undefined behaviour of the hash loop. -/
inductive Fault where
  | outOfBounds
  | divisionByZero
  deriving DecidableEq, Repr

/-- `result_t` (`nrghash.h:299-342`). -/
structure Result where
  value : H256
  mixhash : H256
  deriving DecidableEq

/-- The mix of `MIX_BYTES / WORD_BYTES` words. -/
abbrev Mix := Vector Word 32

/-- `MIX_BYTES / HASH_BYTES`. -/
def MIXNODES : Nat := MIX_BYTES / HASH_BYTES

/-- The seed inserted `MIXNODES` times. -/
def initialMix (s : Hash512) : Mix := Vector.ofFn fun m => cell s (m.val % 16)

/-- The loop over the half `j` of the mix and the row `h`. -/
def mixRow (mix : Mix) (j : Nat) (h : Hash512) : Mix :=
  Vector.ofFn fun m => if m.val / 16 = j then fnv (cell mix m) (cell h (m.val % 16)) else cell mix m

/-- One of the `ACCESSES` iterations. -/
def accessStep (fullPageCount : Word) (getDagItem : Word → Except Fault Hash512) (s0 : Word)
    (mix : Mix) (i : Nat) : Except Fault Mix :=
  let p := fnv (BitVec.ofNat 32 i ^^^ s0) (cell mix (i % 32)) % fullPageCount
  (List.range MIXNODES).foldlM (fun mix j => do
    let h ← getDagItem (p * BitVec.ofNat 32 MIXNODES + BitVec.ofNat 32 j)
    pure (mixRow mix j h)) mix

/-- The compressed mix. -/
def compressMix (mix : Mix) : Hash256 :=
  Vector.ofFn fun i =>
    fnv (fnv (fnv (cell mix (4 * i.val)) (cell mix (4 * i.val + 1))) (cell mix (4 * i.val + 2)))
      (cell mix (4 * i.val + 3))

/-- `memcpy` of the words of a hash into an `h256_t`. -/
def h256OfWords (v : Hash256) : H256 := Vector.ofFn fun i => byteOf (cell v (i.val / 4)) (i.val % 4)

/-- The statements after the loop. -/
def finishHash (K : KeccakFns) (s : Hash512) (mix : Mix) : Result :=
  let cmix := compressMix mix
  let v := sha3Words256 K (serialize s ++ serialize cmix)
  ⟨h256OfWords v, h256OfWords cmix⟩

/-- `hashimoto::hash` (`nrghash.cpp:1145-1185`). -/
def hashimotoHash (K : KeccakFns) (input : List Byte) (getDagSize : Nat)
    (getDagItem : Word → Except Fault Hash512) : Except Fault Result := do
  let s := sha3Words512 K input
  let fullPageCount := BitVec.ofNat 32 (getDagSize / MIX_BYTES)
  if fullPageCount = 0 then throw .divisionByZero
  let mix ← (List.range ACCESSES).foldlM (accessStep fullPageCount getDagItem (cell s 0))
    (initialMix s)
  pure (finishHash K s mix)

/-- `dag.data()[index]`. -/
def dagLookup (dag : Dag) (index : Word) : Except Fault Hash512 :=
  match dag.data[index.toNat]? with
  | some row => .ok row
  | none => .error .outOfBounds

/-- `full::hash` (`nrghash.cpp:1191-1196`) on a byte string. -/
def fullHash (K : KeccakFns) (dag : Dag) (input : List Byte) : Except Fault Result :=
  hashimotoHash K input dag.size (dagLookup dag)

/-- `light::hash` (`nrghash.cpp:1206-1211`) on a byte string. -/
def lightHash (K : KeccakFns) (cache : Cache) (input : List Byte) : Except Fault Result :=
  hashimotoHash K input (getFullSize (u64 (cache.epoch * EPOCH_LENGTH)))
    fun index => .ok (calcDatasetItem K cache.data index)

/-- The bytes `hash_header_nonce` (`nrghash.cpp:284-305`) hands to the hash function. -/
def headerNonce (headerHash : H256) (nonce : BitVec 64) : List Byte :=
  headerHash.toList ++ leBytes 8 nonce

end Energiminer.Nrghash
