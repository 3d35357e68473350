import Energiminer.Misc.Cells
import Energiminer.Nrghash.KeccakTiny

/-!
# Cache and dataset

The size formulas, the cache (`cache_t::impl_t`) and the dataset (`dag_t::impl_t`) of
`nrghash/nrghash.cpp`. Keccak is a parameter: nothing here depends on which function it is,
and `keccakTiny` is the one the program links. The progress callbacks are left out, so this
is the behaviour with callbacks that return true.

`std::vector<node>` rows come from `sha3_512` or from a read of `HASH_BYTES` bytes and always
hold sixteen words, which the type `Hash512` records. `std::sqrt` of an integer goes through
`double`; `stdSqrt` rounds as IEEE binary64 does, both in the conversion and in the root.
-/

namespace Energiminer.Nrghash
open Misc

/-- A `node`, the 4-byte hash word. -/
abbrev Word := BitVec 32

/-- The result of `sha3_512`, a cache row or a dataset row. -/
abbrev Hash512 := Vector Word 16

/-- The result of `sha3_256` as words. -/
abbrev Hash256 := Vector Word 8

/-- `h256_t`. -/
abbrev H256 := Vector Byte 32

/-! ## Constants (`nrghash.h:22-103`) -/

def DATASET_BYTES_GROWTH : Nat := 2 ^ 23
def DATASET_BYTES_INIT : Nat := 2 ^ 30 + DATASET_BYTES_GROWTH * 182
def CACHE_BYTES_GROWTH : Nat := 2 ^ 17
def CACHE_BYTES_INIT : Nat := 2 ^ 24 + CACHE_BYTES_GROWTH * 182
def EPOCH_LENGTH : Nat := 7200
def MIX_BYTES : Nat := 128
def HASH_BYTES : Nat := 64
def DATASET_PARENTS : Nat := 256
def CACHE_ROUNDS : Nat := 3
def ACCESSES : Nat := 64

/-- `epoch0_seedhash` (`nrghash.h:160`). -/
def epoch0Seedhash : List Byte :=
  [0xe8, 0xbc, 0xb1, 0xcf, 0x8a, 0x60, 0x16, 0x25, 0x11, 0x7e, 0x59, 0xb5, 0xf2, 0xdc, 0x8c, 0x36,
   0x6e, 0x14, 0x04, 0x83, 0x0a, 0xe9, 0xd2, 0x5f, 0x65, 0x2b, 0xe6, 0x7a, 0xc9, 0xbb, 0x81, 0x5b]

/-- Truncation to `uint64_t`. -/
def u64 (x : Nat) : Nat := x % 2 ^ 64

/-- Truncation to `uint32_t`. -/
def u32 (x : Nat) : Nat := x % 2 ^ 32

/-! ## Hashing words -/

/-- The hash functions nrghash calls, on byte strings. -/
structure KeccakFns where
  sha3_512 : List Byte → List Byte
  sha3_256 : List Byte → List Byte

/-- The functions of `keccak-tiny.c` at the output sizes `sha3_base` asks for. -/
def keccakTiny : KeccakFns where
  sha3_512 := fun inp => (sha3 512 64 inp).getD []
  sha3_256 := fun inp => (sha3 256 32 inp).getD []

/-- The hash output written over `n` nodes. -/
def nodesOf (n : Nat) (bs : List Byte) : Vector Word n :=
  Vector.ofFn fun k => leWord 32 fun j => bs.getD (4 * k + j) 0

/-- `sha3_base::serialize` (`nrghash.cpp:213-216`). -/
def serialize {n : Nat} (h : Vector Word n) : List Byte := h.toList.flatMap (leBytes 4)

/-- `sha3_512` as words (`nrghash.cpp:200-211`). -/
def sha3Words512 (K : KeccakFns) (bs : List Byte) : Hash512 := nodesOf 16 (K.sha3_512 bs)

/-- `sha3_256` as words (`nrghash.cpp:200-211`). -/
def sha3Words256 (K : KeccakFns) (bs : List Byte) : Hash256 := nodesOf 8 (K.sha3_256 bs)

/-- `fnv` (`nrghash.cpp:158-164`). -/
def fnv (v1 v2 : Word) : Word := (v1 * 0x01000193) ^^^ v2

/-! ## Sizes -/

/-- A `uint64_t` as a `double`: the nearest value with a 53-bit mantissa, ties to even. -/
def toDouble (x : Nat) : Nat :=
  if x < 2 ^ 53 then x
  else
    let k := Nat.log2 x - 52
    let q := x / 2 ^ k
    let r := x % 2 ^ k
    if 2 * r < 2 ^ k ∨ (2 * r = 2 ^ k ∧ q % 2 = 0) then q * 2 ^ k else (q + 1) * 2 ^ k

/-- `std::sqrt` of an integer argument, correctly rounded: the `double` is `m / 2 ^ e` for the
result `(m, e)`. -/
def stdSqrt (x : Nat) : Nat × Nat :=
  let y := toDouble x
  let e := 52 - Nat.log2 y / 2
  let m := Nat.sqrt (y * 4 ^ e)
  (if y * 4 ^ e - m * m > m then m + 1 else m, e)

/-- The loop of `is_prime` from `i` on, for `sqrt(x) = m / 2 ^ e`. -/
def isPrimeLoop (x m e : Nat) : Nat → Nat → Bool
  | 0, _ => true
  | fuel + 1, i =>
    if i * 2 ^ e ≤ m then
      if x % i = 0 then false else isPrimeLoop x m e fuel (i + 1)
    else true

/-- `is_prime` (`nrghash.cpp:147-156`). The loop stops at the integer part of the root, which
is also the fuel. -/
def isPrime (x : Nat) : Bool :=
  let s := stdSqrt x
  isPrimeLoop x s.1 s.2 (s.1 / 2 ^ s.2) 2

/-- The `while` loop of both size functions: lower `size` by two units until its quotient by
the unit is prime. -/
def primeSizeLoop (unit : Nat) : Nat → Nat → Nat
  | 0, size => size
  | fuel + 1, size =>
    if isPrime (size / unit) then size
    else primeSizeLoop unit fuel (u64 (size + 2 ^ 64 - 2 * unit))

/-- The size functions, which differ in their constants only. The quotient of the size by the
unit falls by two in each iteration, so it bounds their number. -/
def primeSize (init growth unit blockNumber : Nat) : Nat :=
  let size := u64 (u64 (init + u64 (growth * (blockNumber / EPOCH_LENGTH))) + 2 ^ 64 - unit)
  primeSizeLoop unit (size / unit) size

/-- `cache_t::impl_t::get_cache_size` (`nrghash.cpp:513-523`). -/
def getCacheSize (blockNumber : Nat) : Nat :=
  primeSize CACHE_BYTES_INIT CACHE_BYTES_GROWTH HASH_BYTES blockNumber

/-- `dag_t::impl_t::get_full_size` (`nrghash.cpp:809-819`). -/
def getFullSize (blockNumber : Nat) : Nat :=
  primeSize DATASET_BYTES_INIT DATASET_BYTES_GROWTH MIX_BYTES blockNumber

/-! ## The cache -/

/-- `cache_t::impl_t::get_seedhash` (`nrghash.cpp:525-535`). -/
def getSeedhash (K : KeccakFns) (blockNumber : Nat) : List Byte :=
  (List.range (blockNumber / EPOCH_LENGTH)).foldl (fun s _ => serialize (sha3Words256 K s))
    epoch0Seedhash

/-- The first loop of `mkcache`: `count` further rows, each the hash of the row before it. -/
def seedRows (K : KeccakFns) : Nat → Array Hash512 → Array Hash512
  | 0, data => data
  | count + 1, data =>
    seedRows K count (data.push (sha3Words512 K (serialize (data.back?.getD default))))

/-- One iteration of the inner cache round loop. -/
def cacheRoundStep (K : KeccakFns) (n : Nat) (data : Array Hash512) (j : Nat) : Array Hash512 :=
  let v := (cell (data.getD j default) 0).toNat % n
  let u := data.getD (u32 (n + 2 ^ 32 - 1 + j) % n) default
  let u := u.zipWith (· ^^^ ·) (data.getD v default)
  data.setIfInBounds j (sha3Words512 K (serialize u))

/-- `cache_t::impl_t::mkcache` (`nrghash.cpp:457-494`). -/
def mkcache (K : KeccakFns) (size : Nat) (seedhash : List Byte) : Array Hash512 :=
  let n := u32 (size / HASH_BYTES)
  let data := seedRows K (n - 1) #[sha3Words512 K seedhash]
  (List.range CACHE_ROUNDS).foldl (fun data _ => (List.range n).foldl (cacheRoundStep K n) data) data

/-- `cache_t::impl_t`. -/
structure Cache where
  epoch : Nat
  seedhash : List Byte
  size : Nat
  data : Array Hash512

/-- The constructor of `cache_t::impl_t` from a block number (`nrghash.cpp:439-446`). -/
def Cache.generate (K : KeccakFns) (blockNumber : Nat) : Cache where
  epoch := blockNumber / EPOCH_LENGTH
  seedhash := getSeedhash K blockNumber
  size := getCacheSize blockNumber
  data := mkcache K (getCacheSize blockNumber) (getSeedhash K blockNumber)

/-! ## The dataset -/

/-- One iteration of the parents loop of `calc_dataset_item`. -/
def datasetParentStep (cache : Array Hash512) (n : Nat) (i : Word) (mix : Hash512) (j : Nat) :
    Hash512 :=
  let cacheIndex := fnv (i ^^^ BitVec.ofNat 32 j) (cell mix (j % 16))
  mix.zipWith fnv (cache.getD (cacheIndex.toNat % n) default)

/-- `dag_t::impl_t::calc_dataset_item` (`nrghash.cpp:782-802`). -/
def calcDatasetItem (K : KeccakFns) (cache : Array Hash512) (i : Word) : Hash512 :=
  let n := u32 cache.size
  let mix := cache.getD (i.toNat % n) default
  let mix := writeCell mix 0 (cell mix 0 ^^^ i)
  let mix := sha3Words512 K (serialize mix)
  let mix := (List.range DATASET_PARENTS).foldl (datasetParentStep cache n i) mix
  sha3Words512 K (serialize mix)

/-- `dag_t::impl_t::generate` (`nrghash.cpp:768-780`). -/
def generateData (K : KeccakFns) (size : Nat) (cache : Array Hash512) : Array Hash512 :=
  let n := u32 (size / HASH_BYTES)
  (List.range n).foldl (fun data i => data.push (calcDatasetItem K cache (BitVec.ofNat 32 i))) #[]

/-- `dag_t::impl_t`. -/
structure Dag where
  epoch : Nat
  size : Nat
  cache : Cache
  data : Array Hash512

/-- The constructor of `dag_t::impl_t` from a block number (`nrghash.cpp:680-687`), with the
cache it obtains for that block. -/
def Dag.generate (K : KeccakFns) (blockNumber : Nat) (cache : Cache) : Dag where
  epoch := blockNumber / EPOCH_LENGTH
  size := getFullSize blockNumber
  cache := cache
  data := generateData K (getFullSize blockNumber) cache.data

end Energiminer.Nrghash
