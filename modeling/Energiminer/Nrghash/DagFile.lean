import Energiminer.Nrghash.Dataset

/-!
# DAG files

`dag_t::impl_t::save`, the header `dag_file_header_t`, and `get_dag` for a file with its buffered
reader (`nrghash.cpp:30-98`, `496-511`, `689-766`, `885-994`). A file is the list of its bytes; opening
it, reading it and writing it do not fail. The progress callbacks are left out, so this is the behaviour
with callbacks that return true. Integers are written as the machine stores them, little-endian.
-/

namespace Energiminer.Nrghash
open Misc

/-! ## Constants (`nrghash.h:24-52`) -/

/-- `"NRGHASH_DAG"`, with the zero that ends it. -/
def DAG_MAGIC_BYTES : List Byte :=
  [0x4e, 0x52, 0x47, 0x48, 0x41, 0x53, 0x48, 0x5f, 0x44, 0x41, 0x47, 0x00]

def DAG_FILE_HEADER_SIZE : Nat := 64
def DAG_FILE_MINIMUM_SIZE : Nat := 2641099136
def MAJOR_VERSION : BitVec 32 := 1
def REVISION : BitVec 32 := 23
def MINOR_VERSION : BitVec 32 := 0

/-- The size of `read_buffer`. -/
def READ_BUFFER_SIZE : Nat := 64 * 1024 * 1024

/-- The `hash_exception`s of a file that is read. -/
inductive HashException
  /-- `Not a DAG file` -/
  | notADagFile
  /-- `DAG version is invalid` -/
  | versionInvalid
  /-- `DAG cache is corrupt` -/
  | cacheCorrupt
  /-- `DAG is corrupt` -/
  | dagCorrupt
  deriving DecidableEq

/-! ## Writing -/

/-- The offsets that `save` writes count from one. -/
structure DagFileHeader where
  epoch : Nat
  cacheBegin : Nat
  cacheEnd : Nat
  dagBegin : Nat
  dagEnd : Nat

/-- The bytes of a `uint64_t`. -/
def uint64Bytes (x : Nat) : List Byte := leBytes 8 (BitVec.ofNat 64 x)

/-- The header that `save` writes for a DAG. -/
def Dag.header (dag : Dag) : DagFileHeader :=
  let cacheBegin := DAG_FILE_HEADER_SIZE + 1
  let cacheEnd := u64 (cacheBegin + dag.cache.size)
  let dagBegin := cacheEnd
  let dagEnd := u64 (dagBegin + dag.size)
  ⟨dag.epoch, cacheBegin, cacheEnd, dagBegin, dagEnd⟩

def DagFileHeader.bytes (header : DagFileHeader) : List Byte :=
  DAG_MAGIC_BYTES ++ (leBytes 4 MAJOR_VERSION ++ (leBytes 4 REVISION ++ (leBytes 4 MINOR_VERSION ++
    (uint64Bytes header.epoch ++ (uint64Bytes header.cacheBegin ++ (uint64Bytes header.cacheEnd ++
      (uint64Bytes header.dagBegin ++ uint64Bytes header.dagEnd)))))))

/-- The loops over the rows of the cache and of the DAG. -/
def rowBytes (rows : Array Hash512) : List Byte := rows.toList.flatMap serialize

/-- The bytes that `dag_t::impl_t::save` writes (`nrghash.cpp:710-766`). -/
def Dag.save (dag : Dag) : List Byte :=
  dag.header.bytes ++ (rowBytes dag.cache.data ++ rowBytes dag.data)

/-! ## The buffered reader -/

/-- The stream and `read_buffer`. -/
structure Reader where
  /-- what the stream has not delivered yet -/
  file : List Byte
  buffer : List Byte
  /-- `buffer_ptr`, from the start of the buffer -/
  ptr : Nat

/-- `fs.read` over the whole buffer. At the end of the file it leaves the rest of the buffer as it
was. -/
def Reader.refill (r : Reader) : Reader :=
  let chunk := r.file.take READ_BUFFER_SIZE
  { file := r.file.drop READ_BUFFER_SIZE
    buffer := chunk ++ r.buffer.drop chunk.length
    ptr := 0 }

/-- The buffer is primed. -/
def Reader.new (file : List Byte) : Reader := Reader.refill ⟨file, List.replicate READ_BUFFER_SIZE 0, 0⟩

/-- The lambda `read` (`nrghash.cpp:921-953`): the bytes stored at `dst`. -/
def Reader.read (r : Reader) (count : Nat) : List Byte × Reader :=
  -- the source takes one byte that is left for an empty buffer
  let r := if READ_BUFFER_SIZE - r.ptr = 1 then r.refill else r
  if count > READ_BUFFER_SIZE - r.ptr then
    let head := r.buffer.drop r.ptr
    let count := count - (READ_BUFFER_SIZE - r.ptr)
    let r := r.refill
    (head ++ r.buffer.take count, { r with ptr := count })
  else ((r.buffer.drop r.ptr).take count, { r with ptr := r.ptr + count })

/-! ## Loading -/

/-- Code that reads from the file and may throw. -/
abbrev Load := StateT Reader (Except HashException)

def readBytes (count : Nat) : Load (List Byte) := fun r => .ok (r.read count)

/-- An unsigned integer of `w` bits. -/
def readUint (w : Nat) : Load (BitVec w) := do
  let bytes ← readBytes (w / 8)
  return leWord w fun i => bytes.getD i 0

def throwIf (p : Prop) [Decidable p] (e : HashException) : Load Unit := if p then throw e else pure ()

/-- The block for which the reader computes the sizes of an epoch. -/
def epochBlock (epoch : Nat) : Nat := u64 (u64 (epoch * EPOCH_LENGTH) + 1)

/-- The sizes of the cache and of the DAG are those of the epoch. -/
def DagFileHeader.check (header : DagFileHeader) : Load Unit := do
  let cacheSize := getCacheSize (epochBlock header.epoch)
  throwIf (header.cacheEnd ≤ header.cacheBegin ∨ cacheSize ≠ header.cacheEnd - header.cacheBegin)
    .cacheCorrupt
  let size := getFullSize (epochBlock header.epoch)
  throwIf (header.dagEnd ≤ header.dagBegin ∨ size ≠ header.dagEnd - header.dagBegin) .dagCorrupt

/-- The constructor of `dag_file_header_t` (`nrghash.cpp:52-97`). -/
def readHeader : Load DagFileHeader := do
  let magic ← readBytes DAG_MAGIC_BYTES.length
  -- `std::string(magic)` ends at the first zero
  throwIf (magic.takeWhile (· ≠ 0) ≠ DAG_MAGIC_BYTES.takeWhile (· ≠ 0)) .notADagFile
  let majorVersion ← readUint 32
  let revision ← readUint 32
  let _ ← readUint 32
  throwIf (majorVersion ≠ MAJOR_VERSION ∨ revision ≠ REVISION) .versionInvalid
  let epoch ← readUint 64
  let cacheBegin ← readUint 64
  let cacheEnd ← readUint 64
  let dagBegin ← readUint 64
  let dagEnd ← readUint 64
  let header : DagFileHeader :=
    ⟨epoch.toNat, cacheBegin.toNat, cacheEnd.toNat, dagBegin.toNat, dagEnd.toNat⟩
  header.check
  return header

/-- The loops of `cache_t::impl_t::load` and of the constructor of `dag_t::impl_t`. -/
def readRows : Nat → Load (List Hash512)
  | 0 => return []
  | count + 1 => do
    let row ← readBytes HASH_BYTES
    return nodesOf 16 row :: (← readRows count)

/-- The constructor of `cache_t::impl_t` that loads (`nrghash.cpp:448-455`). -/
def Cache.load (K : KeccakFns) (epoch size : Nat) : Load Cache := do
  let data ← readRows (size / HASH_BYTES)
  return { epoch, seedhash := getSeedhash K (epochBlock epoch), size, data := data.toArray }

/-- The constructor of `dag_t::impl_t` that loads (`nrghash.cpp:689-708`). -/
def Dag.load (K : KeccakFns) (header : DagFileHeader) : Load Dag := do
  let size := header.dagEnd - header.dagBegin
  let cache ← Cache.load K header.epoch (header.cacheEnd - header.cacheBegin)
  let data ← readRows (size / HASH_BYTES)
  return { epoch := header.epoch, size, cache, data := data.toArray }

/-- `dag_cache_map`: the DAGs held, by epoch. -/
abbrev DagCache := List (Nat × Dag)

/-- `get_dag(file_path)` up to the search of the registry (`nrghash.cpp:885-960`). -/
def readDagHeader (filesize : Nat) : Load DagFileHeader := do
  throwIf (filesize < DAG_FILE_MINIMUM_SIZE) .dagCorrupt
  let header ← readHeader
  throwIf (header.cacheEnd ≥ filesize ∨ header.dagEnd > u64 (filesize + 1)) .dagCorrupt
  return header

/-- `get_dag(file_path)` from the search on: the DAG of the epoch, registered or loaded. -/
def registeredDag (K : KeccakFns) (dagCache : DagCache) (header : DagFileHeader) :
    Load (Dag × DagCache) := do
  match dagCache.lookup header.epoch with
  | some dag => return (dag, dagCache)
  | none => do
    let dag ← Dag.load K header
    return (dag, (header.epoch, dag) :: dagCache)

def loadDag (K : KeccakFns) (dagCache : DagCache) (filesize : Nat) : Load (Dag × DagCache) := do
  let header ← readDagHeader filesize
  registeredDag K dagCache header

/-- `get_dag(file_path)` (`nrghash.cpp:885-994`) for the contents of the file. -/
def getDag (K : KeccakFns) (dagCache : DagCache) (file : List Byte) :
    Except HashException (Dag × DagCache) :=
  (loadDag K dagCache (u64 file.length)).run' (.new file)

end Energiminer.Nrghash
