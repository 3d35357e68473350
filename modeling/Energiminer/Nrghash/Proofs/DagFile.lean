import Energiminer.Misc.Except
import Energiminer.Nrghash.DagFile
import Energiminer.Nrghash.Proofs.Lanes
import Energiminer.Nrghash.Proofs.Sizes

/-!
# Saved DAGs are loaded again

The buffered reader delivers the bytes of the file in order as long as no request finds exactly one byte
left in the buffer; all requests of the loader begin at a multiple of four. What `save` writes then
passes every check of the loader, unless the rows of the DAG do not make up its size: `mkcache` and
`generate` count rows in 32 bits (`nrghash.cpp:459`, `770`), the header gives the full size.
-/

namespace Energiminer.Nrghash
open Misc

/-! ## The buffered reader -/

/-- The reader has still to deliver `rest`. Behind the end of the file the buffer holds old bytes. -/
structure Reader.At (r : Reader) (rest : List Byte) : Prop where
  length : r.buffer.length = READ_BUFFER_SIZE
  rest : rest = r.buffer.drop r.ptr ++ r.file ∨ (r.file = [] ∧ rest <+: r.buffer.drop r.ptr)

section
variable {r : Reader} {rest : List Byte} {count : Nat}

theorem at_refill (hlength : r.buffer.length = READ_BUFFER_SIZE) : r.refill.At r.file := by
  rw [Reader.refill]
  rcases Nat.lt_or_ge r.file.length READ_BUFFER_SIZE with hshort | hlong
  · have hchunk : r.file.take READ_BUFFER_SIZE = r.file := List.take_of_length_le hshort.le
    refine ⟨?_, .inr ⟨List.drop_of_length_le hshort.le, ?_⟩⟩
    · simp only [hchunk, List.length_append, List.length_drop]
      omega
    · simp only [hchunk, List.drop_zero]
      exact List.prefix_append ..
  · have hchunk : (r.file.take READ_BUFFER_SIZE).length = READ_BUFFER_SIZE := by
      rw [List.length_take, Nat.min_eq_left hlong]
    have hleft : r.buffer.drop READ_BUFFER_SIZE = [] := List.drop_of_length_le hlength.le
    refine ⟨?_, .inl ?_⟩
    · simp only [hchunk, hleft, List.append_nil]
    · simp only [hchunk, hleft, List.append_nil, List.drop_zero, List.take_append_drop]

theorem at_new (file : List Byte) : (Reader.new file).At file :=
  at_refill (r := ⟨file, List.replicate READ_BUFFER_SIZE 0, 0⟩) List.length_replicate

/-- A request that the buffer can serve. -/
theorem at_advance (h : r.At rest) (hcount : count ≤ rest.length)
    (hbuffer : count ≤ READ_BUFFER_SIZE - r.ptr) :
    (r.buffer.drop r.ptr).take count = rest.take count ∧
      Reader.At { r with ptr := r.ptr + count } (rest.drop count) := by
  have hlength : count ≤ (r.buffer.drop r.ptr).length := by
    rw [List.length_drop, h.length]
    exact hbuffer
  rcases h.rest with hrest | ⟨hfile, left, hleft⟩
  · refine ⟨?_, h.length, .inl ?_⟩
    · rw [hrest, List.take_append_of_le_length hlength]
    · rw [hrest, List.drop_append_of_le_length hlength, List.drop_drop]
  · refine ⟨?_, h.length, .inr ⟨hfile, left, ?_⟩⟩
    · rw [← hleft, List.take_append_of_le_length hcount]
    · rw [← List.drop_append_of_le_length hcount, hleft, List.drop_drop]

/-- The request takes the rest of the buffer and refills it. -/
theorem at_cross (h : r.At rest) (hcount : count ≤ rest.length) (hmax : count ≤ READ_BUFFER_SIZE)
    (hcross : READ_BUFFER_SIZE - r.ptr < count) :
    r.buffer.drop r.ptr ++ r.refill.buffer.take (count - (READ_BUFFER_SIZE - r.ptr)) =
        rest.take count ∧
      Reader.At { r.refill with ptr := count - (READ_BUFFER_SIZE - r.ptr) } (rest.drop count) := by
  have hlength : (r.buffer.drop r.ptr).length = READ_BUFFER_SIZE - r.ptr := by
    rw [List.length_drop, h.length]
  rcases h.rest with hrest | ⟨-, hprefix⟩
  · have hfile : count - (READ_BUFFER_SIZE - r.ptr) ≤ r.file.length := by
      rw [hrest, List.length_append, hlength] at hcount
      omega
    obtain ⟨htake, hat⟩ := at_advance (at_refill h.length) hfile
      (show _ ≤ READ_BUFFER_SIZE - 0 by omega)
    have hptr : r.refill.ptr = 0 := rfl
    have hall : (r.buffer.drop r.ptr).length ≤ count := hlength ▸ hcross.le
    rw [hptr, List.drop_zero] at htake
    rw [hptr, Nat.zero_add] at hat
    refine ⟨?_, ?_⟩
    · rw [htake, hrest, List.take_append, List.take_of_length_le hall, hlength]
    · rw [hrest, List.drop_append, List.drop_of_length_le hall, hlength, List.nil_append]
      exact hat
  · -- the file has ended and the buffer holds all of `rest`
    have hle := hprefix.length_le
    omega

/-- A request that does not find exactly one byte in the buffer gets the next bytes of the file. -/
theorem read_at (h : r.At rest) (hone : READ_BUFFER_SIZE - r.ptr ≠ 1) (hcount : count ≤ rest.length)
    (hmax : count ≤ READ_BUFFER_SIZE) :
    (r.read count).1 = rest.take count ∧ (r.read count).2.At (rest.drop count) := by
  rw [Reader.read, if_neg hone]
  dsimp only
  split
  next hcross => exact at_cross h hcount hmax hcross
  next hserve => exact at_advance h hcount (Nat.le_of_not_lt hserve)

/-- Requests of multiples of four bytes keep the reader at a multiple of four. -/
theorem ptr_read (hptr : r.ptr % 4 = 0) (hcount : count % 4 = 0) : (r.read count).2.ptr % 4 = 0 := by
  have hone : READ_BUFFER_SIZE - r.ptr ≠ 1 := by
    simp only [READ_BUFFER_SIZE]
    omega
  rw [Reader.read, if_neg hone]
  dsimp only
  split
  · simp only [READ_BUFFER_SIZE]
    omega
  · dsimp only
    omega

/-- The reader is at a multiple of four and has still to deliver `rest`. -/
structure Reader.Ahead (r : Reader) (rest : List Byte) : Prop where
  reader : r.At rest
  aligned : r.ptr % 4 = 0

theorem ahead_new (file : List Byte) : (Reader.new file).Ahead file := ⟨at_new file, rfl⟩

end

/-! ## Loading code -/

/-- The code reads exactly `bytes` and goes on as `y`. -/
def Reaches {α : Type} (x : Load α) (bytes : List Byte) (y : Load α) : Prop :=
  ∀ (r : Reader) (rest : List Byte), r.Ahead (bytes ++ rest) → ∃ r', x r = y r' ∧ r'.Ahead rest

/-- The code reads exactly `bytes` and returns `a`. -/
def Delivers {α : Type} (x : Load α) (bytes : List Byte) (a : α) : Prop := Reaches x bytes (pure a)

section
variable {α β : Type} {x : Load α} {f : α → Load β} {y : Load β} {bytes bytes' : List Byte} {a : α}

theorem reaches_self (x : Load α) : Reaches x [] x := fun r _ h => ⟨r, rfl, h⟩

theorem Delivers.bind (hx : Delivers x bytes a) (hf : Reaches (f a) bytes' y) :
    Reaches (x >>= f) (bytes ++ bytes') y := by
  intro r rest h
  rw [List.append_assoc] at h
  obtain ⟨r', hr', h'⟩ := hx r _ h
  obtain ⟨r'', hr'', h''⟩ := hf r' rest h'
  refine ⟨r'', ?_, h''⟩
  show (x r >>= fun p => f p.1 p.2) = _
  rw [hr']
  exact hr''

theorem Delivers.last (hx : Delivers x bytes a) (hf : Reaches (f a) [] y) :
    Reaches (x >>= f) bytes y := by
  have h := hx.bind hf
  rwa [List.append_nil] at h

theorem Reaches.bind {y : Load α} (hx : Reaches x bytes y) (f : α → Load β) :
    Reaches (x >>= f) bytes (y >>= f) := by
  intro r rest h
  obtain ⟨r', hr', h'⟩ := hx r rest h
  refine ⟨r', ?_, h'⟩
  show (x r >>= fun p => f p.1 p.2) = (y r' >>= fun p => f p.1 p.2)
  rw [hr']

theorem Delivers.map (hx : Delivers x bytes a) (g : α → β) :
    Delivers (x >>= fun a => pure (g a)) bytes (g a) :=
  hx.last (reaches_self _)

theorem Reaches.check {p : Prop} [Decidable p] {e : HashException} {x y : Load α} (hp : ¬ p)
    (hx : Reaches x bytes y) : Reaches (throwIf p e >>= fun _ => x) bytes y := by
  rw [throwIf, if_neg hp]
  exact hx

theorem delivers_readBytes {count : Nat} (hlength : bytes.length = count) (hcount : count % 4 = 0)
    (hmax : count ≤ READ_BUFFER_SIZE) : Delivers (readBytes count) bytes bytes := by
  intro r rest h
  have hone : READ_BUFFER_SIZE - r.ptr ≠ 1 := by
    have haligned := h.aligned
    simp only [READ_BUFFER_SIZE]
    omega
  have hle : count ≤ (bytes ++ rest).length := by
    rw [List.length_append]
    omega
  obtain ⟨htake, hat⟩ := read_at h.reader hone hle hmax
  rw [List.take_left' hlength] at htake
  rw [List.drop_left' hlength] at hat
  refine ⟨(r.read count).2, ?_, hat, ptr_read h.aligned hcount⟩
  rw [← htake]
  rfl

theorem leWord_leBytes {w n : Nat} (x : BitVec w) (hn : w ≤ 8 * n) :
    (leWord w fun i => (leBytes n x).getD i 0) = x := by
  refine (leWord_congr w fun i hi => ?_).trans (leWord_byteOf x)
  exact getD_leBytes n x i (by omega)

theorem delivers_readUint {w n : Nat} (x : BitVec w) (hw : w / 8 = n) (hle : w ≤ 8 * n)
    (hn : n % 4 = 0) (hmax : n ≤ READ_BUFFER_SIZE) : Delivers (readUint w) (leBytes n x) x := by
  subst hw
  have hbytes := delivers_readBytes (length_leBytes (w / 8) x) hn hmax
  have hword := hbytes.map fun bytes => leWord w fun i => bytes.getD i 0
  rw [leWord_leBytes x hle] at hword
  exact hword

theorem delivers_readUint32 (x : BitVec 32) : Delivers (readUint 32) (leBytes 4 x) x :=
  delivers_readUint x rfl (by decide) rfl (by decide)

theorem delivers_readUint64 (x : Nat) :
    Delivers (readUint 64) (uint64Bytes x) (BitVec.ofNat 64 x) :=
  delivers_readUint _ rfl (by decide) rfl (by decide)

/-! ## Rows -/

theorem nodesOf_serialize (row : Hash512) : nodesOf 16 (serialize row) = row := by
  refine Vector.ext fun k hk => ?_
  rw [nodesOf, Vector.getElem_ofFn]
  refine (leWord_congr 32 fun j hj => ?_).trans (leWord_byteOf row[k])
  have hj : j < 4 := by omega
  rw [getD_serialize row _ (by dsimp only; omega), show (4 * k + j) / 4 = k by omega,
    show (4 * k + j) % 4 = j by omega, cell_eq_getElem row hk]

theorem delivers_readRows (rows : List Hash512) :
    Delivers (readRows rows.length) (rows.flatMap serialize) rows := by
  induction rows with
  | nil => exact reaches_self _
  | cons row rows ih =>
    have hrow := delivers_readBytes (length_serialize row) (by decide : 4 * 16 % 4 = 0) (by decide)
    have hnext : Delivers (readRows (rows.length + 1)) (serialize row ++ rows.flatMap serialize)
        (nodesOf 16 (serialize row) :: rows) :=
      hrow.bind (ih.map fun rows => nodesOf 16 (serialize row) :: rows)
    rw [nodesOf_serialize] at hnext
    exact hnext

theorem length_rowBytes (rows : Array Hash512) : (rowBytes rows).length = HASH_BYTES * rows.size := by
  rw [rowBytes, List.length_flatMap]
  simp [length_serialize, HASH_BYTES, Nat.mul_comm]

end

/-! ## The header -/

section
variable {header : DagFileHeader} {e : HashException}

/-- The fields of the header are `uint64_t`. -/
structure DagFileHeader.Fits (header : DagFileHeader) : Prop where
  epoch : header.epoch < 2 ^ 64
  cacheBegin : header.cacheBegin < 2 ^ 64
  cacheEnd : header.cacheEnd < 2 ^ 64
  dagBegin : header.dagBegin < 2 ^ 64
  dagEnd : header.dagEnd < 2 ^ 64

theorem DagFileHeader.Fits.eq (h : header.Fits) :
    (⟨(BitVec.ofNat 64 header.epoch).toNat, (BitVec.ofNat 64 header.cacheBegin).toNat,
      (BitVec.ofNat 64 header.cacheEnd).toNat, (BitVec.ofNat 64 header.dagBegin).toNat,
      (BitVec.ofNat 64 header.dagEnd).toNat⟩ : DagFileHeader) = header := by
  simp only [BitVec.toNat_ofNat, Nat.mod_eq_of_lt h.epoch, Nat.mod_eq_of_lt h.cacheBegin,
    Nat.mod_eq_of_lt h.cacheEnd, Nat.mod_eq_of_lt h.dagBegin, Nat.mod_eq_of_lt h.dagEnd]

/-- The header that was written is read; the checks of the sizes follow. -/
theorem reaches_readHeader (hfits : header.Fits) :
    Reaches readHeader header.bytes (header.check >>= fun _ => pure header) := by
  have hmagic : Delivers (readBytes DAG_MAGIC_BYTES.length) DAG_MAGIC_BYTES DAG_MAGIC_BYTES :=
    delivers_readBytes rfl (by decide) (by decide)
  refine hmagic.bind (.check (not_not.mpr rfl) ?_)
  refine (delivers_readUint32 _).bind ((delivers_readUint32 _).bind ((delivers_readUint32 _).bind ?_))
  refine .check (not_or.mpr ⟨not_not.mpr rfl, not_not.mpr rfl⟩) ?_
  refine (delivers_readUint64 _).bind ((delivers_readUint64 _).bind ((delivers_readUint64 _).bind ?_))
  refine (delivers_readUint64 _).bind ((delivers_readUint64 _).last ?_)
  dsimp only
  rw [hfits.eq]
  exact reaches_self _

end

/-! ## Round trip -/

theorem epochBlock_div {epoch : Nat} (h : epoch * EPOCH_LENGTH + 1 < 2 ^ 64) :
    epochBlock epoch / EPOCH_LENGTH = epoch := by
  have hblock : epochBlock epoch = epoch * EPOCH_LENGTH + 1 := by
    rw [epochBlock, u64, u64, Nat.mod_eq_of_lt (by omega : epoch * EPOCH_LENGTH < 2 ^ 64),
      Nat.mod_eq_of_lt h]
  rw [hblock, EPOCH_LENGTH]
  omega

/-- A DAG of an epoch, whatever its cache and its rows hold. -/
structure Dag.OfEpoch (dag : Dag) (epoch : Nat) : Prop where
  number : dag.epoch = epoch
  size : dag.size = getFullSize (epoch * EPOCH_LENGTH)
  cacheSize : dag.cache.size = getCacheSize (epoch * EPOCH_LENGTH)

/-- The rows make up the sizes, and the offsets of the file fit into 64 bits. -/
structure Dag.Complete (dag : Dag) : Prop where
  cacheRows : HASH_BYTES * dag.cache.data.size = dag.cache.size
  rows : HASH_BYTES * dag.data.size = dag.size
  offsets : DAG_FILE_HEADER_SIZE + 1 + dag.cache.size + dag.size < 2 ^ 64

/-- The two DAGs have the same epoch, size, cache data and data. -/
structure Dag.Same (dag dag' : Dag) : Prop where
  epoch : dag.epoch = dag'.epoch
  size : dag.size = dag'.size
  cacheData : dag.cache.data = dag'.cache.data
  data : dag.data = dag'.data

section
variable {K : KeccakFns} {epoch : Nat} {dag : Dag} {dagCache : DagCache}

theorem Dag.OfEpoch.sizes (h : dag.OfEpoch epoch) (hblock : epoch * EPOCH_LENGTH + 1 < 2 ^ 64) :
    dag.cache.size = getCacheSize (epochBlock dag.epoch) ∧
      dag.size = getFullSize (epochBlock dag.epoch) := by
  have hdiv : epoch * EPOCH_LENGTH / EPOCH_LENGTH = epochBlock epoch / EPOCH_LENGTH := by
    rw [epochBlock_div hblock, Nat.mul_div_cancel _ (by decide)]
  rw [h.number, h.cacheSize, h.size, getCacheSize_congr hdiv, getFullSize_congr hdiv]
  exact ⟨rfl, rfl⟩

theorem fits_header (h : dag.OfEpoch epoch) (hblock : epoch * EPOCH_LENGTH + 1 < 2 ^ 64) :
    dag.header.Fits := by
  have hlt : ∀ x, u64 x < 2 ^ 64 := fun x => Nat.mod_lt _ (by decide)
  refine ⟨?_, show DAG_FILE_HEADER_SIZE + 1 < 2 ^ 64 by decide, hlt _, hlt _, hlt _⟩
  show dag.epoch < 2 ^ 64
  rw [h.number]
  simp only [EPOCH_LENGTH] at hblock
  omega

theorem check_header (h : dag.OfEpoch epoch) (hblock : epoch * EPOCH_LENGTH + 1 < 2 ^ 64)
    (hoffsets : DAG_FILE_HEADER_SIZE + 1 + dag.cache.size + dag.size < 2 ^ 64) :
    dag.header.check = pure () := by
  obtain ⟨hcache, hsize⟩ := h.sizes hblock
  have hcacheOdd := getCacheSize_odd (epochBlock dag.epoch)
  have hsizeOdd := getFullSize_odd (epochBlock dag.epoch)
  rw [← hcache] at hcacheOdd
  rw [← hsize] at hsizeOdd
  simp only [DAG_FILE_HEADER_SIZE] at hoffsets
  have hcacheEnd : dag.header.cacheEnd = 65 + dag.cache.size :=
    Nat.mod_eq_of_lt (show 65 + dag.cache.size < 2 ^ 64 by omega)
  have hdagEnd : dag.header.dagEnd = 65 + dag.cache.size + dag.size := by
    show u64 (dag.header.cacheEnd + dag.size) = _
    rw [hcacheEnd, u64, Nat.mod_eq_of_lt (by omega)]
  have hcacheBegin : dag.header.cacheBegin = 65 := rfl
  have hdagBegin : dag.header.dagBegin = 65 + dag.cache.size := hcacheEnd
  rw [DagFileHeader.check]
  dsimp only
  rw [show dag.header.epoch = dag.epoch from rfl, ← hcache, ← hsize, throwIf, if_neg (by omega),
    throwIf, if_neg (by omega)]
  rfl

theorem check_header_error (h : dag.OfEpoch epoch) (hblock : epoch * EPOCH_LENGTH + 1 < 2 ^ 64)
    (hoffsets : ¬ DAG_FILE_HEADER_SIZE + 1 + dag.cache.size + dag.size < 2 ^ 64) (r : Reader) :
    ∃ e, dag.header.check r = .error e := by
  obtain ⟨hcache, hsize⟩ := h.sizes hblock
  have hcacheLt := getCacheSize_lt (epochBlock dag.epoch)
  have hsizeLt := getFullSize_lt (epochBlock dag.epoch)
  rw [← hcache] at hcacheLt
  rw [← hsize] at hsizeLt
  simp only [DAG_FILE_HEADER_SIZE] at hoffsets
  have hcacheBegin : dag.header.cacheBegin = 65 := rfl
  have hcacheEnd : dag.header.cacheEnd = (65 + dag.cache.size) % 2 ^ 64 := rfl
  have hdagBegin : dag.header.dagBegin = dag.header.cacheEnd := rfl
  have hdagEnd : dag.header.dagEnd = (dag.header.cacheEnd + dag.size) % 2 ^ 64 := rfl
  rw [DagFileHeader.check]
  dsimp only
  by_cases hcorrupt : dag.header.cacheEnd ≤ dag.header.cacheBegin ∨
      getCacheSize (epochBlock dag.header.epoch) ≠ dag.header.cacheEnd - dag.header.cacheBegin
  · rw [throwIf, if_pos hcorrupt]
    exact ⟨_, rfl⟩
  · rw [throwIf, if_neg hcorrupt, throwIf, if_pos (.inl (by omega))]
    exact ⟨_, rfl⟩

/-- The rest of the loader after the header. -/
def finishDag (K : KeccakFns) (dagCache : DagCache) (filesize : Nat) (header : DagFileHeader) :
    Load (Dag × DagCache) := do
  throwIf (header.cacheEnd ≥ filesize ∨ header.dagEnd > u64 (filesize + 1)) .dagCorrupt
  registeredDag K dagCache header

theorem loadDag_eq (K : KeccakFns) (dagCache : DagCache) (filesize : Nat) :
    loadDag K dagCache filesize =
      throwIf (filesize < DAG_FILE_MINIMUM_SIZE) .dagCorrupt >>= fun _ =>
        readHeader >>= finishDag K dagCache filesize := by
  simp only [loadDag, readDagHeader, bind_assoc, pure_bind]
  rfl

theorem loadDag_save (K : KeccakFns) (dagCache : DagCache) (h : dag.OfEpoch epoch)
    (hblock : epoch * EPOCH_LENGTH + 1 < 2 ^ 64) {filesize : Nat} (hmin : DAG_FILE_MINIMUM_SIZE ≤ filesize) :
    Reaches (loadDag K dagCache filesize) dag.header.bytes
      (dag.header.check >>= fun _ => finishDag K dagCache filesize dag.header) := by
  have hheader := (reaches_readHeader (fits_header h hblock)).bind (finishDag K dagCache filesize)
  rw [bind_assoc] at hheader
  rw [loadDag_eq]
  exact hheader.check (Nat.not_lt.mpr hmin)

theorem length_bytes (header : DagFileHeader) : header.bytes.length = 64 := by
  simp [DagFileHeader.bytes, uint64Bytes, DAG_MAGIC_BYTES]

theorem length_save (dag : Dag) :
    dag.save.length = 64 + HASH_BYTES * dag.cache.data.size + HASH_BYTES * dag.data.size := by
  rw [Dag.save, List.length_append, List.length_append, length_rowBytes, length_rowBytes,
    length_bytes]
  omega

theorem delivers_load (K : KeccakFns) (hcacheRows : HASH_BYTES * dag.cache.data.size = dag.cache.size)
    (hrows : HASH_BYTES * dag.data.size = dag.size) (header : DagFileHeader)
    (hcache : header.cacheEnd - header.cacheBegin = dag.cache.size)
    (hdag : header.dagEnd - header.dagBegin = dag.size) :
    ∃ loaded, Delivers (Dag.load K header) (rowBytes dag.cache.data ++ rowBytes dag.data) loaded ∧
      loaded.epoch = header.epoch ∧ loaded.size = dag.size ∧
      loaded.cache.data = dag.cache.data ∧ loaded.data = dag.data := by
  have hcount : ∀ rows : Array Hash512, HASH_BYTES * rows.size / HASH_BYTES = rows.toList.length :=
    fun rows => Nat.mul_div_cancel_left _ (by decide)
  have hcacheData := delivers_readRows dag.cache.data.toList
  have hdata := delivers_readRows dag.data.toList
  rw [← hcount, hcacheRows, ← hcache] at hcacheData
  rw [← hcount, hrows, ← hdag] at hdata
  refine ⟨_, (hcacheData.map _).bind (hdata.map _), rfl, hdag, ?_, ?_⟩
  · exact Array.toArray_toList
  · exact Array.toArray_toList

theorem bind_eq_ok {α β : Type} {x : Load α} {f : α → Load β} {r r'' : Reader} {b : β}
    (h : (x >>= f) r = .ok (b, r'')) : ∃ a r', x r = .ok (a, r') ∧ f a r' = .ok (b, r'') := by
  obtain ⟨⟨a, r'⟩, hx, hf⟩ := Except.bind_eq_ok.mp h
  exact ⟨a, r', hx, hf⟩

theorem length_readRows {count : Nat} {r r' : Reader} {rows : List Hash512}
    (h : readRows count r = .ok (rows, r')) : rows.length = count := by
  induction count generalizing r r' rows with
  | zero =>
    cases h
    rfl
  | succ count ih =>
    obtain ⟨row, r₁, -, hnext⟩ := bind_eq_ok h
    obtain ⟨rows', r₂, hrows, hreturn⟩ := bind_eq_ok hnext
    cases hreturn
    rw [List.length_cons, ih hrows]

/-- Whatever is loaded has as many rows as the offsets say. -/
theorem size_load {header : DagFileHeader} {r r' : Reader} {loaded : Dag}
    (h : Dag.load K header r = .ok (loaded, r')) :
    loaded.cache.data.size = (header.cacheEnd - header.cacheBegin) / HASH_BYTES ∧
      loaded.data.size = (header.dagEnd - header.dagBegin) / HASH_BYTES := by
  obtain ⟨cache, r₁, hcache, hnext⟩ := bind_eq_ok h
  obtain ⟨cacheData, r₂, hcacheData, hcacheReturn⟩ := bind_eq_ok hcache
  obtain ⟨data, r₃, hdata, hreturn⟩ := bind_eq_ok hnext
  cases hcacheReturn
  cases hreturn
  exact ⟨length_readRows hcacheData, length_readRows hdata⟩

/-- The offsets that `save` writes if they fit. -/
theorem header_eq (hoffsets : DAG_FILE_HEADER_SIZE + 1 + dag.cache.size + dag.size < 2 ^ 64) :
    dag.header = ⟨dag.epoch, 65, 65 + dag.cache.size, 65 + dag.cache.size,
      65 + dag.cache.size + dag.size⟩ := by
  simp only [DAG_FILE_HEADER_SIZE] at hoffsets
  have hcache : 64 + 1 + dag.cache.size < 2 ^ 64 := by omega
  rw [Dag.header, DAG_FILE_HEADER_SIZE, u64, u64, Nat.mod_eq_of_lt hcache,
    Nat.mod_eq_of_lt hoffsets]

section
variable (K : KeccakFns) (dagCache : DagCache)

/-- `get_dag` for a saved DAG whose offsets fit, after the header. -/
theorem getDag_save (h : dag.OfEpoch epoch) (hblock : epoch * EPOCH_LENGTH + 1 < 2 ^ 64)
    (hoffsets : DAG_FILE_HEADER_SIZE + 1 + dag.cache.size + dag.size < 2 ^ 64)
    (hmin : DAG_FILE_MINIMUM_SIZE ≤ u64 dag.save.length) :
    ∃ r : Reader, r.Ahead (rowBytes dag.cache.data ++ rowBytes dag.data) ∧
      getDag K dagCache dag.save =
        (finishDag K dagCache (u64 dag.save.length) dag.header).run' r := by
  obtain ⟨r, hr, hahead⟩ := loadDag_save K dagCache h hblock hmin (.new dag.save)
    (rowBytes dag.cache.data ++ rowBytes dag.data) (ahead_new dag.save)
  rw [check_header h hblock hoffsets, pure_bind] at hr
  refine ⟨r, hahead, ?_⟩
  rw [getDag, StateT.run', hr]
  rfl

variable {filesize : Nat} {header : DagFileHeader}

theorem finishDag_corrupt
    (h : header.cacheEnd ≥ filesize ∨ header.dagEnd > u64 (filesize + 1)) (r : Reader) :
    (finishDag K dagCache filesize header).run' r = .error .dagCorrupt := by
  rw [finishDag, throwIf, if_pos h]
  rfl

theorem finishDag_eq (h : ¬ (header.cacheEnd ≥ filesize ∨ header.dagEnd > u64 (filesize + 1)))
    (hnone : dagCache.lookup header.epoch = none) :
    finishDag K dagCache filesize header =
      Dag.load K header >>= fun dag => pure (dag, (header.epoch, dag) :: dagCache) := by
  rw [finishDag, throwIf, if_neg h, pure_bind, registeredDag, hnone]

end

theorem Dag.Complete.length_save (h : dag.Complete) :
    dag.save.length = 64 + dag.cache.size + dag.size := by
  rw [Nrghash.length_save, h.cacheRows, h.rows]

theorem Dag.OfEpoch.size_pos (h : dag.OfEpoch epoch) : 64 < dag.size := by
  have hodd := getFullSize_odd (epoch * EPOCH_LENGTH)
  rw [← h.size] at hodd
  omega

theorem getDag_of_complete (K : KeccakFns) (hblock : epoch * EPOCH_LENGTH + 1 < 2 ^ 64)
    (h : dag.OfEpoch epoch) (hnone : dagCache.lookup epoch = none)
    (hmin : DAG_FILE_MINIMUM_SIZE ≤ dag.save.length) (hcomplete : dag.Complete) :
    ∃ loaded dagCache', getDag K dagCache dag.save = .ok (loaded, dagCache') ∧ loaded.Same dag := by
  have hoffsets := hcomplete.offsets
  have hpos := h.size_pos
  have hlength := hcomplete.length_save
  have hsize : u64 dag.save.length = dag.save.length := by
    simp only [DAG_FILE_HEADER_SIZE] at hoffsets
    exact Nat.mod_eq_of_lt (by omega)
  have hheader := header_eq hoffsets
  obtain ⟨r, hahead, hget⟩ := getDag_save K dagCache h hblock hoffsets (hmin.trans_eq hsize.symm)
  obtain ⟨loaded, hload, hepoch, hloadedSize, hcacheData, hdata⟩ :=
    delivers_load K hcomplete.cacheRows hcomplete.rows dag.header
      (by rw [hheader]; dsimp only; omega) (by rw [hheader]; dsimp only; omega)
  obtain ⟨r', hr', -⟩ := (hload.map fun loaded => (loaded, (dag.header.epoch, loaded) :: dagCache)) r []
    (by rwa [List.append_nil])
  have hchecks : ¬ (dag.header.cacheEnd ≥ u64 dag.save.length ∨
      dag.header.dagEnd > u64 (u64 dag.save.length + 1)) := by
    have hnext : u64 (dag.save.length + 1) = dag.save.length + 1 := by
      simp only [DAG_FILE_HEADER_SIZE] at hoffsets
      exact Nat.mod_eq_of_lt (by omega)
    rw [hsize, hnext, hheader]
    dsimp only
    omega
  refine ⟨loaded, (dag.header.epoch, loaded) :: dagCache, ?_, hepoch, hloadedSize, hcacheData, hdata⟩
  rw [hget, finishDag_eq K dagCache hchecks (by rw [hheader, h.number]; exact hnone), StateT.run', hr']
  rfl

theorem run'_eq_ok {α : Type} {x : Load α} {r : Reader} {a : α} (h : x.run' r = .ok a) :
    ∃ r', x r = .ok (a, r') := by
  rw [StateT.run'] at h
  cases hx : x r with
  | error e =>
    rw [hx] at h
    cases h
  | ok p =>
    rw [hx] at h
    cases h
    exact ⟨p.2, rfl⟩

theorem offsets_of_getDag (hblock : epoch * EPOCH_LENGTH + 1 < 2 ^ 64) (h : dag.OfEpoch epoch)
    {loaded : Dag × DagCache} (hload : getDag K dagCache dag.save = .ok loaded) :
    DAG_FILE_MINIMUM_SIZE ≤ u64 dag.save.length ∧
      DAG_FILE_HEADER_SIZE + 1 + dag.cache.size + dag.size < 2 ^ 64 := by
  have hmin : DAG_FILE_MINIMUM_SIZE ≤ u64 dag.save.length := by
    by_contra hsmall
    rw [getDag, loadDag_eq, throwIf, if_pos (Nat.lt_of_not_le hsmall)] at hload
    cases hload
  refine ⟨hmin, ?_⟩
  by_contra hoffsets
  obtain ⟨r', hr'⟩ := run'_eq_ok hload
  obtain ⟨r, hr, -⟩ := loadDag_save K dagCache h hblock hmin (.new dag.save)
    (rowBytes dag.cache.data ++ rowBytes dag.data) (ahead_new dag.save)
  obtain ⟨e, he⟩ := check_header_error h hblock hoffsets r
  obtain ⟨_, _, hcheck, -⟩ := bind_eq_ok (hr.symm.trans hr')
  rw [he] at hcheck
  cases hcheck

/-- What is loaded from a saved DAG is the DAG only if it is complete. -/
theorem complete_of_getDag (hblock : epoch * EPOCH_LENGTH + 1 < 2 ^ 64) (h : dag.OfEpoch epoch)
    (hnone : dagCache.lookup epoch = none) {loaded : Dag} {dagCache' : DagCache}
    (hload : getDag K dagCache dag.save = .ok (loaded, dagCache')) (hsame : loaded.Same dag) :
    dag.Complete := by
  obtain ⟨hmin, hoffsets⟩ := offsets_of_getDag hblock h hload
  have hheader := header_eq hoffsets
  obtain ⟨r, -, hget⟩ := getDag_save K dagCache h hblock hoffsets hmin
  rw [hget] at hload
  by_cases hchecks : dag.header.cacheEnd ≥ u64 dag.save.length ∨
      dag.header.dagEnd > u64 (u64 dag.save.length + 1)
  · rw [finishDag_corrupt K dagCache hchecks] at hload
    cases hload
  · rw [finishDag_eq K dagCache hchecks (by rw [hheader, h.number]; exact hnone)] at hload
    obtain ⟨r', hr'⟩ := run'_eq_ok hload
    obtain ⟨dag', r₁, hdag', hreturn⟩ := bind_eq_ok hr'
    cases hreturn
    obtain ⟨hcacheRows, hrows⟩ := size_load hdag'
    have hcacheOdd := getCacheSize_odd (epoch * EPOCH_LENGTH)
    have hsizeOdd := getFullSize_odd (epoch * EPOCH_LENGTH)
    rw [← h.cacheSize] at hcacheOdd
    rw [← h.size] at hsizeOdd
    rw [hsame.cacheData, hheader, HASH_BYTES] at hcacheRows
    rw [hsame.data, hheader, HASH_BYTES] at hrows
    dsimp only at hcacheRows hrows
    exact ⟨by rw [HASH_BYTES]; omega, by rw [HASH_BYTES]; omega, hoffsets⟩

/-- A saved DAG of an epoch is loaded again as it was if and only if its rows make up its sizes and the
offsets of the file fit into 64 bits. -/
theorem loads_iff_complete (K : KeccakFns) (hblock : epoch * EPOCH_LENGTH + 1 < 2 ^ 64)
    (h : dag.OfEpoch epoch) (hnone : dagCache.lookup epoch = none)
    (hmin : DAG_FILE_MINIMUM_SIZE ≤ dag.save.length) :
    (∃ loaded dagCache', getDag K dagCache dag.save = .ok (loaded, dagCache') ∧ loaded.Same dag) ↔
      dag.Complete :=
  ⟨fun ⟨_, _, hload, hsame⟩ => complete_of_getDag hblock h hnone hload hsame,
    getDag_of_complete K hblock h hnone hmin⟩

/-- A DAG with too few rows is refused when it is loaded again. -/
theorem getDag_of_truncated (K : KeccakFns) (dagCache : DagCache)
    (hblock : epoch * EPOCH_LENGTH + 1 < 2 ^ 64) (h : dag.OfEpoch epoch)
    (hcacheRows : HASH_BYTES * dag.cache.data.size = dag.cache.size)
    (hrows : HASH_BYTES * dag.data.size < dag.size)
    (hoffsets : DAG_FILE_HEADER_SIZE + 1 + dag.cache.size + dag.size < 2 ^ 64)
    (hmin : DAG_FILE_MINIMUM_SIZE ≤ dag.save.length) :
    getDag K dagCache dag.save = .error .dagCorrupt := by
  have hlength := length_save dag
  have hfits : 65 + dag.cache.size + dag.size < 2 ^ 64 := hoffsets
  have hfilesize : u64 dag.save.length = dag.save.length := Nat.mod_eq_of_lt (by omega)
  have hnext : u64 (dag.save.length + 1) = dag.save.length + 1 := Nat.mod_eq_of_lt (by omega)
  obtain ⟨r, -, hget⟩ := getDag_save K dagCache h hblock hoffsets (hmin.trans_eq hfilesize.symm)
  rw [hget]
  refine finishDag_corrupt K dagCache (.inr ?_) r
  rw [hfilesize, hnext, header_eq hoffsets]
  dsimp only
  omega

end

/-- A DAG with rows of zeros. -/
def zeroDag (epoch size cacheSize : Nat) : Dag where
  epoch := epoch
  size := size
  cache :=
    { epoch, seedhash := [], size := cacheSize
      data := Array.replicate (cacheSize / HASH_BYTES) default }
  data := Array.replicate (size / HASH_BYTES) default

theorem complete_zeroDag {epoch size cacheSize : Nat} (hsize : size % 64 = 0)
    (hcacheSize : cacheSize % 64 = 0) (hoffsets : 65 + cacheSize + size < 2 ^ 64) :
    (zeroDag epoch size cacheSize).Complete := by
  refine ⟨?_, ?_, hoffsets⟩
  · simp only [zeroDag, Array.size_replicate, HASH_BYTES]
    omega
  · simp only [zeroDag, Array.size_replicate, HASH_BYTES]
    omega

theorem offsets_fit {epoch : Nat} (h : epoch ≤ 2 ^ 17) :
    65 + getCacheSize (epoch * EPOCH_LENGTH) + getFullSize (epoch * EPOCH_LENGTH) < 2 ^ 64 := by
  have hdiv : epoch * EPOCH_LENGTH / EPOCH_LENGTH = epoch := Nat.mul_div_cancel _ (by decide)
  have hcache := getCacheSize_le (b := epoch * EPOCH_LENGTH) (by omega)
  have hsize := getFullSize_le (b := epoch * EPOCH_LENGTH) (by omega)
  rw [hdiv] at hcache hsize
  simp only [CACHE_BYTES_INIT, CACHE_BYTES_GROWTH] at hcache
  simp only [DATASET_BYTES_INIT, DATASET_BYTES_GROWTH] at hsize
  omega

/-- The DAG of the epoch 1024 with rows of zeros. -/
theorem loads_iff_complete_zeros :
    ∃ loaded dagCache', getDag keccakTiny []
        (zeroDag 1024 (getFullSize (1024 * EPOCH_LENGTH)) (getCacheSize (1024 * EPOCH_LENGTH))).save =
          .ok (loaded, dagCache') ∧
      loaded.Same
        (zeroDag 1024 (getFullSize (1024 * EPOCH_LENGTH)) (getCacheSize (1024 * EPOCH_LENGTH))) := by
  have hsize : MIX_BYTES * 2 ^ 25 < getFullSize (1024 * EPOCH_LENGTH) :=
    lt_primeSize (by decide) (by decide) (by decide) (by decide) (by decide)
  have hodd := getFullSize_odd (1024 * EPOCH_LENGTH)
  have hcacheOdd := getCacheSize_odd (1024 * EPOCH_LENGTH)
  have hoffsets := offsets_fit (show 1024 ≤ 2 ^ 17 by decide)
  have hepoch : (zeroDag 1024 (getFullSize (1024 * EPOCH_LENGTH))
      (getCacheSize (1024 * EPOCH_LENGTH))).OfEpoch 1024 := ⟨rfl, rfl, rfl⟩
  -- the sizes are numbers the proof must not evaluate
  generalize getFullSize (1024 * EPOCH_LENGTH) = size at *
  generalize getCacheSize (1024 * EPOCH_LENGTH) = cacheSize at *
  have hcomplete : (zeroDag 1024 size cacheSize).Complete :=
    complete_zeroDag (by omega) (by omega) hoffsets
  have hmin : DAG_FILE_MINIMUM_SIZE ≤ (zeroDag 1024 size cacheSize).save.length := by
    rw [hcomplete.length_save, DAG_FILE_MINIMUM_SIZE]
    simp only [zeroDag]
    rw [MIX_BYTES] at hsize
    omega
  exact (loads_iff_complete keccakTiny (by decide) hepoch rfl hmin).mpr hcomplete

/-- The DAG that is generated for an epoch. -/
def epochDag (K : KeccakFns) (epoch : Nat) : Dag :=
  Dag.generate K (epoch * EPOCH_LENGTH) (Cache.generate K (epoch * EPOCH_LENGTH))

theorem ofEpoch_epochDag (K : KeccakFns) (epoch : Nat) : (epochDag K epoch).OfEpoch epoch :=
  ⟨Nat.mul_div_cancel _ (by decide), rfl, rfl⟩

/-- `generate` truncates the number of rows to 32 bits, so a DAG of `2 ^ 38` bytes lacks rows. -/
theorem getDag_epochDag (K : KeccakFns) {epoch : Nat} (hepoch : epoch ≤ 2 ^ 17)
    (hcache : DAG_FILE_MINIMUM_SIZE ≤ getCacheSize (epoch * EPOCH_LENGTH))
    (hsize : 2 ^ 38 ≤ getFullSize (epoch * EPOCH_LENGTH)) :
    DAG_FILE_MINIMUM_SIZE ≤ (epochDag K epoch).save.length ∧
      getDag K [] (epochDag K epoch).save = .error .dagCorrupt := by
  have hdiv : epoch * EPOCH_LENGTH / EPOCH_LENGTH = epoch := Nat.mul_div_cancel _ (by decide)
  have hcacheOdd := getCacheSize_odd (epoch * EPOCH_LENGTH)
  have hcacheLe := getCacheSize_le (b := epoch * EPOCH_LENGTH) (by omega)
  rw [hdiv] at hcacheLe
  simp only [CACHE_BYTES_INIT, CACHE_BYTES_GROWTH] at hcacheLe
  rw [DAG_FILE_MINIMUM_SIZE] at hcache ⊢
  have hcount : u32 (getCacheSize (epoch * EPOCH_LENGTH) / HASH_BYTES) =
      getCacheSize (epoch * EPOCH_LENGTH) / 64 := Nat.mod_eq_of_lt (by rw [HASH_BYTES]; omega)
  have hcacheRows : (epochDag K epoch).cache.data.size = getCacheSize (epoch * EPOCH_LENGTH) / 64 :=
    (size_mkcache K _ (by rw [hcount]; omega)).trans hcount
  have hrows : (epochDag K epoch).data.size < 2 ^ 32 := by
    rw [show (epochDag K epoch).data.size = _ from size_generateData ..]
    exact Nat.mod_lt _ (by decide)
  have hofEpoch := ofEpoch_epochDag K epoch
  have hcomplete : HASH_BYTES * (epochDag K epoch).cache.data.size = (epochDag K epoch).cache.size := by
    rw [hcacheRows, hofEpoch.cacheSize, HASH_BYTES]
    omega
  have hmin : 2641099136 ≤ (epochDag K epoch).save.length := by
    rw [length_save, hcomplete, hofEpoch.cacheSize]
    omega
  refine ⟨hmin, getDag_of_truncated K [] ?_ hofEpoch hcomplete ?_ ?_ hmin⟩
  · rw [EPOCH_LENGTH]
    omega
  · rw [hofEpoch.size, HASH_BYTES]
    omega
  · rw [hofEpoch.size, hofEpoch.cacheSize]
    exact offsets_fit hepoch

/-- The file of the DAG for the epoch 131072 is large enough, but ends before the offset in its header,
so it is not loaded. -/
theorem refuses_truncated_dag :
    (epochDag keccakTiny 131072).OfEpoch 131072 ∧
      DAG_FILE_MINIMUM_SIZE ≤ (epochDag keccakTiny 131072).save.length ∧
      getDag keccakTiny [] (epochDag keccakTiny 131072).save = .error .dagCorrupt := by
  have hcache : HASH_BYTES * 2 ^ 27 < getCacheSize (131072 * EPOCH_LENGTH) :=
    lt_primeSize (by decide) (by decide) (by decide) (by decide) (by decide)
  have hsize : MIX_BYTES * 2 ^ 32 < getFullSize (131072 * EPOCH_LENGTH) :=
    lt_primeSize (by decide) (by decide) (by decide) (by decide) (by decide)
  refine ⟨ofEpoch_epochDag keccakTiny 131072, getDag_epochDag keccakTiny (by decide) ?_ ?_⟩
  · exact le_trans (by decide) hcache.le
  · exact le_trans (by decide) hsize.le

end Energiminer.Nrghash
