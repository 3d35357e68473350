import Energiminer.Nrghash.Proofs.DagFile
import Energiminer.Nrghash.Proofs.PrimeSizes

/-!
# What a DAG file must hold to be loaded

`get_dag` decides from the offsets in the header and from the length of the file; the rows are then
read one after the other from byte 64 on, whatever the offsets are. The differences of the offsets
are compared with the sizes of the epoch and their ends with the length of the file, but nothing
compares the beginnings with the header or with each other, and the reader delivers old bytes of its
buffer behind the end of the file. So a file that is too short for its epoch passes with offsets
that overlap.
-/

namespace Energiminer.Nrghash
open Misc

/-! ## The fields of a file -/

/-- The integer at an offset of the file. -/
def fileUint (w : Nat) (file : List Byte) (offset : Nat) : BitVec w :=
  leWord w fun i => file.getD (offset + i) 0

/-- The header of a file. -/
def fileHeader (file : List Byte) : DagFileHeader where
  epoch := (fileUint 64 file 24).toNat
  cacheBegin := (fileUint 64 file 32).toNat
  cacheEnd := (fileUint 64 file 40).toNat
  dagBegin := (fileUint 64 file 48).toNat
  dagEnd := (fileUint 64 file 56).toNat

/-- The sizes between the offsets are those of the epoch. -/
structure DagFileHeader.Checked (header : DagFileHeader) : Prop where
  cache : header.cacheBegin < header.cacheEnd ∧
    getCacheSize (epochBlock header.epoch) = header.cacheEnd - header.cacheBegin
  dag : header.dagBegin < header.dagEnd ∧
    getFullSize (epochBlock header.epoch) = header.dagEnd - header.dagBegin

/-- The file passes every check of `get_dag`. -/
structure PassesChecks (file : List Byte) : Prop where
  minimum : DAG_FILE_MINIMUM_SIZE ≤ u64 file.length
  magic : (file.take 12).takeWhile (· ≠ 0) = DAG_MAGIC_BYTES.takeWhile (· ≠ 0)
  version : fileUint 32 file 12 = MAJOR_VERSION ∧ fileUint 32 file 16 = REVISION
  sizes : (fileHeader file).Checked
  inside : (fileHeader file).cacheEnd < u64 file.length ∧
    (fileHeader file).dagEnd ≤ u64 (u64 file.length + 1)

/-! ## Reading the fields -/

section
variable {α β : Type} {r r' : Reader} {rest file : List Byte}

theorem bind_run {x : Load α} {a : α} (h : x r = .ok (a, r')) (f : α → Load β) :
    (x >>= f) r = f a r' := by
  show (x r >>= fun p => f p.1 p.2) = _
  rw [h]
  rfl

theorem throwIf_run (p : Prop) [Decidable p] (e : HashException) (f : Unit → Load β) (r : Reader) :
    (throwIf p e >>= f) r = if p then .error e else f () r := by
  rw [throwIf]
  split <;> rfl

theorem readBytes_ahead {n : Nat} (h : r.Ahead rest) (hle : n ≤ rest.length) (hn : n % 4 = 0)
    (hmax : n ≤ READ_BUFFER_SIZE) :
    ∃ r', readBytes n r = .ok (rest.take n, r') ∧ r'.Ahead (rest.drop n) := by
  have hlength : (rest.take n).length = n := by rw [List.length_take, Nat.min_eq_left hle]
  exact delivers_readBytes hlength hn hmax r (rest.drop n)
    (by rwa [List.take_append_drop])

theorem readUint_ahead {w n offset : Nat} (hw : w = 8 * n) (hn : n % 4 = 0)
    (hmax : n ≤ READ_BUFFER_SIZE) (h : r.Ahead (file.drop offset))
    (hle : offset + n ≤ file.length) :
    ∃ r', readUint w r = .ok (fileUint w file offset, r') ∧ r'.Ahead (file.drop (offset + n)) := by
  have hdiv : w / 8 = n := by omega
  obtain ⟨r', hread, hahead⟩ := readBytes_ahead h
    (by rw [List.length_drop]; omega : n ≤ (file.drop offset).length) hn hmax
  rw [List.drop_drop] at hahead
  refine ⟨r', ?_, hahead⟩
  rw [readUint, hdiv, bind_run hread]
  have hword : (leWord w fun i => ((file.drop offset).take n).getD i 0) =
      fileUint w file offset := by
    refine leWord_congr w fun i hi => ?_
    rw [List.getD_eq_getElem?_getD, List.getD_eq_getElem?_getD, List.getElem?_take,
      if_pos (by omega), List.getElem?_drop]
  rw [← hword]
  rfl

end

theorem check_run (header : DagFileHeader) (r : Reader) :
    (header.Checked → header.check r = .ok ((), r)) ∧
      ∀ u r', header.check r = .ok (u, r') → header.Checked ∧ r' = r := by
  rw [DagFileHeader.check]
  dsimp only
  rw [throwIf_run, throwIf]
  constructor
  · intro h
    rw [if_neg (by have := h.cache; omega), if_neg (by have := h.dag; omega)]
    rfl
  · intro u r' h
    split at h
    next => cases h
    next hcache =>
      split at h
      next => cases h
      next hdag =>
        cases h
        exact ⟨⟨by omega, by omega⟩, rfl⟩

theorem readHeader_eq {file : List Byte} (hlength : 64 ≤ file.length) :
    ∃ r : Reader, r.Ahead (file.drop 64) ∧ readHeader (.new file) =
      if (file.take 12).takeWhile (· ≠ 0) ≠ DAG_MAGIC_BYTES.takeWhile (· ≠ 0) then
        .error .notADagFile
      else if fileUint 32 file 12 ≠ MAJOR_VERSION ∨ fileUint 32 file 16 ≠ REVISION then
        .error .versionInvalid
      else ((fileHeader file).check >>= fun _ => pure (fileHeader file)) r := by
  have hbuffer : 64 ≤ READ_BUFFER_SIZE := by decide
  obtain ⟨r₁, h₁, a₁⟩ := readBytes_ahead (n := 12) (ahead_new file) (by omega) rfl (by omega)
  obtain ⟨r₂, h₂, a₂⟩ := readUint_ahead (n := 4) (w := 32) rfl rfl (by omega) a₁ (by omega)
  obtain ⟨r₃, h₃, a₃⟩ := readUint_ahead (n := 4) (w := 32) rfl rfl (by omega) a₂ (by omega)
  obtain ⟨r₄, h₄, a₄⟩ := readUint_ahead (n := 4) (w := 32) rfl rfl (by omega) a₃ (by omega)
  obtain ⟨r₅, h₅, a₅⟩ := readUint_ahead (n := 8) (w := 64) rfl rfl (by omega) a₄ (by omega)
  obtain ⟨r₆, h₆, a₆⟩ := readUint_ahead (n := 8) (w := 64) rfl rfl (by omega) a₅ (by omega)
  obtain ⟨r₇, h₇, a₇⟩ := readUint_ahead (n := 8) (w := 64) rfl rfl (by omega) a₆ (by omega)
  obtain ⟨r₈, h₈, a₈⟩ := readUint_ahead (n := 8) (w := 64) rfl rfl (by omega) a₇ (by omega)
  obtain ⟨r₉, h₉, a₉⟩ := readUint_ahead (n := 8) (w := 64) rfl rfl (by omega) a₈ (by omega)
  refine ⟨r₉, a₉, ?_⟩
  rw [readHeader, show DAG_MAGIC_BYTES.length = 12 from rfl, bind_run h₁, throwIf_run, bind_run h₂,
    bind_run h₃, bind_run h₄, throwIf_run, bind_run h₅, bind_run h₆, bind_run h₇, bind_run h₈,
    bind_run h₉]
  rfl

theorem readHeader_ok {file : List Byte} {header : DagFileHeader} {r : Reader}
    (hlength : 64 ≤ file.length) (h : readHeader (.new file) = .ok (header, r)) :
    header = fileHeader file ∧ r.Ahead (file.drop 64) ∧
      (file.take 12).takeWhile (· ≠ 0) = DAG_MAGIC_BYTES.takeWhile (· ≠ 0) ∧
      (fileUint 32 file 12 = MAJOR_VERSION ∧ fileUint 32 file 16 = REVISION) ∧
      (fileHeader file).Checked := by
  obtain ⟨r', hahead, heq⟩ := readHeader_eq hlength
  rw [heq] at h
  split at h
  next => cases h
  next hmagic =>
    split at h
    next => cases h
    next hversion =>
      obtain ⟨_, r₁, hcheck, hreturn⟩ := bind_eq_ok h
      obtain ⟨hchecked, rfl⟩ := (check_run _ _).2 _ _ hcheck
      cases hreturn
      exact ⟨rfl, hahead, not_not.mp hmagic, by tauto, hchecked⟩

/-! ## Acceptance -/

section
variable {K : KeccakFns} {dagCache : DagCache} {file : List Byte}

theorem PassesChecks.length (h : PassesChecks file) : 64 ≤ file.length := by
  have hmin := h.minimum
  have hle : u64 file.length ≤ file.length := Nat.mod_le _ _
  rw [DAG_FILE_MINIMUM_SIZE] at hmin
  omega

/-- A file that passes is searched in the map, and loaded from byte 64 on if it is not there. -/
theorem getDag_of_passes (K : KeccakFns) (dagCache : DagCache) (h : PassesChecks file) :
    ∃ r : Reader, r.Ahead (file.drop 64) ∧ getDag K dagCache file =
      (match dagCache.lookup (fileHeader file).epoch with
      | some dag => pure (dag, dagCache)
      | none => Dag.load K (fileHeader file) >>= fun dag =>
          pure (dag, ((fileHeader file).epoch, dag) :: dagCache) :
        Load (Dag × DagCache)).run' r := by
  obtain ⟨r, hahead, hheader⟩ := readHeader_eq h.length
  rw [if_neg (not_not.mpr h.magic), if_neg (by have := h.version; tauto),
    bind_run ((check_run _ r).1 h.sizes)] at hheader
  have hinside := h.inside
  refine ⟨r, hahead, ?_⟩
  rw [getDag, loadDag_eq, StateT.run', throwIf_run, if_neg (Nat.not_lt.mpr h.minimum),
    bind_run hheader, finishDag, throwIf_run, if_neg (by omega), registeredDag]
  rfl

theorem passes_of_getDag {loaded : Dag × DagCache} (h : getDag K dagCache file = .ok loaded) :
    PassesChecks file := by
  obtain ⟨r', hrun⟩ := run'_eq_ok h
  rw [loadDag_eq, throwIf_run] at hrun
  split at hrun
  next => cases hrun
  next hmin =>
    have hlength : 64 ≤ file.length := by
      have hle : u64 file.length ≤ file.length := Nat.mod_le _ _
      rw [DAG_FILE_MINIMUM_SIZE] at hmin
      omega
    obtain ⟨header, r, hheader, hfinish⟩ := bind_eq_ok hrun
    obtain ⟨rfl, -, hmagic, hversion, hsizes⟩ := readHeader_ok hlength hheader
    rw [finishDag, throwIf_run] at hfinish
    split at hfinish
    next => cases hfinish
    next hinside => exact ⟨Nat.not_lt.mp hmin, hmagic, hversion, hsizes, by omega⟩

/-! ## The rows -/

theorem serialize_nodesOf {bytes : List Byte} (h : bytes.length = 64) :
    serialize (nodesOf 16 bytes) = bytes := by
  refine List.ext_getElem (by rw [length_serialize, h]) fun i hi hi' => ?_
  have hlt : i < 64 := h ▸ hi'
  have hcell : cell (nodesOf 16 bytes) (i / 4) =
      leWord 32 fun j => bytes.getD (4 * (i / 4) + j) 0 := by
    rw [cell_eq_getElem _ (show i / 4 < 16 by omega), nodesOf, Vector.getElem_ofFn]
  have hget := getD_serialize (nodesOf 16 bytes) i hlt
  rw [hcell, byteOf_leWord _ _ _ (by omega), show 4 * (i / 4) + i % 4 = i by omega,
    List.getD_eq_getElem _ _ hi, List.getD_eq_getElem _ _ hi'] at hget
  exact hget

/-- Every sequence of whole rows is the one of some rows. -/
theorem exists_rows (n : Nat) (bytes : List Byte) (h : bytes.length = 64 * n) :
    ∃ rows : List Hash512, rows.length = n ∧ rows.flatMap serialize = bytes := by
  induction n generalizing bytes with
  | zero => exact ⟨[], rfl, (List.length_eq_zero_iff.mp h).symm⟩
  | succ n ih =>
    obtain ⟨rows, hlength, hrows⟩ := ih (bytes.drop 64) (by rw [List.length_drop]; omega)
    refine ⟨nodesOf 16 (bytes.take 64) :: rows, by rw [List.length_cons, hlength], ?_⟩
    rw [List.flatMap_cons, hrows, serialize_nodesOf (by rw [List.length_take]; omega),
      List.take_append_drop]

theorem readRows_total (n : Nat) (r : Reader) : ∃ rows r', readRows n r = .ok (rows, r') := by
  induction n generalizing r with
  | zero => exact ⟨[], r, rfl⟩
  | succ n ih =>
    obtain ⟨rows, r', hrows⟩ := ih (r.read HASH_BYTES).2
    refine ⟨nodesOf 16 (r.read HASH_BYTES).1 :: rows, r', ?_⟩
    have hread : readBytes HASH_BYTES r = .ok ((r.read HASH_BYTES).1, (r.read HASH_BYTES).2) := rfl
    rw [readRows, bind_run hread, bind_run hrows]
    rfl

/-- Rows that the reader has still to deliver are the bytes of the file. -/
theorem readRows_ahead {r : Reader} {rest : List Byte} {n : Nat} (h : r.Ahead rest)
    (hle : 64 * n ≤ rest.length) : ∃ rows r', readRows n r = .ok (rows, r') ∧
      rows.flatMap serialize = rest.take (64 * n) ∧ r'.Ahead (rest.drop (64 * n)) := by
  obtain ⟨rows, rfl, hrows⟩ := exists_rows n (rest.take (64 * n)) (by rw [List.length_take]; omega)
  obtain ⟨r', hread, hahead⟩ := delivers_readRows rows r (rest.drop (64 * rows.length))
    (by rwa [hrows, List.take_append_drop])
  exact ⟨rows, r', hread, hrows, hahead⟩

variable {header : DagFileHeader} {r r' : Reader} {loaded : Dag}

theorem load_total (K : KeccakFns) (header : DagFileHeader) (r : Reader) :
    ∃ loaded r', Dag.load K header r = .ok (loaded, r') := by
  obtain ⟨cacheRows, r₁, hcache⟩ :=
    readRows_total ((header.cacheEnd - header.cacheBegin) / HASH_BYTES) r
  obtain ⟨rows, r₂, hrows⟩ := readRows_total ((header.dagEnd - header.dagBegin) / HASH_BYTES) r₁
  rw [Dag.load, Cache.load, bind_run (bind_run hcache _), bind_run hrows]
  exact ⟨_, r₂, rfl⟩

theorem sizes_load (h : Dag.load K header r = .ok (loaded, r')) :
    loaded.cache.size = header.cacheEnd - header.cacheBegin ∧
      loaded.size = header.dagEnd - header.dagBegin := by
  obtain ⟨cache, r₁, hcache, hnext⟩ := bind_eq_ok h
  obtain ⟨cacheData, r₂, -, hcacheReturn⟩ := bind_eq_ok hcache
  obtain ⟨data, r₃, -, hreturn⟩ := bind_eq_ok hnext
  cases hcacheReturn
  cases hreturn
  exact ⟨rfl, rfl⟩

/-- The DAG that is loaded is in the file, from byte 64 on. -/
structure Dag.BackedBy (dag : Dag) (file : List Byte) : Prop where
  length : 64 + dag.cache.size + dag.size ≤ file.length
  cache : rowBytes dag.cache.data = (file.drop 64).take dag.cache.size
  data : rowBytes dag.data = (file.drop (64 + dag.cache.size)).take dag.size

theorem backedBy_load (hahead : r.Ahead (file.drop 64)) (hchecked : header.Checked)
    (hlength : 64 + (header.cacheEnd - header.cacheBegin) + (header.dagEnd - header.dagBegin) ≤
      file.length) (h : Dag.load K header r = .ok (loaded, r')) : loaded.BackedBy file := by
  have hcacheOdd := getCacheSize_odd (epochBlock header.epoch)
  have hsizeOdd := getFullSize_odd (epochBlock header.epoch)
  rw [hchecked.cache.2] at hcacheOdd
  rw [hchecked.dag.2] at hsizeOdd
  obtain ⟨hcacheSize, hsize⟩ := sizes_load h
  rw [← hcacheSize] at hcacheOdd
  rw [← hsize] at hsizeOdd
  rw [← hcacheSize, ← hsize] at hlength
  -- both sizes are multiples of a row
  have hcacheRows : 64 * (loaded.cache.size / HASH_BYTES) = loaded.cache.size := by
    rw [HASH_BYTES]
    omega
  have hrows : 64 * (loaded.size / HASH_BYTES) = loaded.size := by
    rw [HASH_BYTES]
    omega
  obtain ⟨cacheRows, r₁, hcacheRead, hcacheBytes, hahead₁⟩ :=
    readRows_ahead hahead (n := loaded.cache.size / HASH_BYTES)
      (by rw [hcacheRows, List.length_drop]; omega)
  rw [hcacheRows] at hcacheBytes hahead₁
  obtain ⟨rows, r₂, hread, hbytes, -⟩ := readRows_ahead hahead₁ (n := loaded.size / HASH_BYTES)
    (by rw [hrows, List.length_drop, List.length_drop]; omega)
  rw [hrows, List.drop_drop] at hbytes
  rw [hcacheSize] at hcacheRead
  rw [hsize] at hread
  have hload := h
  rw [Dag.load, Cache.load, bind_run (bind_run hcacheRead _), bind_run hread] at hload
  cases hload
  exact ⟨hlength, hcacheBytes, hbytes⟩

/-! ## Files that back what is loaded -/

/-- Whatever `get_dag` loads from the file and adds to the map is in the file. -/
def FullyBacked (K : KeccakFns) (dagCache : DagCache) (file : List Byte) : Prop :=
  ∀ dag dagCache', getDag K dagCache file = .ok (dag, dagCache') → dagCache' ≠ dagCache →
    dag.BackedBy file

/-- The offsets of the header leave room: the file is as long as the header and the two parts. -/
def DagFileHeader.LeavesRoom (header : DagFileHeader) (length : Nat) : Prop :=
  64 + header.cacheEnd + header.dagEnd ≤ header.cacheBegin + header.dagBegin + length

theorem getDag_loads (K : KeccakFns) (h : PassesChecks file)
    (hnone : dagCache.lookup (fileHeader file).epoch = none) :
    ∃ r r' loaded, r.Ahead (file.drop 64) ∧ Dag.load K (fileHeader file) r = .ok (loaded, r') ∧
      getDag K dagCache file = .ok (loaded, ((fileHeader file).epoch, loaded) :: dagCache) := by
  obtain ⟨r, hahead, hget⟩ := getDag_of_passes K dagCache h
  obtain ⟨loaded, r', hload⟩ := load_total K (fileHeader file) r
  rw [hnone] at hget
  dsimp only at hget
  rw [StateT.run', bind_run hload] at hget
  exact ⟨r, r', loaded, hahead, hload, hget⟩

theorem FullyBacked.leavesRoom (h : FullyBacked K dagCache file) (hpasses : PassesChecks file)
    (hnone : dagCache.lookup (fileHeader file).epoch = none) :
    (fileHeader file).LeavesRoom file.length := by
  obtain ⟨r, r', loaded, -, hload, hget⟩ := getDag_loads K hpasses hnone
  have hlength := (h loaded _ hget (List.cons_ne_self _ _)).length
  obtain ⟨hcacheSize, hsize⟩ := sizes_load hload
  have hcache := hpasses.sizes.cache
  have hdag := hpasses.sizes.dag
  rw [DagFileHeader.LeavesRoom]
  omega

theorem fullyBacked_of_leavesRoom (h : PassesChecks file →
    dagCache.lookup (fileHeader file).epoch = none → (fileHeader file).LeavesRoom file.length) :
    FullyBacked K dagCache file := by
  intro dag dagCache' hget hne
  have hpasses := passes_of_getDag hget
  cases hlookup : dagCache.lookup (fileHeader file).epoch with
  | some dag' =>
    obtain ⟨r, -, hsame⟩ := getDag_of_passes K dagCache hpasses
    rw [hlookup, hget] at hsame
    cases hsame
    exact absurd rfl hne
  | none =>
    have hroom := h hpasses hlookup
    obtain ⟨r, r', loaded, hahead, hload, hsame⟩ := getDag_loads K hpasses hlookup
    rw [hget] at hsame
    cases hsame
    have hcache := hpasses.sizes.cache
    have hdag := hpasses.sizes.dag
    rw [DagFileHeader.LeavesRoom] at hroom
    exact backedBy_load hahead hpasses.sizes (by omega) hload

/-- What is loaded is in the file if and only if the offsets of a file that passes the checks, and
whose epoch is not in the map yet, leave room for both parts. -/
theorem fullyBacked_iff (K : KeccakFns) (dagCache : DagCache) (file : List Byte) :
    FullyBacked K dagCache file ↔
      (PassesChecks file → dagCache.lookup (fileHeader file).epoch = none →
        (fileHeader file).LeavesRoom file.length) :=
  ⟨FullyBacked.leavesRoom, fullyBacked_of_leavesRoom⟩

end

/-! ## A file that is too short -/

/-- The header of epoch 1 with offsets that begin at zero. -/
def overlappingHeader : DagFileHeader :=
  ⟨1, 0, getCacheSize (epochBlock 1), 0, getFullSize (epochBlock 1)⟩

theorem overlappingHeader_fields : overlappingHeader.epoch = 1 ∧ overlappingHeader.cacheBegin = 0 ∧
    overlappingHeader.cacheEnd = getCacheSize (epochBlock 1) ∧ overlappingHeader.dagBegin = 0 ∧
    overlappingHeader.dagEnd = getFullSize (epochBlock 1) := ⟨rfl, rfl, rfl, rfl, rfl⟩

/-- A file of the minimum size, in which zeros follow the header. -/
def shortFile : List Byte :=
  overlappingHeader.bytes ++ List.replicate (DAG_FILE_MINIMUM_SIZE - DAG_FILE_HEADER_SIZE) 0

theorem length_shortFile : shortFile.length = 2641099136 := by
  rw [shortFile, List.length_append, length_bytes, List.length_replicate]
  rfl

theorem getFullSize_one : 2608856192 ≤ getFullSize (epochBlock 1) ∧
    getFullSize (epochBlock 1) ≤ 2608857088 := by
  have hprime : Nat.Prime 20381689 :=
    prime_of_isPrimeLoop (r := 4514) (by decide) (by decide) (by decide +kernel)
  have hle := (prescribed_getFullSize (b := epochBlock 1) (by decide)).le hprime (by decide)
  exact ⟨hle, getFullSize_le (b := epochBlock 1) (by decide)⟩

theorem getCacheSize_one : 40762816 ≤ getCacheSize (epochBlock 1) ∧
    getCacheSize (epochBlock 1) ≤ 40763392 := by
  have hprime : Nat.Prime 636919 :=
    prime_of_isPrimeLoop (r := 798) (by decide) (by decide) (by decide +kernel)
  have hle := (prescribed_getCacheSize (b := epochBlock 1) (by decide)).le hprime (by decide)
  exact ⟨hle, getCacheSize_le (b := epochBlock 1) (by decide)⟩

theorem passes_shortFile : PassesChecks shortFile ∧ fileHeader shortFile = overlappingHeader := by
  have hcache := getCacheSize_one
  have hsize := getFullSize_one
  obtain ⟨hepoch, hcacheBegin, hcacheEnd, hdagBegin, hdagEnd⟩ := overlappingHeader_fields
  have hfits : overlappingHeader.Fits := ⟨by omega, by omega, by omega, by omega, by omega⟩
  have hchecked : overlappingHeader.Checked := by
    refine ⟨⟨by omega, ?_⟩, ⟨by omega, ?_⟩⟩
    · rw [hepoch, hcacheEnd, hcacheBegin, Nat.sub_zero]
    · rw [hepoch, hdagEnd, hdagBegin, Nat.sub_zero]
  obtain ⟨r, hread, -⟩ := reaches_readHeader hfits (.new shortFile) _ (ahead_new shortFile)
  rw [bind_run ((check_run _ r).1 hchecked)] at hread
  obtain ⟨heq, -, hmagic, hversion, hsizes⟩ :=
    readHeader_ok (by rw [length_shortFile]; decide) hread
  refine ⟨⟨?_, hmagic, hversion, hsizes, ?_⟩, heq.symm⟩
  · rw [length_shortFile]
    decide
  · rw [← heq, length_shortFile, u64, u64]
    omega

/-- The DAG of epoch 1 is loaded from a file that is 8519936 bytes too short. -/
theorem shortFile_not_backed : ¬ FullyBacked keccakTiny [] shortFile := by
  intro h
  obtain ⟨hpasses, hheader⟩ := passes_shortFile
  have hroom := h.leavesRoom hpasses rfl
  have hcache := getCacheSize_one
  have hsize := getFullSize_one
  obtain ⟨-, hcacheBegin, hcacheEnd, hdagBegin, hdagEnd⟩ := overlappingHeader_fields
  rw [hheader, length_shortFile, DagFileHeader.LeavesRoom, hcacheBegin, hcacheEnd, hdagBegin,
    hdagEnd] at hroom
  omega

end Energiminer.Nrghash
