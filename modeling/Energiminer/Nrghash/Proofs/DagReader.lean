import Mathlib.Data.List.SplitLengths
import Mathlib.Algebra.Order.BigOperators.Group.List
import Energiminer.Nrghash.Proofs.DagFile

/-!
# What the buffered reader delivers

The lambda `read` of `get_dag(file_path)` (`nrghash.cpp:908-953`), for any sequence of requests that
fit in its buffer. It takes a buffer with one byte left for an empty one (`nrghash.cpp:924`) and refills
it, so that the byte is lost. How far the buffer has been read depends on the position in the file
alone, as long as nothing was lost: a request is served if and only if it does not begin at the last
byte of a block of the size of the buffer.
-/

namespace Energiminer.Nrghash
open Misc

/-- The bytes that are stored for a sequence of requests. -/
def Reader.readAll (r : Reader) : List Nat → List (List Byte)
  | [] => []
  | count :: counts => (r.read count).1 :: (r.read count).2.readAll counts

/-- Requests of at most the size of the buffer. -/
structure Requests where
  counts : List Nat
  max : ∀ count ∈ counts, count ≤ READ_BUFFER_SIZE

/-- The successive bytes of every file of `least` bytes or more are delivered, if the file holds as
many as are requested. -/
def Requests.Served (requests : Requests) (least : Nat) : Prop :=
  ∀ file : List Byte, least ≤ file.length → requests.counts.sum ≤ file.length →
    (Reader.new file).readAll requests.counts = requests.counts.splitLengths file

/-- No request begins where one byte is left in the buffer, unless no byte is requested from there
on. -/
def Requests.Clear (requests : Requests) : Prop :=
  ∀ k, (requests.counts.take k).sum % READ_BUFFER_SIZE = READ_BUFFER_SIZE - 1 →
    (requests.counts.drop k).sum = 0

/-! ## The position in the buffer -/

/-- As far as `position` in the file was read. A buffer that was read to its end is refilled by the next
request only. -/
structure Reader.Placed (r : Reader) (position : Nat) : Prop where
  le : r.ptr ≤ READ_BUFFER_SIZE
  mod : r.ptr % READ_BUFFER_SIZE = position % READ_BUFFER_SIZE

section
variable {r : Reader} {rest : List Byte} {position count : Nat}

theorem placed_new (file : List Byte) : (Reader.new file).Placed 0 := ⟨Nat.zero_le _, rfl⟩

theorem Reader.Placed.one_left_iff (h : r.Placed position) :
    READ_BUFFER_SIZE - r.ptr = 1 ↔ position % READ_BUFFER_SIZE = READ_BUFFER_SIZE - 1 := by
  obtain ⟨hle, hmod⟩ := h
  simp only [READ_BUFFER_SIZE] at hle hmod ⊢
  omega

theorem Reader.Placed.read (h : r.Placed position) (hone : READ_BUFFER_SIZE - r.ptr ≠ 1)
    (hmax : count ≤ READ_BUFFER_SIZE) : (r.read count).2.Placed (position + count) := by
  obtain ⟨hle, hmod⟩ := h
  rw [Reader.read, if_neg hone]
  dsimp only
  split
  next hcross =>
    constructor
    · dsimp only
      omega
    · simp only [READ_BUFFER_SIZE] at hle hmod hmax hcross ⊢
      omega
  next hserve =>
    constructor
    · dsimp only
      omega
    · simp only [READ_BUFFER_SIZE] at hmod ⊢
      omega

/-! ## Runs of requests -/

theorem splitLengths_append (before after : List Nat) (bytes : List Byte) :
    (before ++ after).splitLengths bytes =
      before.splitLengths bytes ++ after.splitLengths (bytes.drop before.sum) := by
  induction before generalizing bytes with
  | nil => rfl
  | cons count before ih =>
    rw [List.cons_append, List.splitLengths_cons, List.splitLengths_cons, ih, List.cons_append,
      List.sum_cons, List.drop_drop]

theorem read_zero (r : Reader) : (r.read 0).1 = [] := by
  rw [Reader.read]
  dsimp only
  rw [if_neg (Nat.not_lt_zero _), List.take_zero]

/-- Where nothing is requested, nothing can be wrong. -/
theorem readAll_of_sum_eq_zero {counts : List Nat} (hsum : counts.sum = 0) (r : Reader)
    (bytes : List Byte) : r.readAll counts = counts.splitLengths bytes := by
  induction counts generalizing r bytes with
  | nil => rfl
  | cons count counts ih =>
    rw [List.sum_cons] at hsum
    obtain rfl : count = 0 := by omega
    rw [Reader.readAll, List.splitLengths_cons, read_zero, List.take_zero]
    exact congrArg _ (ih (by omega) _ _)

/-- Requests that find more or less than one byte in the buffer are served, whatever follows. -/
theorem readAll_append {before : List Nat} (after : List Nat) (h : r.At rest)
    (hplaced : r.Placed position) (hle : before.sum ≤ rest.length)
    (hmax : ∀ count ∈ before, count ≤ READ_BUFFER_SIZE)
    (hclear : ∀ k < before.length,
      (position + (before.take k).sum) % READ_BUFFER_SIZE ≠ READ_BUFFER_SIZE - 1) :
    ∃ r' : Reader, r'.At (rest.drop before.sum) ∧ r'.Placed (position + before.sum) ∧
      r.readAll (before ++ after) = before.splitLengths rest ++ r'.readAll after := by
  induction before generalizing r rest position with
  | nil => exact ⟨r, h, hplaced, rfl⟩
  | cons count before ih =>
    rw [List.forall_mem_cons] at hmax
    rw [List.sum_cons] at hle
    have hone : READ_BUFFER_SIZE - r.ptr ≠ 1 := by
      rw [ne_eq, hplaced.one_left_iff]
      exact hclear 0 (Nat.succ_pos _)
    obtain ⟨htake, hat⟩ := read_at h hone (by omega) hmax.1
    have hclear' : ∀ k < before.length, (position + count + (before.take k).sum) %
        READ_BUFFER_SIZE ≠ READ_BUFFER_SIZE - 1 := by
      intro k hk
      have hnext := hclear (k + 1) (Nat.succ_lt_succ hk)
      rwa [List.take_succ_cons, List.sum_cons, ← Nat.add_assoc] at hnext
    obtain ⟨r', hat', hplaced', hread⟩ := ih hat (hplaced.read hone hmax.1)
      (by rw [List.length_drop]; omega) hmax.2 hclear'
    rw [List.drop_drop] at hat'
    rw [Nat.add_assoc] at hplaced'
    refine ⟨r', hat', hplaced', ?_⟩
    rw [List.cons_append, Reader.readAll, hread, htake, List.splitLengths_cons, List.cons_append]

end

/-- Up to the first request that finds one byte in the buffer. -/
theorem clear_before {counts : List Nat} {k : Nat}
    (hfirst : ∀ j < k, (counts.take j).sum % READ_BUFFER_SIZE ≠ READ_BUFFER_SIZE - 1) :
    ∀ j < (counts.take k).length,
      (0 + ((counts.take k).take j).sum) % READ_BUFFER_SIZE ≠ READ_BUFFER_SIZE - 1 := by
  intro j hj
  rw [List.length_take] at hj
  rw [List.take_take, Nat.min_eq_left (by omega), Nat.zero_add]
  exact hfirst j (by omega)

theorem served_of_clear {requests : Requests} (h : requests.Clear) (least : Nat) :
    requests.Served least := by
  obtain ⟨counts, hmax⟩ := requests
  intro file _ hle
  dsimp only at hle ⊢
  by_cases hfound : ∃ k, (counts.take k).sum % READ_BUFFER_SIZE = READ_BUFFER_SIZE - 1
  · -- nothing is requested from the first such request on
    have hrest : (counts.drop (Nat.find hfound)).sum = 0 := h _ (Nat.find_spec hfound)
    have hclear := clear_before fun j hj => Nat.find_min hfound hj
    generalize Nat.find hfound = k at hrest hclear
    have hsum := List.sum_take_add_sum_drop counts k
    obtain ⟨r, -, -, hread⟩ := readAll_append (counts.drop k) (at_new file) (placed_new file)
      (by omega) (fun count hcount => hmax count (List.mem_of_mem_take hcount)) hclear
    rw [List.take_append_drop] at hread
    rw [hread, readAll_of_sum_eq_zero hrest r (file.drop (counts.take k).sum),
      ← splitLengths_append, List.take_append_drop]
  · obtain ⟨r, -, -, hread⟩ := readAll_append [] (at_new file) (placed_new file) hle hmax
      (fun k _ hk => hfound ⟨k, by rwa [Nat.zero_add] at hk⟩)
    rw [List.append_nil, Reader.readAll, List.append_nil] at hread
    exact hread

/-! ## The byte that is lost -/

section
variable {r : Reader} {rest : List Byte} {x : Byte} {count n : Nat}

theorem read_of_one_left (hone : READ_BUFFER_SIZE - r.ptr = 1) (count : Nat) :
    r.read count = r.refill.read count := by
  have hzero : READ_BUFFER_SIZE - r.refill.ptr ≠ 1 := by
    rw [show r.refill.ptr = 0 from rfl]
    decide
  rw [Reader.read, Reader.read, if_pos hone, if_neg hzero]

theorem readAll_of_one_left {counts : List Nat} (hone : READ_BUFFER_SIZE - r.ptr = 1)
    (hpos : 0 < counts.sum) : r.readAll counts = r.refill.readAll counts := by
  cases counts with
  | nil => exact absurd hpos (Nat.lt_irrefl 0)
  | cons count counts => rw [Reader.readAll, Reader.readAll, read_of_one_left hone]

theorem file_of_one_left (h : r.At (x :: rest)) (hone : READ_BUFFER_SIZE - r.ptr = 1)
    (hne : rest ≠ []) : r.file = rest := by
  have hlength : (r.buffer.drop r.ptr).length = 1 := by
    rw [List.length_drop, h.length, hone]
  rcases h.rest with hrest | ⟨-, hprefix⟩
  · obtain ⟨y, hy⟩ := List.length_eq_one_iff.mp hlength
    rw [hy, List.singleton_append] at hrest
    exact (List.cons.inj hrest).2.symm
  · -- the file has ended, but there is more than the byte in the buffer
    have hle := hprefix.length_le
    rw [hlength, List.length_cons] at hle
    have hpos := List.length_pos_iff.mpr hne
    omega

/-- A full buffer of zeros does not deliver a one. -/
theorem readAll_zeros_ne {counts : List Nat} (h : r.At (List.replicate n 0)) (hptr : r.ptr = 0)
    (hpos : 0 < counts.sum) (hle : counts.sum ≤ n)
    (hmax : ∀ count ∈ counts, count ≤ READ_BUFFER_SIZE) :
    r.readAll counts ≠ counts.splitLengths (1 :: rest) := by
  induction counts generalizing r with
  | nil => exact absurd hpos (Nat.lt_irrefl 0)
  | cons count counts ih =>
    rw [List.forall_mem_cons] at hmax
    rw [List.sum_cons] at hpos hle
    have hone : READ_BUFFER_SIZE - r.ptr ≠ 1 := by
      rw [hptr]
      decide
    have hcount : count ≤ (List.replicate n (0 : Byte)).length := by
      rw [List.length_replicate]
      omega
    obtain ⟨htake, hat⟩ := read_at h hone hcount hmax.1
    rw [Reader.readAll, List.splitLengths_cons, htake]
    intro heq
    obtain ⟨hhead, htail⟩ := List.cons.inj heq
    cases count with
    | zero =>
      have hptr' : (r.read 0).2.ptr = 0 := by
        rw [Reader.read, if_neg hone]
        dsimp only
        rw [if_neg (Nat.not_lt_zero _)]
        exact hptr
      exact ih hat hptr' (by omega) (by omega) hmax.2 htail
    | succ count =>
      obtain ⟨m, rfl⟩ : ∃ m, n = m + 1 := ⟨n - 1, by omega⟩
      rw [List.replicate_succ, List.take_succ_cons, List.take_succ_cons] at hhead
      exact absurd (List.cons.inj hhead).1 (by decide)

end

/-- A one among zeros, at the position where one byte is left in the buffer. -/
theorem readAll_ne_of_lost {before after : List Nat} {n : Nat}
    (hmax : ∀ count ∈ before ++ after, count ≤ READ_BUFFER_SIZE)
    (hclear : ∀ k < before.length,
      (0 + (before.take k).sum) % READ_BUFFER_SIZE ≠ READ_BUFFER_SIZE - 1)
    (hmod : before.sum % READ_BUFFER_SIZE = READ_BUFFER_SIZE - 1) (hpos : 0 < after.sum)
    (hle : after.sum ≤ n) :
    (Reader.new (List.replicate before.sum 0 ++ 1 :: List.replicate n 0)).readAll
        (before ++ after) ≠
      (before ++ after).splitLengths (List.replicate before.sum 0 ++ 1 :: List.replicate n 0) := by
  have hlength : before.sum ≤
      (List.replicate before.sum (0 : Byte) ++ 1 :: List.replicate n 0).length := by
    rw [List.length_append, List.length_replicate]
    omega
  obtain ⟨r, hat, hplaced, hread⟩ := readAll_append after (at_new _) (placed_new _) hlength
    (fun count hcount => hmax count (List.mem_append_left _ hcount)) hclear
  have hdrop : (List.replicate before.sum (0 : Byte) ++ 1 :: List.replicate n 0).drop before.sum =
      1 :: List.replicate n 0 := List.drop_left' List.length_replicate
  rw [hread, splitLengths_append, hdrop]
  rw [hdrop] at hat
  intro heq
  have hrest := List.append_cancel_left heq
  rw [Nat.zero_add] at hplaced
  have hone := hplaced.one_left_iff.mpr hmod
  have hne : List.replicate n (0 : Byte) ≠ [] := by
    rw [ne_eq, List.replicate_eq_nil_iff]
    omega
  have hrefill := at_refill hat.length
  rw [file_of_one_left hat hone hne] at hrefill
  rw [readAll_of_one_left hone hpos] at hrest
  exact readAll_zeros_ne hrefill rfl hpos hle
    (fun count hcount => hmax count (List.mem_append_right _ hcount)) hrest

theorem sum_drop_eq_zero_of_le {counts : List Nat} {j k : Nat} (hle : j ≤ k)
    (h : (counts.drop j).sum = 0) : (counts.drop k).sum = 0 := by
  rw [List.sum_eq_zero_iff] at h ⊢
  intro count hcount
  obtain ⟨d, rfl⟩ := Nat.exists_eq_add_of_le hle
  rw [← List.drop_drop] at hcount
  exact h count (List.mem_of_mem_drop hcount)

theorem clear_of_served {requests : Requests} {least : Nat} (h : requests.Served least) :
    requests.Clear := by
  obtain ⟨counts, hmax⟩ := requests
  intro k hk
  dsimp only at hk ⊢
  have hfound : ∃ k, (counts.take k).sum % READ_BUFFER_SIZE = READ_BUFFER_SIZE - 1 := ⟨k, hk⟩
  have hfirst : (counts.drop (Nat.find hfound)).sum = 0 := by
    by_contra hne
    have hsum := List.sum_take_add_sum_drop counts (Nat.find hfound)
    have hlost := readAll_ne_of_lost (n := least + counts.sum)
      (by rw [List.take_append_drop]; exact hmax)
      (clear_before fun j hj => Nat.find_min hfound hj) (Nat.find_spec hfound)
      (Nat.pos_of_ne_zero hne) (by omega)
    rw [List.take_append_drop] at hlost
    refine hlost (h _ ?_ ?_)
    · rw [List.length_append, List.length_cons, List.length_replicate, List.length_replicate]
      omega
    · rw [List.length_append, List.length_cons, List.length_replicate, List.length_replicate]
      dsimp only
      omega
  exact sum_drop_eq_zero_of_le (Nat.find_min' hfound hk) hfirst

/-- The requests are served if and only if none from which bytes are still requested begins at the last
byte of the buffer. `get_dag` takes files of `DAG_FILE_MINIMUM_SIZE` bytes or more, which makes no
difference. -/
theorem served_iff (requests : Requests) (least : Nat) : requests.Served least ↔ requests.Clear :=
  ⟨clear_of_served, fun h => served_of_clear h least⟩

/-- A file that `get_dag` reads: a one behind as many zeros as leave one byte in the buffer. -/
def lostByteFile : List Byte :=
  List.replicate (READ_BUFFER_SIZE - 1) 0 ++
    1 :: List.replicate (DAG_FILE_MINIMUM_SIZE - READ_BUFFER_SIZE) 0

/-- All bytes of the buffer but one are requested, and then one more. -/
theorem lostByteFile_not_delivered :
    DAG_FILE_MINIMUM_SIZE ≤ lostByteFile.length ∧
    (Reader.new lostByteFile).readAll [READ_BUFFER_SIZE - 1, 1] ≠
      [READ_BUFFER_SIZE - 1, 1].splitLengths lostByteFile := by
  have hmax : ∀ count ∈ [READ_BUFFER_SIZE - 1] ++ [1], count ≤ READ_BUFFER_SIZE := by
    intro count hcount
    rw [List.singleton_append, List.mem_cons, List.mem_singleton] at hcount
    rcases hcount with rfl | rfl
    · exact Nat.sub_le _ _
    · decide
  have hclear : ∀ k < [READ_BUFFER_SIZE - 1].length,
      (0 + ([READ_BUFFER_SIZE - 1].take k).sum) % READ_BUFFER_SIZE ≠ READ_BUFFER_SIZE - 1 := by
    intro k hk
    rw [List.length_singleton, Nat.lt_one_iff] at hk
    rw [hk]
    decide
  have hlost := readAll_ne_of_lost (n := DAG_FILE_MINIMUM_SIZE - READ_BUFFER_SIZE) hmax hclear
    (by rw [List.sum_singleton]; decide) (by decide) (by decide)
  rw [List.sum_singleton] at hlost
  refine ⟨?_, hlost⟩
  rw [lostByteFile, List.length_append, List.length_cons, List.length_replicate,
    List.length_replicate]
  decide

end Energiminer.Nrghash
