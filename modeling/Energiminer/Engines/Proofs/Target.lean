import Energiminer.Engines.Target
import Energiminer.Nrghash.Proofs.Lanes

/-!
# Which nonces the engines let through

Both sides of every comparison are reduced to the number of the hash and the number of the
target. The kernels see only the upper 64 bits of each, so they and the hosts can differ
exactly where these are equal: there `nrghash.cl` reports nothing, although the host would
accept.
-/

namespace Energiminer.Engines
open Misc Nrghash Primitives

/-- The number of a hash, as the hosts compare it. -/
def powValue (v : H256) : ArithUint256 := ArithUint256.ofUint256 (Uint256.ofH256 v)

/-- No engine drops the nonce of a hash that meets the target, and none submits the nonce of a
hash that does not. -/
structure KeepsWinning (hashTarget : ArithUint256) (v : H256) : Prop where
  /-- every kernel reports a nonce the host would accept -/
  reported : gpuAccepts (Uint256.ofH256 v) hashTarget →
    clReports (headWord v) (upper64OfBoundary hashTarget) ∧
    oldClReports (headWord v) (upper64OfBoundary hashTarget) ∧
    cudaReports (headWord v) (upper64OfBoundary hashTarget)
  /-- `CpuMiner` accepts it too -/
  cpu : gpuAccepts (Uint256.ofH256 v) hashTarget → cpuAccepts (Uint256.ofH256 v) hashTarget
  /-- a GPU host submits it only if it meets the target -/
  gpuSubmits : ∀ (getPOWHash : BitVec 64 → Uint256) (nonceBase nonce : BitVec 64)
    (gids : List (BitVec 32)) (polls : List Bool), getPOWHash nonce = Uint256.ofH256 v →
    nonce ∈ reportResults getPOWHash hashTarget nonceBase gids polls →
    (powValue v).toNat ≤ hashTarget.toNat
  /-- `CpuMiner` submits it only if it meets the target -/
  cpuSubmits : ∀ (getPOWHash : BitVec 64 → Uint256) (rest : Nat) (start nonce : BitVec 64),
    getPOWHash nonce = Uint256.ofH256 v → cpuSearch getPOWHash hashTarget rest start = some nonce →
    (powValue v).toNat ≤ hashTarget.toNat

theorem gpuAccepts_iff (v : H256) (hashTarget : ArithUint256) :
    gpuAccepts (Uint256.ofH256 v) hashTarget ↔ (powValue v).toNat ≤ hashTarget.toNat :=
  ArithUint256.le_iff _ _

theorem cpuAccepts_iff (v : H256) (hashTarget : ArithUint256) :
    cpuAccepts (Uint256.ofH256 v) hashTarget ↔ (powValue v).toNat < hashTarget.toNat :=
  ArithUint256.lt_iff _ _

theorem clReports_iff (word target : BitVec 64) :
    clReports word target ↔ word.toNat < target.toNat := by
  rw [clReports, decide_eq_true_iff, BitVec.lt_def]

theorem oldClReports_iff (word target : BitVec 64) :
    oldClReports word target ↔ word.toNat ≤ target.toNat := by
  rw [← Nat.not_lt, ← BitVec.lt_def, oldClReports]
  split <;> simp_all

theorem cudaReports_iff (word target : BitVec 64) :
    cudaReports word target ↔ word.toNat ≤ target.toNat := by
  rw [← Nat.not_lt, ← BitVec.lt_def, cudaReports, cudaComputeHash]
  split <;> split <;> simp_all

/-- The target of the kernels is the target of the hosts without its low 192 bits. -/
theorem target_split (hashTarget : ArithUint256) :
    ∃ low < 2 ^ 192, hashTarget.toNat = low + 2 ^ 192 * (upper64OfBoundary hashTarget).toNat := by
  rw [upper64OfBoundary, ArithUint256.dataUint64_shiftRight]
  exact hashTarget.toNat_split

/-- The word of the kernels is the number of the hash without its low 192 bits. -/
theorem powValue_split (v : H256) :
    ∃ low < 2 ^ 192, (powValue v).toNat = low + 2 ^ 192 * (headWord v).toNat := by
  have h := (powValue v).toNat_split
  rw [powValue, ArithUint256.upper_ofUint256] at h
  exact h

/-- A head below the target's decides for the whole number, and a head above against it. -/
theorem head_le_of_powValue_le {v : H256} {hashTarget : ArithUint256}
    (h : (powValue v).toNat ≤ hashTarget.toNat) :
    (headWord v).toNat ≤ (upper64OfBoundary hashTarget).toNat := by
  obtain ⟨lv, hlv, hv⟩ := powValue_split v
  obtain ⟨lt, hlt, ht⟩ := target_split hashTarget
  omega

theorem powValue_lt_of_head_lt {v : H256} {hashTarget : ArithUint256}
    (h : (headWord v).toNat < (upper64OfBoundary hashTarget).toNat) :
    (powValue v).toNat < hashTarget.toNat := by
  obtain ⟨lv, hlv, hv⟩ := powValue_split v
  obtain ⟨lt, hlt, ht⟩ := target_split hashTarget
  omega

section
variable {getPOWHash : BitVec 64 → Uint256} {hashTarget : ArithUint256} {nonce : BitVec 64}

theorem accepts_of_mem_reportResults {nonceBase : BitVec 64} {gids : List (BitVec 32)}
    {polls : List Bool} (h : nonce ∈ reportResults getPOWHash hashTarget nonceBase gids polls) :
    gpuAccepts (getPOWHash nonce) hashTarget := by
  induction gids generalizing polls with
  | nil => simp [reportResults] at h
  | cons gid gids ih =>
    rcases polls with _ | ⟨poll, polls⟩
    · simp [reportResults] at h
    · cases poll with
      | true => simp [reportResults] at h
      | false =>
        simp only [reportResults] at h
        split at h
        next haccept =>
          rcases List.mem_cons.mp h with rfl | hmem
          · exact haccept
          · exact ih hmem
        next => exact ih h

theorem accepts_of_cpuSearch {rest : Nat} {start : BitVec 64}
    (h : cpuSearch getPOWHash hashTarget rest start = some nonce) :
    cpuAccepts (getPOWHash nonce) hashTarget := by
  induction rest generalizing start with
  | zero =>
    rw [cpuSearch] at h
    split at h
    next haccept => cases h; exact haccept
    next => cases h
  | succ rest ih =>
    rw [cpuSearch] at h
    split at h
    next haccept => cases h; exact haccept
    next => exact ih h

end

/-- A nonce reaches `submitProof` only if its hash meets the target, in every engine; and a
nonce whose hash meets it is dropped by no engine unless the first eight bytes of the hash are
those of the target. There `nrghash.cl` drops it. -/
theorem keepsWinning_iff (hashTarget : ArithUint256) (v : H256) :
    KeepsWinning hashTarget v ↔
      ¬ ((powValue v).toNat ≤ hashTarget.toNat ∧ headWord v = upper64OfBoundary hashTarget) := by
  constructor
  · rintro ⟨reported, -, -, -⟩ ⟨hle, hhead⟩
    have hcl := (clReports_iff _ _).mp (reported ((gpuAccepts_iff _ _).mpr hle)).1
    rw [hhead] at hcl
    exact Nat.lt_irrefl _ hcl
  · intro hne
    -- a winning hash has a head strictly below the target's
    have hlt : (powValue v).toNat ≤ hashTarget.toNat →
        (headWord v).toNat < (upper64OfBoundary hashTarget).toNat := by
      intro hle
      refine Nat.lt_of_le_of_ne (head_le_of_powValue_le hle) fun heq => hne ⟨hle, ?_⟩
      exact BitVec.eq_of_toNat_eq heq
    refine ⟨fun h => ?_, fun h => ?_, fun pow base nonce gids polls hpow hmem => ?_,
      fun pow rest start nonce hpow hfound => ?_⟩
    · have hhead := hlt ((gpuAccepts_iff _ _).mp h)
      exact ⟨(clReports_iff _ _).mpr hhead, (oldClReports_iff _ _).mpr (Nat.le_of_lt hhead),
        (cudaReports_iff _ _).mpr (Nat.le_of_lt hhead)⟩
    · have hhead := hlt ((gpuAccepts_iff _ _).mp h)
      exact (cpuAccepts_iff _ _).mpr (powValue_lt_of_head_lt hhead)
    · have haccept := accepts_of_mem_reportResults hmem
      rw [hpow] at haccept
      exact (gpuAccepts_iff _ _).mp haccept
    · have haccept := accepts_of_cpuSearch hfound
      rw [hpow] at haccept
      exact Nat.le_of_lt ((cpuAccepts_iff _ _).mp haccept)

/-- The target `2 ^ 192`, as limbs. -/
def targetExample : ArithUint256 := ⟨#v[0, 0, 0, 0, 0, 0, 1, 0]⟩

/-- The hash of number `2 ^ 192`: byte `7` is one, the others are zero. -/
def hashExample : H256 :=
  #v[0, 0, 0, 0, 0, 0, 0, 1, 0, 0, 0, 0, 0, 0, 0, 0, 0, 0, 0, 0, 0, 0, 0, 0, 0, 0, 0, 0, 0, 0, 0, 0]

/-- A hash equal to the target `2 ^ 192` meets it; the host would accept the nonce, and neither
`nrghash.cl` reports it nor does `CpuMiner` accept it. -/
theorem winning_nonce_dropped :
    0 < upper64OfBoundary targetExample ∧
    gpuAccepts (Uint256.ofH256 hashExample) targetExample = true ∧
    clReports (headWord hashExample) (upper64OfBoundary targetExample) = false ∧
    cpuAccepts (Uint256.ofH256 hashExample) targetExample = false ∧
    ¬ KeepsWinning targetExample hashExample := by
  refine ⟨by decide, by decide, by decide, by decide, fun h => ?_⟩
  exact absurd (h.reported (by decide)).1 (by decide)

end Energiminer.Engines
