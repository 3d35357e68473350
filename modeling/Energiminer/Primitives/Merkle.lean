import Energiminer.Primitives.Block

/-!
# Merkle roots

`MerkleComputation` of `primitives/merkle.cpp`: a root and a branch in constant space. The hash of
the first `2 ^ level` leaves of a run is kept at `inner[level]`, where the bits of the number of
leaves say which of the entries are in use. The computation is generic in the pair hash.
-/

namespace Energiminer.Primitives
open Misc

variable {α : Type}

/-- The variables of the computation. -/
structure Merkle (α : Type) where
  count : BitVec 32
  inner : List α
  /-- the position in `inner` that depends on the matching leaf, none for `-1` -/
  matchlevel : Option Nat
  mutated : Bool
  branch : List α

/-- A hash on its way up, from level `level`. -/
structure Ascent (α : Type) where
  level : Nat
  h : α
  matchh : Bool
  mutated : Bool
  branch : List α

namespace Merkle

section
variable [DecidableEq α] (combine : α → α → α) (null : α)

/-- The entry of the branch at a level that is combined with the one on the left. -/
def pushBranch (m : Merkle α) (a : Ascent α) : Ascent α :=
  if a.matchh then { a with branch := a.branch ++ [m.inner.getD a.level null] }
  else if m.matchlevel = some a.level then { a with branch := a.branch ++ [a.h], matchh := true }
  else a

/-- Combine with the hash on the left, one level up. -/
def combineLeft (m : Merkle α) (a : Ascent α) : Ascent α :=
  let a := m.pushBranch null a
  { a with h := combine (m.inner.getD a.level null) a.h, level := a.level + 1 }

/-- The levels whose bit in `count` is clear, while a leaf is added; equal halves are noted. -/
def climbLeaf (m : Merkle α) : Nat → Ascent α → Ascent α
  | 0, a => a
  | fuel + 1, a =>
    if m.count.getLsbD a.level then a
    else
      m.climbLeaf fuel (m.combineLeft combine null
        { a with mutated := a.mutated || decide (m.inner.getD a.level null = a.h) })

/-- One leaf. -/
def addLeaf (branchpos : BitVec 32) (m : Merkle α) (leaf : α) : Merkle α :=
  let matchh := decide (m.count = branchpos)
  let m := { m with count := m.count + 1 }
  let a := m.climbLeaf combine null 32 ⟨0, leaf, matchh, m.mutated, m.branch⟩
  { m with
    inner := m.inner.set a.level a.h
    matchlevel := if a.matchh then some a.level else m.matchlevel
    mutated := a.mutated
    branch := a.branch }

/-- The levels whose bit in `count` is clear, in the final sweep. -/
def climb (m : Merkle α) : Nat → Ascent α → Ascent α
  | 0, a => a
  | fuel + 1, a =>
    if m.count.getLsbD a.level then a else m.climb fuel (m.combineLeft combine null a)

/-- The first level whose bit in `count` is set. -/
def lowest (m : Merkle α) : Nat → Nat → Nat
  | 0, level => level
  | fuel + 1, level => if m.count.getLsbD level then level else m.lowest fuel (level + 1)

/-- The final sweep: a hash without a partner is combined with itself. -/
def sweep : Nat → Merkle α → Ascent α → Ascent α
  | 0, _, a => a
  | fuel + 1, m, a =>
    if m.count = 1#32 <<< a.level then a
    else
      let branch := if a.matchh then a.branch ++ [a.h] else a.branch
      let m := { m with count := m.count + 1#32 <<< a.level }
      sweep fuel m (m.climb combine null 32
        { a with h := combine a.h a.h, level := a.level + 1, branch := branch })

/-- `MerkleComputation` (`merkle.cpp:44-129`): the root, whether two equal hashes were combined, and
the branch. -/
def computation (leaves : List α) (branchpos : BitVec 32) : α × Bool × List α :=
  if leaves = [] then (null, false, [])
  else
    let m := leaves.foldl (addLeaf combine null branchpos)
      ⟨0, List.replicate 32 null, none, false, []⟩
    let level := m.lowest 32 0
    let a := sweep combine null 32 m
      ⟨level, m.inner.getD level null, decide (m.matchlevel = some level), m.mutated, m.branch⟩
    (a.h, m.mutated, a.branch)

/-- The loop of `ComputeMerkleRootFromBranch`. -/
def rootFromBranch : List α → BitVec 32 → α → α
  | [], _, hash => hash
  | it :: vMerkleBranch, nIndex, hash =>
    rootFromBranch vMerkleBranch (nIndex >>> 1)
      (if nIndex &&& 1 ≠ 0 then combine it hash else combine hash it)

end

end Merkle

/-- `CHash256` of two hashes one after the other. -/
def hashPair (a b : Uint256) : Uint256 := Sha256.hash256 (a.serialize ++ b.serialize)

/-- `ComputeMerkleRoot` (`merkle.cpp:131-135`). -/
def computeMerkleRoot (leaves : List Uint256) : Uint256 :=
  (Merkle.computation hashPair Uint256.null leaves (-1)).1

/-- `ComputeMerkleBranch` (`merkle.cpp:137-141`). -/
def computeMerkleBranch (leaves : List Uint256) (position : BitVec 32) : List Uint256 :=
  (Merkle.computation hashPair Uint256.null leaves position).2.2

/-- `ComputeMerkleRootFromBranch` (`merkle.cpp:143-154`). -/
def computeMerkleRootFromBranch (leaf : Uint256) (vMerkleBranch : List Uint256)
    (nIndex : BitVec 32) : Uint256 :=
  Merkle.rootFromBranch hashPair vMerkleBranch nIndex leaf

/-- `BlockMerkleRoot` (`merkle.cpp:156-164`), from the hashes that the transactions keep. -/
def blockMerkleRoot (block : Block) : Uint256 :=
  computeMerkleRoot (block.vtx.map CTransaction.hash)

end Energiminer.Primitives
