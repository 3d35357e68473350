import Energiminer.OpenCL.Nrghash

/-!
# The older OpenCL search kernel

`search` of `libnrghash-cl/kernels/cl/old_nrghash.cl`. Eight work-items share the work of eight
hashes, and the first word of the share carries the page index from the item that chose it to
the others. The host defines `DAG_SIZE` as the number of pages it passes as `dag_size`.
-/

namespace Energiminer.OpenCL.Old
open Misc Misc.Keccak Misc.Lockstep Nrghash Devices
open Uint2 (bitselect)

/-- The three builds of `ROL2`. -/
inductive Platform where
  | nvidia
  | amd
  | other
  deriving DecidableEq, Repr

/-- `ROL2` (`old_nrghash.cl:74-116`). -/
def rol2 : Platform → Uint2 → Nat → Uint2
  | .nvidia => rol2Shf
  | .amd => rol2Bitalign
  | .other => rol2Shift

/-! ## `keccak_f1600_round` -/

/-- The θ statements. -/
def roundTheta (platform : Platform) (a : Lanes Uint2) : Lanes Uint2 :=
  let t0 := a.l0 ^^^ a.l5 ^^^ a.l10 ^^^ a.l15 ^^^ a.l20
  let t1 := a.l1 ^^^ a.l6 ^^^ a.l11 ^^^ a.l16 ^^^ a.l21
  let t2 := a.l2 ^^^ a.l7 ^^^ a.l12 ^^^ a.l17 ^^^ a.l22
  let t3 := a.l3 ^^^ a.l8 ^^^ a.l13 ^^^ a.l18 ^^^ a.l23
  let t4 := a.l4 ^^^ a.l9 ^^^ a.l14 ^^^ a.l19 ^^^ a.l24
  let u := t4 ^^^ rol2 platform t1 1
  let a := { a with
    l0 := a.l0 ^^^ u, l5 := a.l5 ^^^ u, l10 := a.l10 ^^^ u, l15 := a.l15 ^^^ u, l20 := a.l20 ^^^ u }
  let u := t0 ^^^ rol2 platform t2 1
  let a := { a with
    l1 := a.l1 ^^^ u, l6 := a.l6 ^^^ u, l11 := a.l11 ^^^ u, l16 := a.l16 ^^^ u, l21 := a.l21 ^^^ u }
  let u := t1 ^^^ rol2 platform t3 1
  let a := { a with
    l2 := a.l2 ^^^ u, l7 := a.l7 ^^^ u, l12 := a.l12 ^^^ u, l17 := a.l17 ^^^ u, l22 := a.l22 ^^^ u }
  let u := t2 ^^^ rol2 platform t4 1
  let a := { a with
    l3 := a.l3 ^^^ u, l8 := a.l8 ^^^ u, l13 := a.l13 ^^^ u, l18 := a.l18 ^^^ u, l23 := a.l23 ^^^ u }
  let u := t3 ^^^ rol2 platform t0 1
  { a with
    l4 := a.l4 ^^^ u, l9 := a.l9 ^^^ u, l14 := a.l14 ^^^ u, l19 := a.l19 ^^^ u, l24 := a.l24 ^^^ u }

/-- The ρ and π statements, which fill `t`. -/
def roundRhoPi (platform : Platform) (a : Lanes Uint2) : Lanes Uint2 where
  l0 := a.l0
  l10 := rol2 platform a.l1 1
  l20 := rol2 platform a.l2 62
  l5 := rol2 platform a.l3 28
  l15 := rol2 platform a.l4 27
  l16 := rol2 platform a.l5 36
  l1 := rol2 platform a.l6 44
  l11 := rol2 platform a.l7 6
  l21 := rol2 platform a.l8 55
  l6 := rol2 platform a.l9 20
  l7 := rol2 platform a.l10 3
  l17 := rol2 platform a.l11 10
  l2 := rol2 platform a.l12 43
  l12 := rol2 platform a.l13 25
  l22 := rol2 platform a.l14 39
  l23 := rol2 platform a.l15 41
  l8 := rol2 platform a.l16 45
  l18 := rol2 platform a.l17 15
  l3 := rol2 platform a.l18 21
  l13 := rol2 platform a.l19 8
  l14 := rol2 platform a.l20 18
  l24 := rol2 platform a.l21 2
  l9 := rol2 platform a.l22 61
  l19 := rol2 platform a.l23 56
  l4 := rol2 platform a.l24 14

/-- `chi(a, n, t)` for the five rows. -/
def roundChi (t : Lanes Uint2) : Lanes Uint2 where
  l0 := bitselect (t.l0 ^^^ t.l2) t.l0 t.l1
  l1 := bitselect (t.l1 ^^^ t.l3) t.l1 t.l2
  l2 := bitselect (t.l2 ^^^ t.l4) t.l2 t.l3
  l3 := bitselect (t.l3 ^^^ t.l0) t.l3 t.l4
  l4 := bitselect (t.l4 ^^^ t.l1) t.l4 t.l0
  l5 := bitselect (t.l5 ^^^ t.l7) t.l5 t.l6
  l6 := bitselect (t.l6 ^^^ t.l8) t.l6 t.l7
  l7 := bitselect (t.l7 ^^^ t.l9) t.l7 t.l8
  l8 := bitselect (t.l8 ^^^ t.l5) t.l8 t.l9
  l9 := bitselect (t.l9 ^^^ t.l6) t.l9 t.l5
  l10 := bitselect (t.l10 ^^^ t.l12) t.l10 t.l11
  l11 := bitselect (t.l11 ^^^ t.l13) t.l11 t.l12
  l12 := bitselect (t.l12 ^^^ t.l14) t.l12 t.l13
  l13 := bitselect (t.l13 ^^^ t.l10) t.l13 t.l14
  l14 := bitselect (t.l14 ^^^ t.l11) t.l14 t.l10
  l15 := bitselect (t.l15 ^^^ t.l17) t.l15 t.l16
  l16 := bitselect (t.l16 ^^^ t.l18) t.l16 t.l17
  l17 := bitselect (t.l17 ^^^ t.l19) t.l17 t.l18
  l18 := bitselect (t.l18 ^^^ t.l15) t.l18 t.l19
  l19 := bitselect (t.l19 ^^^ t.l16) t.l19 t.l15
  l20 := bitselect (t.l20 ^^^ t.l22) t.l20 t.l21
  l21 := bitselect (t.l21 ^^^ t.l23) t.l21 t.l22
  l22 := bitselect (t.l22 ^^^ t.l24) t.l22 t.l23
  l23 := bitselect (t.l23 ^^^ t.l20) t.l23 t.l24
  l24 := bitselect (t.l24 ^^^ t.l21) t.l24 t.l20

/-- `keccak_f1600_round` (`old_nrghash.cl:127-211`). -/
def keccakF1600Round (platform : Platform) (a : Lanes Uint2) (r : Nat) : Lanes Uint2 :=
  let a := roundChi (roundRhoPi platform (roundTheta platform a))
  { a with l0 := a.l0 ^^^ keccakF1600RC.getD r .zero }

/-- `keccak_f1600_no_absorb` (`old_nrghash.cl:213-240`). The round counter moves only if `isolate`
is not zero, so the loop does not end for zero. -/
def keccakF1600NoAbsorb (platform : Platform) (isolate : Word) (a : Lanes Uint2) :
    Option (Lanes Uint2) :=
  if isolate ≠ 0 then some ((List.range 24).foldl (keccakF1600Round platform) a) else none

/-! ## `search` -/

/-- The private variables of a work-item that live across statements. -/
structure Item where
  state : Lanes Uint2
  init0 : Word
  mix : Vector Word 4

/-- A work-group of size `n`: `share` as words, sixteen to each hash. -/
structure Group (n : Nat) where
  items : Vector Item n
  share : Vector Word (16 * (n / 8))

section
variable {n : Nat} (platform : Platform) (args : SearchArgs) (groupId : Nat)

/-- `gid & 7`. -/
def threadId (i : Fin n) : Nat := (globalId groupId n i).toNat % 8

/-- `(gid % GROUP_SIZE) >> 3`. -/
def hashId (i : Fin n) : Nat := (globalId groupId n i).toNat % n / 8

/-- `if (i == thread_id) copy(share[hash_id].ulongs, state, 8);` -/
def shareState (tid : Nat) (g : Group n) : Group n :=
  { g with
    share := store (fun (i : Fin n) mem =>
      if tid = threadId groupId i then storeSeed mem (hashId groupId i) (g.items.get i).state else mem)
      g.share }

/-- `uint4 mix = share[hash_id].uint4s[thread_id & 3];` -/
def loadMix (g : Group n) : Group n :=
  { g with
    items := each (fun i item => { item with
      mix := Vector.ofFn fun k =>
        cell g.share (16 * hashId groupId i + 4 * (threadId groupId i % 4) + k) }) g.items }

/-- `if (thread_id == 0) *share0 = mix.x;` and, after the barrier, `init0 = *share0`. -/
def shareInit0 (g : Group n) : Group n :=
  let share := store (fun (i : Fin n) mem =>
    if threadId groupId i = 0 then
      writeCell mem (16 * hashId groupId i) (cell (g.items.get i).mix 0)
    else mem) g.share
  { share := share
    items := each (fun i item =>
      { item with init0 := cell share (16 * hashId groupId i) }) g.items }

/-- One access: the item that holds the word stores the page index in `*share0`, then all items
mix the page in. -/
def accessStep (a k : Nat) (g : Group n) : Group n :=
  let share := store (fun (i : Fin n) mem =>
    if threadId groupId i = a / 4 % 8 then
      writeCell mem (16 * hashId groupId i)
        (fnv ((g.items.get i).init0 ^^^ BitVec.ofNat 32 (a + k)) (cell (g.items.get i).mix k) %
          args.dagSize)
    else mem) g.share
  { share := share
    items := each (fun i item => { item with
      mix := item.mix.zipWith fnv
        (slice 4 (args.page (cell share (16 * hashId groupId i))) (threadId groupId i)) })
      g.items }

/-- The loop over the accesses, `a` in steps of four. -/
def accessLoop (g : Group n) : Group n :=
  (List.range (ACCESSES / 4)).foldl (fun g a4 =>
    (List.range 4).foldl (fun g k => accessStep args groupId (4 * a4) k g) g) g

/-- `share[hash_id].uints[thread_id] = fnv_reduce(mix);` -/
def shareMix (g : Group n) : Group n :=
  { g with
    share := store (fun (i : Fin n) mem =>
      writeCell mem (16 * hashId groupId i + threadId groupId i)
        (fnvReduce fun k => cell (g.items.get i).mix (4 * 0 + k))) g.share }

/-- `if (i == thread_id) copy(state + 8, share[hash_id].ulongs, 4);` -/
def collectMix (tid : Nat) (g : Group n) : Group n :=
  { g with
    items := each (fun i item =>
      if tid = threadId groupId i then
        { item with state := { item.state with
          l8 := loadUint2 g.share (hashId groupId i) 0
          l9 := loadUint2 g.share (hashId groupId i) 1
          l10 := loadUint2 g.share (hashId groupId i) 2
          l11 := loadUint2 g.share (hashId groupId i) 3 } }
      else item) g.items }

/-- One iteration of the loop over the threads of a hash. -/
def hashStep (g : Group n) (tid : Nat) : Group n :=
  collectMix groupId tid (shareMix groupId (accessLoop args groupId
    (shareInit0 groupId (loadMix groupId (shareState groupId tid g)))))

/-- `search` (`old_nrghash.cl:302-395`): for each item of the group, the word that is compared with
`target`; `none` if the permutation does not end. -/
def search (share : Vector Word (16 * (n / 8))) : Option (Vector (BitVec 64) n) := do
  let initial : Vector (Lanes Uint2) n := Vector.ofFn fun i =>
    initialState args (args.startNonce + (globalId groupId n i).setWidth 64)
  let seeds ← initial.mapM (keccakF1600NoAbsorb platform args.isolate)
  let items : Vector Item n := seeds.map fun state => ⟨state, 0, Vector.replicate 4 0⟩
  let g := (List.range 8).foldl (hashStep args groupId) ⟨items, share⟩
  let final ← g.items.mapM fun item =>
    keccakF1600NoAbsorb platform args.isolate (padState item.state)
  pure (final.map fun st => swab 8 st.l0.asUlong)

end

end Energiminer.OpenCL.Old
