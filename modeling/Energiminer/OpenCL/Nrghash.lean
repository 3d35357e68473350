import Energiminer.Devices.Mixing

/-!
# The OpenCL search kernel

`search` of `libnrghash-cl/kernels/cl/nrghash.cl`, in the build without `LEGACY`. Four
work-items share the work of four hashes: in turn each of them publishes its seed, all four
mix a quarter of the page each, and the owner collects the compressed mix. The items of a
group run in lockstep. What local memory holds at the start is not defined, so it is an
argument.
-/

namespace Energiminer.OpenCL
open Misc Misc.Keccak Misc.Lockstep Nrghash Devices
open Uint2 (bitselect)

/-- The two builds of the rotation macros: with and without `cl_amd_media_ops`. -/
inductive RotlBuild where
  | amdMediaOps
  | rotate
  deriving DecidableEq, Repr

/-- `ROTL64_1`. -/
def rotl64_1 (build : RotlBuild) (x : Uint2) (y : Nat) : Uint2 :=
  match build with
  | .amdMediaOps => amdBitalign2 x x.s10 (32 - y)
  | .rotate => .ofUlong (rol x.asUlong y)

/-- `ROTL64_2`. -/
def rotl64_2 (build : RotlBuild) (x : Uint2) (y : Nat) : Uint2 :=
  match build with
  | .amdMediaOps => amdBitalign2 x.s10 x (32 - y)
  | .rotate => rotl64_1 build x (y + 32)

/-- `Keccak_f1600_RC`. -/
def keccakF1600RC : List Uint2 :=
  [⟨0x00000001, 0x00000000⟩, ⟨0x00008082, 0x00000000⟩, ⟨0x0000808a, 0x80000000⟩,
   ⟨0x80008000, 0x80000000⟩, ⟨0x0000808b, 0x00000000⟩, ⟨0x80000001, 0x00000000⟩,
   ⟨0x80008081, 0x80000000⟩, ⟨0x00008009, 0x80000000⟩, ⟨0x0000008a, 0x00000000⟩,
   ⟨0x00000088, 0x00000000⟩, ⟨0x80008009, 0x00000000⟩, ⟨0x8000000a, 0x00000000⟩,
   ⟨0x8000808b, 0x00000000⟩, ⟨0x0000008b, 0x80000000⟩, ⟨0x00008089, 0x80000000⟩,
   ⟨0x00008003, 0x80000000⟩, ⟨0x00008002, 0x80000000⟩, ⟨0x00000080, 0x80000000⟩,
   ⟨0x0000800a, 0x00000000⟩, ⟨0x8000000a, 0x80000000⟩, ⟨0x80008081, 0x80000000⟩,
   ⟨0x00008080, 0x80000000⟩, ⟨0x80000001, 0x00000000⟩, ⟨0x80008008, 0x80000000⟩]

/-! ## `KECCAKF_1600_RND` -/

/-- The θ statements; the second component is `tmp`, which takes the place of `a[1]`. -/
def rndTheta (build : RotlBuild) (a : Lanes Uint2) : Lanes Uint2 × Uint2 :=
  let m0 := a.l0 ^^^ a.l5 ^^^ a.l10 ^^^ a.l15 ^^^ a.l20 ^^^
    rotl64_1 build (a.l2 ^^^ a.l7 ^^^ a.l12 ^^^ a.l17 ^^^ a.l22) 1
  let m1 := a.l1 ^^^ a.l6 ^^^ a.l11 ^^^ a.l16 ^^^ a.l21 ^^^
    rotl64_1 build (a.l3 ^^^ a.l8 ^^^ a.l13 ^^^ a.l18 ^^^ a.l23) 1
  let m2 := a.l2 ^^^ a.l7 ^^^ a.l12 ^^^ a.l17 ^^^ a.l22 ^^^
    rotl64_1 build (a.l4 ^^^ a.l9 ^^^ a.l14 ^^^ a.l19 ^^^ a.l24) 1
  let m3 := a.l3 ^^^ a.l8 ^^^ a.l13 ^^^ a.l18 ^^^ a.l23 ^^^
    rotl64_1 build (a.l0 ^^^ a.l5 ^^^ a.l10 ^^^ a.l15 ^^^ a.l20) 1
  let m4 := a.l4 ^^^ a.l9 ^^^ a.l14 ^^^ a.l19 ^^^ a.l24 ^^^
    rotl64_1 build (a.l1 ^^^ a.l6 ^^^ a.l11 ^^^ a.l16 ^^^ a.l21) 1
  let tmp := a.l1 ^^^ m0
  ({ a with
      l0 := a.l0 ^^^ m4, l5 := a.l5 ^^^ m4, l10 := a.l10 ^^^ m4, l15 := a.l15 ^^^ m4,
      l20 := a.l20 ^^^ m4,
      l6 := a.l6 ^^^ m0, l11 := a.l11 ^^^ m0, l16 := a.l16 ^^^ m0, l21 := a.l21 ^^^ m0,
      l2 := a.l2 ^^^ m1, l7 := a.l7 ^^^ m1, l12 := a.l12 ^^^ m1, l17 := a.l17 ^^^ m1,
      l22 := a.l22 ^^^ m1,
      l3 := a.l3 ^^^ m2, l8 := a.l8 ^^^ m2, l13 := a.l13 ^^^ m2, l18 := a.l18 ^^^ m2,
      l23 := a.l23 ^^^ m2,
      l4 := a.l4 ^^^ m3, l9 := a.l9 ^^^ m3, l14 := a.l14 ^^^ m3, l19 := a.l19 ^^^ m3,
      l24 := a.l24 ^^^ m3 }, tmp)

/-- The ρ and π statements, one lane after another. -/
def rndRhoPi (build : RotlBuild) (a : Lanes Uint2) (tmp : Uint2) : Lanes Uint2 :=
  let a := { a with l1 := rotl64_2 build a.l6 12 }
  let a := { a with l6 := rotl64_1 build a.l9 20 }
  let a := { a with l9 := rotl64_2 build a.l22 29 }
  let a := { a with l22 := rotl64_2 build a.l14 7 }
  let a := { a with l14 := rotl64_1 build a.l20 18 }
  let a := { a with l20 := rotl64_2 build a.l2 30 }
  let a := { a with l2 := rotl64_2 build a.l12 11 }
  let a := { a with l12 := rotl64_1 build a.l13 25 }
  let a := { a with l13 := rotl64_1 build a.l19 8 }
  let a := { a with l19 := rotl64_2 build a.l23 24 }
  let a := { a with l23 := rotl64_2 build a.l15 9 }
  let a := { a with l15 := rotl64_1 build a.l4 27 }
  let a := { a with l4 := rotl64_1 build a.l24 14 }
  let a := { a with l24 := rotl64_1 build a.l21 2 }
  let a := { a with l21 := rotl64_2 build a.l8 23 }
  let a := { a with l8 := rotl64_2 build a.l16 13 }
  let a := { a with l16 := rotl64_2 build a.l5 4 }
  let a := { a with l5 := rotl64_1 build a.l3 28 }
  let a := { a with l3 := rotl64_1 build a.l18 21 }
  let a := { a with l18 := rotl64_1 build a.l17 15 }
  let a := { a with l17 := rotl64_1 build a.l11 10 }
  let a := { a with l11 := rotl64_1 build a.l7 6 }
  let a := { a with l7 := rotl64_1 build a.l10 3 }
  { a with l10 := rotl64_1 build tmp 1 }

/-- The χ and ι statements, as many rows as `outsz` asks for. -/
def rndChi (rc : Uint2) (outsz : Nat) (a : Lanes Uint2) : Lanes Uint2 :=
  let m5 := a.l0
  let m6 := a.l1
  let a := { a with l0 := bitselect (a.l0 ^^^ a.l2) a.l0 a.l1 }
  let a := { a with l0 := a.l0 ^^^ rc }
  if outsz > 1 then
    let a := { a with l1 := bitselect (a.l1 ^^^ a.l3) a.l1 a.l2 }
    let a := { a with l2 := bitselect (a.l2 ^^^ a.l4) a.l2 a.l3 }
    let a := { a with l3 := bitselect (a.l3 ^^^ m5) a.l3 a.l4 }
    let a := { a with l4 := bitselect (a.l4 ^^^ m6) a.l4 m5 }
    if outsz > 4 then
      let m5 := a.l5
      let m6 := a.l6
      let a := { a with l5 := bitselect (a.l5 ^^^ a.l7) a.l5 a.l6 }
      let a := { a with l6 := bitselect (a.l6 ^^^ a.l8) a.l6 a.l7 }
      let a := { a with l7 := bitselect (a.l7 ^^^ a.l9) a.l7 a.l8 }
      let a := { a with l8 := bitselect (a.l8 ^^^ m5) a.l8 a.l9 }
      let a := { a with l9 := bitselect (a.l9 ^^^ m6) a.l9 m5 }
      if outsz > 8 then
        let m5 := a.l10
        let m6 := a.l11
        let a := { a with l10 := bitselect (a.l10 ^^^ a.l12) a.l10 a.l11 }
        let a := { a with l11 := bitselect (a.l11 ^^^ a.l13) a.l11 a.l12 }
        let a := { a with l12 := bitselect (a.l12 ^^^ a.l14) a.l12 a.l13 }
        let a := { a with l13 := bitselect (a.l13 ^^^ m5) a.l13 a.l14 }
        let a := { a with l14 := bitselect (a.l14 ^^^ m6) a.l14 m5 }
        let m5 := a.l15
        let m6 := a.l16
        let a := { a with l15 := bitselect (a.l15 ^^^ a.l17) a.l15 a.l16 }
        let a := { a with l16 := bitselect (a.l16 ^^^ a.l18) a.l16 a.l17 }
        let a := { a with l17 := bitselect (a.l17 ^^^ a.l19) a.l17 a.l18 }
        let a := { a with l18 := bitselect (a.l18 ^^^ m5) a.l18 a.l19 }
        let a := { a with l19 := bitselect (a.l19 ^^^ m6) a.l19 m5 }
        let m5 := a.l20
        let m6 := a.l21
        let a := { a with l20 := bitselect (a.l20 ^^^ a.l22) a.l20 a.l21 }
        let a := { a with l21 := bitselect (a.l21 ^^^ a.l23) a.l21 a.l22 }
        let a := { a with l22 := bitselect (a.l22 ^^^ a.l24) a.l22 a.l23 }
        let a := { a with l23 := bitselect (a.l23 ^^^ m5) a.l23 a.l24 }
        { a with l24 := bitselect (a.l24 ^^^ m6) a.l24 m5 }
      else a
    else a
  else a

/-- `KECCAKF_1600_RND` (`nrghash.cl:87-163`). -/
def keccakf1600Rnd (build : RotlBuild) (a : Lanes Uint2) (i outsz : Nat) : Lanes Uint2 :=
  rndChi (keccakF1600RC.getD i .zero) outsz
    (rndRhoPi build (rndTheta build a).1 (rndTheta build a).2)

/-- `KECCAK_PROCESS` (`nrghash.cl:166-172`). -/
def keccakProcess (build : RotlBuild) (isolate : Word) (outSize : Nat) (st : Lanes Uint2) :
    Lanes Uint2 :=
  (List.range 24).foldl (fun st r =>
    let os := if r < 23 then 25 else outSize
    if isolate ≠ 0 then keccakf1600Rnd build st r os else st) st

/-! ## `search` -/

/-- The private variables of a work-item that live across statements. -/
structure Item where
  state : Lanes Uint2
  init0 : Word
  mix : Vector Word 8

/-- A work-group of size `n`: `sharebuf` as words, sixteen to each hash, and `buffer`. -/
structure Group (n : Nat) where
  items : Vector Item n
  sharebuf : Vector Word (16 * (n / 4))
  buffer : Vector Word n

/-- What the host passes to a launch. -/
structure SearchArgs where
  header : H256
  page : Word → Mix
  dagSize : Word
  startNonce : BitVec 64
  isolate : Word

section
variable {n : Nat} (build : RotlBuild) (args : SearchArgs)

/-- The state before the first permutation. -/
def initialState (nonce : BitVec 64) : Lanes Uint2 :=
  .ofFn fun k =>
    if k < 4 then headerUint2 args.header k
    else if k = 4 then .ofUlong nonce
    else if k = 5 then .ofUlong 0x0000000000000001
    else if k = 8 then .ofUlong 0x8000000000000000
    else .zero

/-- `if (tid == thread_id)` the item publishes the first eight lanes of its state. -/
def shareState (tid : Nat) (g : Group n) : Group n :=
  { g with
    sharebuf := store (fun (i : Fin n) mem =>
      if tid = i.val % 4 then storeSeed mem (i.val / 4) (g.items.get i).state else mem) g.sharebuf }

/-- `mix = share->uint8s[thread_id & 1]; init0 = share->uints[0];` -/
def loadSeed (g : Group n) : Group n :=
  { g with
    items := each (fun i item => { item with
      mix := Vector.ofFn fun k => cell g.sharebuf (16 * (i.val / 4) + 8 * (i.val % 4 % 2) + k)
      init0 := cell g.sharebuf (16 * (i.val / 4)) }) g.items }

/-- The chain of `select`s of `MIX`. -/
def selectWord (mix : Vector Word 8) (x : Nat) : Word :=
  let s := cell mix 0
  let s := if x ≠ 1 then s else cell mix 1
  let s := if x ≠ 2 then s else cell mix 2
  let s := if x ≠ 3 then s else cell mix 3
  let s := if x ≠ 4 then s else cell mix 4
  let s := if x ≠ 5 then s else cell mix 5
  let s := if x ≠ 6 then s else cell mix 6
  if x ≠ 7 then s else cell mix 7

/-- `MIX(x)` (`nrghash.cl:203-235`): every item stores a page index, then mixes in the page that the
item at `lane_idx` chose. -/
def mixMacro (a x : Nat) (g : Group n) : Group n :=
  let buffer := store (fun (i : Fin n) buffer =>
    writeCell buffer i.val (fnv ((g.items.get i).init0 ^^^ BitVec.ofNat 32 (a + x))
      (selectWord (g.items.get i).mix x) % args.dagSize)) g.buffer
  { g with
    buffer := buffer
    items := each (fun i item =>
      let laneIdx := 4 * (i.val / 4) + a / 8 % 4
      { item with
        mix := item.mix.zipWith fnv
          (slice 8 (args.page (cell buffer laneIdx)) (i.val % 4)) }) g.items }

/-- The loop over the accesses, `a` in steps of eight. -/
def mixLoop (g : Group n) : Group n :=
  (List.range (ACCESSES / 8)).foldl (fun g a8 =>
    (List.range 8).foldl (fun g x => mixMacro args (8 * a8) x g) g) g

/-- `share->uint2s[thread_id] = (uint2)(fnv_reduce(mix.lo), fnv_reduce(mix.hi))`. -/
def shareMix (g : Group n) : Group n :=
  { g with
    sharebuf := store (fun (i : Fin n) mem =>
      storeUint2 mem (i.val / 4) (i.val % 4)
        ⟨fnvReduce fun k => cell (g.items.get i).mix (4 * 0 + k),
          fnvReduce fun k => cell (g.items.get i).mix (4 * 1 + k)⟩) g.sharebuf }

/-- `if (tid == thread_id)` the item takes over the compressed mix. -/
def collectMix (tid : Nat) (g : Group n) : Group n :=
  { g with
    items := each (fun i item =>
      if tid = i.val % 4 then
        { item with state := { item.state with
          l8 := loadUint2 g.sharebuf (i.val / 4) 0
          l9 := loadUint2 g.sharebuf (i.val / 4) 1
          l10 := loadUint2 g.sharebuf (i.val / 4) 2
          l11 := loadUint2 g.sharebuf (i.val / 4) 3 } }
      else item) g.items }

/-- One iteration of the loop over `tid`. -/
def tidStep (g : Group n) (tid : Nat) : Group n :=
  collectMix tid (shareMix (mixLoop args (loadSeed (shareState tid g))))

/-- The padding of the second permutation. -/
def padState (st : Lanes Uint2) : Lanes Uint2 :=
  { st with
    l12 := .ofUlong 0x0000000000000001, l13 := .zero, l14 := .zero, l15 := .zero
    l16 := .ofUlong 0x8000000000000000, l17 := .zero, l18 := .zero, l19 := .zero, l20 := .zero
    l21 := .zero, l22 := .zero, l23 := .zero, l24 := .zero }

/-- `get_global_id(0)` of an item, as the kernel keeps it. -/
def globalId (groupId : Nat) (n i : Nat) : Word := BitVec.ofNat 32 (groupId * n + i)

/-- `search` (`nrghash.cl:251-407`): for each item of the group, the word that is compared with
`target`. The first pass of the outer loop is the permutation and the mixing, the second one the
permutation. -/
def search (groupId : Nat) (sharebuf : Vector Word (16 * (n / 4))) (buffer : Vector Word n) :
    Vector (BitVec 64) n :=
  let items : Vector Item n := Vector.ofFn fun i =>
    { state := initialState args (args.startNonce + (globalId groupId n i).setWidth 64)
      init0 := 0
      mix := Vector.replicate 8 0 }
  let items := each (fun _ item =>
    { item with state := keccakProcess build args.isolate 8 item.state }) items
  let g := (List.range 4).foldl (tidStep args) ⟨items, sharebuf, buffer⟩
  let items := each (fun _ item =>
    { item with state := keccakProcess build args.isolate 1 (padState item.state) }) g.items
  items.map fun item => swab 8 item.state.l0.asUlong

end

end Energiminer.OpenCL
