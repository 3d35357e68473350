import Energiminer.Misc.Cells
import Energiminer.Misc.LittleEndian
import Energiminer.Primitives.Uint256

/-!
# SHA-256

`CSHA256` (`primitives/sha256.cpp`) and the double hash `CHash256` (`primitives/hash.h`). `Write`
collects what it is given in chunks of 64 bytes, so a message counts as a whole here, however it is
cut. The sixteen schedule words of `Transform` are a window that moves by one word a round.
-/

namespace Energiminer.Primitives.Sha256
open Misc

def ch (x y z : BitVec 32) : BitVec 32 := z ^^^ (x &&& (y ^^^ z))

def maj (x y z : BitVec 32) : BitVec 32 := (x &&& y) ||| (z &&& (x ||| y))

/-- `x >> n | x << (32 - n)`. -/
def rotr (x : BitVec 32) (n : Nat) : BitVec 32 := (x >>> n) ||| (x <<< (32 - n))

/-- `Sigma0` and `Sigma1`, of the rounds. -/
def bigSigma0 (x : BitVec 32) : BitVec 32 := rotr x 2 ^^^ rotr x 13 ^^^ rotr x 22
def bigSigma1 (x : BitVec 32) : BitVec 32 := rotr x 6 ^^^ rotr x 11 ^^^ rotr x 25

/-- `sigma0` and `sigma1`, of the schedule. -/
def sigma0 (x : BitVec 32) : BitVec 32 := rotr x 7 ^^^ rotr x 18 ^^^ (x >>> 3)
def sigma1 (x : BitVec 32) : BitVec 32 := rotr x 17 ^^^ rotr x 19 ^^^ (x >>> 10)

/-- The eight words of the state. -/
structure Words where
  a : BitVec 32
  b : BitVec 32
  c : BitVec 32
  d : BitVec 32
  e : BitVec 32
  f : BitVec 32
  g : BitVec 32
  h : BitVec 32

/-- `Initialize` (`sha256.cpp:35-45`). -/
def initialState : Words :=
  ⟨0x6a09e667, 0xbb67ae85, 0x3c6ef372, 0xa54ff53a, 0x510e527f, 0x9b05688c, 0x1f83d9ab, 0x5be0cd19⟩

/-- `Round` (`sha256.cpp:26-32`), with the words renamed for the next one. -/
def round (s : Words) (k w : BitVec 32) : Words :=
  let t1 := s.h + bigSigma1 s.e + ch s.e s.f s.g + k + w
  let t2 := bigSigma0 s.a + maj s.a s.b s.c
  ⟨t1 + t2, s.a, s.b, s.c, s.d + t1, s.e, s.f, s.g⟩

/-- The constants of the rounds. -/
def roundConstants : List (BitVec 32) :=
  [0x428a2f98, 0x71374491, 0xb5c0fbcf, 0xe9b5dba5, 0x3956c25b, 0x59f111f1, 0x923f82a4, 0xab1c5ed5,
   0xd807aa98, 0x12835b01, 0x243185be, 0x550c7dc3, 0x72be5d74, 0x80deb1fe, 0x9bdc06a7, 0xc19bf174,
   0xe49b69c1, 0xefbe4786, 0x0fc19dc6, 0x240ca1cc, 0x2de92c6f, 0x4a7484aa, 0x5cb0a9dc, 0x76f988da,
   0x983e5152, 0xa831c66d, 0xb00327c8, 0xbf597fc7, 0xc6e00bf3, 0xd5a79147, 0x06ca6351, 0x14292967,
   0x27b70a85, 0x2e1b2138, 0x4d2c6dfc, 0x53380d13, 0x650a7354, 0x766a0abb, 0x81c2c92e, 0x92722c85,
   0xa2bfe8a1, 0xa81a664b, 0xc24b8b70, 0xc76c51a3, 0xd192e819, 0xd6990624, 0xf40e3585, 0x106aa070,
   0x19a4c116, 0x1e376c08, 0x2748774c, 0x34b0bcb5, 0x391c0cb3, 0x4ed8aa4a, 0x5b9cca4f, 0x682e6ff3,
   0x748f82ee, 0x78a5636f, 0x84c87814, 0x8cc70208, 0x90befffa, 0xa4506ceb, 0xbef9a3f7, 0xc67178f2]

/-- The schedule word sixteen rounds later: `w0 += sigma1(w14) + w9 + sigma0(w1)`. -/
def scheduleWord (w : List (BitVec 32)) : BitVec 32 :=
  w.getD 0 0 + (sigma1 (w.getD 14 0) + w.getD 9 0 + sigma0 (w.getD 1 0))

/-- The rounds, over the constants that are left. -/
def rounds : List (BitVec 32) → Words → List (BitVec 32) → Words
  | [], s, _ => s
  | k :: ks, s, w => rounds ks (round s k (w.getD 0 0)) (w.drop 1 ++ [scheduleWord w])

/-- `Transform` (`sha256.cpp:48-129`), for a chunk of 64 bytes. -/
def transform (s : Words) (chunk : List Byte) : Words :=
  let w := (List.range 16).map fun i => beWord 4 fun j => chunk.getD (4 * i + j) 0
  let t := rounds roundConstants s w
  ⟨s.a + t.a, s.b + t.b, s.c + t.c, s.d + t.d, s.e + t.e, s.f + t.f, s.g + t.g, s.h + t.h⟩

/-- The chunks of a message whose length is a multiple of 64, one transformation each. -/
def chunks : Nat → Words → List Byte → Words
  | 0, s, _ => s
  | n + 1, s, message => chunks n (transform s (message.take 64)) (message.drop 64)

/-- The padding of `Finalize`: a mark, zeros, and the length in bits. -/
def padding (length : Nat) : List Byte :=
  (0x80 :: List.replicate ((119 - length % 64) % 64) 0) ++
    (leBytes 8 (BitVec.ofNat 64 (8 * length))).reverse

/-- `CSHA256().Write(message).Finalize`. -/
def sha256 (message : List Byte) : List Byte :=
  let padded := message ++ padding message.length
  let s := chunks (padded.length / 64) initialState padded
  [s.a, s.b, s.c, s.d, s.e, s.f, s.g, s.h].flatMap fun w => (leBytes 4 w).reverse

/-- `CHash256` (`hash.h:9-34`): the hash of the hash. -/
def hash256 (message : List Byte) : Uint256 := Uint256.ofBytes (sha256 (sha256 message))

end Energiminer.Primitives.Sha256
