import Energiminer.Engines.Miner

/-!
# Set-ups and epochs

What a device has to be set up for depends on the epoch of a height only.
-/

namespace Energiminer.Engines
open Misc Nrghash

theorem dagItems_congr {b b' : Nat} (h : b / EPOCH_LENGTH = b' / EPOCH_LENGTH) :
    dagItems b = dagItems b' := by
  rw [dagItems, dagItems, getFullSize, getFullSize, primeSize, primeSize, h]

theorem Setup.For.congr {setup : Setup} {height height' : BitVec 32} (h : setup.For height)
    (hepoch : height'.toNat / EPOCH_LENGTH = height.toNat / EPOCH_LENGTH) : setup.For height' := by
  constructor
  · rw [hepoch, h.dag]
  · rw [dagItems_congr hepoch, h.items]
  · rw [hepoch, h.kernel]
  · rw [hepoch]
    exact h.results

/-! ## Heights as the miners record them -/

theorem toNat_lastHeight {lastHeight : BitVec 64} {height : BitVec 32}
    (h : lastHeight = height.setWidth 64) : lastHeight.toNat = height.toNat := by
  rw [h, BitVec.toNat_setWidth, Nat.mod_eq_of_lt (by omega)]

theorem height_unique {lastHeight : BitVec 64} {height height' : BitVec 32}
    (h : lastHeight = height.setWidth 64) (h' : lastHeight = height'.setWidth 64) :
    height = height' :=
  BitVec.eq_of_toNat_eq ((toNat_lastHeight h).symm.trans (toNat_lastHeight h'))

end Energiminer.Engines
