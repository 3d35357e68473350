import Mathlib.Algebra.Group.Basic
import Mathlib.Tactic.Abel

/-!
# Counters that are reported in differences

A counter is reported as the difference from a mark, which then moves to the counter. Numbers may wrap
around, so they come from any commutative group. What was reported and what is still to be reported
sum to all that was counted, but for a surplus: what a report adds to the difference, and the
difference itself where the mark does not move.
-/

namespace Energiminer.Misc

structure Meter (G : Type) where
  count : G
  /-- the counter at the last report -/
  mark : G
  /-- all that was counted -/
  total : G
  /-- the sum of the reports -/
  reported : G

namespace Meter
variable {G : Type} [AddCommGroup G]

/-- What was reported and not counted. -/
def surplus (m : Meter G) : G := m.reported + (m.count - m.mark) - m.total

def advance (m : Meter G) (n : G) : Meter G := { m with count := m.count + n, total := m.total + n }

/-- The difference is reported, with `extra` added to it. -/
def report (m : Meter G) (extra : G) : Meter G :=
  { m with mark := m.count, reported := m.count - m.mark + extra + m.reported }

/-- The difference is reported, and remains to be reported. -/
def announce (m : Meter G) : Meter G := { m with reported := m.count - m.mark + m.reported }

/-- The counter and the mark are set. -/
def restart (m : Meter G) (x : G) : Meter G := { m with count := x, mark := x }

/-- The difference is reported, and the counter and the mark are set. -/
def settle (m : Meter G) (x : G) : Meter G :=
  { m with count := x, mark := x, reported := m.count - m.mark + m.reported }

variable (m : Meter G)

theorem surplus_advance (n : G) : (m.advance n).surplus = m.surplus := by
  rw [surplus, surplus, advance]
  dsimp only
  abel

theorem surplus_report (extra : G) : (m.report extra).surplus = m.surplus + extra := by
  rw [surplus, surplus, report]
  dsimp only
  abel

theorem surplus_announce : m.announce.surplus = m.surplus + (m.count - m.mark) := by
  rw [surplus, surplus, announce]
  dsimp only
  abel

/-- Nothing is lost if nothing is still to be reported. -/
theorem surplus_restart {m : Meter G} (h : m.count = m.mark) (x : G) :
    (m.restart x).surplus = m.surplus := by
  rw [surplus, surplus, restart, h, sub_self, sub_self]

theorem surplus_settle (x : G) : (m.settle x).surplus = m.surplus := by
  rw [surplus, surplus, settle]
  dsimp only
  abel

theorem balanced_iff : m.reported + (m.count - m.mark) = m.total ↔ m.surplus = 0 := by
  rw [surplus, sub_eq_zero]

end Meter

end Energiminer.Misc
