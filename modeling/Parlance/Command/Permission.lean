/-!
# Permission levels and masks

* `Level`             what a caller may be, from everyone to the broadcaster;
* `Level.mask`        the bit of a level;
* `Level.ofMask`      the level that a mask demands, which its highest bit decides;
* `Level.permits`     may a caller of this level run what is guarded by a mask.
-/

namespace Parlance

/-- the standing of a caller -/
inductive Level where
  | all
  | trusted
  | moderator
  | broadcaster
deriving DecidableEq

namespace Level

def rank : Level → Nat
  | all => 0
  | trusted => 1
  | moderator => 2
  | broadcaster => 3

def mask : Level → UInt64
  | all => 1
  | trusted => 2
  | moderator => 4
  | broadcaster => 8

/-- The level that a mask demands.  Bits above the four of the levels do not count, and a mask
without any of them lets everyone through. -/
def ofMask (mask : UInt64) : Level :=
  if mask &&& 8 ≠ 0 then broadcaster
  else if mask &&& 4 ≠ 0 then moderator
  else if mask &&& 2 ≠ 0 then trusted
  else all

/-- may a caller of this level run what is guarded by the mask -/
def permits (level : Level) (mask : UInt64) : Bool := (ofMask mask).rank ≤ level.rank

/-- every level is permitted what its own bit guards -/
theorem permits_mask (level : Level) : level.permits level.mask := by cases level <;> decide

end Level

end Parlance
