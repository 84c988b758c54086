/-!
# Simulated time

Instants and durations in whole microseconds, 64 bits wide; time stops at the end of the range
rather than starting over. A `Timer` goes off once, at the first look at the clock on or after its
deadline.
-/

namespace Transceiver

structure Duration where
  micros : UInt64
  deriving DecidableEq

structure Instant where
  micros : UInt64
  deriving DecidableEq

/-- One octet at 250 kbit/s. -/
def octetPeriod : Duration := ⟨32⟩

def Duration.ofOctets (n : UInt64) : Duration := ⟨n * octetPeriod.micros⟩

namespace Instant

/-- The instant `d` later, or the last one. -/
def after (t : Instant) (d : Duration) : Instant :=
  ⟨.ofNat (min (t.micros.toNat + d.micros.toNat) (UInt64.size - 1))⟩

/-- The time from `earlier` to `t`, nothing if they are the other way round. -/
def since (t earlier : Instant) : Duration :=
  ⟨.ofNat (t.micros.toNat - earlier.micros.toNat)⟩

def reachedBy (t now : Instant) : Bool := t.micros ≤ now.micros

theorem toNat_after (t : Instant) (d : Duration) :
    (t.after d).micros.toNat = min (t.micros.toNat + d.micros.toNat) (UInt64.size - 1) := by
  simp only [after, UInt64.toNat_ofNat', UInt64.size]
  omega

end Instant

structure Timer where
  deadline : Option Instant
  deriving DecidableEq

namespace Timer

def idle : Timer := ⟨none⟩

def arm (deadline : Instant) : Timer := ⟨some deadline⟩

def isArmed (t : Timer) : Bool := t.deadline.isSome

/-- Looks at the clock: whether the timer goes off now, and the timer afterwards. -/
def poll (t : Timer) (now : Instant) : Bool × Timer :=
  match t.deadline with
  | some d => if d.reachedBy now then (true, idle) else (false, t)
  | none => (false, t)

@[simp] theorem poll_idle (now : Instant) : idle.poll now = (false, idle) := rfl

theorem poll_arm (d now : Instant) :
    (arm d).poll now = if d.reachedBy now then (true, idle) else (false, arm d) := rfl

end Timer

end Transceiver
