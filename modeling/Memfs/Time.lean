/-!
# Time

Nodes carry three timestamps. They are read from a clock that the host
supplies: a sequence of readings, of which each is used once. An instance may
keep its times coarser than the clock, so a reading is rounded down to the
instance's granularity before it is stored.
-/

namespace Memfs

/-- A point in time: whole seconds, and nanoseconds within the second. -/
structure Timestamp where
  seconds : Int
  nanos : Nat
  deriving DecidableEq, Repr, Inhabited

namespace Timestamp

/-- The nanoseconds of a second. -/
def perSecond : Nat := 1000000000

/-- The time rounded down to a multiple of `grain` nanoseconds within its second.
A grain of a second or more leaves whole seconds. -/
def truncate (t : Timestamp) (grain : Nat) : Timestamp :=
  if grain ≤ 1 then t
  else if perSecond ≤ grain then ⟨t.seconds, 0⟩
  else ⟨t.seconds, t.nanos - t.nanos % grain⟩

/-- The time that lies `nanos` nanoseconds after the epoch, or before it where
the number is negative. The second is rounded down. -/
def ofNanos (nanos : Int) : Timestamp :=
  ⟨nanos.fdiv perSecond, (nanos.fmod perSecond).toNat⟩

end Timestamp

/-- A clock: its readings in order, and how many of them were taken. -/
structure Clock where
  reading : Nat → Timestamp
  taken : Nat := 0

namespace Clock

/-- The clock that starts at a time and moves on by `step` nanoseconds with
every reading. -/
def steady (seconds nanos step : Int) : Clock where
  reading k := Timestamp.ofNanos (seconds * Timestamp.perSecond + nanos + step * k)

/-- The next reading. -/
def read (clock : Clock) : Timestamp × Clock :=
  (clock.reading clock.taken, { clock with taken := clock.taken + 1 })

end Clock

end Memfs
