import Memfs.Notice
import Memfs.Time

/-!
# The host

All that the instances mounted on one machine share: the source of inode
numbers, the clock, the credentials of the caller, the ledger of allocations and
the journal of notices. Nothing else passes from one instance to another.
-/

namespace Memfs

/-- The shared state of the instances on one machine. -/
structure Host where
  /-- The inode number that is given next, unless it is zero. -/
  nextIno : UInt64 := 1
  clock : Clock
  /-- The user and the group that new nodes belong to. -/
  uid : UInt32 := 0
  gid : UInt32 := 0
  ledger : Ledger := {}
  journal : Array Notice := #[]

namespace Host

/-- Adds a notice to the journal. -/
def note (host : Host) (notice : Notice) : Host :=
  { host with journal := host.journal.push notice }

/-- A fresh inode number. The counter wraps, and zero is skipped: no node has it. -/
def drawIno (host : Host) : UInt64 × Host :=
  let ino := if host.nextIno = 0 then 1 else host.nextIno
  (ino, { host with nextIno := ino + 1 })

/-- One reading of the clock. -/
def readClock (host : Host) : Timestamp × Host :=
  let (time, clock) := host.clock.read
  (time, { host with clock })

/-- Takes one allocation, or reports that it was refused. -/
def acquire (host : Host) (kind : Resource) : Bool × Host :=
  match (host.ledger.get kind).charge with
  | some tally => (true, { host with ledger := host.ledger.set kind tally })
  | none => (false, host.note (.refused kind))

/-- Gives `n` allocations back. -/
def release (host : Host) (kind : Resource) (n : Nat := 1) : Host :=
  { host with ledger := host.ledger.set kind ((host.ledger.get kind).credit n) }

/-- Takes `n` allocations, or none: once one of them is refused, those already
taken are given back. -/
def acquireAll (host : Host) (kind : Resource) (n : Nat) : Bool × Host :=
  go 0 n host
where
  /-- Takes `n` more after `taken` of them. -/
  go (taken : Nat) : Nat → Host → Bool × Host
    | 0, host => (true, host)
    | n + 1, host =>
      match host.acquire kind with
      | (true, host) => go (taken + 1) n host
      | (false, host) => (false, host.release kind taken)

/-- Allocations of a kind not yet given back. -/
def live (host : Host) (kind : Resource) : Nat := (host.ledger.get kind).live

/-- Sets or lifts the budget of a kind. -/
def setBudget (host : Host) (kind : Resource) (budget : Option Nat) : Host :=
  { host with ledger := host.ledger.set kind { host.ledger.get kind with budget } }

end Host

end Memfs
