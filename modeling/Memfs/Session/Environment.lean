import Memfs.Session.Basic

/-!
# Steps on the host and the registry

Inode numbers, credentials, budgets, charges and the clock; and the registered
types of filesystems.
-/

namespace Memfs

/-- What the ledger says of one kind: allocated, released, live. -/
structure Count where
  allocated : Nat
  released : Nat
  live : Nat
  deriving DecidableEq, Repr

def Host.count (host : Host) (kind : Resource) : Count :=
  let tally := host.ledger.get kind
  ⟨tally.allocated, tally.released, tally.live⟩

namespace Step

/-- A change of the host. -/
def changeHost {α : Type} (f : Host → α × Host) : Step α := act (.onHost f)

def nextIno : Step UInt64 := changeHost Host.drawIno

/-- Restarts the inode numbers. -/
def resetIno (n : UInt64) : Step Unit := changeHost fun host => ((), { host with nextIno := n })

def setCredentials (uid gid : UInt32) : Step (UInt32 × UInt32) :=
  changeHost fun host => ((uid, gid), { host with uid, gid })

def setBudget (kind : Resource) (budget : Option Nat) : Step Unit :=
  changeHost fun host => ((), host.setBudget kind budget)

/-- Takes an allocation that nobody gives back. -/
def allocate (kind : Resource) : Step Bool := changeHost (·.acquire kind)

/-- Gives an allocation back that nobody took. -/
def giveBack (kind : Resource) : Step Unit := changeHost fun host => ((), host.release kind)

/-- Takes an allocation that its handle gives back. -/
def charge (kind : Resource) (name : Option String) : Step (Option String) := do
  if ← allocate kind then
    keep name (.charge kind)
    return some kind.describeCharge
  else return none

def counts : Step (Resource → Count) := see fun w kind => w.host.count kind

def readClock : Step Timestamp := changeHost Host.readClock

def setClock (clock : Clock) : Step Unit := changeHost fun host => ((), { host with clock })

/-- The devices that recorded being put back. -/
def puts : Step (List (String × Nat)) := see (·.puts)

def register (type : FilesystemType) : Step Unit := act (Action.register type)

def unregister (name : String) : Step Unit := act (Action.unregister name)

def findType (name : String) : Step (Option FilesystemType) := see (·.findType name)

/-- The names of the registered types, in the order of their registration. -/
def typeNames : Step (List String) := see fun w => w.types.map (·.name)

def registerBuiltIn : Step Unit := act Action.registerBuiltIn

def withdrawBuiltIn : Step Unit := act Action.withdrawBuiltIn

def startUp : Step Unit := act Action.startUp

end Step

end Memfs
