import Memfs.PageMap.Loops
import Memfs.SectorDevice

/-!
# Transfers

What may be asked of a device, and what is seen of it: once of the device as it stands, and
once in machine words, where a sum or a product that is out of range has no value, nor has a
part of an array that is not within it.

`lastWritten` says of each byte what it was given last. That this is what a device holds, and
that the words never fail, is proved in `Proofs/Sectors`.
-/

namespace Memfs

/-- Which way the bytes of a transfer go. -/
inductive Direction where
  | read
  | write
  deriving DecidableEq, Repr

/-- What may be asked of a device: a number of sectors, to or from the front of a buffer. -/
structure Transfer where
  direction : Direction
  sector : UInt64
  count : UInt32
  buffer : Bytes
  deriving DecidableEq, Repr

namespace Transfer

/-- Where the first byte is on the device. -/
def start (t : Transfer) : Nat := t.sector.toNat * sectorSize

/-- How many bytes are moved. -/
def size (t : Transfer) : Nat := t.count.toNat * sectorSize

/-- The byte of the device is one of those that are moved. -/
def Covers (t : Transfer) (pos : Nat) : Prop := t.start ≤ pos ∧ pos < t.start + t.size

/-- A device of `n` sectors has all that are asked for, and the buffer has room for them. -/
def Fits (t : Transfer) (n : Nat) : Prop :=
  t.sector.toNat + t.count.toNat ≤ n ∧ t.size ≤ t.buffer.size

instance (t : Transfer) (pos : Nat) : Decidable (t.Covers pos) :=
  inferInstanceAs (Decidable (_ ∧ _))

instance (t : Transfer) (n : Nat) : Decidable (t.Fits n) := inferInstanceAs (Decidable (_ ∧ _))

/-- Does the transfer give the byte of a device of `n` sectors a value? -/
def gives (t : Transfer) (n pos : Nat) : Bool :=
  t.direction = .write ∧ t.Fits n ∧ t.Covers pos

end Transfer

/-- The value that the byte was given last by the transfers, the latest standing at the end.
A byte that was given none is zero. -/
def lastWritten (n : Nat) (past : List Transfer) (pos : Nat) : UInt8 :=
  match past.reverse.find? (·.gives n pos) with
  | some t => t.buffer.getD (pos - t.start) 0
  | none => 0

/-- What is seen of a transfer: whether it was done, and the caller's buffer behind it. -/
structure Transferred where
  result : Except DeviceError Unit
  buffer : Bytes

/-- The product of two sizes, if it is in range. -/
def offsetProduct? (a b : Nat) : Option Nat := if a * b ≤ offsetLimit then some (a * b) else none

namespace SectorDevice

/-- What a transfer does. One that is refused does nothing. -/
def transfer (dev : SectorDevice) (t : Transfer) : Transferred × SectorDevice :=
  match t.direction with
  | .read =>
    match dev.read t.sector.toNat t.count.toNat t.buffer with
    | .ok buffer => ({ result := .ok (), buffer }, dev)
    | .error e => ({ result := .error e, buffer := t.buffer }, dev)
  | .write =>
    match dev.write t.sector.toNat t.count.toNat t.buffer with
    | .ok dev => ({ result := .ok (), buffer := t.buffer }, dev)
    | .error e => ({ result := .error e, buffer := t.buffer }, dev)

/-- Where a transfer begins and how many bytes it has, in machine words. The sum of the sectors
may be out of range, and then they are not on the device. -/
def span? (dev : SectorDevice) (sector : UInt64) (count : UInt32) (len : Nat) :
    Option (Except DeviceError (Nat × Nat)) :=
  match offsetSum? sector.toNat count.toNat with
  | none => some (.error .invalidSector)
  | some last =>
    if dev.sectors < last then some (.error .invalidSector)
    else do
      let bytes ← offsetProduct? count.toNat sectorSize
      if len < bytes then some (.error .bufferTooSmall)
      else do
        let start ← offsetProduct? sector.toNat sectorSize
        let _ ← offsetSum? start bytes
        some (.ok (start, bytes))

/-- What a transfer does, with every part of the device and of the buffer within it. -/
def transfer? (dev : SectorDevice) (t : Transfer) : Option (Transferred × SectorDevice) := do
  match ← dev.span? t.sector t.count t.buffer.size with
  | .error e => some ({ result := .error e, buffer := t.buffer }, dev)
  | .ok (start, len) =>
    match t.direction with
    | .read =>
      let chunk ← dev.data.slice? start len
      let buffer ← t.buffer.splice? 0 chunk
      some ({ result := .ok (), buffer }, dev)
    | .write =>
      let chunk ← t.buffer.slice? 0 len
      let data ← dev.data.splice? start chunk
      some ({ result := .ok (), buffer := t.buffer }, { dev with data })

/-- The device after a list of transfers. -/
def run (dev : SectorDevice) (past : List Transfer) : SectorDevice :=
  past.foldl (fun dev t => (dev.transfer t).2) dev

/-- The device after a list of transfers in machine words, unless one of them has no value. -/
def run? (dev : SectorDevice) (past : List Transfer) : Option SectorDevice :=
  past.foldlM (fun dev t => (dev.transfer? t).map (·.2)) dev

end SectorDevice

end Memfs
