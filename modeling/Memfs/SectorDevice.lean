import Memfs.PageMap

/-!
# Devices of sectors

A device in memory, read and written in whole sectors of 512 bytes. A transfer
is refused when it reaches beyond the last sector, and else when the caller's
buffer is shorter than the sectors asked for. A refused transfer changes neither
the device nor the buffer.
-/

namespace Memfs

/-- Why a device refuses a transfer. -/
inductive DeviceError where
  | inputOutput
  | invalidSector
  | bufferTooSmall
  deriving DecidableEq, Repr

def DeviceError.message : DeviceError → String
  | inputOutput => "I/O error"
  | invalidSector => "Invalid sector number"
  | bufferTooSmall => "Buffer too small"

/-- The bytes of one sector. -/
def sectorSize : Nat := 512

/-- A device whose sectors are held in memory. -/
structure SectorDevice where
  name : String
  data : Bytes
  deriving DecidableEq, Repr

namespace SectorDevice

/-- A device of `sectors` sectors, all of them zero. -/
def blank (name : String) (sectors : Nat) : SectorDevice :=
  ⟨name, Array.replicate (sectors * sectorSize) 0⟩

/-- How many sectors the device has. -/
def sectors (dev : SectorDevice) : Nat := dev.data.size / sectorSize

/-- Where the sectors of a transfer begin and how many bytes they have, if the
device has them all and a buffer of `len` bytes holds them. -/
def span (dev : SectorDevice) (sector count len : Nat) : Except DeviceError (Nat × Nat) :=
  if dev.sectors < sector + count then .error .invalidSector
  else if len < count * sectorSize then .error .bufferTooSmall
  else .ok (sector * sectorSize, count * sectorSize)

/-- The buffer after the sectors were read into its front. -/
def read (dev : SectorDevice) (sector count : Nat) (buffer : Bytes) : Except DeviceError Bytes := do
  let (start, len) ← dev.span sector count buffer.size
  return dev.data.extract start (start + len) ++ buffer.extract len buffer.size

/-- The device after the sectors were written from the buffer's front. -/
def write (dev : SectorDevice) (sector count : Nat) (buffer : Bytes) :
    Except DeviceError SectorDevice := do
  let (start, len) ← dev.span sector count buffer.size
  return { dev with
    data := dev.data.extract 0 start ++ buffer.extract 0 len
      ++ dev.data.extract (start + len) dev.data.size }

end SectorDevice

end Memfs
