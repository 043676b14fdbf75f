import Memfs.Text.Numeral

/-!
# Modes, device numbers and kinds of nodes

A mode is a word of sixteen bits: four say what a node is, twelve what may be
done with it. A node's kind is the first part decoded, together with the device
number of the nodes that have one.
-/

namespace Memfs

/-- The mode of a node: its type in the upper four bits, then the bits for
set-user, set-group and sticky, then read, write and execute for three classes. -/
structure Mode where
  bits : UInt16
  deriving DecidableEq, Repr

namespace Mode

/-- The bits that hold the type. -/
def typeMask : UInt16 := 0o170000
def regularType : UInt16 := 0o100000
def directoryType : UInt16 := 0o040000
def symlinkType : UInt16 := 0o120000
def charType : UInt16 := 0o020000
def blockType : UInt16 := 0o060000
def fifoType : UInt16 := 0o010000
def socketType : UInt16 := 0o140000

/-- The bits that hold the permissions. -/
def permissionMask : UInt16 := 0o7777
/-- The set-group bit: what is created in such a directory takes its group. -/
def setGroup : UInt16 := 0o2000

def fileType (mode : Mode) : UInt16 := mode.bits &&& typeMask

def permissions (mode : Mode) : UInt16 := mode.bits &&& permissionMask

/-- The same permissions under another type. -/
def withType (mode : Mode) (type : UInt16) : Mode :=
  ⟨(mode.bits &&& ~~~typeMask) ||| (type &&& typeMask)⟩

def isRegular (mode : Mode) : Bool := mode.fileType == regularType
def isDirectory (mode : Mode) : Bool := mode.fileType == directoryType
def isSymlink (mode : Mode) : Bool := mode.fileType == symlinkType

def passesGroup (mode : Mode) : Bool := mode.bits &&& setGroup != 0

/-- The mode with the set-group bit. -/
def addSetGroup (mode : Mode) : Mode := ⟨mode.bits ||| setGroup⟩

/-- The mode in octal. -/
def octal (mode : Mode) : String := Text.octal mode.bits.toNat

/-- The number by which a listing reports the type; zero is unknown. -/
def entryType (mode : Mode) : Nat :=
  if mode.fileType = regularType then 8
  else if mode.fileType = directoryType then 4
  else if mode.fileType = symlinkType then 10
  else if mode.fileType = charType then 2
  else if mode.fileType = blockType then 6
  else if mode.fileType = fifoType then 1
  else if mode.fileType = socketType then 12
  else 0

end Mode

/-- A device number: the major number in the upper half of the word and the
minor number in the lower half. -/
structure DeviceNumber where
  bits : UInt64
  deriving DecidableEq, Repr

namespace DeviceNumber

def none : DeviceNumber := ⟨0⟩

def ofParts (major minor : UInt32) : DeviceNumber :=
  ⟨(major.toUInt64 <<< 32) ||| minor.toUInt64⟩

def major (dev : DeviceNumber) : UInt32 := (dev.bits >>> 32).toUInt32

def minor (dev : DeviceNumber) : UInt32 := dev.bits.toUInt32

end DeviceNumber

/-- The kinds of nodes that have neither content nor names in them. -/
inductive SpecialKind where
  | charDevice
  | blockDevice
  | fifo
  | socket
  deriving DecidableEq, Repr

namespace SpecialKind

def ofMode (mode : Mode) : Option SpecialKind :=
  if mode.fileType = Mode.charType then some charDevice
  else if mode.fileType = Mode.blockType then some blockDevice
  else if mode.fileType = Mode.fifoType then some fifo
  else if mode.fileType = Mode.socketType then some socket
  else none

/-- Only devices have a device number. -/
def isDevice : SpecialKind → Bool
  | charDevice | blockDevice => true
  | fifo | socket => false

def describe : SpecialKind → String
  | charDevice => "CharDevice"
  | blockDevice => "BlockDevice"
  | fifo => "Fifo"
  | socket => "Socket"

end SpecialKind

/-- What a node is. -/
inductive NodeKind where
  | regular
  | directory
  | symlink
  | special (kind : SpecialKind) (device : DeviceNumber)
  deriving DecidableEq, Repr

namespace NodeKind

/-- The kind of a device, fifo or socket node. A fifo or socket drops the device
number; a mode of another type has no special kind. -/
def ofSpecialMode (mode : Mode) (device : DeviceNumber) : Option NodeKind :=
  (SpecialKind.ofMode mode).map fun kind =>
    special kind (if kind.isDevice then device else DeviceNumber.none)

/-- The kind that the type bits of a mode ask for. -/
def ofMode (mode : Mode) (device : DeviceNumber) : Option NodeKind :=
  if mode.fileType = Mode.regularType then some regular
  else if mode.fileType = Mode.directoryType then some directory
  else if mode.fileType = Mode.symlinkType then some symlink
  else ofSpecialMode mode device

def isDirectory : NodeKind → Bool
  | directory => true
  | _ => false

/-- The device number, which is zero for all that is no device. -/
def device : NodeKind → DeviceNumber
  | special _ device => device
  | _ => DeviceNumber.none

/-- The kind in diagnostic text. -/
def describe : NodeKind → String
  | regular => "RegularFile"
  | directory => "Directory"
  | symlink => "Symlink"
  | special kind device =>
    "Special \x7b kind: " ++ kind.describe ++ ", rdev: DevId(" ++ toString device.bits.toNat
      ++ ") \x7d"

end NodeKind

end Memfs
