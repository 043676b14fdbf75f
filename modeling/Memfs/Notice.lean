import Memfs.Error
import Memfs.Ledger
import Memfs.Mode

/-!
# Notices

What the filesystem reports about its own work while it does it. A notice is an
event with its particulars; its severity and its wording are functions of the
event. The host keeps the notices in the order in which they were given.
-/

namespace Memfs

/-- How severe a notice is, from the least to the most. -/
inductive Severity where
  | trace
  | debug
  | info
  | warn
  | error
  deriving DecidableEq, Repr

namespace Severity

def rank : Severity → Nat
  | trace => 0
  | debug => 1
  | info => 2
  | warn => 3
  | error => 4

def name : Severity → String
  | trace => "TRACE"
  | debug => "DEBUG"
  | info => "INFO"
  | warn => "WARN"
  | error => "ERROR"

end Severity

/-- The two sorts of backing devices. -/
inductive DeviceSort where
  | block
  /-- Memory that is addressed directly. -/
  | direct
  deriving DecidableEq, Repr

/-- An event in the life of the filesystem. -/
inductive Notice where
  /-- The host refused an allocation. -/
  | refused (kind : Resource)
  /-- A node is gone: nothing referred to it any more. -/
  | evicted (ino : UInt64)
  | noLinkToDrop (ino : UInt64)
  | noPinToDrop (name : String)
  | bogusMode (mode : Mode) (ino : UInt64)
  | noNode (mode : Mode)
  | newNode (ino : UInt64) (kind : NodeKind)
  | symlinkFailed (name : String) (cause : Error)
  /-- A parameter was given a value that its key does not take, or none. -/
  | badValue (key : String)
  | secondSource
  | optionIgnored (key : String)
  | configUnused
  | fillFailed (type : String) (cause : Error)
  | noRoot (type : String)
  | deactivating (type : String)
  | foreignData
  | tornDown (type : String)
  | released
  | holding (sort : DeviceSort) (device : String)
  | releasing (sort : DeviceSort) (device : String)
  | alreadyRegistered (type : String)
  | registered (type : String)
  | unregistered (type : String)
  | mounted (type : String) (source : String)
  | unmounting (type : String)
  /-- The built-in type is about to be registered; one notice per severity shows
  which of them are kept. -/
  | registering
  | registeringAt (severity : Severity)
  | withdrawing
  | withdrawn
  | withdrawFailed (cause : Error)
  | startingUp
  | startUpFailed (cause : Error)
  deriving DecidableEq, Repr

namespace Notice

def severity : Notice → Severity
  | evicted _ | newNode _ _ | configUnused => .trace
  | refused _ | noNode _ | symlinkFailed _ _ | badValue _ | secondSource | optionIgnored _
  | fillFailed _ _ | deactivating _ | tornDown _ | holding _ _ | releasing _ _ => .debug
  | released | registered _ | unregistered _ | mounted _ _ | unmounting _ | registering
  | withdrawing | withdrawn | startingUp => .info
  | noLinkToDrop _ | noPinToDrop _ | bogusMode _ _ | noRoot _ | foreignData
  | alreadyRegistered _ | withdrawFailed _ | startUpFailed _ => .warn
  | registeringAt severity => severity

/-- A notice of the layer that all filesystem types share. -/
private def general (text : String) : String := "[VFS] " ++ text

/-- A notice of the built-in filesystem type. -/
private def builtIn (text : String) : String := "[TAGFS] " ++ text

private def deviceText (verb : String) : DeviceSort → String → String
  | .block, device => "[BLOCK] " ++ verb ++ " block device " ++ device
  | .direct, device => "[DAX] " ++ verb ++ " dax device " ++ device

/-- The wording of a notice. -/
def text : Notice → String
  | refused kind => general ("allocation of " ++ kind.describe ++ " refused")
  | evicted ino => general ("evicting inode " ++ toString ino.toNat)
  | noLinkToDrop ino =>
    general ("drop_nlink on inode " ++ toString ino.toNat ++ " with no links")
  | noPinToDrop name => general ("dput on unpinned dentry '" ++ name ++ "'")
  | bogusMode mode ino =>
    general ("init_special_inode: bogus mode (" ++ mode.octal ++ ") for inode "
      ++ toString ino.toNat)
  | noNode mode => builtIn ("no inode for mode " ++ mode.octal)
  | newNode ino kind =>
    builtIn ("new inode " ++ toString ino.toNat ++ " (" ++ kind.describe ++ ")")
  | symlinkFailed name cause => builtIn ("symlink " ++ name ++ ": " ++ cause.message)
  | badValue key => general ("Bad value for '" ++ key ++ "'")
  | secondSource => general "Multiple sources"
  | optionIgnored key => builtIn ("Ignoring mount option '" ++ key ++ "'")
  | configUnused => builtIn "Freeing unused mount state"
  | fillFailed type cause =>
    general ("fill_super for " ++ type ++ " failed: " ++ cause.message)
  | noRoot type => general (type ++ " get_tree produced no root")
  | deactivating type => general ("Deactivating " ++ type ++ " instance")
  | foreignData => builtIn "kill_sb: foreign fs_info"
  | tornDown type => general (type ++ " instance torn down")
  | released => builtIn "Instance released"
  | holding sort device => deviceText "Holding" sort device
  | releasing sort device => deviceText "Releasing" sort device
  | alreadyRegistered type =>
    general ("Filesystem type '" ++ type ++ "' already registered")
  | registered type => general ("Registered filesystem type '" ++ type ++ "'")
  | unregistered type => general ("Unregistered filesystem type '" ++ type ++ "'")
  | mounted type source => general ("Mounted " ++ type ++ " (" ++ source ++ ")")
  | unmounting type => general ("Unmounting " ++ type)
  | registering => builtIn "init_tagfs_fs"
  | registeringAt severity => builtIn ("init_tagfs_fs: " ++ severity.name)
  | withdrawing => builtIn "exit_tagfs_fs"
  | withdrawn => builtIn "exit_tagfs_fs: unregistered"
  | withdrawFailed cause => builtIn ("exit_tagfs_fs: " ++ cause.message)
  | startingUp => general "Initializing filesystem types..."
  | startUpFailed cause => general ("Could not register tagfs: " ++ cause.message)

/-- Is the notice at least as severe as `threshold`? -/
def reaches (notice : Notice) (threshold : Severity) : Bool :=
  threshold.rank ≤ notice.severity.rank

end Notice

end Memfs
