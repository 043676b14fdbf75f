import Memfs.File
import Memfs.Mount.Registry
import Memfs.Text.Quoted

/-!
# Reports

What can be seen of the objects of a world: the fields that a caller may ask for,
gathered in records, and the one-line texts that diagnostics show. A report changes
nothing and reads no clock.
-/

namespace Memfs

/-- A binding in short. -/
structure Brief where
  name : String
  /-- The inode number, or nothing for a negative binding. -/
  ino : Option UInt64
  deriving DecidableEq, Repr

/-- A binding at length. -/
structure BindingReport where
  brief : Brief
  path : String
  pins : UInt32
  isRoot : Bool
  /-- The names in the directory. -/
  children : List String
  parent : Option String
  deriving DecidableEq, Repr

/-- The attributes of a node. -/
structure Attributes where
  ino : UInt64
  mode : Mode
  links : UInt32
  uid : UInt32
  gid : UInt32
  device : DeviceNumber
  size : Nat
  blockSize : Nat
  /-- The room that the held pages take, in units of 512 bytes. -/
  blocks : Nat
  atime : Timestamp
  mtime : Timestamp
  ctime : Timestamp
  deriving DecidableEq, Repr

/-- A line of the listing of a tree. -/
structure TreeLine where
  path : String
  /-- The attributes of the node, or nothing for a negative binding. -/
  node : Option Attributes
  pins : UInt32
  deriving DecidableEq, Repr

namespace World

/-- The inode number of the node that a binding stands for. -/
def inoOf (w : World) (b : BindingId) : Option UInt64 :=
  ((w.nodeOf b).bind w.nodes.get?).map (·.ino)

def brief (w : World) (b : BindingId) : Brief := ⟨w.nameOf b, w.inoOf b⟩

def bindingReport (w : World) (b : BindingId) : BindingReport where
  brief := w.brief b
  path := w.path b
  pins := ((w.bindings.get? b).map (·.pins)).getD 0
  isRoot := w.isRoot b
  children := (w.below b).map w.nameOf
  parent := (w.parentOf b).map w.nameOf

/-- The attributes of a node. A node whose instance is gone has pages for blocks. -/
def attributes (w : World) (node : Node) : Attributes where
  ino := node.ino
  mode := node.mode
  links := node.links
  uid := node.uid
  gid := node.gid
  device := node.kind.device
  size := node.size
  blockSize := ((w.instances.get? node.home).map (·.geometry.blockSize)).getD pageSize
  blocks := node.content.held * pageSize / 512
  atime := node.atime
  mtime := node.mtime
  ctime := node.ctime

/-- The tree that hangs from a binding, a line for each binding. -/
def treeReport (w : World) (b : BindingId) : List TreeLine :=
  (w.subtree b).map fun b =>
    { path := w.path b
      node := ((w.nodeOf b).bind w.nodes.get?).map w.attributes
      pins := ((w.bindings.get? b).map (·.pins)).getD 0 }

/-- The inode number of an instance's root. -/
def rootIno (w : World) (i : InstanceId) : Option UInt64 :=
  ((w.instances.get? i).bind (·.root)).bind w.inoOf

end World

private def number (n : Nat) : String := toString n

private def optionalNumber (n : Option UInt64) : String :=
  Text.optional (n.map fun n => number n.toNat)

private def truth (b : Bool) : String := if b then "true" else "false"

/-- An outstanding allocation in diagnostic text. -/
def Resource.describeCharge (kind : Resource) : String :=
  Text.record "Charge" [("kind", kind.describe)]

/-- A held block device in diagnostic text. -/
def describeDevice (name : String) : String :=
  Text.record "BlockDevHandle" [("name", Text.quoted name)]

/-- A node in diagnostic text. -/
def Node.describe (node : Node) : String :=
  Text.record "Inode"
    [("ino", number node.ino.toNat), ("kind", node.kind.describe), ("mode", node.mode.octal),
      ("nlink", number node.links.toNat)]

/-- The sizes and limits of an instance in diagnostic text. -/
def Geometry.describe (g : Geometry) : String :=
  Text.record "SuperParams"
    [("max_bytes", number g.maxBytes), ("block_size", number g.blockSize),
      ("block_size_bits", number g.blockSizeBits), ("magic", number g.magic),
      ("time_gran", number g.timeGrain), ("flags", g.flags.describe)]

/-- An instance in diagnostic text. -/
def Instance.describe (i : Instance) : String :=
  Text.record "SuperBlock"
    [("type", Text.quoted i.type.name), ("source", Text.optional (i.source.map Text.quoted)),
      ("params", i.geometry.describe)]

/-- A context in diagnostic text. -/
def Context.describe (c : Context) : String :=
  Text.record "FsContext"
    [("type", Text.quoted c.type.name), ("source", Text.optional (c.source.map Text.quoted)),
      ("sb_flags", c.flags.describe), ("has_private", truth c.data.isSome)]

namespace World

/-- A binding in diagnostic text. -/
def describeBinding (w : World) (b : BindingId) : String :=
  Text.record "Dentry"
    [("name", Text.quoted (w.nameOf b)), ("ino", optionalNumber (w.inoOf b)),
      ("children", number (w.below b).length)]

/-- An open file in diagnostic text. -/
def describeFile (w : World) (file : OpenFile) : String :=
  Text.record "File"
    [("name", Text.quoted (w.nameOf file.binding)),
      ("ino", optionalNumber ((file.node.bind w.nodes.get?).map (·.ino))),
      ("pos", number file.position), ("flags", file.flags.describe)]

end World

end Memfs
