import Memfs.PageMap
import Memfs.Parameter
import Memfs.Table

/-!
# The world

The objects of the filesystem and the tables that keep them.

A *node* is a thing with attributes and content: a file, a directory, a symlink
or a special node. A *binding* gives a node a name in a directory; the bindings
of an instance form a tree, and a binding without a node is *negative*. An
*instance* is a mounted filesystem: a root binding and its settings. A *context*
is a mount in the making. A *file* is an open handle on a node.

Ownership runs one way. An instance and a context own a root, a binding owns its
node and the bindings below it, a file owns a binding and a node, and a caller
owns what it holds. An object without an owner is gone. Backwards, from a binding
to its parent and from a node to its instance, there are only numbers, which name
nothing once the object is gone.
-/

namespace Memfs

/-- The number of a node. -/
abbrev NodeId := Nat

/-- The number of a binding. -/
abbrev BindingId := Nat

/-- The number of an open file. -/
abbrev FileId := Nat

/-- The number of an instance. -/
abbrev InstanceId := Nat

/-- The number of a mount context. -/
abbrev ContextId := Nat

/-- A file, directory, symlink or special node. -/
structure Node where
  /-- The inode number, which no other node of the host has. -/
  ino : UInt64
  kind : NodeKind
  mode : Mode
  uid : UInt32
  gid : UInt32
  /-- When the content was last read. -/
  atime : Timestamp
  /-- When the content last changed. -/
  mtime : Timestamp
  /-- When the node last changed in any way. -/
  ctime : Timestamp
  /-- The count of names, and for a directory one more for itself and one for
  each directory in it. -/
  links : UInt32
  /-- May the node be given a name although it has none? -/
  linkable : Bool := false
  content : PageMap
  /-- The instance that the node was made for. -/
  home : InstanceId

namespace Node

def isDirectory (node : Node) : Bool := node.kind.isDirectory

/-- The length of the content. -/
def size (node : Node) : Nat := node.content.size

/-- One link more. A node that had none is linkable no longer. -/
def addLink (node : Node) : Node :=
  { node with
    links := node.links + 1
    linkable := node.linkable && node.links != 0 }

/-- One link less. -/
def dropLink (node : Node) : Node :=
  { node with links := if node.links = 0 then 0 else node.links - 1 }

/-- The node changed at `now`. -/
def changed (node : Node) (now : Timestamp) : Node := { node with ctime := now }

/-- The content of the node changed at `now`. -/
def written (node : Node) (now : Timestamp) : Node := { node with mtime := now, ctime := now }

/-- The content of the node was read at `now`. -/
def accessed (node : Node) (now : Timestamp) : Node := { node with atime := now }

end Node

/-- A name in a directory, and the node that it stands for. -/
structure Binding where
  name : String
  /-- The directory that the name is in, while that is there. -/
  parent : Option BindingId
  node : Option NodeId := none
  /-- The names in this directory, in the order of their characters. -/
  children : Std.TreeMap String BindingId := ∅
  /-- What keeps the binding in place. -/
  pins : UInt32 := 0

/-- The bindings in this directory, in the order of their names. -/
def Binding.below (b : Binding) : List BindingId := b.children.toList.map (·.2)

/-- The name that a root is given. -/
def rootName : String := "/"

/-- The greatest length of a name in bytes. -/
def nameLimit : Nat := 255

/-- An open file. -/
structure OpenFile where
  binding : BindingId
  /-- The node, once the file is open. -/
  node : Option NodeId
  flags : OpenFlags
  /-- Where the next byte is read or written. -/
  position : Nat := 0

/-- A device that an instance is backed by. -/
structure Device where
  name : String
  /-- Does the device keep a record of being put back? -/
  recorded : Bool
  deriving DecidableEq, Repr

/-- The settings of a mount of the built-in type, and the devices that back it. -/
structure Config where
  /-- The permissions of the root directory. -/
  mode : Mode
  block : Option Device := none
  direct : Option Device := none
  deriving DecidableEq, Repr

/-- What a filesystem type keeps with a mount. -/
inductive PrivateData where
  | config (config : Config)
  /-- Something that the built-in type did not put there. -/
  | foreign
  deriving DecidableEq, Repr

/-- The configuration, if the data is one. -/
def PrivateData.config? : PrivateData → Option Config
  | config c => some c
  | foreign => none

/-- How a context of a type makes the tree of an instance. -/
inductive Filling where
  /-- A fresh root directory with the configured mode. -/
  | freshRoot
  /-- Nothing is made, and nothing fails. -/
  | noRoot
  /-- The attempt fails. -/
  | failing (cause : Error)
  deriving DecidableEq, Repr

/-- What a type does with the parameters of a mount. -/
inductive ParameterPolicy where
  /-- The type's table is decoded and keys not in it are passed over. -/
  | lenient
  /-- Only the source is accepted. -/
  | sourceOnly
  deriving DecidableEq, Repr

/-- What a type installs on its contexts. -/
structure ContextOps where
  parameters : ParameterPolicy
  filling : Filling
  /-- Is data that was left on a context given back when the context ends? -/
  freesData : Bool
  deriving DecidableEq, Repr

/-- How a context of a type begins. -/
inductive ContextStart where
  /-- No context can be made. -/
  | refused (cause : Error)
  /-- A context without data of the type. -/
  | plain
  /-- A context with a fresh configuration. -/
  | configured
  deriving DecidableEq, Repr

/-- How an instance of a type ends. -/
inductive Teardown where
  /-- The tree is dissolved. -/
  | treeOnly
  /-- The devices and the configuration are given back before the tree. -/
  | withConfig
  deriving DecidableEq, Repr

/-- A type of filesystem. -/
structure FilesystemType where
  name : String
  flags : UInt32 := 0
  parameters : List ParameterSpec := []
  start : ContextStart := .plain
  ops : Option ContextOps := none
  teardown : Teardown := .treeOnly
  deriving DecidableEq, Repr

/-- Sizes and limits of an instance. -/
structure Geometry where
  /-- The greatest length of a file. -/
  maxBytes : Nat := offsetLimit
  blockSize : Nat := pageSize
  blockSizeBits : Nat := 12
  magic : Nat := 0
  /-- The granularity of timestamps in nanoseconds. -/
  timeGrain : Nat := 1
  flags : MountFlags := ⟨0⟩
  deriving DecidableEq, Repr

/-- A mounted filesystem. -/
structure Instance where
  type : FilesystemType
  source : Option String
  geometry : Geometry
  /-- Does the instance report its options? -/
  reports : Bool := false
  root : Option BindingId := none
  data : Option PrivateData := none
  /-- Has the teardown begun? -/
  dying : Bool := false

/-- A mount in the making. -/
structure Context where
  type : FilesystemType
  data : Option PrivateData := none
  source : Option String := none
  flags : MountFlags := ⟨0⟩
  /-- The instance that was made, until it is handed out. -/
  made : Option InstanceId := none
  root : Option BindingId := none

/-- Something that can be owned. -/
inductive Ref where
  | node (id : NodeId)
  | binding (id : BindingId)
  | inst (id : InstanceId)
  deriving DecidableEq, Repr

/-- All the objects, and the host they live on. -/
structure World where
  host : Host
  nodes : Table Node := {}
  bindings : Table Binding := {}
  files : Table OpenFile := {}
  instances : Table Instance := {}
  contexts : Table Context := {}
  /-- What callers own, as often as they own it. -/
  held : List Ref := []
  /-- The registered types, in the order of their registration. -/
  types : List FilesystemType := []
  /-- The devices that recorded being put back, each with the number of
  configurations that were live at that moment. -/
  puts : List (String × Nat) := []

/-- An operation that may fail. What it did before it failed stays done, so an
operation that fails has to undo its own work. -/
abbrev Action := EStateM Error World

namespace World

/-- A world with nothing mounted. -/
def fresh (clock : Clock) : World := { host := { clock } }

def note (w : World) (notice : Notice) : World := { w with host := w.host.note notice }

def modifyNode (w : World) (n : NodeId) (f : Node → Node) : World :=
  { w with nodes := w.nodes.modify n f }

def modifyBinding (w : World) (b : BindingId) (f : Binding → Binding) : World :=
  { w with bindings := w.bindings.modify b f }

def modifyFile (w : World) (f : FileId) (g : OpenFile → OpenFile) : World :=
  { w with files := w.files.modify f g }

def modifyInstance (w : World) (i : InstanceId) (f : Instance → Instance) : World :=
  { w with instances := w.instances.modify i f }

def modifyContext (w : World) (c : ContextId) (f : Context → Context) : World :=
  { w with contexts := w.contexts.modify c f }

/-- The node that a binding stands for. -/
def nodeOf (w : World) (b : BindingId) : Option NodeId :=
  (w.bindings.get? b).bind (·.node)

/-- The name of a binding. -/
def nameOf (w : World) (b : BindingId) : String :=
  ((w.bindings.get? b).map (·.name)).getD ""

/-- Is the node there, and is it a directory? -/
def isDirectory (w : World) (n : NodeId) : Bool :=
  (w.nodes.get? n).any (·.isDirectory)

/-- Does the binding stand for a directory? -/
def bindsDirectory (w : World) (b : BindingId) : Bool :=
  (w.nodeOf b).any w.isDirectory

/-- A reading of the clock at the granularity of the node's instance. A node whose
instance is gone has times as fine as the clock. -/
def now (w : World) (n : NodeId) : Timestamp × World :=
  let home := (w.nodes.get? n).bind fun node => w.instances.get? node.home
  let grain := (home.map (·.geometry.timeGrain)).getD 1
  let (time, host) := w.host.readClock
  (time.truncate grain, { w with host })

end World

namespace Action

/-- An operation that cannot fail. -/
def total {α : Type} (f : World → α × World) : Action α := fun w =>
  let (a, w) := f w
  .ok a w

/-- A dealing with the host alone. -/
def onHost {α : Type} (f : Host → α × Host) : Action α :=
  total fun w => let (a, host) := f w.host; (a, { w with host })

/-- The outcome of a test that changes nothing. -/
def test {α : Type} (f : World → Except Error α) : Action α := fun w =>
  match f w with
  | .ok a => .ok a w
  | .error e => .error e w

/-- The value, or the failure that there is none. -/
def require {α : Type} (cause : Error) (value : Option α) : Action α :=
  match value with
  | some a => pure a
  | none => throw cause

/-- A reading of the clock for a node. -/
def now (n : NodeId) : Action Timestamp := total (·.now n)

def note (notice : Notice) : Action Unit := modify (·.note notice)

end Action

end Memfs
