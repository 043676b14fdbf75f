import Memfs.Session.Basic

/-!
# Steps on nodes and open files

Attributes and content of a node, and reading and writing through a file.
-/

namespace Memfs

/-- A node at length, beyond its attributes. -/
structure NodeReport where
  kind : NodeKind
  linkable : Bool
  links : UInt32
  uid : UInt32
  gid : UInt32
  size : Nat
  flags : MappingFlags
  /-- The pages held. -/
  pages : Nat
  /-- Is the node's instance still there? -/
  hasHome : Bool
  deriving DecidableEq, Repr

/-- An open file at length. -/
structure FileReport where
  position : Nat
  flags : OpenFlags
  name : String
  path : String
  /-- The inode number and the size of the node, once the file is open. -/
  node : Option (UInt64 × Nat)
  deriving DecidableEq, Repr

/-- A timestamp of a node, or the two that a change of content moves. -/
inductive Stamp where
  | access
  | change
  | content
  deriving DecidableEq, Repr

namespace Node

/-- The node with a timestamp set. -/
def stamp (node : Node) (time : Timestamp) : Stamp → Node
  | .access => node.accessed time
  | .change => node.changed time
  | .content => node.written time

end Node

namespace World

def nodeReport (w : World) (node : Node) : NodeReport where
  kind := node.kind
  linkable := node.linkable
  links := node.links
  uid := node.uid
  gid := node.gid
  size := node.size
  flags := node.content.flags
  pages := node.content.held
  hasHome := w.instances.has node.home

def fileReport (w : World) (file : OpenFile) : FileReport where
  position := file.position
  flags := file.flags
  name := w.nameOf file.binding
  path := w.path file.binding
  node := (file.node.bind w.nodes.get?).map fun node => (node.ino, node.size)

end World

namespace Step

/-- Makes a node that no binding stands for. -/
def newNode (mounted : String) (dir : Option String) (mode : Mode) (device : DeviceNumber)
    (as : Option String) : Step UInt64 := do
  let i ← inst mounted
  let dir ← dir.mapM node
  let n ← act (Action.newNode i dir mode device)
  let made ← act (Action.node n)
  keepNode as n
  return made.ino

/-- Keeps the node of a binding. -/
def holdNode (d : String) (as : Option String) : Step UInt64 := do
  let b ← binding d
  let n ← act (Action.boundNode b)
  let shown ← act (Action.node n)
  keepNode as n
  return shown.ino

def attributes (i : String) : Step Attributes := do
  let n ← act (Action.node (← node i))
  see (·.attributes n)

/-- A node at length. -/
def showNode (i : String) : Step NodeReport := do
  let n ← act (Action.node (← node i))
  see (·.nodeReport n)

/-- Changes a node. -/
def changeNode (i : String) (f : Node → Node) : Step Unit := do
  let n ← node i
  change (·.modifyNode n f)

def addLink (i : String) : Step Unit := do
  let n ← node i
  change (·.addLink n)

def dropLink (i : String) : Step Unit := do
  let n ← node i
  change (·.dropLink n)

def setLinks (i : String) (links : UInt32) : Step Unit := changeNode i ({ · with links })

/-- Sets state bits. The lowest one says that the node is linkable. -/
def setState (i : String) (bits : UInt32) : Step Unit :=
  changeNode i fun node => { node with linkable := node.linkable || bits &&& 1 != 0 }

/-- Clears state bits. -/
def clearState (i : String) (bits : UInt32) : Step Unit :=
  changeNode i fun node => { node with linkable := node.linkable && bits &&& 1 == 0 }

def setTime (i : String) (stamp : Stamp) (time : Timestamp) : Step Unit :=
  changeNode i (·.stamp time stamp)

/-- A reading of the clock for a node. -/
def nodeTime (i : String) : Step Timestamp := do
  act (Action.now (← node i))

/-- Writes to the pages of a node without regard to its kind and its instance. -/
def storeBytes (i : String) (offset : Nat) (src : Bytes) : Step Nat := do
  let n ← node i
  act (Action.storeBytes n offset src)
  return src.size

/-- Reads the pages of a node without an access. -/
def peekBytes (i : String) (offset len : Nat) : Step Bytes := do
  let n ← act (Action.node (← node i))
  return n.content.read offset len

/-- Sets the length of the content without touching a page. -/
def setSize (i : String) (size : Nat) : Step Unit :=
  changeNode i fun node => { node with content := node.content.setSize size }

def resizeContent (i : String) (size : Nat) : Step Unit := do
  act (Action.resizeContent (← node i) size)

/-- Stores the target of a symlink, given with its closing byte. -/
def storeTarget (i : String) (closed : Bytes) : Step Unit := do
  act (Action.storeTarget (← node i) closed)

/-- The content of a node as the target of a symlink. -/
def target (i : String) : Step String := do
  let n ← node i
  act (.test (·.target n))

def read (f : String) (len : Nat) : Step Bytes := do
  act (Action.read (← file f) len)

def readAt (f : String) (offset len : Nat) : Step Bytes := do
  act (Action.readAt (← file f) offset len)

def write (f : String) (src : Bytes) : Step Nat := do
  act (Action.write (← file f) src)

def writeAt (f : String) (offset : Nat) (src : Bytes) : Step Nat := do
  act (Action.writeAt (← file f) offset src)

def seek (f : String) (position : Nat) : Step Unit := do
  act (Action.seek (← file f) position)

def setLength (f : String) (size : Nat) : Step Unit := do
  act (Action.setLength (← file f) size)

def sync (f : String) : Step Unit := do
  act (Action.sync (← file f))

/-- An open file at length. -/
def showFile (f : String) : Step FileReport := do
  let opened ← act (Action.file (← file f))
  see (·.fileReport opened)

/-- What a handle keeps, in diagnostic text. -/
def describe (h : String) : Step String := do
  let w := (← get).world
  usable <| match ← handle? h with
    | none => none
    | some (.file f) => (w.files.get? f).map w.describeFile
    | some (.binding b) => some (w.describeBinding b)
    | some (.node n) => (w.nodes.get? n).map (·.describe)
    | some (.charge kind) => some kind.describeCharge
    | some (.context c) => (w.contexts.get? c).map (·.describe)
    | some (.inst i) => (w.instances.get? i).map (·.describe)

end Step

end Memfs
