import Memfs.World.Settle

/-!
# Making nodes

A new node takes an inode number, an owner and the time of its making, all three
of its timestamps being equal. It belongs to the user and group of the caller, but
in a directory that passes its group on it takes the group of the directory, and a
new directory there passes the group on as well. The kind follows from the type
bits of the mode; a type that no node has is refused after the number was drawn
and the clock was read.
-/

namespace Memfs

namespace Node

/-- The attributes that a node of an instance begins with. A directory has a link
for itself besides the one for its name, and the target of a symlink needs no high
memory. -/
def make (ino : UInt64) (kind : NodeKind) (mode : Mode) (uid gid : UInt32) (now : Timestamp)
    (home : InstanceId) : Node where
  ino := ino
  kind := kind
  mode := mode
  uid := uid
  gid := gid
  atime := now
  mtime := now
  ctime := now
  links := if kind.isDirectory then 2 else 1
  content :=
    { flags := if kind = .symlink then .unevictable
        else MappingFlags.unevictable.union .highMemory }
  home := home

/-- The mode and the group of a new node: what is asked for and the caller's group,
unless the directory passes its own group on. -/
def inherit (dir : Option Node) (mode : Mode) (gid : UInt32) : Mode × UInt32 :=
  match dir with
  | some dir =>
    if dir.mode.passesGroup then
      (if mode.isDirectory then mode.addSetGroup else mode, dir.gid)
    else (mode, gid)
  | none => (mode, gid)

end Node

namespace Action

/-- Makes a node of the type that `mode` asks for. Nobody owns it yet. -/
def newNode (home : InstanceId) (dir : Option NodeId) (mode : Mode) (device : DeviceNumber) :
    Action NodeId := do
  unless ← onHost (·.acquire .node) do
    note (.noNode mode)
    throw .noSpace
  let ino ← onHost Host.drawIno
  let time ← onHost Host.readClock
  let w ← get
  let grain := ((w.instances.get? home).map (·.geometry.timeGrain)).getD 1
  let (full, gid) := Node.inherit (dir.bind w.nodes.get?) mode w.host.gid
  match NodeKind.ofMode mode device with
  | none =>
    note (.bogusMode mode ino)
    modify fun w => { w with host := w.host.release .node }
    throw .invalidArgument
  | some kind =>
    note (.newNode ino kind)
    let node := Node.make ino kind full w.host.uid gid (time.truncate grain) home
    modify fun w => { w with nodes := w.nodes.push node }
    return w.nodes.nextId

end Action

end Memfs
