import Memfs.Node.Content
import Memfs.Node.Make
import Memfs.Tree

/-!
# Operations of directory nodes

What a directory node does when a name in it is made, removed or moved: it keeps
the counts of links, the pins and the timestamps. A binding is pinned while it is
in place, a directory has a link from each directory in it, and a change of names
is a change of the directory's content.

The operations take the binding that they are about, and trust their caller that
it fits: that it is negative where a node is to be made, and that the name it
bears is free or is its own. They change nothing but counts and timestamps where a
binding is to be moved; whoever calls them moves it.
-/

namespace Memfs

namespace World

/-- Takes a link off a node. A node without links keeps none. -/
def dropLink (w : World) (n : NodeId) : World :=
  match w.nodes.get? n with
  | none => w
  | some node =>
    let w := if node.links = 0 then w.note (.noLinkToDrop node.ino) else w
    w.modifyNode n (·.dropLink)

/-- Adds a link to a node. -/
def addLink (w : World) (n : NodeId) : World := w.modifyNode n (·.addLink)

end World

namespace Action

/-- The instance that a node was made for, while it is there. -/
def homeOf (n : NodeId) : Action InstanceId := do
  let node ← node n
  if (← get).instances.has node.home then return node.home else throw .noDevice

/-- The node that a binding stands for. -/
def boundNode (b : BindingId) : Action NodeId := do
  require .notFound ((← get).nodeOf b)

/-- Gives a new node its binding: the binding enters the directory and is pinned,
and the directory has changed. -/
def place (dir : NodeId) (b : BindingId) (n : NodeId) : Action Unit := do
  modify fun w => (w.instantiate b n).pin b
  let time ← now dir
  modify (·.modifyNode dir (·.written time))

/-- Makes a node under a binding. -/
def makeAt (dir : NodeId) (b : BindingId) (mode : Mode) (device : DeviceNumber) :
    Action Unit := do
  let home ← homeOf dir
  let n ← newNode home (some dir) mode device
  place dir b n

/-- Makes a regular file under a binding. -/
def makeFileAt (dir : NodeId) (b : BindingId) (mode : Mode) : Action Unit :=
  makeAt dir b (mode.withType Mode.regularType) .none

/-- Makes a directory under a binding. The directory that it is in has a link from
it. -/
def makeDirectoryAt (dir : NodeId) (b : BindingId) (mode : Mode) : Action Unit := do
  makeAt dir b (mode.withType Mode.directoryType) .none
  modify (·.addLink dir)

/-- The mode of every symlink. -/
def symlinkMode : Mode := ⟨Mode.symlinkType ||| 0o777⟩

/-- Makes a symlink under a binding. When its target cannot be stored the node goes
again. -/
def makeSymlinkAt (dir : NodeId) (b : BindingId) (target : String) : Action Unit := do
  let home ← homeOf dir
  let n ← newNode home (some dir) symlinkMode .none
  (storeTarget n (target.toUTF8.data.push 0)).onFailure fun e w =>
    (w.note (.symlinkFailed (w.nameOf b) e)).settle [.letGo (.node n)]
  place dir b n

/-- Makes a node without a name and opens the file on it. The file's binding shows
the inode number in place of a name and is in no directory. -/
def makeUnnamedAt (dir : NodeId) (file : FileId) (mode : Mode) : Action Unit := do
  let home ← homeOf dir
  let n ← newNode home (some dir) mode .none
  modify (·.dropLink n)
  let ino := (← node n).ino
  let opened ← require .invalidArgument ((← get).files.get? file)
  let before := (← get).nodeOf opened.binding
  modify fun w =>
    let w := w.modifyBinding opened.binding fun binding =>
      { binding with name := "#" ++ toString ino.toNat, node := some n }
    let w := w.settle (before.toList.map fun n => .letGo (.node n))
    let w := w.modifyFile file fun file => { file with node := some n }
    w.settle (opened.node.toList.map fun n => .letGo (.node n))

/-- Gives the node of `old` another binding. -/
def linkAt (old : BindingId) (dir : NodeId) (b : BindingId) : Action Unit := do
  let n ← boundNode old
  let time ← now dir
  modify fun w =>
    let w := (w.modifyNode n (·.changed time)).modifyNode dir (·.written time)
    ((w.addLink n).instantiate b n).pin b

/-- Takes a binding out of a directory. Its node has one link less. The binding
still stands for the node; who removes it lets go of it. -/
def unlinkAt (dir : NodeId) (b : BindingId) : Action Unit := do
  let n ← boundNode b
  let time ← now dir
  modify fun w =>
    let w := (w.modifyNode n (·.changed time)).modifyNode dir (·.written time)
    ((w.dropLink n).detach b).unpin b

/-- Takes the binding of an empty directory out of a directory. Both links of the
removed directory go, and the link that it gave to the directory it was in. -/
def rmdirAt (dir : NodeId) (b : BindingId) : Action Unit := do
  if (← get).hasChildren b then throw .notEmpty
  let n ← boundNode b
  modify (·.dropLink n)
  unlinkAt dir b
  modify (·.dropLink dir)

/-- Stamps all that a rename changes with one reading of the clock: the content of
both directories and the two nodes. -/
def stampRename (dirA : NodeId) (a : BindingId) (dirB : NodeId) (b : BindingId) :
    Action Unit := do
  let time ← now dirA
  modify fun w =>
    let w := (w.modifyNode dirA (·.written time)).modifyNode dirB (·.written time)
    let w := (w.nodeOf a).elim w (w.modifyNode · (·.changed time))
    (w.nodeOf b).elim w (w.modifyNode · (·.changed time))

/-- Prepares two bindings to change places. If one of them is a directory, the link
that it gives moves to the other directory. -/
def exchangeAt (dirA : NodeId) (a : BindingId) (dirB : NodeId) (b : BindingId) :
    Action Unit := do
  let nodeA ← boundNode a
  let nodeB ← boundNode b
  let w ← get
  if dirA ≠ dirB ∧ w.isDirectory nodeA ≠ w.isDirectory nodeB then
    if w.isDirectory nodeA then modify fun w => (w.dropLink dirA).addLink dirB
    else modify fun w => (w.dropLink dirB).addLink dirA
  stampRename dirA a dirB b

/-- Prepares binding `a` to take the place of `b`, which is negative or is removed
here. A directory replaces an empty directory only, which then loses both its
links. -/
def replaceAt (dirA : NodeId) (a : BindingId) (dirB : NodeId) (b : BindingId) :
    Action Unit := do
  let source ← boundNode a
  let w ← get
  let isDir := w.isDirectory source
  match w.nodeOf b with
  | some target =>
    if w.hasChildren b then throw .notEmpty
    if isDir then modify fun w => (w.dropLink target).dropLink dirA
    unlinkAt dirB b
  | none =>
    if isDir then modify fun w => (w.dropLink dirA).addLink dirB
  stampRename dirA a dirB b

/-- Prepares the move of a binding onto another, in one of the two ways. -/
def renameAt (dirA : NodeId) (a : BindingId) (dirB : NodeId) (b : BindingId)
    (flags : RenameFlags) : Action Unit := do
  if flags.hasUnknown then throw .invalidArgument
  if flags.has .exchange then exchangeAt dirA a dirB b else replaceAt dirA a dirB b

end Action

end Memfs
