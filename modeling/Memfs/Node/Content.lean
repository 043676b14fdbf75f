import Memfs.World.Settle

/-!
# The content of nodes

Reading, writing and resizing the content of a node, with the timestamps that each
of them moves. An instance limits how long its files may grow; a node whose
instance is gone is limited by the range of offsets alone.

The target of a symlink is content too. It is stored with a zero byte after it,
which the length of the content leaves out.
-/

namespace Memfs

namespace World

/-- The greatest length that the content of a node may have. -/
def maxBytes (w : World) (node : Node) : Nat :=
  ((w.instances.get? node.home).map (·.geometry.maxBytes)).getD offsetLimit

end World

namespace Action

/-- The node, which its callers know to be there. -/
def node (n : NodeId) : Action Node := do
  require .invalidArgument ((← get).nodes.get? n)

/-- Stores bytes in the pages of a node and changes nothing else of it. -/
def storeBytes (n : NodeId) (offset : Nat) (src : Bytes) : Action Unit := do
  let node ← node n
  match ← onHost (node.content.write · offset src) with
  | .error e => throw e
  | .ok content => modify (·.modifyNode n ({ · with content }))

/-- Reads up to `len` bytes at `offset`. Reading is an access, even of nothing. -/
def readContent (n : NodeId) (offset len : Nat) : Action Bytes := do
  let bytes := (← node n).content.read offset len
  let time ← now n
  modify (·.modifyNode n (·.accessed time))
  return bytes

/-- Writes bytes at `offset`, within the limits of the instance. -/
def writeContent (n : NodeId) (offset : Nat) (src : Bytes) : Action Nat := do
  let node ← node n
  if offsetLimit < offset + src.size then throw .fileTooLarge
  if (← get).maxBytes node < offset + src.size then throw .fileTooLarge
  storeBytes n offset src
  let time ← now n
  modify (·.modifyNode n (·.written time))
  return src.size

/-- Cuts or extends the content to `size` bytes, within the limits of the instance. -/
def resizeContent (n : NodeId) (size : Nat) : Action Unit := do
  let node ← node n
  if (← get).maxBytes node < size then throw .fileTooLarge
  let content ← onHost (node.content.resize · size)
  modify (·.modifyNode n ({ · with content }))
  let time ← now n
  modify (·.modifyNode n (·.written time))

/-- Stores the target of a symlink, given with its closing zero. -/
def storeTarget (n : NodeId) (closed : Bytes) : Action Unit := do
  if closed.isEmpty then throw .invalidArgument
  storeBytes n 0 closed
  modify (·.modifyNode n fun node => { node with content := node.content.setSize (closed.size - 1) })

end Action

namespace World

/-- The target of a symlink. Content that is no text has none. -/
def target (w : World) (n : NodeId) : Except Error String :=
  match w.nodes.get? n with
  | none => .error .invalidArgument
  | some node =>
    match String.fromUTF8? ⟨node.content.read 0 node.size⟩ with
    | some text => .ok text
    | none => .error .invalidArgument

end World

end Memfs
