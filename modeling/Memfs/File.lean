import Memfs.Naming

/-!
# Open files

A file is a handle on a node with a position of its own. It owns the binding that
it was opened through and the node, so it outlives the name. What may be done
through it was settled when it was opened.
-/

namespace Memfs

namespace Action

/-- Enters a file into the table of open files. -/
def enterFile (file : OpenFile) : Action FileId :=
  total fun w => (w.files.nextId, { w with files := w.files.push file })

/-- Ends a file. It lets go of its binding, then of its node. -/
def closeFile (f : FileId) : Action Unit := modify fun w =>
  match w.files.get? f with
  | none => w
  | some file =>
    { w with files := w.files.erase f }.settle
      (.letGo (.binding file.binding) :: file.node.toList.map fun n => .letGo (.node n))

/-- Opens the node behind a binding. A directory cannot be opened for a change, and
cutting a regular file needs the right to write to it. -/
def openFile (b : BindingId) (flags : OpenFlags) : Action FileId := do
  let n ← boundNode b
  let node ← node n
  match node.kind with
  | .directory => if flags.meets .changing then throw .isADirectory
  | .regular =>
    if flags.has .truncating then
      unless flags.has .writing do throw .notPermitted
      resizeContent n 0
  | _ => pure ()
  enterFile { binding := b, node := some n, flags }

/-- Makes a regular file without a name and opens it. Unless the flags forbid it,
the node may be given a name later. -/
def openUnnamed (dir : BindingId) (mode : Mode) (flags : OpenFlags) : Action FileId := do
  let n ← directoryOf dir
  unless flags.has .writing do throw .invalidArgument
  let b ← newBinding dir ""
  let f ← enterFile { binding := b, node := none, flags := flags.union .temporary }
  (makeUnnamedAt n f (mode.withType Mode.regularType)).onFailure fun _ w =>
    { w with files := w.files.erase f }.settle [.letGo (.binding b)]
  unless flags.has .exclusive do
    let opened ← boundNode b
    modify (·.modifyNode opened ({ · with linkable := true }))
  return f

/-- The file, which its callers know to be there. -/
def file (f : FileId) : Action OpenFile := do
  require .invalidArgument ((← get).files.get? f)

/-- The node of an open file. -/
def fileNode (f : FileId) : Action NodeId := do
  require .invalidArgument (← file f).node

/-- The node of a file that was opened with `right`, if it has content to work on. -/
def contentNode (f : FileId) (right : OpenFlags) : Action NodeId := do
  unless (← file f).flags.has right do throw .notPermitted
  let n ← fileNode f
  match (← node n).kind with
  | .regular => return n
  | .directory => throw .isADirectory
  | _ => throw .invalidArgument

/-- Reads at an offset. The position stays. -/
def readAt (f : FileId) (offset len : Nat) : Action Bytes := do
  readContent (← contentNode f .reading) offset len

/-- Writes at an offset. The position stays. -/
def writeAt (f : FileId) (offset : Nat) (src : Bytes) : Action Nat := do
  writeContent (← contentNode f .writing) offset src

/-- Moves the position of a file. -/
def seek (f : FileId) (position : Nat) : Action Unit :=
  modify (·.modifyFile f ({ · with position }))

/-- Reads at the position and moves it behind what was read. -/
def read (f : FileId) (len : Nat) : Action Bytes := do
  let position := (← file f).position
  let bytes ← readAt f position len
  seek f (position + bytes.size)
  return bytes

/-- Writes at the position, or at the end of the content where the file appends, and
moves the position behind what was written. -/
def write (f : FileId) (src : Bytes) : Action Nat := do
  let opened ← file f
  let offset ←
    if opened.flags.has .appending then pure (← node (← fileNode f)).size
    else pure opened.position
  let written ← writeAt f offset src
  seek f (offset + written)
  return written

/-- Cuts or extends the content. -/
def setLength (f : FileId) (size : Nat) : Action Unit := do
  resizeContent (← contentNode f .writing) size

/-- Waits until the content is safe, which in memory it always is. -/
def sync (f : FileId) : Action Unit := do
  let _ ← fileNode f

end Action

end Memfs
