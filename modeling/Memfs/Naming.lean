import Memfs.Directory
import Memfs.Walk

/-!
# Naming

Making, removing and moving names, with all the checks that stand before it. The
checks come first and change nothing. Where an operation needs a fresh binding it
takes it after them, and lets go of it when the rest fails; where it removes one it
lets go of it at its end, which is when a node without names and without open
files goes.
-/

namespace Memfs

/-- A name that a binding may bear: neither empty nor `.` nor `..`, without a slash
and without a zero character, and not too long. -/
def checkName (name : String) : Except Error Unit :=
  if name = "" ∨ name = "." ∨ name = ".." then .error .invalidArgument
  else if name.toList.contains '/' || name.toList.contains '\x00' then .error .invalidArgument
  else if nameLimit < name.utf8ByteSize then .error .nameTooLong
  else .ok ()

/-- A line of a directory's listing. -/
structure Entry where
  ino : UInt64
  name : String
  type : Nat
  deriving DecidableEq, Repr

namespace Action

/-- The directory node behind a binding. -/
def directoryOf (b : BindingId) : Action NodeId := do
  let n ← boundNode b
  if (← get).isDirectory n then return n else throw .notADirectory

/-- A negative binding for a name that is free. -/
def freshBinding (dir : BindingId) (name : String) : Action BindingId := do
  if ((← get).child? dir name).isSome then throw .alreadyExists
  newBinding dir name

/-- The binding of a name that is taken. -/
def takenBinding (dir : BindingId) (name : String) : Action BindingId := do
  require .notFound ((← get).child? dir name)

/-- Makes a name by `make`, which is given the directory node and the fresh
binding. -/
def makeName (dir : BindingId) (n : NodeId) (name : String)
    (make : NodeId → BindingId → Action Unit) : Action BindingId := do
  let b ← freshBinding dir name
  (make n b).orLetGo (.binding b)
  return b

/-- Makes a regular file. -/
def create (dir : BindingId) (name : String) (mode : Mode) : Action BindingId := do
  test fun _ => checkName name
  let n ← directoryOf dir
  makeName dir n name (makeFileAt · · mode)

/-- Makes a directory. -/
def mkdir (dir : BindingId) (name : String) (mode : Mode) : Action BindingId := do
  test fun _ => checkName name
  let n ← directoryOf dir
  makeName dir n name (makeDirectoryAt · · mode)

/-- Makes a node of any type but a directory or a symlink. A mode without a type
asks for a regular file. -/
def mknod (dir : BindingId) (name : String) (mode : Mode) (device : DeviceNumber) :
    Action BindingId := do
  test fun _ => checkName name
  let n ← directoryOf dir
  if mode.fileType = 0 ∨ mode.isRegular then
    makeName dir n name (makeFileAt · · mode)
  else if (SpecialKind.ofMode mode).isSome then
    makeName dir n name (makeAt · · mode device)
  else if mode.isDirectory then throw .notPermitted
  else throw .invalidArgument

/-- Makes a symlink. -/
def symlink (dir : BindingId) (name target : String) : Action BindingId := do
  test fun _ => checkName name
  if target.toList.contains '\x00' then throw .invalidArgument
  let n ← directoryOf dir
  makeName dir n name (makeSymlinkAt · · target)

/-- Gives the node of `old` another name. A node without names may be given one only
if it is linkable. -/
def link (old dir : BindingId) (name : String) : Action BindingId := do
  test fun _ => checkName name
  let target ← boundNode old
  if (← get).isDirectory target then throw .notPermitted
  let n ← directoryOf dir
  if (← homeOf target) ≠ (← homeOf n) then throw .notPermitted
  let node ← node target
  if node.links = 0 && !node.linkable then throw .notFound
  makeName dir n name (linkAt old · ·)

/-- Removes the name of anything but a directory. -/
def unlink (dir : BindingId) (name : String) : Action Unit := do
  test fun _ => checkName name
  let n ← directoryOf dir
  let b ← takenBinding dir name
  if (← get).bindsDirectory b then throw .isADirectory
  unlinkAt n b
  letGo (.binding b)

/-- Removes the name of an empty directory. -/
def rmdir (dir : BindingId) (name : String) : Action Unit := do
  if name = "." then throw .invalidArgument
  if name = ".." then throw .notEmpty
  test fun _ => checkName name
  let n ← directoryOf dir
  let b ← takenBinding dir name
  unless (← get).bindsDirectory b do throw .notADirectory
  rmdirAt n b
  letGo (.binding b)

/-- Lets two names change places, of which neither may lie below the other. -/
def exchangeNames (dirA : BindingId) (nodeA : NodeId) (a : BindingId)
    (dirB : BindingId) (nodeB : NodeId) (b : BindingId) (flags : RenameFlags) :
    Action Unit := do
  let w ← get
  if w.isBelow dirB a || w.isBelow dirA b then throw .invalidArgument
  renameAt nodeA a nodeB b flags
  modify (·.exchangeBindings a b)

/-- Moves a binding to a name, replacing what has the name. A directory replaces a
directory only, and what is no directory no directory; a directory cannot move
below itself. -/
def moveName (nodeA : NodeId) (a : BindingId) (source : NodeId)
    (dirB : BindingId) (nodeB : NodeId) (name : String) (target : Option BindingId)
    (flags : RenameFlags) : Action Unit := do
  let w ← get
  if w.isDirectory source && w.isBelow dirB a then throw .invalidArgument
  let b ← match target with
    | some b => do
      if flags.has .keepTarget then throw .alreadyExists
      if w.isDirectory source && !w.bindsDirectory b then throw .notADirectory
      if !w.isDirectory source && w.bindsDirectory b then throw .isADirectory
      pure b
    | none => newBinding dirB name
  (renameAt nodeA a nodeB b flags).orLetGo (.binding b)
  modify fun w => (w.moveBinding a dirB name).settle [.letGo (.binding b)]

/-- Moves a name, or lets two names change places. Two names of one node need no
move, and none is made. -/
def rename (dirA : BindingId) (nameA : String) (dirB : BindingId) (nameB : String)
    (flags : RenameFlags) : Action Unit := do
  test fun _ => checkName nameA
  test fun _ => checkName nameB
  if flags.has .keepTarget && flags.has .exchange then throw .invalidArgument
  let nodeA ← directoryOf dirA
  let nodeB ← directoryOf dirB
  if (← homeOf nodeA) ≠ (← homeOf nodeB) then throw .notPermitted
  let a ← takenBinding dirA nameA
  let target := (← get).child? dirB nameB
  let source ← boundNode a
  let w ← get
  if target.any fun b => b = a || w.nodeOf b = some source then return
  if flags.has .exchange then
    exchangeNames dirA nodeA a dirB nodeB (← require .notFound target) flags
  else moveName nodeA a source dirB nodeB nameB target flags

/-- The listing of a directory: itself, its parent, then the names in it in their
order. Reading a listing is an access. -/
def readdir (dir : BindingId) : Action (List Entry) := do
  let n ← boundNode dir
  let own ← node n
  if !own.isDirectory then throw .notADirectory
  let w ← get
  let parent := (((w.parentOf dir).bind w.nodeOf).bind w.nodes.get?).getD own
  let entries := (w.below dir).filterMap fun child =>
    ((w.nodeOf child).bind w.nodes.get?).map fun node =>
      { ino := node.ino, name := w.nameOf child, type := node.mode.entryType : Entry }
  let directory := Mode.entryType ⟨Mode.directoryType⟩
  let time ← now n
  modify (·.modifyNode n (·.accessed time))
  return ⟨own.ino, ".", directory⟩ :: ⟨parent.ino, "..", directory⟩ :: entries

end Action

end Memfs
