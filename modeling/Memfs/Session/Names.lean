import Memfs.Session.Basic

/-!
# Steps on names and bindings

The naming operations, what can be seen of a binding, and the plain changes of the
tree that the naming operations are made of.
-/

namespace Memfs

namespace Step

def lookup (d name : String) (as : Option String) : Step Brief := do
  let b ← binding d
  named as (.test (·.lookup b name))

def create (d name : String) (mode : Mode) (as : Option String) : Step Brief := do
  named as (Action.create (← binding d) name mode)

def mkdir (d name : String) (mode : Mode) (as : Option String) : Step Brief := do
  named as (Action.mkdir (← binding d) name mode)

def mknod (d name : String) (mode : Mode) (device : DeviceNumber) (as : Option String) :
    Step Brief := do
  named as (Action.mknod (← binding d) name mode device)

def symlink (d name target : String) (as : Option String) : Step Brief := do
  named as (Action.symlink (← binding d) name target)

def link (old d name : String) (as : Option String) : Step Brief := do
  let old ← binding old
  let dir ← binding d
  named as (Action.link old dir name)

/-- Walks a path from a binding. Where the walk began is held until the step ends. -/
def resolve (d path : String) (follow : Bool) (as : Option String) : Step (Brief × String) := do
  let root ← binding d
  let b ← act (.test (·.resolve root path follow))
  let shown ← see fun w => (w.brief b, w.path b)
  change (·.hold (.binding b))
  keep as (.binding b)
  return shown

/-- The result of an operation that opens a file: its binding in short. The file is
closed again unless there is a name to keep it under. -/
def opened (as : Option String) (action : Action FileId) : Step Brief := do
  let f ← act action
  let file ← usable (← see (·.files.get? f))
  let shown ← brief file.binding
  letGo
  keep as (.file f)
  return shown

def openUnnamed (d : String) (mode : Mode) (flags : OpenFlags) (as : Option String) :
    Step Brief := do
  opened as (Action.openUnnamed (← binding d) mode flags)

def openFile (d : String) (flags : OpenFlags) (as : Option String) : Step Brief := do
  opened as (Action.openFile (← binding d) flags)

def unlink (d name : String) : Step Unit := do
  act (Action.unlink (← binding d) name)

def rmdir (d name : String) : Step Unit := do
  act (Action.rmdir (← binding d) name)

def rename (d name into new : String) (flags : RenameFlags) : Step Unit := do
  let dirA ← binding d
  let dirB ← binding into
  act (Action.rename dirA name dirB new flags)

def readlink (d : String) : Step String := do
  let b ← binding d
  act (.test (·.readlink b))

def readdir (d : String) : Step (List Entry) := do
  act (Action.readdir (← binding d))

/-- A binding at length. -/
def showBinding (d : String) : Step BindingReport := do
  let b ← binding d
  see (·.bindingReport b)

/-- Keeps the binding that a reference names. -/
def holdBinding (d : String) (as : Option String) : Step Brief := do
  let b ← binding d
  named as (pure b)

/-- Do two references name one binding? -/
def sameBinding (a b : String) : Step Bool := do
  return (← binding a) == (← binding b)

/-- Do two references name one node? -/
def sameNode (a b : String) : Step Bool := do
  return (← node a) == (← node b)

/-- Is the first binding the second or below it? -/
def isBelow (a b : String) : Step Bool := do
  let a ← binding a
  let b ← binding b
  see (·.isBelow a b)

/-- The tree that hangs from a binding. -/
def tree (d : String) : Step (List TreeLine) := do
  let b ← binding d
  see (·.treeReport b)

/-- Makes a negative binding, which only its handle owns. -/
def newBinding (d name : String) (as : Option String) : Step Brief := do
  named as (Action.newBinding (← binding d) name)

/-- Makes a root for a node, which only its handle owns. -/
def newRoot (i : String) (as : Option String) : Step Brief := do
  named as (Action.newRoot (← node i))

/-- Gives a binding a node. -/
def instantiate (d i : String) : Step Unit := do
  let b ← binding d
  let n ← node i
  change (·.instantiate b n)

def pin (d : String) : Step Unit := do
  let b ← binding d
  change (·.pin b)

def unpin (d : String) : Step Unit := do
  let b ← binding d
  change (·.unpin b)

def detach (d : String) : Step Unit := do
  let b ← binding d
  change (·.detach b)

def moveBinding (d into name : String) : Step Unit := do
  let b ← binding d
  let dir ← binding into
  change (·.moveBinding b dir name)

def exchangeBindings (a b : String) : Step Unit := do
  let a ← binding a
  let b ← binding b
  change (·.exchangeBindings a b)

def dissolve (d : String) : Step Unit := do
  let b ← binding d
  change (·.dissolve b)

def createAt (dir d : String) (mode : Mode) : Step Unit := do
  let n ← directory dir
  let b ← binding d
  act (Action.makeFileAt n b mode)

def mkdirAt (dir d : String) (mode : Mode) : Step Unit := do
  let n ← directory dir
  let b ← binding d
  act (Action.makeDirectoryAt n b mode)

def mknodAt (dir d : String) (mode : Mode) (device : DeviceNumber) : Step Unit := do
  let n ← directory dir
  let b ← binding d
  act (Action.makeAt n b mode device)

def symlinkAt (dir d target : String) : Step Unit := do
  let n ← directory dir
  let b ← binding d
  act (Action.makeSymlinkAt n b target)

def openUnnamedAt (dir f : String) (mode : Mode) : Step Unit := do
  let n ← directory dir
  let f ← file f
  act (Action.makeUnnamedAt n f mode)

def linkAt (dir old d : String) : Step Unit := do
  let n ← directory dir
  let old ← binding old
  let b ← binding d
  act (Action.linkAt old n b)

def unlinkAt (dir d : String) : Step Unit := do
  let n ← directory dir
  let b ← binding d
  act (Action.unlinkAt n b)

def rmdirAt (dir d : String) : Step Unit := do
  let n ← directory dir
  let b ← binding d
  act (Action.rmdirAt n b)

def renameAt (dir intoDir d into : String) (flags : RenameFlags) : Step Unit := do
  let nodeA ← directory dir
  let nodeB ← directory intoDir
  let a ← binding d
  let b ← binding into
  act (Action.renameAt nodeA a nodeB b flags)

end Step

end Memfs
