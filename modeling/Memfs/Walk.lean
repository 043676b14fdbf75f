import Memfs.Node.Content
import Memfs.Tree

/-!
# Finding names

A path is walked name by name from a root. Empty names and `.` are passed over,
`..` goes to the parent but never above the root, and a symlink on the way is
replaced by its target: the names of the target are walked first, from the root
if the target begins with a slash and else from the directory that the symlink is
in. The symlink that a path ends in is followed on demand.

Symlinks may lead to each other for ever, so a walk follows forty of them at most.
The walk recurses on the symlinks it may still follow, and between two of them on
the names it has yet to walk.
-/

namespace Memfs

/-- The greatest length of a path in bytes. -/
def pathLimit : Nat := 4096

/-- How many symlinks one walk may follow. -/
def hopLimit : Nat := 40

/-- The names that a path leads through. -/
def pathNames (path : String) : List String :=
  (Text.segments '/' path).filter (· != ".")

/-- A path that can be walked: it is not too long and has no zero character. -/
def checkPath (path : String) : Except Error Unit :=
  if pathLimit < path.utf8ByteSize then .error .nameTooLong
  else if path.toList.contains '\x00' then .error .invalidArgument
  else .ok ()

namespace World

/-- The binding of a name in a directory, where `.` is the directory itself and
`..` its parent. What has no parent is its own. -/
def lookup (w : World) (dir : BindingId) (name : String) : Except Error BindingId :=
  match w.nodeOf dir with
  | none => .error .notFound
  | some n =>
    if !w.isDirectory n then .error .notADirectory
    else if name = "." then .ok dir
    else if name = ".." then .ok ((w.parentOf dir).getD dir)
    else if nameLimit < name.utf8ByteSize then .error .nameTooLong
    else match w.child? dir name with
      | some b => .ok b
      | none => .error .notFound

/-- Does the binding stand for a symlink? -/
def bindsSymlink (w : World) (b : BindingId) : Bool :=
  ((w.nodeOf b).bind w.nodes.get?).any (·.mode.isSymlink)

/-- The target of the symlink that a binding stands for. -/
def readlink (w : World) (b : BindingId) : Except Error String :=
  match w.nodeOf b with
  | none => .error .notFound
  | some n => if w.bindsSymlink b then w.target n else .error .invalidArgument

/-- Where the walk of a path begins, `cur` being where the path stands. -/
def pathStart (root cur : BindingId) (path : String) : BindingId :=
  if path.toList.head? = some '/' then root else cur

/-- One name of a walk. The root is its own parent. -/
def step (w : World) (root cur : BindingId) (name : String) : Except Error BindingId :=
  if name = ".." ∧ cur = root then .ok root else w.lookup cur name

/-- Walks names up to a symlink that is to be followed, and goes on from there by
`follow`, which is given the directory that the symlink is in, the symlink and the
names after it. -/
def walkNames (w : World) (root : BindingId) (followLast : Bool)
    (follow : BindingId → BindingId → List String → Except Error BindingId) :
    BindingId → List String → Except Error BindingId
  | cur, [] => .ok cur
  | cur, name :: rest => do
    let next ← w.step root cur name
    if w.bindsSymlink next && (followLast || !rest.isEmpty) then follow cur next rest
    else w.walkNames root followLast follow next rest

/-- Walks names, following as many symlinks as `hops` says. -/
def walk (w : World) (root : BindingId) (followLast : Bool) :
    (hops : Nat) → BindingId → List String → Except Error BindingId
  | 0 => w.walkNames root followLast fun _ _ _ => .error .invalidArgument
  | hops + 1 => w.walkNames root followLast fun cur link rest => do
    let target ← w.readlink link
    checkPath target
    w.walk root followLast hops (pathStart root cur target) (pathNames target ++ rest)

/-- Walks a path from a root, which absolute paths and relative ones start from
alike. -/
def resolve (w : World) (root : BindingId) (path : String) (followLast : Bool) :
    Except Error BindingId := do
  checkPath path
  w.walk root followLast hopLimit root (pathNames path)

end World

end Memfs
