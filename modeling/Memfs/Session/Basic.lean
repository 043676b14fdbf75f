import Memfs.Report

/-!
# Sessions

A session is a caller with a memory: it works on one world and keeps what it owns
under names. Handles name open files, bindings, nodes, charges, contexts and
instances. A step of a session refers to objects by these names or by paths, holds
what it refers to until it has its result, and may keep the result under a name. What
had the name before is let go of then, and goes last.
-/

namespace Memfs

/-- What a session keeps under a name. -/
inductive Handle where
  | file (f : FileId)
  | binding (b : BindingId)
  | node (n : NodeId)
  /-- An allocation that the session charged to the host itself. -/
  | charge (kind : Resource)
  | context (c : ContextId)
  | inst (i : InstanceId)
  deriving DecidableEq, Repr

namespace Handle

/-- The order in which the sorts of handles are dropped together. -/
def rank : Handle → Nat
  | file _ => 0
  | binding _ => 1
  | node _ => 2
  | charge _ => 3
  | context _ => 4
  | inst _ => 5

end Handle

/-- A caller and the world it works on. -/
structure Session where
  world : World
  handles : Std.TreeMap String Handle := ∅
  /-- What the current step holds, the latest first. -/
  borrowed : List Ref := []

/-- The session without what the current step holds. The latest goes first. -/
def Session.letGo (s : Session) : Session :=
  { s with world := s.borrowed.foldl (·.drop ·) s.world, borrowed := [] }

/-- Why a step has no result. -/
inductive Fault where
  /-- A reference names nothing that the step could use. -/
  | unusable
  | failed (cause : Error)
  deriving DecidableEq, Repr

/-- A step of a session. -/
abbrev Step := EStateM Fault Session

namespace Step

variable {α : Type}

/-- An operation on the world. -/
def act (action : Action α) : Step α := fun s =>
  match action s.world with
  | .ok a world => .ok a { s with world }
  | .error e world => .error (.failed e) { s with world }

/-- A change of the world that cannot fail. -/
def change (f : World → World) : Step Unit := modify fun s => { s with world := f s.world }

/-- What is seen of the world. -/
def see (f : World → α) : Step α := fun s => .ok (f s.world) s

/-- The value, or the fault that a reference cannot be used. -/
def usable (value : Option α) : Step α :=
  match value with
  | some a => pure a
  | none => throw .unusable

/-- Holds an object until the step has its result or ends. -/
def borrow (ref : Ref) : Step Unit :=
  modify fun s => { s with world := s.world.hold ref, borrowed := ref :: s.borrowed }

/-- Lets go of what the step holds. -/
def letGo : Step Unit := modify Session.letGo

/-- The handle of a name. -/
def handle? (name : String) : Step (Option Handle) := fun s => .ok s.handles[name]? s

/-- Lets go of what a handle kept. -/
def release : Handle → Step Unit
  | .file f => act (Action.closeFile f)
  | .binding b => change (·.drop (.binding b))
  | .node n => change (·.drop (.node n))
  | .charge kind => change fun w => { w with host := w.host.release kind }
  | .context c => change (·.dropContext c)
  | .inst i => change (·.drop (.inst i))

/-- Keeps what the session owns under a name, in place of what was there. -/
def store (name : String) (handle : Handle) : Step Unit := do
  let before ← handle? name
  modify fun s => { s with handles := s.handles.insert name handle }
  before.forM release

/-- Keeps what the session owns under a name if there is one, and lets go of it
otherwise. -/
def keep (name : Option String) (handle : Handle) : Step Unit :=
  match name with
  | some name => store name handle
  | none => release handle

/-- Keeps a binding, the result of the step, under a name if there is one. -/
def keepBinding (name : Option String) (b : BindingId) : Step Unit := do
  change (·.hold (.binding b))
  letGo
  keep name (.binding b)

/-- Keeps a node, the result of the step, under a name if there is one. -/
def keepNode (name : Option String) (n : NodeId) : Step Unit := do
  change (·.hold (.node n))
  letGo
  keep name (.node n)

/-- Drops a handle. -/
def drop (name : String) : Step Unit := do
  let handle ← usable (← handle? name)
  modify fun s => { s with handles := s.handles.erase name }
  release handle

/-- Drops all handles: files, then bindings, nodes, charges, contexts and instances,
those of one sort in the order of their names. -/
def dropAll : Step Unit := do
  let all := (← get).handles.toList.map (·.2)
  modify fun s => { s with handles := ∅ }
  (List.range 6).forM fun rank => (all.filter (·.rank = rank)).forM release

/-- The open file of a handle. -/
def file (name : String) : Step FileId := do
  match ← handle? name with
  | some (.file f) => return f
  | _ => throw .unusable

/-- The context of a handle. -/
def context (name : String) : Step ContextId := do
  match ← handle? name with
  | some (.context c) => return c
  | _ => throw .unusable

/-- The instance of a handle. -/
def inst (name : String) : Step InstanceId := do
  match ← handle? name with
  | some (.inst i) => return i
  | _ => throw .unusable

/-- The handle that a path without a name before it starts from. -/
def defaultInstance : String := "s"

/-- The handle and the path that a reference with a slash is made of. Before the first
slash stands nothing, or the name of a handle with a colon after it. -/
def splitReference (ref : String) : Option (String × String) := do
  let (front, rest) ← Text.cut '/' ref
  let path := "/" ++ rest
  if front = "" then
    return (defaultInstance, path)
  else if front.toList.getLast? = some ':' then
    return (String.ofList front.toList.dropLast, path)
  else
    none

example : splitReference "/a/b" = some ("s", "/a/b") := by decide +kernel
example : splitReference "p:q:/a" = some ("p:q", "/a") := by decide +kernel
example : splitReference ":/" = some ("", "/") := by decide +kernel
example : splitReference "p/a" = none := by decide +kernel
example : splitReference "p:" = none := by decide +kernel

/-- The binding that a reference names: the binding of a handle or of an open file,
or what a path leads to from the root of an instance, without following the symlink
that it ends in. -/
def find (ref : String) : Step BindingId := do
  match ← handle? ref with
  | some (.binding b) => return b
  | some (.file f) => do
    let file ← usable (← see (·.files.get? f))
    return file.binding
  | some _ => throw .unusable
  | none => do
    let (name, path) ← usable (splitReference ref)
    let i ← inst name
    let root ← usable (← see fun w => (w.instances.get? i).bind (·.root))
    act (.test fun w => w.resolve root path false)

/-- The binding that a reference names, held by the step. -/
def binding (ref : String) : Step BindingId := do
  let b ← find ref
  borrow (.binding b)
  return b

/-- The node that a reference names, held by the step: the node of a handle, or the
node of a binding. -/
def node (ref : String) : Step NodeId := do
  let n ← match ← handle? ref with
    | some (.node n) => pure n
    | _ => do
      let b ← find ref
      act (Action.boundNode b)
  borrow (.node n)
  return n

/-- The directory node that a reference names, held by the step. -/
def directory (ref : String) : Step NodeId := do
  let n ← node ref
  if ← see (·.isDirectory n) then return n else throw (.failed .notADirectory)

/-- A binding in short. -/
def brief (b : BindingId) : Step Brief := see (·.brief b)

/-- The result of an operation that makes or finds a binding: the binding in short,
kept under a name if there is one. -/
def named (name : Option String) (action : Action BindingId) : Step Brief := do
  let b ← act action
  let shown ← brief b
  keepBinding name b
  return shown

end Step

namespace Session

/-- A session on a world with nothing mounted. -/
def fresh (clock : Clock) : Session := { world := .fresh clock }

/-- Runs a step. What it still holds is let go of at its end, and the notices that
were given meanwhile are taken out of the journal. -/
def run {α : Type} (s : Session) (step : Step α) : Except Fault α × List Notice × Session :=
  let (outcome, s) := match step s with
    | .ok a s => (Except.ok a, s)
    | .error e s => (Except.error e, s)
  let s := s.letGo
  let host := s.world.host
  (outcome, host.journal.toList,
    { s with world := { s.world with host := { host with journal := #[] } } })

end Session

end Memfs
