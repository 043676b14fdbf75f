import Memfs.Instance

/-!
# Mount contexts

A mount is prepared in a context: it is given parameters, then asked for a tree,
and the instance that was made is handed out. The data of the mount belongs to the
context until the tree is asked for and to the instance from then on. What a
context still has when it ends goes with it: its data is given back, and an
instance that nobody took is torn down.
-/

namespace Memfs

namespace World

/-- Gives back the data that was left on a context, if the type does so. -/
def freeData (w : World) (c : ContextId) : World :=
  match w.contexts.get? c with
  | none => w
  | some context =>
    if context.type.ops.any (·.freesData) then
      match context.data with
      | none => w
      | some data =>
        ((w.note .configUnused).modifyContext c ({ · with data := none })).settle [.dispose data]
    else w

/-- Gives a context its data, and gives back what it had. -/
def setContextData (w : World) (c : ContextId) (data : Option PrivateData) : World :=
  let before := (w.contexts.get? c).bind (·.data)
  (w.modifyContext c ({ · with data })).settle (before.toList.map .dispose)

/-- Ends a context with all that it still has. -/
def dropContext (w : World) (c : ContextId) : World :=
  let w := w.freeData c
  match w.contexts.get? c with
  | none => w
  | some context =>
    let w := match context.made with
      | none => w
      | some i =>
        let root := context.root.toList.map fun b => Task.letGo (.binding b)
        let w := (w.modifyContext c ({ · with root := none })).settle root
        let w := w.deactivate i
        (w.modifyContext c ({ · with made := none })).settle [.letGo (.inst i)]
    let left := (w.contexts.get? c).toList.flatMap fun context =>
      (context.data.toList.map Task.dispose)
        ++ context.root.toList.map fun b => .letGo (.binding b)
    { w with contexts := w.contexts.erase c }.settle left

/-- Hands the instance of a context to its caller, who owns it from then on. -/
def takeInstance (w : World) (c : ContextId) : Option InstanceId × World :=
  match w.contexts.get? c with
  | none => (none, w)
  | some context =>
    let w := w.modifyContext c ({ · with root := none, made := none })
    let w := context.made.elim w fun i => w.hold (.inst i)
    (context.made, w.settle (context.root.toList.map fun b => .letGo (.binding b)))

end World

namespace Action

/-- The context, which its callers know to be there. -/
def context (c : ContextId) : Action Context := do
  require .invalidArgument ((← get).contexts.get? c)

/-- The tag of the option that sets the mode of the root directory. -/
def modeTag : Nat := 0

/-- Begins a context for a mount of a type. -/
def newContext (type : FilesystemType) : Action ContextId := do
  let data ← match type.start with
    | .refused cause => throw cause
    | .plain => pure none
    | .configured => do
      unless ← onHost (·.acquire .config) do throw .outOfMemory
      pure (some (.config { mode := defaultRootMode }))
  total fun w => (w.contexts.nextId, { w with contexts := w.contexts.push { type, data } })

/-- Takes a parameter as the source of the mount, of which there is one at most. A
parameter with another key is left to others. -/
def takeSource (c : ContextId) (param : Parameter) : Action Bool := do
  if param.key ≠ "source" then return false
  if (← context c).source.isSome then
    note .secondSource
    throw .invalidOption
  let value ← require .invalidOption param.value
  modify (·.modifyContext c ({ · with source := some value }))
  return true

/-- Decodes a parameter by the table of the context's type. -/
def decode (c : ContextId) (param : Parameter) : Action (Option Setting) := do
  match param.decode (← context c).type.parameters with
  | .ok setting => return setting
  | .error fault =>
    if fault = .misplaced then note (.badValue param.key)
    throw .invalidOption

/-- Applies a parameter to the configuration. A key that is not in the type's table
may be the source, and is passed over otherwise. -/
def applyLenient (c : ContextId) (param : Parameter) : Action Unit := do
  match ← decode c param with
  | none => unless ← takeSource c param do note (.optionIgnored param.key)
  | some setting =>
    let config ← require .invalidArgument (← context c).config?
    if setting.tag = modeTag then
      let mode ← require .invalidOption setting.value.number?
      let config := { config with mode := ⟨mode.toUInt16 &&& Mode.permissionMask⟩ }
      modify (·.modifyContext c ({ · with data := some (.config config) }))

/-- Applies a parameter that has to be the source. -/
def applySource (c : ContextId) (param : Parameter) : Action Unit := do
  unless ← takeSource c param do throw .invalidOption

/-- Applies a parameter to a context. -/
def applyParameter (c : ContextId) (param : Parameter) : Action Unit := do
  if param.key = "" then throw .invalidArgument
  let policy := ((← context c).type.ops.map (·.parameters)).getD .sourceOnly
  match policy with
  | .lenient => applyLenient c param
  | .sourceOnly => applySource c param

/-- Applies the parameters of an option string in their order, up to the first that
is refused. -/
def applyOptions (c : ContextId) (options : String) : Action Unit :=
  (Parameter.ofOptions options).forM (applyParameter c)

/-- Fills an instance in the way that its type asks for. -/
def fill (i : InstanceId) : Filling → Action Unit
  | .freshRoot => fillBuiltIn i
  | .noRoot => pure ()
  | .failing cause => throw cause

/-- Makes the instance of a context. The data of the context passes to it before it is
filled; if it cannot be filled it is torn down again. An instance that the context
had before is let go of. -/
def makeInstance (c : ContextId) (filling : Filling) : Action Unit := do
  let before ← context c
  let i ← total (·.newInstance before.type before.source before.flags)
  modify fun w =>
    (w.modifyContext c ({ · with data := none })).modifyInstance i ({ · with data := before.data })
  (fill i filling).onFailure fun e w =>
    ((w.note (.fillFailed before.type.name e)).deactivate i).settle [.letGo (.inst i)]
  modify fun w =>
    let root := (w.instances.get? i).bind (·.root)
    (w.modifyContext c ({ · with root, made := some i })).settle
      ((before.root.toList.map fun b => .letGo (.binding b))
        ++ before.made.toList.map fun i => .letGo (.inst i))

/-- Asks a context for its tree, which it makes once. -/
def makeTree (c : ContextId) : Action Unit := do
  let before ← context c
  if before.root.isSome then throw .busy
  let ops ← require .invalidArgument before.type.ops
  makeInstance c ops.filling
  if (← context c).root.isNone then
    note (.noRoot before.type.name)
    throw .invalidArgument

/-- Mounts an instance of a type: a context, its options, its tree. The context ends
with the mount, whether it succeeds or not. The caller owns the instance. -/
def mountType (type : FilesystemType) (options : String) (done : InstanceId → World → World) :
    Action InstanceId := do
  let c ← newContext type
  let attempt : Action InstanceId := do
    applyOptions c options
    makeTree c
    let i ← require .invalidArgument (← total (·.takeInstance c))
    modify (done i)
    return i
  let i ← attempt.onFailure fun _ w => w.dropContext c
  modify (·.dropContext c)
  return i

end Action

end Memfs
