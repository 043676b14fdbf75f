import Memfs.Mount.Context

/-!
# The registry of filesystem types

Types are registered under their names, each name once, and a mount names the type
that it wants. The built-in type keeps everything in memory. It takes one option of
its own, the mode of the root directory.
-/

namespace Memfs

/-- The built-in type. -/
def builtInType : FilesystemType where
  name := "tagfs"
  flags := 2
  parameters := [⟨"mode", .octal, Action.modeTag⟩]
  start := .configured
  ops := some ⟨.lenient, .freshRoot, true⟩
  teardown := .withConfig

namespace World

/-- The registered type of a name. -/
def findType (w : World) (name : String) : Option FilesystemType :=
  w.types.find? (·.name == name)

/-- Tears an instance down on behalf of a caller, who lets go of it. -/
def unmount (w : World) (i : InstanceId) : World :=
  let name := ((w.instances.get? i).map (·.type.name)).getD ""
  ((w.note (.unmounting name)).deactivate i).drop (.inst i)

end World

namespace Action

/-- Registers a type under its name. -/
def register (type : FilesystemType) : Action Unit := do
  if ((← get).findType type.name).isSome then
    note (.alreadyRegistered type.name)
    throw .busy
  note (.registered type.name)
  modify fun w => { w with types := w.types ++ [type] }

/-- Withdraws the type of a name. -/
def unregister (name : String) : Action Unit := do
  if ((← get).findType name).isNone then throw .notFound
  modify fun w => { w with types := w.types.eraseP (·.name == name) }
  note (.unregistered name)

/-- Registers the built-in type. -/
def registerBuiltIn : Action Unit := do
  note .registering
  [Severity.trace, .debug, .info, .warn, .error].forM fun s => note (.registeringAt s)
  register builtInType

/-- Withdraws the built-in type. It is no failure that it was not registered. -/
def withdrawBuiltIn : Action Unit := do
  note .withdrawing
  tryCatch (do unregister builtInType.name; note .withdrawn) fun e => note (.withdrawFailed e)

/-- Registers all that is built in. It is no failure that it was registered. -/
def startUp : Action Unit := do
  note .startingUp
  tryCatch registerBuiltIn fun e => note (.startUpFailed e)

/-- Mounts an instance of a registered type. The caller owns the instance. -/
def mount (name options : String) : Action InstanceId := do
  let type ← require .noDevice ((← get).findType name)
  mountType type options fun i w =>
    let source := (w.instances.get? i).bind (·.source)
    w.note (.mounted name (source.getD "none"))

end Action

end Memfs
