import Memfs.Session.Basic

/-!
# Steps on contexts and instances

Mounting in one go or piece by piece, looking at an instance, and its teardown.
-/

namespace Memfs

/-- An instance at length. -/
structure InstanceReport where
  type : String
  source : Option String
  geometry : Geometry
  dying : Bool
  root : Option UInt64
  deriving DecidableEq, Repr

/-- A context at length. -/
structure ContextReport where
  type : String
  source : Option String
  /-- The configured mode, while the context has a configuration. -/
  mode : Option Mode
  flags : MountFlags
  root : Option UInt64
  deriving DecidableEq, Repr

/-- New values for the sizes and limits of an instance. -/
structure GeometryChange where
  maxBytes : Option Nat := none
  timeGrain : Option Nat := none
  blockSize : Option Nat := none
  deriving DecidableEq, Repr

/-- What a mount of the built-in type made of its options. -/
structure MountReport where
  /-- The mode of the root directory. -/
  root : Mode
  /-- The configured mode. -/
  configured : Mode
  options : String
  source : Option String
  deriving DecidableEq, Repr

def Geometry.change (g : Geometry) (c : GeometryChange) : Geometry :=
  { g with
    maxBytes := c.maxBytes.getD g.maxBytes
    timeGrain := c.timeGrain.getD g.timeGrain
    blockSize := c.blockSize.getD g.blockSize }

namespace World

def instanceReport (w : World) (i : InstanceId) : Option InstanceReport :=
  (w.instances.get? i).map fun inst =>
    { type := inst.type.name
      source := inst.source
      geometry := inst.geometry
      dying := inst.dying
      root := w.rootIno i }

def contextReport (w : World) (c : ContextId) : Option ContextReport :=
  (w.contexts.get? c).map fun context =>
    { type := context.type.name
      source := context.source
      mode := context.config?.map (·.mode)
      flags := context.flags
      root := context.root.bind w.inoOf }

end World

namespace Step

/-- An instance at length. -/
def reportInstance (i : InstanceId) : Step InstanceReport := do
  usable (← see (·.instanceReport i))

/-- Mounts a registered type. -/
def mount (type options : String) (name : Option String) : Step InstanceReport := do
  let i ← act (Action.mount type options)
  let shown ← reportInstance i
  keep name (.inst i)
  return shown

/-- Mounts the built-in type, registered or not. -/
def mountBuiltIn (options : String) : Step InstanceId :=
  act (Action.mountType builtInType options fun _ w => w)

/-- Mounts the built-in type and tells the inode number of the root. -/
def mountKept (options : String) (name : Option String) : Step (Option UInt64) := do
  let i ← mountBuiltIn options
  let root ← see (·.rootIno i)
  keep name (.inst i)
  return root

/-- Mounts the built-in type, looks at it and tears it down. -/
def tryMount (options : String) : Step MountReport := do
  let i ← mountBuiltIn options
  let outcome ← see fun w => (w.instances.get? i).bind fun inst =>
    match (inst.root.bind w.nodeOf).bind w.nodes.get?, inst.config?, w.options i with
    | some root, some config, .ok options =>
      some { root := root.mode, configured := config.mode, options, source := inst.source }
    | _, _, _ => none
  change (·.deactivate i)
  release (.inst i)
  usable outcome

def newContext (type : FilesystemType) (name : String) : Step Unit := do
  let c ← act (Action.newContext type)
  store name (.context c)

def applyParameter (ctx : String) (param : Parameter) : Step Unit := do
  act (Action.applyParameter (← context ctx) param)

def takeSource (ctx : String) (param : Parameter) : Step Bool := do
  act (Action.takeSource (← context ctx) param)

def applyOptions (ctx options : String) : Step Unit := do
  act (Action.applyOptions (← context ctx) options)

/-- Adds flags to a context. -/
def addMountFlags (ctx : String) (flags : MountFlags) : Step Unit := do
  let c ← context ctx
  change (·.modifyContext c fun context => { context with flags := context.flags.union flags })

def makeTree (ctx : String) : Step Unit := do
  act (Action.makeTree (← context ctx))

/-- Takes the instance out of a context, if it has one. -/
def takeInstance (ctx : String) (name : Option String) : Step (Option InstanceReport) := do
  let c ← context ctx
  match ← act (.total (·.takeInstance c)) with
  | none => return none
  | some i =>
    let shown ← reportInstance i
    keep name (.inst i)
    return some shown

def reportContext (ctx : String) : Step ContextReport := do
  let c ← context ctx
  usable (← see (·.contextReport c))

/-- Makes an instance that no context made. -/
def newInstance (type : FilesystemType) (source : Option String) (flags : MountFlags)
    (name : Option String) : Step InstanceReport := do
  let i ← act (.total (·.newInstance type source flags))
  let shown ← reportInstance i
  change (·.hold (.inst i))
  keep name (.inst i)
  return shown

/-- Fills an instance as the built-in type does. A context has to be named. -/
def fillBuiltIn (mounted ctx : String) : Step Unit := do
  let i ← inst mounted
  let _ ← context ctx
  act (Action.fillBuiltIn i)

def showInstance (mounted : String) : Step InstanceReport := do
  reportInstance (← inst mounted)

def statistics (mounted : String) : Step Statistics := do
  let i ← inst mounted
  return (← usable (← see (·.instances.get? i))).statistics

def options (mounted : String) : Step String := do
  let i ← inst mounted
  act (.test (·.options i))

/-- The text `before` with the options of the binding's instance after it. -/
def optionsAt (d before : String) : Step String := do
  let b ← binding d
  return before ++ (← act (.test (·.optionsAt b)))

def changeGeometry (mounted : String) (c : GeometryChange) : Step Unit := do
  let i ← inst mounted
  change (·.modifyInstance i fun inst => { inst with geometry := inst.geometry.change c })

/-- Tears an instance down and drops its handle. -/
def unmount (mounted : String) : Step Unit := do
  let i ← inst mounted
  modify fun s => { s with handles := s.handles.erase mounted }
  change (·.unmount i)

/-- Tears an instance down and keeps its handle. -/
def deactivate (mounted : String) : Step Unit := do
  let i ← inst mounted
  change (·.deactivate i)

/-- Tears an instance down as the built-in type does, whatever was done before. -/
def dissolveBuiltIn (mounted : String) : Step Unit := do
  let i ← inst mounted
  change (·.dissolveBuiltIn i)

/-- Takes the data out of an instance and says whether there was any. -/
def takeData (mounted : String) : Step Bool := do
  let i ← inst mounted
  let had ← see fun w => ((w.instances.get? i).bind (·.data)).isSome
  change (·.setData i none)
  return had

/-- Puts data into an instance that the built-in type does not know. -/
def setForeignData (mounted : String) : Step Unit := do
  let i ← inst mounted
  change (·.setData i (some .foreign))

/-- Adds a device to the configuration of an instance or a context. -/
def attach (h : String) (sort : DeviceSort) (device : Device) : Step Unit := do
  match ← handle? h with
  | some (.inst i) => do
    let _ ← usable (← see fun w => (w.instances.get? i).bind (·.config?))
    act (Action.attachToInstance i sort device)
  | some (.context c) => do
    let _ ← usable (← see fun w => (w.contexts.get? c).bind (·.config?))
    act (Action.attachToContext c sort device)
  | _ => throw .unusable

/-- Which devices back an instance or a context: a block device, a direct device. -/
def devices (h : String) : Step (Bool × Bool) := do
  let config ← match ← handle? h with
    | some (.inst i) => see fun w => (w.instances.get? i).bind (·.config?)
    | some (.context c) => see fun w => (w.contexts.get? c).bind (·.config?)
    | _ => pure none
  let config ← usable config
  return (config.block.isSome, config.direct.isSome)

end Step

end Memfs
