import Memfs.Directory

/-!
# Instances

A mounted filesystem from its making to its end. An instance starts empty; filling
it gives it a root. Its teardown gives its data back and dissolves its tree, and
runs once, however often it is asked for. The instance itself lasts as long as
somebody owns it, so a caller may still look at one that was torn down.
-/

namespace Memfs

/-- What an instance tells about itself. -/
structure Statistics where
  type : Nat
  blockSize : Nat
  blocks : Nat := 0
  blocksFree : Nat := 0
  blocksAvailable : Nat := 0
  nodes : Nat := 0
  nodesFree : Nat := 0
  nameLength : Nat := nameLimit
  deriving DecidableEq, Repr

/-- The permissions of a root directory for which none were asked. -/
def defaultRootMode : Mode := ⟨0o755⟩

/-- The number that says which filesystem this is. -/
def builtInMagic : Nat := 0x74616766

/-- The greatest length of a file. -/
def builtInMaxBytes : Nat := UInt64.size / 2 - 1

/-- The configuration of an instance or a context. -/
def Instance.config? (i : Instance) : Option Config := i.data.bind (·.config?)

/-- The configuration of a context. -/
def Context.config? (c : Context) : Option Config := c.data.bind (·.config?)

/-- The statistics of an instance. Without blocks to count, all counts are zero. -/
def Instance.statistics (i : Instance) : Statistics where
  type := i.geometry.magic
  blockSize := i.geometry.blockSize

/-- The option that asks for the configured mode, or nothing for the default. -/
def Config.options (c : Config) : String :=
  if c.mode = defaultRootMode then "" else ",mode=" ++ c.mode.octal

/-- The configuration with another device, unless it has one of the sort. -/
def Config.attach (c : Config) (sort : DeviceSort) (device : Device) : Option Config :=
  match sort with
  | .block => if c.block.isSome then none else some { c with block := some device }
  | .direct => if c.direct.isSome then none else some { c with direct := some device }

namespace World

/-- Makes an instance without a root. Nobody owns it yet. -/
def newInstance (w : World) (type : FilesystemType) (source : Option String)
    (flags : MountFlags) : InstanceId × World :=
  (w.instances.nextId,
    { w with instances := w.instances.push { type, source, geometry := { flags } } })

/-- Gives an instance a root, and lets go of the one that it had. -/
def setRoot (w : World) (i : InstanceId) (root : BindingId) : World :=
  let before := (w.instances.get? i).bind (·.root)
  (w.modifyInstance i ({ · with root := some root })).settle
    (before.toList.map fun b => .letGo (.binding b))

/-- Gives an instance its data, and gives back what it had. -/
def setData (w : World) (i : InstanceId) (data : Option PrivateData) : World :=
  let before := (w.instances.get? i).bind (·.data)
  (w.modifyInstance i ({ · with data })).settle (before.toList.map .dispose)

/-- Dissolves the tree of an instance and lets go of the root. -/
def dissolveTree (w : World) (i : InstanceId) : World :=
  match w.instances.get? i with
  | none => w
  | some inst =>
    let w := w.modifyInstance i ({ · with root := none })
    let w := w.settle (inst.root.toList.flatMap fun root =>
      [.dissolve root, .unpin root, .letGo (.binding root)])
    w.note (.tornDown inst.type.name)

/-- Puts the devices of a configuration back, the block device first, and empties the
slots. -/
def releaseDevices (w : World) (config : Config) : Config × World :=
  let w := config.block.elim w (w.put .block)
  let w := config.direct.elim w (w.put .direct)
  ({ config with block := none, direct := none }, w)

/-- Tears down an instance of the built-in type: the devices first, then what is left of
the configuration, then the tree. -/
def dissolveBuiltIn (w : World) (i : InstanceId) : World :=
  let data := (w.instances.get? i).bind (·.data)
  let w := w.modifyInstance i ({ · with data := none })
  let w := match data with
    | none => w
    | some (.config config) =>
      let (config, w) := w.releaseDevices config
      w.disposeData (.config config)
    | some .foreign => (w.note .foreignData).disposeData .foreign
  (w.dissolveTree i).note .released

/-- Tears an instance down in the way of its type. -/
def tearDown (w : World) (i : InstanceId) : World :=
  match w.instances.get? i with
  | none => w
  | some inst =>
    match inst.type.teardown with
    | .treeOnly => w.dissolveTree i
    | .withConfig => w.dissolveBuiltIn i

/-- Tears an instance down, unless that was done before. -/
def deactivate (w : World) (i : InstanceId) : World :=
  match w.instances.get? i with
  | none => w
  | some inst =>
    if inst.dying then w
    else
      let w := w.modifyInstance i ({ · with dying := true })
      (w.note (.deactivating inst.type.name)).tearDown i

/-- The options of the mounted instance that the binding's node belongs to, as they
would be written in an option string. -/
def optionsAt (w : World) (root : BindingId) : Except Error String :=
  match (w.nodeOf root).bind w.nodes.get? with
  | none => .error .notFound
  | some node =>
    match w.instances.get? node.home with
    | none => .error .noDevice
    | some home =>
      match home.config? with
      | none => .error .invalidArgument
      | some config => .ok config.options

/-- The options of an instance. One without a root or without a report has none. -/
def options (w : World) (i : InstanceId) : Except Error String :=
  match (w.instances.get? i).bind fun inst => if inst.reports then inst.root else none with
  | none => .ok ""
  | some root => w.optionsAt root

end World

namespace Action

/-- Fills an instance of the built-in type: its sizes and limits, and a root
directory with the configured mode. -/
def fillBuiltIn (i : InstanceId) : Action Unit := do
  let config ← require .invalidArgument (((← get).instances.get? i).bind (·.config?))
  modify (·.modifyInstance i fun inst =>
    { inst with
      reports := true
      geometry :=
        { maxBytes := builtInMaxBytes, magic := builtInMagic, flags := inst.geometry.flags } })
  let n ← tryCatch (newNode i none (config.mode.withType Mode.directoryType) .none)
    fun _ => throw .outOfMemory
  let root ← newRoot n
  modify (·.setRoot i root)

/-- Adds a device to a configuration, which takes one of each sort. -/
def attachDevice (config : Option Config) (sort : DeviceSort) (device : Device)
    (store : Config → World → World) : Action Unit := do
  let config ← require .invalidArgument config
  let config ← require .busy (config.attach sort device)
  note (.holding sort device.name)
  modify (store config)

/-- Adds a device to the configuration of an instance. -/
def attachToInstance (i : InstanceId) (sort : DeviceSort) (device : Device) : Action Unit := do
  attachDevice (((← get).instances.get? i).bind (·.config?)) sort device fun config w =>
    w.modifyInstance i ({ · with data := some (.config config) })

/-- Adds a device to the configuration of a context. -/
def attachToContext (c : ContextId) (sort : DeviceSort) (device : Device) : Action Unit := do
  attachDevice (((← get).contexts.get? c).bind (·.config?)) sort device fun config w =>
    w.modifyContext c ({ · with data := some (.config config) })

end Action

end Memfs
