import Memfs.World

/-!
# Letting go

When an owner lets go of an object, the object is gone unless somebody else owns
it. What is gone lets go of what it owned in turn: a binding of its node and then
of the bindings below it in the order of their names, an instance of its root and
then of its data. A node that is gone gives its pages back.

Nobody counts owners. Whether an object is owned is read off the tables, the list
of what callers hold, and the work that is still to be done, for an object that
somebody is about to let go of is owned until then. All of the work stands in one
list, so its order is the order in which things happen; the list and what the
tables refer to grow smaller with every step, which is why it ends.
-/

namespace Memfs

/-- A step of letting go. -/
inductive Task where
  /-- One owner lets go of an object. -/
  | letGo (ref : Ref)
  /-- The data of a mount is given back. -/
  | dispose (data : PrivateData)
  /-- A directory lets go of every binding below it, the deepest first. -/
  | dissolve (binding : BindingId)
  | unpin (binding : BindingId)
  deriving DecidableEq, Repr

namespace Binding

/-- What a binding owns, in the order in which it lets go of it. -/
def owned (b : Binding) : List Task :=
  (b.node.toList.map fun n => .letGo (.node n))
    ++ b.below.map fun c => .letGo (.binding c)

/-- The steps that dissolve what is below a binding. -/
def dissolution (b : Binding) : List Task :=
  b.below.flatMap fun c => [.dissolve c, .unpin c, .letGo (.binding c)]

theorem mem_dissolution {b : Binding} {task : Task} : task ∈ b.dissolution ↔
    ∃ c ∈ b.below, task = .dissolve c ∨ task = .unpin c ∨ task = .letGo (.binding c) := by
  simp [dissolution]

/-- How much work a binding can give rise to. -/
def weight (b : Binding) : Nat := 4 * b.children.size + 1

end Binding

namespace Instance

/-- What an instance owns, in the order in which it lets go of it. -/
def owned (i : Instance) : List Task :=
  (i.root.toList.map fun b => .letGo (.binding b)) ++ i.data.toList.map .dispose

end Instance

namespace World

/-- Does an object of the tables or a caller own the node? -/
def ownsNode (w : World) (n : NodeId) : Bool :=
  w.held.contains (.node n)
    || w.bindings.any (·.node == some n)
    || w.files.any (·.node == some n)

/-- Does an object of the tables or a caller own the binding? -/
def ownsBinding (w : World) (b : BindingId) : Bool :=
  w.held.contains (.binding b)
    || w.bindings.any (·.below.contains b)
    || w.files.any (·.binding == b)
    || w.instances.any (·.root == some b)
    || w.contexts.any (·.root == some b)

/-- Does an object of the tables or a caller own the instance? -/
def ownsInstance (w : World) (i : InstanceId) : Bool :=
  w.held.contains (.inst i) || w.contexts.any (·.made == some i)

/-- Does an object of the tables or a caller own what `ref` names? -/
def owns (w : World) : Ref → Bool
  | .node n => w.ownsNode n
  | .binding b => w.ownsBinding b
  | .inst i => w.ownsInstance i

/-- Takes a pin off a binding. -/
def unpin (w : World) (b : BindingId) : World :=
  match w.bindings.get? b with
  | none => w
  | some binding =>
    if binding.pins = 0 then w.note (.noPinToDrop binding.name)
    else w.modifyBinding b fun binding => { binding with pins := binding.pins - 1 }

/-- Puts a device back, which keeps a record if it is of that sort. -/
def put (w : World) (sort : DeviceSort) (device : Device) : World :=
  let w := w.note (.releasing sort device.name)
  if device.recorded then { w with puts := w.puts ++ [(device.name, w.host.live .config)] }
  else w

/-- Gives the data of a mount back: the block device, the direct device, then the
configuration itself. -/
def disposeData (w : World) : PrivateData → World
  | .foreign => w
  | .config c =>
    let w := c.block.elim w (w.put .block)
    let w := c.direct.elim w (w.put .direct)
    { w with host := w.host.release .config }

/-- Removes a node that nobody owns, with its pages. -/
def evict (w : World) (n : NodeId) (node : Node) : World :=
  { w with
    nodes := w.nodes.erase n
    host := ((w.host.note (.evicted node.ino)).release .page node.content.held).release .node }

/-- Removes a binding that nobody owns. -/
def removeBinding (w : World) (b : BindingId) : World :=
  { w with bindings := w.bindings.erase b, host := w.host.release .binding }

/-- Removes an instance that nobody owns. -/
def removeInstance (w : World) (i : InstanceId) : World :=
  { w with instances := w.instances.erase i }

/-- How much work the objects of the tables can give rise to. -/
def weight (w : World) : Nat :=
  w.bindings.sum Binding.weight + w.instances.sum fun _ => 2

theorem weight_unpin (w : World) (b : BindingId) : (w.unpin b).weight = w.weight := by
  unfold unpin
  split
  · rfl
  next binding found =>
    split
    · rfl
    · have := w.bindings.sum_modify Binding.weight
        (fun binding => { binding with pins := binding.pins - 1 }) found
      simp only [weight, modifyBinding, Binding.weight] at this ⊢
      omega

theorem weight_put (w : World) (sort : DeviceSort) (device : Device) :
    (w.put sort device).weight = w.weight := by
  unfold put
  split <;> rfl

theorem weight_disposeData (w : World) (data : PrivateData) :
    (w.disposeData data).weight = w.weight := by
  rcases data with ⟨mode, block, direct⟩ | _
  · have released (w : World) : ({ w with host := w.host.release .config } : World).weight
        = w.weight := rfl
    cases block <;> cases direct <;>
      simp only [disposeData, Option.elim, released, weight_put]
  · rfl

theorem length_below (b : Binding) : b.below.length = b.children.size := by
  simp [Binding.below]

/-- A binding that is removed takes more work with it than it leaves. -/
theorem length_owned_le_weight (b : Binding) : b.owned.length ≤ b.weight := by
  have nodes : b.node.toList.length ≤ 1 := by cases b.node <;> simp
  simp only [Binding.owned, Binding.weight, List.length_append, List.length_map, length_below]
  omega

theorem length_dissolution (b : Binding) : b.dissolution.length = 3 * b.children.size := by
  simp only [Binding.dissolution, List.length_flatMap, List.length_cons, List.length_nil]
  rw [List.map_const', List.sum_replicate_nat, length_below, Nat.mul_comm]

theorem length_instance_owned (i : Instance) : i.owned.length ≤ 2 := by
  rcases i with ⟨_, _, _, _, root, data, _⟩
  cases root <;> cases data <;> simp [Instance.owned]

theorem weight_removeBinding {w : World} {b : BindingId} {binding : Binding}
    (found : w.bindings.get? b = some binding) :
    (w.removeBinding b).weight + binding.weight = w.weight := by
  have := w.bindings.sum_erase Binding.weight found
  simp only [weight, removeBinding] at this ⊢
  omega

theorem weight_removeInstance {w : World} {i : InstanceId} {inst : Instance}
    (found : w.instances.get? i = some inst) :
    (w.removeInstance i).weight + 2 = w.weight := by
  have := w.instances.sum_erase (fun _ => 2) found
  simp only [weight, removeInstance] at this ⊢
  omega

theorem weight_dissolved {w : World} {b : BindingId} {binding : Binding}
    (found : w.bindings.get? b = some binding) :
    (w.modifyBinding b fun binding => { binding with children := ∅ }).weight
      + 4 * binding.children.size = w.weight := by
  have := w.bindings.sum_modify Binding.weight
    (fun binding => { binding with children := ∅ }) found
  simp only [weight, modifyBinding, Binding.weight, Std.TreeMap.size_emptyc] at this ⊢
  omega

/-- Does the work of a list of tasks, in its order. -/
def settle (w : World) : List Task → World
  | [] => w
  | .dispose data :: rest => (w.disposeData data).settle rest
  | .unpin b :: rest => (w.unpin b).settle rest
  | .dissolve b :: rest =>
    match _found : w.bindings.get? b with
    | none => w.settle rest
    | some binding =>
      (w.modifyBinding b fun binding => { binding with children := ∅ }).settle
        (binding.dissolution ++ rest)
  | .letGo ref :: rest =>
    if w.owns ref || rest.contains (.letGo ref) then w.settle rest
    else match ref with
      | .node n =>
        match w.nodes.get? n with
        | none => w.settle rest
        | some node => (w.evict n node).settle rest
      | .binding b =>
        match _found : w.bindings.get? b with
        | none => w.settle rest
        | some binding => (w.removeBinding b).settle (binding.owned ++ rest)
      | .inst i =>
        match _found : w.instances.get? i with
        | none => w.settle rest
        | some inst => (w.removeInstance i).settle (inst.owned ++ rest)
termination_by tasks => w.weight + tasks.length
decreasing_by
  all_goals simp only [List.length_cons, List.length_append]
  · rw [weight_disposeData]; omega
  · rw [weight_unpin]; omega
  · omega
  · have := weight_dissolved _found
    rw [length_dissolution]
    omega
  · omega
  · omega
  · have : (w.evict n node).weight = w.weight := rfl
    omega
  · omega
  · have := weight_removeBinding _found
    have := length_owned_le_weight binding
    omega
  · omega
  · have := weight_removeInstance _found
    have := length_instance_owned inst
    omega

/-- A caller becomes an owner of what `ref` names. -/
def hold (w : World) (ref : Ref) : World := { w with held := ref :: w.held }

/-- A caller lets go of what it held. -/
def drop (w : World) (ref : Ref) : World :=
  { w with held := w.held.erase ref }.settle [.letGo ref]

end World

namespace Action

/-- What is left to be done when the operation fails. The failure stays. -/
def onFailure {α : Type} (act : Action α) (undo : Error → World → World) : Action α := fun w =>
  match act w with
  | .ok a w => .ok a w
  | .error e w => .error e (undo e w)

/-- Lets go of an object when the operation fails. -/
def orLetGo {α : Type} (act : Action α) (ref : Ref) : Action α :=
  act.onFailure fun _ w => w.settle [.letGo ref]

/-- Lets go of an object. -/
def letGo (ref : Ref) : Action Unit := modify (·.settle [.letGo ref])

end Action

end Memfs
