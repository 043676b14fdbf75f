import Memfs.World.Settle

/-!
# The tree of bindings

How names come into directories, leave them and move between them. A binding
knows its parent by number, and the parent knows the binding by name; the
operations here change both sides. They take what they are given: whether a name
is free or a move is sensible is for the naming operations to decide.

Going from parent to parent ends at a binding whose parent is gone or that never
had one. `lineage` walks that way; the walk is as long as there are bindings at
most, so a count of them is enough fuel.
-/

namespace Memfs

namespace World

/-- The parent of a binding, while it is there. -/
def parentOf (w : World) (b : BindingId) : Option BindingId :=
  ((w.bindings.get? b).bind (·.parent)).filter w.bindings.has

/-- The binding of a name in a directory. -/
def child? (w : World) (dir : BindingId) (name : String) : Option BindingId :=
  (w.bindings.get? dir).bind fun binding => binding.children[name]?

/-- The bindings in a directory, in the order of their names. -/
def below (w : World) (dir : BindingId) : List BindingId :=
  ((w.bindings.get? dir).map (·.below)).getD []

/-- Has the directory a binding in it? -/
def hasChildren (w : World) (dir : BindingId) : Bool :=
  (w.bindings.get? dir).any (!·.children.isEmpty)

/-- A root bears the name of a root and has no parent. -/
def isRoot (w : World) (b : BindingId) : Bool :=
  (w.parentOf b).isNone && w.nameOf b == rootName

/-- The parents of a binding, the nearest first, at most `fuel` of them. -/
def ancestors (w : World) : (fuel : Nat) → BindingId → List BindingId
  | 0, _ => []
  | fuel + 1, b =>
    match w.parentOf b with
    | none => []
    | some p => p :: w.ancestors fuel p

/-- The binding and all its parents, the nearest first. -/
def lineage (w : World) (b : BindingId) : List BindingId :=
  b :: w.ancestors w.bindings.nextId b

/-- Is `b` equal to or below `top`? -/
def isBelow (w : World) (b top : BindingId) : Bool :=
  (w.lineage b).contains top

/-- The names from the root down to a binding, each after a slash. A binding that
no root is above is shown below the topmost of its parents. -/
def path (w : World) (b : BindingId) : String :=
  let above := (w.ancestors w.bindings.nextId b).filter (!w.isRoot ·)
  let names := ((b :: above).map w.nameOf).reverse
  if names = [rootName] then rootName else rootName ++ "/".intercalate names

/-- Makes a negative binding, unless the host refuses it. Nobody owns it yet, and
no name leads to it until it is given a node. -/
def newBinding (w : World) (parent : Option BindingId) (name : String) :
    Option BindingId × World :=
  match w.host.acquire .binding with
  | (true, host) =>
    (some w.bindings.nextId, { w with host, bindings := w.bindings.push { name, parent } })
  | (false, host) => (none, { w with host })

/-- Enters a binding into a directory under a name. What had the name there is let
go of. -/
def enter (w : World) (dir : BindingId) (name : String) (b : BindingId) : World :=
  let displaced := w.child? dir name
  (w.modifyBinding dir fun binding => { binding with children := binding.children.insert name b })
    |>.settle (displaced.toList.map fun d => .letGo (.binding d))

/-- Gives a binding its node and enters it into its parent. -/
def instantiate (w : World) (b : BindingId) (n : NodeId) : World :=
  let before := w.nodeOf b
  let w := (w.modifyBinding b fun binding => { binding with node := some n }).settle
    (before.toList.map fun n => .letGo (.node n))
  match w.parentOf b with
  | some dir => w.enter dir (w.nameOf b) b
  | none => w

/-- Pins a binding. -/
def pin (w : World) (b : BindingId) : World :=
  w.modifyBinding b fun binding => { binding with pins := binding.pins + 1 }

/-- Takes a binding out of its parent, if its name leads to it there. The binding
stays: who took it out lets go of it. -/
def detach (w : World) (b : BindingId) : World :=
  match w.parentOf b with
  | none => w
  | some dir =>
    if w.child? dir (w.nameOf b) = some b then
      w.modifyBinding dir fun binding =>
        { binding with children := binding.children.erase (w.nameOf b) }
    else w

/-- Gives a binding another name and another parent, without entering it there. -/
def readdress (w : World) (b dir : BindingId) (name : String) : World :=
  w.modifyBinding b fun binding => { binding with name, parent := some dir }

/-- Moves a binding to a name in a directory. -/
def moveBinding (w : World) (b dir : BindingId) (name : String) : World :=
  ((w.detach b).readdress b dir name).enter dir name b

/-- Lets two bindings change places. A binding without a parent has no place to
give. -/
def exchangeBindings (w : World) (a b : BindingId) : World :=
  match w.parentOf a, w.parentOf b with
  | some dirA, some dirB =>
    let nameA := w.nameOf a
    let nameB := w.nameOf b
    let w := ((w.detach a).detach b).readdress a dirB nameB
    let w := w.readdress b dirA nameA
    (w.enter dirB nameB a).enter dirA nameA b
  | _, _ => w

/-- Lets go of every binding below a directory, the deepest first. -/
def dissolve (w : World) (dir : BindingId) : World :=
  w.settle [.dissolve dir]

/-- A binding and all that is below it, each before what is below it and else in
the order of their names, down to `fuel` levels. -/
def preorder (w : World) : (fuel : Nat) → BindingId → List BindingId
  | 0, _ => []
  | fuel + 1, b => b :: (w.below b).flatMap (w.preorder fuel)

/-- The tree that hangs from a binding, in preorder. -/
def subtree (w : World) (b : BindingId) : List BindingId :=
  w.preorder (w.bindings.nextId + 1) b

end World

namespace Action

/-- Makes a negative binding for a name in a directory. -/
def newBinding (dir : BindingId) (name : String) : Action BindingId := do
  let made ← total (·.newBinding (some dir) name)
  require .outOfMemory made

/-- Makes a root for a directory node, pinned once. The node is let go of when no
binding can be made. -/
def newRoot (n : NodeId) : Action BindingId := do
  match ← total (·.newBinding none rootName) with
  | none =>
    letGo (.node n)
    throw .outOfMemory
  | some b =>
    modify fun w => (w.modifyBinding b fun binding => { binding with node := some n }).pin b
    return b

end Action

end Memfs
