import Memfs.Proofs.Effects.Files
import Memfs.Proofs.Keeping

/-!
# The changes that a world may see

Whatever an operation does, it does in small steps, and there are not many sorts of
them. `Change` lists them with what can be relied on: a new binding without a parent
bears the name of a root and no binding loses its parent, an instance gets no root but
such a binding, a node keeps its kind and its mode, no directory is made linkable, and only
what nobody owns is removed. A symlink is made with its target, and no content but that of
regular nodes changes later.
Operations that have no business with open files (`writes` is then false) leave the
table of files alone and change no content at all.

`Changes` are any number of these. What every change keeps is kept by every operation,
whether it fails or not, so an invariant has to be looked at once for each sort of
change and not for each operation. Most sorts leave most tables alone, so what a change
comes to in one table is stated apart, for the invariants that look at that table only.
-/

namespace Memfs

/-- The kind of the node and the type bits of its mode agree. -/
def Node.Typed (node : Node) : Prop := node.kind.isDirectory = node.mode.isDirectory

/-- The binding was made for a place in a directory. -/
def World.Filed (w : World) (b : BindingId) : Prop :=
  b < w.bindings.nextId ∧ ∀ x, w.bindings.get? b = some x → x.parent.isSome = true

/-- The binding was made for a root. -/
def World.Topmost (w : World) (b : BindingId) : Prop :=
  ∃ x, w.bindings.get? b = some x ∧ x.parent = none

/-- One change of the objects. -/
inductive Change (writes : Prop) : World → World → Prop
  /-- The host, the callers, the contexts and the registered types. -/
  | aside {w v : World} (nodes : v.nodes = w.nodes) (bindings : v.bindings = w.bindings)
      (files : v.files = w.files) (instances : v.instances = w.instances) : Change writes w v
  /-- A node is made, without content unless it is a symlink. -/
  | pushNode {w : World} {node : Node} (typed : node.Typed)
      (blank : node.kind ≠ .symlink → ∃ flags, node.content = { flags })
      (unlinkable : node.linkable = false) :
      Change writes w { w with nodes := w.nodes.push node }
  /-- Times, links and the right to be given a name, which no directory is given. -/
  | modifyNode {w : World} {n : NodeId} {f : Node → Node}
      (rest : ∀ x, f x = { x with
        atime := (f x).atime
        mtime := (f x).mtime
        ctime := (f x).ctime
        links := (f x).links
        linkable := (f x).linkable })
      (granted : ∀ x, w.nodes.get? n = some x → (f x).linkable = true →
        x.linkable = true ∨ x.isDirectory = false) : Change writes w (w.modifyNode n f)
  | content {w : World} {n : NodeId} {f : PageMap → PageMap} (allowed : writes)
      (plain : w.Plain n) :
      Change writes w (w.modifyNode n fun x => { x with content := f x.content })
  | evict {w : World} {n : NodeId} {node : Node} (found : w.nodes.get? n = some node)
      (free : ¬ w.Owned (.node n)) : Change writes w (w.evict n node)
  | files {w : World} {files : Table OpenFile} (allowed : writes) : Change writes w { w with files }
  /-- A binding is made, without a node. -/
  | pushBinding {w : World} {parent : Option BindingId} {name : String}
      (root : parent = none → name = rootName) :
      Change writes w { w with bindings := w.bindings.push { name, parent } }
  /-- A node, entries and pins. -/
  | modifyBinding {w : World} {b : BindingId} {f : Binding → Binding}
      (rest : ∀ x, f x = { x with
        node := (f x).node
        children := (f x).children
        pins := (f x).pins }) : Change writes w (w.modifyBinding b f)
  /-- A binding comes to another place. -/
  | readdress {w : World} {b : BindingId} {f : Binding → Binding} (filed : w.Filed b)
      (rest : ∀ x, f x = { x with
        name := (f x).name
        parent := (f x).parent
        node := (f x).node })
      (stays : ∀ x, x.parent.isSome = true → (f x).parent.isSome = true) :
      Change writes w (w.modifyBinding b f)
  | removeBinding {w : World} {b : BindingId} {x : Binding} (found : w.bindings.get? b = some x)
      (free : ¬ w.Owned (.binding b)) : Change writes w (w.removeBinding b)
  | pushInstance {w : World} {inst : Instance} (rootless : inst.root = none) :
      Change writes w { w with instances := w.instances.push inst }
  /-- Anything of an instance, but for another root. -/
  | modifyInstance {w : World} {i : InstanceId} {f : Instance → Instance}
      (root : ∀ x, (f x).root = x.root ∨ (f x).root = none) :
      Change writes w (w.modifyInstance i f)
  | setRoot {w : World} {i : InstanceId} {b : BindingId} (top : w.Topmost b) :
      Change writes w (w.modifyInstance i ({ · with root := some b }))
  | removeInstance {w : World} {i : InstanceId} : Change writes w (w.removeInstance i)

/-- Any number of changes. -/
inductive Changes (writes : Prop) (w : World) : World → Prop
  | refl : Changes writes w w
  | step {u v : World} (c : Changes writes w u) (last : Change writes u v) : Changes writes w v

/-- What each change keeps is kept by any number of them. -/
theorem Changes.keeps {writes : Prop} {P : World → Prop} {w v : World} (c : Changes writes w v)
    (kept : ∀ {u v : World}, Change writes u v → P u → P v) (h : P w) : P v := by
  induction c with
  | refl => exact h
  | step _ last ih => exact kept last ih

theorem Change.mono {writes more : Prop} (h : writes → more) {w v : World}
    (c : Change writes w v) : Change more w v := by
  cases c with
  | aside nodes bindings files instances => exact .aside nodes bindings files instances
  | pushNode typed blank unlinkable => exact .pushNode typed blank unlinkable
  | modifyNode rest granted => exact .modifyNode rest granted
  | content allowed plain => exact .content (h allowed) plain
  | evict found free => exact .evict found free
  | files allowed => exact .files (h allowed)
  | pushBinding root => exact .pushBinding root
  | modifyBinding rest => exact .modifyBinding rest
  | readdress filed rest stays => exact .readdress filed rest stays
  | removeBinding found free => exact .removeBinding found free
  | pushInstance rootless => exact .pushInstance rootless
  | modifyInstance root => exact .modifyInstance root
  | setRoot top => exact .setRoot top
  | removeInstance => exact .removeInstance

theorem Changes.mono {writes more : Prop} (h : writes → more) {w v : World}
    (c : Changes writes w v) : Changes more w v := by
  induction c with
  | refl => exact .refl
  | step _ last ih => exact ih.step (last.mono h)

/-- A binding that was made for a directory stays one. -/
theorem Change.filed {writes : Prop} {w v : World} (c : Change writes w v) {b : BindingId}
    (h : w.Filed b) : v.Filed b := by
  obtain ⟨known, parent⟩ := h
  have modified : ∀ {d f}, (∀ x, x.parent.isSome = true → (f x).parent.isSome = true) →
      (w.modifyBinding d f).Filed b := by
    intro d f stays
    refine ⟨known.trans_eq Table.nextId_modify.symm, fun x hx => ?_⟩
    rcases Table.get?_of_modify hx with ⟨-, y, hy, rfl⟩ | ⟨-, hx⟩
    · exact stays y (parent y hy)
    · exact parent x hx
  cases c with
  | aside _ bindings =>
      unfold World.Filed
      rw [bindings]
      exact ⟨known, parent⟩
  | pushNode => exact ⟨known, parent⟩
  | modifyNode => exact ⟨known, parent⟩
  | content => exact ⟨known, parent⟩
  | evict => exact ⟨known, parent⟩
  | files => exact ⟨known, parent⟩
  | pushBinding =>
      refine ⟨Nat.lt_succ_of_lt known |>.trans_eq Table.nextId_push.symm, fun x hx => ?_⟩
      exact parent x ((Table.get?_push_of_ne (Nat.ne_of_lt known)).symm.trans hx)
  | modifyBinding rest => exact modified fun x hx => by rw [rest x]; exact hx
  | readdress _ _ stays => exact modified stays
  | removeBinding =>
      exact ⟨known.trans_eq Table.nextId_erase.symm, fun x hx => parent x (Table.get?_of_erase hx)⟩
  | pushInstance => exact ⟨known, parent⟩
  | modifyInstance => exact ⟨known, parent⟩
  | setRoot => exact ⟨known, parent⟩
  | removeInstance => exact ⟨known, parent⟩

theorem Changes.filed {writes : Prop} {w v : World} (c : Changes writes w v) {b : BindingId}
    (h : w.Filed b) : v.Filed b :=
  c.keeps (P := (·.Filed b)) (fun change => change.filed) h

/-! ## The tables -/

/-- What a change comes to in the table of nodes. -/
inductive NodesChange (writes : Prop) (w v : World) : Prop
  | same (nodes : v.nodes = w.nodes)
  | push {node : Node} (unlinkable : node.linkable = false) (nodes : v.nodes = w.nodes.push node)
  | modify {n : NodeId} {f : Node → Node}
      (rest : ∀ x, f x = { x with
        content := (f x).content
        atime := (f x).atime
        mtime := (f x).mtime
        ctime := (f x).ctime
        links := (f x).links
        linkable := (f x).linkable })
      (granted : ∀ x, w.nodes.get? n = some x → (f x).linkable = true →
        x.linkable = true ∨ x.isDirectory = false)
      (written : ∀ x, w.nodes.get? n = some x →
        (f x).content = x.content ∨ writes ∧ x.kind = .regular)
      (nodes : v.nodes = (w.modifyNode n f).nodes)
  | erase {n : NodeId} (nodes : v.nodes = w.nodes.erase n)

theorem Change.onNodes {writes : Prop} {w v : World} (c : Change writes w v) :
    NodesChange writes w v := by
  cases c with
  | aside nodes => exact .same nodes
  | pushNode _ _ unlinkable => exact .push unlinkable rfl
  | modifyNode rest granted =>
      refine .modify ?_ granted ?_ rfl
      · exact fun x => by rw [rest x]
      · exact fun x _ => .inl (by rw [rest x])
  | content allowed plain =>
      refine .modify ?_ ?_ ?_ rfl
      · exact fun _ => rfl
      · exact fun _ _ => .inl
      · exact fun x hx => .inr ⟨allowed, plain x hx⟩
  | evict => exact .erase rfl
  | files => exact .same rfl
  | pushBinding => exact .same rfl
  | modifyBinding => exact .same rfl
  | readdress => exact .same rfl
  | removeBinding => exact .same rfl
  | pushInstance => exact .same rfl
  | modifyInstance => exact .same rfl
  | setRoot => exact .same rfl
  | removeInstance => exact .same rfl

theorem Change.nodes_kept {writes : Prop} {w v : World} (c : Change writes w v) :
    w.nodes.Grown v.nodes := by
  cases c.onNodes with
  | same nodes => rw [nodes]; exact .refl
  | push _ nodes => rw [nodes]; exact .push
  | modify _ _ _ nodes => rw [nodes]; exact .modify
  | erase nodes => rw [nodes]; exact .erase

/-- The number of a node is not given out again. -/
theorem Changes.nodes_kept {writes : Prop} {w v : World} (c : Changes writes w v) :
    w.nodes.Grown v.nodes :=
  c.keeps (P := (w.nodes.Grown ·.nodes)) (fun last h => h.trans last.nodes_kept) .refl

/-- The nodes are alike in what nothing changes once a node is made. -/
structure Node.Akin (x y : Node) : Prop where
  ino : y.ino = x.ino
  kind : y.kind = x.kind
  mode : y.mode = x.mode
  uid : y.uid = x.uid
  gid : y.gid = x.gid
  home : y.home = x.home

namespace Node.Akin

theorem refl {x : Node} : x.Akin x := ⟨rfl, rfl, rfl, rfl, rfl, rfl⟩

theorem trans {x y z : Node} (h : x.Akin y) (h' : y.Akin z) : x.Akin z where
  ino := h'.ino.trans h.ino
  kind := h'.kind.trans h.kind
  mode := h'.mode.trans h.mode
  uid := h'.uid.trans h.uid
  gid := h'.gid.trans h.gid
  home := h'.home.trans h.home

end Node.Akin

/-- A node that was there before, or whose number was given out before, is what it was made
as. One that is gone does not come back. -/
theorem Change.node_kept {writes : Prop} {w v : World} (c : Change writes w v) {n : NodeId}
    {y : Node} (known : n < w.nodes.nextId) (hy : v.nodes.get? n = some y) :
    ∃ x, w.nodes.get? n = some x ∧ x.Akin y := by
  cases c.onNodes with
  | same nodes => exact ⟨y, nodes ▸ hy, .refl⟩
  | push _ nodes =>
      rw [nodes, Table.get?_push_of_ne (Nat.ne_of_lt known)] at hy
      exact ⟨y, hy, .refl⟩
  | modify rest _ _ nodes =>
      rw [nodes] at hy
      rcases Table.get?_of_modify hy with ⟨-, x, hx, rfl⟩ | ⟨-, hy⟩
      · refine ⟨x, hx, ?_⟩
        rw [rest x]
        exact ⟨rfl, rfl, rfl, rfl, rfl, rfl⟩
      · exact ⟨y, hy, .refl⟩
  | erase nodes =>
      rw [nodes] at hy
      exact ⟨y, Table.get?_of_erase hy, .refl⟩

theorem Changes.node_kept {writes : Prop} {w v : World} (c : Changes writes w v) {n : NodeId}
    (known : n < w.nodes.nextId) :
    ∀ {y}, v.nodes.get? n = some y → ∃ x, w.nodes.get? n = some x ∧ x.Akin y := by
  induction c with
  | refl => exact fun hy => ⟨_, hy, .refl⟩
  | step c last ih =>
      intro y hy
      obtain ⟨z, hz, akin⟩ := last.node_kept (known.trans_le c.nodes_kept.next) hy
      obtain ⟨x, hx, before⟩ := ih hz
      exact ⟨x, hx, before.trans akin⟩

/-- Nor does a binding that is gone come back. -/
theorem Change.bindings_kept {writes : Prop} {w v : World} (c : Change writes w v) :
    w.bindings.Grown v.bindings := by
  cases c with
  | aside _ bindings => rw [bindings]; exact .refl
  | pushNode => exact .refl
  | modifyNode => exact .refl
  | content => exact .refl
  | evict => exact .refl
  | files => exact .refl
  | pushBinding => exact .push
  | modifyBinding => exact .modify
  | readdress => exact .modify
  | removeBinding => exact .erase
  | pushInstance => exact .refl
  | modifyInstance => exact .refl
  | setRoot => exact .refl
  | removeInstance => exact .refl

theorem Changes.bindings_kept {writes : Prop} {w v : World} (c : Changes writes w v) :
    w.bindings.Grown v.bindings :=
  c.keeps (P := (w.bindings.Grown ·.bindings)) (fun last h => h.trans last.bindings_kept) .refl

/-- Nor is the number of an instance, so one that is gone does not come back. -/
theorem Change.instances_kept {writes : Prop} {w v : World} (c : Change writes w v) :
    w.instances.Grown v.instances := by
  cases c with
  | aside _ _ _ instances => rw [instances]; exact .refl
  | pushNode => exact .refl
  | modifyNode => exact .refl
  | content => exact .refl
  | evict => exact .refl
  | files => exact .refl
  | pushBinding => exact .refl
  | modifyBinding => exact .refl
  | readdress => exact .refl
  | removeBinding => exact .refl
  | pushInstance => exact .push
  | modifyInstance => exact .modify
  | setRoot => exact .modify
  | removeInstance => exact .erase

theorem Changes.instances_kept {writes : Prop} {w v : World} (c : Changes writes w v) :
    w.instances.Grown v.instances :=
  c.keeps (P := (w.instances.Grown ·.instances)) (fun last h => h.trans last.instances_kept) .refl

namespace Changes

open World

variable {writes : Prop} {w v : World} {b dir : BindingId} {n m : NodeId} {name : String}

/-! ## What the functions on worlds change -/

theorem aside {u : World} (c : Changes writes w v) (nodes : u.nodes = v.nodes)
    (bindings : u.bindings = v.bindings) (files : u.files = v.files)
    (instances : u.instances = v.instances) : Changes writes w u :=
  c.step (.aside nodes bindings files instances)

theorem onHost (c : Changes writes w v) {host : Host} : Changes writes w { v with host } :=
  c.aside rfl rfl rfl rfl

theorem now (c : Changes writes w v) : Changes writes w (v.now n).2 := c.onHost

theorem addLink (c : Changes writes w v) : Changes writes w (v.addLink n) :=
  c.step (.modifyNode (fun _ => rfl) fun _ _ h => .inl (Bool.and_eq_true_iff.1 h).1)

theorem dropLink (c : Changes writes w v) : Changes writes w (v.dropLink n) := by
  rw [dropLink_eq]
  exact c.onHost.step (.modifyNode (fun _ => rfl) fun _ _ => .inl)

theorem written (c : Changes writes w v) {time : Timestamp} :
    Changes writes w (v.modifyNode n (·.written time)) :=
  c.step (.modifyNode (fun _ => rfl) fun _ _ => .inl)

theorem changed (c : Changes writes w v) {time : Timestamp} :
    Changes writes w (v.modifyNode n (·.changed time)) :=
  c.step (.modifyNode (fun _ => rfl) fun _ _ => .inl)

theorem markChanged (c : Changes writes w v) {time : Timestamp} :
    Changes writes w (v.markChanged b time) := by
  unfold World.markChanged
  cases v.nodeOf b with
  | none => exact c
  | some n => exact c.changed

theorem pin (c : Changes writes w v) : Changes writes w (v.pin b) :=
  c.step (.modifyBinding fun _ => rfl)

theorem unpin (c : Changes writes w v) : Changes writes w (v.unpin b) := by
  unfold World.unpin
  split
  · exact c
  · split
    · exact c.onHost
    · exact c.step (.modifyBinding fun _ => rfl)

theorem detach (c : Changes writes w v) : Changes writes w (v.detach b) := by
  unfold World.detach
  split
  · exact c
  · split
    · exact c.step (.modifyBinding fun _ => rfl)
    · exact c

theorem disposeData (c : Changes writes w v) {data : PrivateData} :
    Changes writes w (v.disposeData data) := by
  obtain ⟨host, puts, -, e⟩ := v.disposeData_eq data
  rw [e]
  exact c.aside rfl rfl rfl rfl

theorem settling : Settling fun v _ => Changes writes w v where
  disposed c := c.disposeData
  unpinned c := c.unpin
  dissolved _ c := c.step (.modifyBinding fun _ => rfl)
  absent _ c := c
  kept _ c := c
  evicted found free c := c.step (.evict found free)
  removedBinding found free c := c.step (.removeBinding found free)
  removedInstance _ _ c := c.step .removeInstance

theorem settle (c : Changes writes w v) {tasks : List Task} : Changes writes w (v.settle tasks) :=
  settling.settle_all c

theorem enter (c : Changes writes w v) : Changes writes w (v.enter dir name b) :=
  settle (c.step (.modifyBinding fun _ => rfl))

theorem instantiate (c : Changes writes w v) : Changes writes w (v.instantiate b n) := by
  have bound : Changes writes w ((v.modifyBinding b ({ · with node := some n })).settle
      ((v.nodeOf b).toList.map fun n => .letGo (.node n))) :=
    settle (c.step (.modifyBinding fun _ => rfl))
  unfold World.instantiate
  simp only
  split
  · exact bound.enter
  · exact bound

theorem readdress (c : Changes writes w v) (filed : v.Filed b) :
    Changes writes w (v.readdress b dir name) :=
  c.step (.readdress filed (fun _ => rfl) fun _ _ => rfl)

theorem moveBinding (c : Changes writes w v) (filed : v.Filed b) :
    Changes writes w (v.moveBinding b dir name) :=
  have out : Changes writes v (v.detach b) := Changes.refl.detach
  (c.detach.readdress (out.filed filed)).enter

theorem exchangeBindings (c : Changes writes w v) {a : BindingId} (filedA : v.Filed a)
    (filedB : v.Filed b) : Changes writes w (v.exchangeBindings a b) := by
  unfold World.exchangeBindings
  split
  · have out : Changes writes v ((v.detach a).detach b) := Changes.refl.detach.detach
    have moved {dir name} : Changes writes v (((v.detach a).detach b).readdress a dir name) :=
      out.readdress (out.filed filedA)
    have there {dir name} : Changes writes w (((v.detach a).detach b).readdress a dir name) :=
      c.detach.detach.readdress (out.filed filedA)
    exact (there.readdress (moved.filed filedB)).enter.enter
  · exact c

theorem setData (c : Changes writes w v) {i : InstanceId} {data : Option PrivateData} :
    Changes writes w (v.setData i data) := by
  refine settle (c.step (.modifyInstance ?_))
  exact fun _ => .inl rfl

theorem ending {i : InstanceId} : Ending i (Changes writes w) where
  noted _ c := c.onHost
  stripped c := c.setData
  dissolved _ c := settle (c.step (.modifyInstance fun _ => .inr rfl))

theorem deactivate (c : Changes writes w v) {i : InstanceId} :
    Changes writes w (v.deactivate i) := by
  refine ending.deactivate c fun _ => c.step (.modifyInstance ?_)
  exact fun _ => .inl rfl

end Changes

end Memfs
