import Memfs.Proofs.Bystanders
import Memfs.Proofs.Runs

/-!
# What belongs to which instance

A node keeps the number of the instance that it was made for. That number is all that the
program has to tell the instances on one machine apart: bindings and files bear none, and
two operations alone compare the numbers of two nodes. So a binding is said to belong to
the instance that its node was made for, and a file likewise.

`Homed` says that this agrees with the trees: the entries of a directory, the root of an
instance and the binding of a file never lead from one instance to another. It speaks
about what is there and has a node, so whatever takes objects away keeps it.
-/

namespace Memfs

namespace World

/-- The instance that a node was made for. -/
def nodeHome (w : World) (n : NodeId) : Option InstanceId := (w.nodes.get? n).map (·.home)

/-- The instance that the node of a binding was made for. -/
def bindingHome (w : World) (b : BindingId) : Option InstanceId := (w.nodeOf b).bind w.nodeHome

/-- The instance that the node of an open file was made for. -/
def fileHome (w : World) (f : FileId) : Option InstanceId :=
  ((w.files.get? f).bind (·.node)).bind w.nodeHome

/-- The instance that an object belongs to. -/
def refHome (w : World) : Ref → Option InstanceId
  | .node n => w.nodeHome n
  | .binding b => w.bindingHome b
  | .inst i => some i

variable {w v : World} {n : NodeId} {b c d root : BindingId} {f : FileId} {i : InstanceId}

theorem nodeHome_eq_some_iff :
    w.nodeHome n = some i ↔ ∃ x, w.nodes.get? n = some x ∧ x.home = i :=
  Option.map_eq_some_iff

theorem nodeHome_of_get? {x : Node} (h : w.nodes.get? n = some x) : w.nodeHome n = some x.home := by
  unfold nodeHome
  rw [h]
  rfl

theorem bindingHome_eq_some_iff :
    w.bindingHome b = some i ↔ ∃ n, w.nodeOf b = some n ∧ w.nodeHome n = some i :=
  Option.bind_eq_some_iff

theorem bindingHome_of_nodeOf (h : w.nodeOf b = some n) : w.bindingHome b = w.nodeHome n := by
  unfold bindingHome
  rw [h]
  rfl

theorem fileHome_eq_some_iff :
    w.fileHome f = some i ↔ ∃ x n, w.files.get? f = some x ∧ x.node = some n ∧
      w.nodeHome n = some i := by
  unfold fileHome
  rw [Option.bind_eq_some_iff]
  constructor
  · rintro ⟨n, h, home⟩
    obtain ⟨x, hx, hn⟩ := Option.bind_eq_some_iff.1 h
    exact ⟨x, n, hx, hn, home⟩
  · rintro ⟨x, n, hx, hn, home⟩
    exact ⟨n, Option.bind_eq_some_iff.2 ⟨x, hx, hn⟩, home⟩

theorem nodeHome_congr (nodes : v.nodes.get? n = w.nodes.get? n) : v.nodeHome n = w.nodeHome n := by
  unfold nodeHome
  rw [nodes]

theorem nodeOf_congr (bindings : v.bindings.get? b = w.bindings.get? b) :
    v.nodeOf b = w.nodeOf b := by
  unfold nodeOf
  rw [bindings]

theorem child?_congr {name : String} (bindings : v.bindings.get? d = w.bindings.get? d) :
    v.child? d name = w.child? d name := by
  unfold child?
  rw [bindings]

/-- The home of a binding is read off the binding and its node. -/
theorem bindingHome_congr (bindings : v.bindings.get? b = w.bindings.get? b)
    (nodes : ∀ n, w.nodeOf b = some n → v.nodes.get? n = w.nodes.get? n) :
    v.bindingHome b = w.bindingHome b := by
  unfold bindingHome
  rw [nodeOf_congr bindings]
  cases hn : w.nodeOf b with
  | none => rfl
  | some n => exact nodeHome_congr (nodes n hn)

theorem fileHome_congr (files : v.files.get? f = w.files.get? f)
    (nodes : ∀ x n, w.files.get? f = some x → x.node = some n →
      v.nodes.get? n = w.nodes.get? n) : v.fileHome f = w.fileHome f := by
  unfold fileHome
  rw [files]
  cases hn : (w.files.get? f).bind (·.node) with
  | none => rfl
  | some n =>
      obtain ⟨x, hx, hn⟩ := Option.bind_eq_some_iff.1 hn
      exact nodeHome_congr (nodes x n hx hn)

end World

open World

variable {w v u : World} {i : InstanceId}

/-- Entries, roots and files do not lead from one instance to another. -/
structure Homed (w : World) : Prop where
  child : ∀ {d name c i j}, w.child? d name = some c → w.bindingHome d = some i →
    w.bindingHome c = some j → i = j
  /-- A root has a node. -/
  root : ∀ {i inst root}, w.instances.get? i = some inst → inst.root = some root →
    w.bindings.has root = true → ∃ n, w.nodeOf root = some n ∧ ∀ j, w.nodeHome n = some j → j = i
  /-- A file is open on the node of its binding. -/
  file : ∀ {f x n}, w.files.get? f = some x → x.node = some n →
    w.bindings.has x.binding = true → w.nodeOf x.binding = some n

/-- Nothing was added to what belongs to the instance. -/
structure Fewer (i : InstanceId) (w v : World) : Prop where
  nodes : ∀ {n}, v.nodeHome n = some i → w.nodeHome n = some i
  bindings : ∀ {b}, v.bindingHome b = some i → w.bindingHome b = some i
  entries : ∀ {d name c}, v.bindingHome d = some i → v.child? d name = some c →
    w.child? d name = some c

/-- The instance and all that belongs to it are as they were. -/
structure Untouched (i : InstanceId) (w v : World) : Prop where
  inst : v.instances.get? i = w.instances.get? i
  nodes : ∀ {n}, w.nodeHome n = some i ∨ v.nodeHome n = some i →
    v.nodes.get? n = w.nodes.get? n
  bindings : ∀ {b}, w.bindingHome b = some i ∨ v.bindingHome b = some i →
    v.bindings.get? b = w.bindings.get? b
  files : ∀ {f}, w.fileHome f = some i ∨ v.fileHome f = some i →
    v.files.get? f = w.files.get? f

namespace Untouched

theorem refl : Untouched i w w := ⟨rfl, fun _ => rfl, fun _ => rfl, fun _ => rfl⟩

theorem symm (h : Untouched i w v) : Untouched i v w :=
  ⟨h.inst.symm, fun home => (h.nodes home.symm).symm, fun home => (h.bindings home.symm).symm,
    fun home => (h.files home.symm).symm⟩

/-! The same objects belong to the instance. -/

theorem nodeHome (h : Untouched i w v) {n : NodeId} (home : w.nodeHome n = some i) :
    v.nodeHome n = some i :=
  (nodeHome_congr (h.nodes (.inl home))).trans home

theorem bindingHome (h : Untouched i w v) {b : BindingId} (home : w.bindingHome b = some i) :
    v.bindingHome b = some i := by
  refine (bindingHome_congr (h.bindings (.inl home)) fun n hn => h.nodes (.inl ?_)).trans home
  exact (bindingHome_of_nodeOf hn).symm.trans home

theorem fileHome (h : Untouched i w v) {f : FileId} (home : w.fileHome f = some i) :
    v.fileHome f = some i := by
  refine (fileHome_congr (h.files (.inl home)) fun x n hx hn => h.nodes (.inl ?_)).trans home
  obtain ⟨y, m, hy, hm, homeM⟩ := fileHome_eq_some_iff.1 home
  cases hx.symm.trans hy
  cases hn.symm.trans hm
  exact homeM

theorem trans (h : Untouched i w v) (h' : Untouched i v u) : Untouched i w u where
  inst := h'.inst.trans h.inst
  nodes {n} home := by
    have between : v.nodeHome n = some i := home.elim h.nodeHome h'.symm.nodeHome
    exact (h'.nodes (.inl between)).trans (h.nodes (.inr between))
  bindings {b} home := by
    have between : v.bindingHome b = some i := home.elim h.bindingHome h'.symm.bindingHome
    exact (h'.bindings (.inl between)).trans (h.bindings (.inr between))
  files {f} home := by
    have between : v.fileHome f = some i := home.elim h.fileHome h'.symm.fileHome
    exact (h'.files (.inl between)).trans (h.files (.inr between))

theorem fewer (h : Untouched i w v) : Fewer i w v where
  nodes := h.symm.nodeHome
  bindings := h.symm.bindingHome
  entries home entry := (child?_congr (h.bindings (.inr home))).symm.trans entry

theorem unchanged (h : Unchanged w v) : Untouched i w v :=
  ⟨h.instances i, fun _ => h.nodes _, fun _ => h.bindings _, fun _ => h.files _⟩

end Untouched

namespace Fewer

theorem refl : Fewer i w w := ⟨id, id, fun _ => id⟩

theorem trans (h : Fewer i w v) (h' : Fewer i v u) : Fewer i w u where
  nodes home := h.nodes (h'.nodes home)
  bindings home := h.bindings (h'.bindings home)
  entries home entry := h.entries (h'.bindings home) (h'.entries home entry)

/-- Bindings keep their nodes and gain no entries, and nodes keep their homes. -/
theorem of_tables (nodes : ∀ {n}, v.nodeHome n = some i → w.nodeHome n = some i)
    (nodeOf : ∀ {b n}, v.nodeOf b = some n → w.nodeOf b = some n)
    (entries : ∀ {d name c}, v.child? d name = some c → w.child? d name = some c) :
    Fewer i w v where
  nodes := nodes
  bindings home := by
    obtain ⟨n, hn, home⟩ := bindingHome_eq_some_iff.1 home
    exact bindingHome_eq_some_iff.2 ⟨n, nodeOf hn, nodes home⟩
  entries _ := entries

theorem spared (s : Spared w v) : Fewer i w v := by
  refine of_tables (fun home => ?_) s.nodeOf s.child?
  obtain ⟨x, hx, home⟩ := nodeHome_eq_some_iff.1 home
  exact nodeHome_eq_some_iff.2 ⟨x, s.nodes hx, home⟩

theorem unchanged (h : Unchanged w v) : Fewer i w v :=
  of_tables (fun home => (nodeHome_congr (h.nodes _)).symm.trans home)
    (fun hn => (nodeOf_congr (h.bindings _)).symm.trans hn)
    fun entry => (child?_congr (h.bindings _)).symm.trans entry

end Fewer

namespace Homed

theorem fresh {clock : Clock} : Homed (World.fresh clock) where
  child h := by simp [child?, World.fresh] at h
  root h := by simp [World.fresh] at h
  file h := by simp [World.fresh] at h

/-- What is gone led nowhere. -/
theorem spared (h : Homed w) (s : Spared w v)
    (roots : ∀ {i x b}, v.instances.get? i = some x → x.root = some b →
      ∃ y, w.instances.get? i = some y ∧ y.root = some b) : Homed v where
  child entry homeD homeC :=
    h.child (s.child? entry) ((Fewer.spared s).bindings homeD) ((Fewer.spared s).bindings homeC)
  root hi hroot there := by
    obtain ⟨y, hy, hroot⟩ := roots hi hroot
    obtain ⟨n, hn, home⟩ := h.root hy hroot (s.has_binding there)
    exact ⟨n, (s.nodeOf_eq there).trans hn, fun j hj => home j ((Fewer.spared s).nodes hj)⟩
  file hf hn there := by
    rw [s.files] at hf
    rw [s.nodeOf_eq there]
    exact h.file hf hn (s.has_binding there)

theorem unchanged (h : Homed w) (same : Unchanged w v) : Homed v where
  child entry homeD homeC := by
    rw [child?_congr (same.bindings _)] at entry
    exact h.child entry ((Fewer.unchanged same).bindings homeD)
      ((Fewer.unchanged same).bindings homeC)
  root hi hroot there := by
    rw [same.instances] at hi
    rw [Table.has, same.bindings] at there
    obtain ⟨n, hn, home⟩ := h.root hi hroot there
    exact ⟨n, (nodeOf_congr (same.bindings _)).trans hn,
      fun j hj => home j ((Fewer.unchanged same).nodes hj)⟩
  file hf hn there := by
    rw [same.files] at hf
    rw [nodeOf_congr (same.bindings _)]
    exact h.file hf hn (by rwa [Table.has, same.bindings] at there)

end Homed

/-! ## In a world in order -/

section

variable {todo : List Task} {b c d : BindingId} {f : FileId} {n : NodeId} {name : String}
  {x : OpenFile}

theorem Sound.exists_nodeHome (s : Sound w todo) (hn : w.nodeOf b = some n) :
    ∃ i, w.nodeHome n = some i := by
  obtain ⟨node, found⟩ := Table.has_iff.1 (s.tended.there (owned_of_nodeOf hn))
  exact ⟨node.home, nodeHome_of_get? found⟩

theorem Sound.exists_bindingHome (s : Sound w todo) (hn : w.nodeOf b = some n) :
    ∃ i, w.bindingHome b = some i := by
  rw [bindingHome_of_nodeOf hn]
  exact s.exists_nodeHome hn

namespace Homed

/-- An entry and its directory belong to one instance. -/
theorem bindingHome_child (h : Homed w) (s : Sound w todo) (entry : w.child? d name = some c) :
    w.bindingHome c = w.bindingHome d := by
  obtain ⟨n, hn⟩ := s.forest.bound entry
  obtain ⟨m, hm, -⟩ := bindsDirectory_iff.1 (s.forest.above (s.forest.entry entry).2)
  obtain ⟨j, homeC⟩ := s.exists_bindingHome hn
  obtain ⟨i, homeD⟩ := s.exists_bindingHome hm
  cases h.child entry homeD homeC
  exact homeC.trans homeD.symm

theorem nodeOf_file (h : Homed w) (s : Sound w todo) (hf : w.files.get? f = some x)
    (hn : x.node = some n) : w.nodeOf x.binding = some n := by
  have owner : w.Owner (.binding x.binding) (.file f) := ⟨x, hf, rfl⟩
  exact h.file hf hn (s.tended.there ⟨_, owner⟩)

theorem bindingHome_root (h : Homed w) (s : Sound w todo) {inst : Instance} {root : BindingId}
    (hi : w.instances.get? i = some inst) (hroot : inst.root = some root) :
    w.bindingHome root = some i := by
  have owner : w.Owner (.binding root) (.inst i) := ⟨inst, hi, hroot⟩
  obtain ⟨n, hn, home⟩ := h.root hi hroot (s.tended.there ⟨_, owner⟩)
  obtain ⟨j, hj⟩ := s.exists_nodeHome hn
  cases home j hj
  exact (bindingHome_of_nodeOf hn).trans hj

/-- All that the root of an instance leads to belongs to the instance. -/
theorem bindingHome_of_inTree (h : Homed w) (s : Sound w todo) (inside : w.InTree i b) :
    w.bindingHome b = some i := by
  obtain ⟨inst, root, hi, hroot, reached⟩ := inside
  induction reached with
  | refl => exact h.bindingHome_root s hi hroot
  | tail _ entered ih =>
      obtain ⟨name, entry⟩ := entered
      exact (h.bindingHome_child s entry).trans ih

end Homed

end

end Memfs
