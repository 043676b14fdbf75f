import Memfs.Proofs.Links.Counters
import Memfs.Proofs.Sound.Mounts

/-!
# What letting go leaves alone

Letting go takes objects away. What it does not take away it leaves as it was, but for
the pins and the entries of bindings, of which there may be fewer; and those who hold
objects, which are callers, open files and contexts, hold the same ones as before.
`Spared` says this of any amount of work, and a teardown spares the same things.

An instance that somebody owns is not taken away and is not changed.
-/

namespace Memfs

open World

/-- Whoever holds something holds the same in `v`, and what is still there in `v` is as it
was in `w`, but for entries that are gone, and for pins. -/
structure Spared (w v : World) : Prop where
  held : v.held = w.held
  files : v.files = w.files
  contexts : v.contexts = w.contexts
  nodes : ∀ {n x}, v.nodes.get? n = some x → w.nodes.get? n = some x
  bindings : ∀ {b x}, v.bindings.get? b = some x → ∃ y, w.bindings.get? b = some y ∧
    x.name = y.name ∧ x.parent = y.parent ∧ x.node = y.node ∧
      ∀ name : String, ∀ c, x.children[name]? = some c → y.children[name]? = some c
  /-- No number was given out. -/
  next : v.bindings.nextId = w.bindings.nextId ∧ v.instances.nextId = w.instances.nextId

namespace Spared

variable {w v u : World} {tasks : List Task} {i j : InstanceId} {n : NodeId} {b d c : BindingId}
  {name : String}

theorem refl : Spared w w :=
  ⟨rfl, rfl, rfl, id, fun h => ⟨_, h, rfl, rfl, rfl, fun _ _ => id⟩, rfl, rfl⟩

theorem trans (s : Spared w v) (t : Spared v u) : Spared w u where
  held := t.held.trans s.held
  files := t.files.trans s.files
  contexts := t.contexts.trans s.contexts
  nodes h := s.nodes (t.nodes h)
  bindings h := by
    obtain ⟨y, hy, name, parent, node, children⟩ := t.bindings h
    obtain ⟨z, hz, name', parent', node', children'⟩ := s.bindings hy
    exact ⟨z, hz, name.trans name', parent.trans parent', node.trans node',
      fun k c h => children' k c (children k c h)⟩
  next := ⟨t.next.1.trans s.next.1, t.next.2.trans s.next.2⟩

/-- Nodes and bindings are the same, and nobody holds less or more. -/
theorem of_tables (held : v.held = w.held) (files : v.files = w.files)
    (contexts : v.contexts = w.contexts) (nodes : v.nodes = w.nodes)
    (bindings : v.bindings = w.bindings) (next : v.instances.nextId = w.instances.nextId) :
    Spared w v where
  held := held
  files := files
  contexts := contexts
  nodes h := nodes ▸ h
  bindings h := ⟨_, bindings ▸ h, rfl, rfl, rfl, fun _ _ => id⟩
  next := ⟨congrArg _ bindings, next⟩

theorem onHost (s : Spared w v) {host : Host} : Spared w { v with host } :=
  s.trans (.of_tables rfl rfl rfl rfl rfl rfl)

theorem modifyInstance (s : Spared w v) {g : Instance → Instance} :
    Spared w (v.modifyInstance i g) :=
  s.trans (.of_tables rfl rfl rfl rfl rfl Table.nextId_modify)

/-- A binding may lose entries and change its pins. -/
theorem modifyBinding (s : Spared w v) {g : Binding → Binding}
    (same : ∀ x, (g x).name = x.name ∧ (g x).parent = x.parent ∧ (g x).node = x.node ∧
      ∀ name : String, ∀ c, (g x).children[name]? = some c → x.children[name]? = some c) :
    Spared w (v.modifyBinding b g) := by
  refine s.trans ⟨rfl, rfl, rfl, id, fun {d x} h => ?_, Table.nextId_modify, rfl⟩
  rcases Table.get?_of_modify h with ⟨-, y, hy, rfl⟩ | ⟨-, h⟩
  · exact ⟨y, hy, same y⟩
  · exact ⟨x, h, rfl, rfl, rfl, fun _ _ => id⟩

theorem disposeData (s : Spared w v) {data : PrivateData} : Spared w (v.disposeData data) := by
  obtain ⟨host, puts, -, e⟩ := v.disposeData_eq data
  rw [e]
  exact s.trans (.of_tables rfl rfl rfl rfl rfl rfl)

theorem unpin (s : Spared w v) : Spared w (v.unpin b) := by
  unfold World.unpin
  split
  · exact s
  · split
    · exact s.onHost
    · exact s.modifyBinding fun _ => ⟨rfl, rfl, rfl, fun _ _ => id⟩

theorem dissolve (s : Spared w v) : Spared w (v.modifyBinding b ({ · with children := ∅ })) :=
  s.modifyBinding fun _ => ⟨rfl, rfl, rfl, fun _ _ h => by
    rw [Std.TreeMap.getElem?_emptyc] at h
    cases h⟩

theorem evict (s : Spared w v) {node : Node} : Spared w (v.evict n node) :=
  s.trans ⟨rfl, rfl, rfl, fun h => Table.get?_of_erase h,
    fun h => ⟨_, h, rfl, rfl, rfl, fun _ _ => id⟩, rfl, rfl⟩

theorem removeBinding (s : Spared w v) : Spared w (v.removeBinding b) :=
  s.trans ⟨rfl, rfl, rfl, id, fun h => ⟨_, Table.get?_of_erase h, rfl, rfl, rfl, fun _ _ => id⟩,
    Table.nextId_erase, rfl⟩

theorem removeInstance (s : Spared w v) : Spared w (v.removeInstance i) :=
  s.trans (.of_tables rfl rfl rfl rfl rfl Table.nextId_erase)

theorem settling : Settling fun v _ => Spared w v where
  disposed s := s.disposeData
  unpinned s := s.unpin
  dissolved _ s := s.dissolve
  absent _ s := s
  kept _ s := s
  evicted _ _ s := s.evict
  removedBinding _ _ s := s.removeBinding
  removedInstance _ _ s := s.removeInstance

theorem settle (s : Spared w v) : Spared w (v.settle tasks) := settling.settle_all s

theorem deactivate (s : Spared w v) : Spared w (v.deactivate i) :=
  deactivate_induction (P := Spared w) (fun s => s.onHost) (fun s => s.modifyInstance)
    (fun s => s.settle) s

/-! ## What is read off -/

theorem child? (s : Spared w v) (h : v.child? d name = some c) : w.child? d name = some c := by
  obtain ⟨x, hx, hc⟩ := child?_eq_some_iff.1 h
  obtain ⟨y, hy, -, -, -, children⟩ := s.bindings hx
  exact child?_eq_some_iff.2 ⟨y, hy, children name c hc⟩

theorem entered (s : Spared w v) (h : v.Entered d c) : w.Entered d c := by
  obtain ⟨name, h⟩ := h
  exact ⟨name, s.child? h⟩

theorem nodeOf (s : Spared w v) (h : v.nodeOf b = some n) : w.nodeOf b = some n := by
  obtain ⟨x, hx, hn⟩ := nodeOf_eq_some_iff.1 h
  obtain ⟨y, hy, -, -, node, -⟩ := s.bindings hx
  exact nodeOf_eq_some_iff.2 ⟨y, hy, node.symm.trans hn⟩

theorem has_binding (s : Spared w v) (there : v.bindings.has b = true) :
    w.bindings.has b = true := by
  obtain ⟨x, hx⟩ := Table.has_iff.1 there
  obtain ⟨y, hy, -⟩ := s.bindings hx
  exact Table.has_of_get? hy

/-- A binding that is still there stands for the same node. -/
theorem nodeOf_eq (s : Spared w v) (there : v.bindings.has b = true) :
    v.nodeOf b = w.nodeOf b := by
  obtain ⟨x, hx⟩ := Table.has_iff.1 there
  obtain ⟨y, hy, -, -, node, -⟩ := s.bindings hx
  rw [nodeOf_of_get? hx, nodeOf_of_get? hy, node]

end Spared

/-! ## Instances that somebody owns -/

namespace World

variable {w : World} {tasks : List Task} {i j : InstanceId}

/-- Callers and contexts own instances, and nobody else does. -/
theorem owned_inst_congr {v : World} (held : v.held = w.held) (contexts : v.contexts = w.contexts) :
    v.Owned (.inst i) ↔ w.Owned (.inst i) := by
  rw [← owns_iff, ← owns_iff]
  unfold owns ownsInstance
  rw [held, contexts]

/-- No instance changes when data is given back. -/
theorem instances_settle_dispose {data : Option PrivateData} :
    (w.settle (data.toList.map .dispose)).instances = w.instances := by
  rw [settle_dispose]
  cases data with
  | none => rfl
  | some data => exact (alike_disposeData data).2.2.2

/-- What somebody owns stays as it is. -/
theorem instances_settle_of_owned (h : w.Owned (.inst i)) :
    (w.settle tasks).instances.get? i = w.instances.get? i := by
  have step : Settling fun v _ => Spared w v ∧ v.instances.get? i = w.instances.get? i := {
    disposed := fun {v data _} h => by
      refine ⟨h.1.disposeData, ?_⟩
      rw [(v.alike_disposeData data).2.2.2]
      exact h.2
    unpinned := fun {v b _} h => by
      refine ⟨h.1.unpin, ?_⟩
      unfold World.unpin
      split
      · exact h.2
      · split
        · exact h.2
        · exact h.2
    dissolved := fun _ h => ⟨h.1.dissolve, h.2⟩
    absent := fun _ h => h
    kept := fun _ h => h
    evicted := fun _ _ h => ⟨h.1.evict, h.2⟩
    removedBinding := fun _ _ h => ⟨h.1.removeBinding, h.2⟩
    removedInstance := fun {v j inst _} _ free done => by
      refine ⟨done.1.removeInstance, ?_⟩
      have other : i ≠ j := by
        rintro rfl
        exact free ((owned_inst_congr done.1.held done.1.contexts).2 h)
      exact (Table.get?_erase ..).trans ((if_neg other).trans done.2) }
  exact (step.settle_all ⟨.refl, rfl⟩).2

/-- What nobody owns is gone when it is let go of, whatever other work there is. -/
theorem instances_settle_of_alone (alone : ¬ w.Owned (.inst i))
    (waiting : .letGo (.inst i) ∈ tasks) : (w.settle tasks).instances.get? i = none := by
  have unowned : ∀ {v : World}, Spared w v → ¬ v.Owned (.inst i) := fun s =>
    mt (owned_inst_congr s.held s.contexts).1 alone
  have later : ∀ {gone : Prop} {task : Task} {todo}, gone ∨ .letGo (.inst i) ∈ task :: todo →
      task ≠ .letGo (.inst i) → gone ∨ .letGo (.inst i) ∈ todo := fun h other =>
    h.imp_right fun mem => (List.mem_cons.1 mem).resolve_left other.symm
  -- as long as the instance is there, somebody has still to let go of it
  have step : Settling fun v todo => Spared w v ∧
      (v.instances.get? i = none ∨ .letGo (.inst i) ∈ todo) := {
    disposed := fun {v data todo} ⟨s, h⟩ => by
      refine ⟨s.disposeData, (later h nofun).imp_left fun gone => ?_⟩
      rw [(v.alike_disposeData data).2.2.2]
      exact gone
    unpinned := fun {v b todo} ⟨s, h⟩ => by
      refine ⟨s.unpin, (later h nofun).imp_left fun gone => ?_⟩
      unfold World.unpin
      split
      · exact gone
      · split
        · exact gone
        · exact gone
    dissolved := fun _ ⟨s, h⟩ => ⟨s.dissolve, (later h nofun).imp_right (List.mem_append_right _)⟩
    absent := fun _ ⟨s, h⟩ => ⟨s, later h nofun⟩
    kept := fun {v ref todo} free ⟨s, h⟩ => by
      refine ⟨s, ?_⟩
      by_cases e : ref = .inst i
      · subst e
        cases hi : v.instances.get? i with
        | none => exact .inl rfl
        | some x => exact .inr ((free (Table.has_of_get? hi)).resolve_left (unowned s))
      · exact later h (mt Task.letGo.inj e)
    evicted := fun _ _ ⟨s, h⟩ => ⟨s.evict, later h nofun⟩
    removedBinding := fun _ _ ⟨s, h⟩ =>
      ⟨s.removeBinding, (later h nofun).imp_right (List.mem_append_right _)⟩
    removedInstance := fun {v j inst todo} _ _ ⟨s, h⟩ => by
      refine ⟨s.removeInstance, ?_⟩
      by_cases e : i = j
      · exact .inl ((Table.get?_erase ..).trans (if_pos e))
      · have other : Task.letGo (.inst j) ≠ .letGo (.inst i) := fun same =>
          e (Ref.inst.inj (Task.letGo.inj same)).symm
        refine (later h other).imp (fun gone => ?_) (List.mem_append_right _)
        exact (Table.get?_erase ..).trans ((if_neg e).trans gone) }
  exact (step.settle_all ⟨.refl, .inr waiting⟩).2.resolve_right List.not_mem_nil

end World

end Memfs
