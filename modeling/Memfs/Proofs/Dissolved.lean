import Memfs.Proofs.Accounts
import Memfs.Proofs.Counts
import Memfs.Proofs.Dissolving
import Memfs.Proofs.Teardown

/-!
# What a teardown leaves

A handle is what a caller, an open file or a context holds. After the teardown of an
instance, the bindings of its tree are there if there are handles to them, and no entry
leads from one to another. The nodes are there that a handle leads to, by itself or by a
binding that is left; they are as they were. All the others are given back with their
pages, and the ledger says so.
-/

namespace Memfs

open World

variable {w u v : World} {rs : List Removed} {i : InstanceId} {inst : Instance} {b c d : BindingId}
  {n : NodeId} {ref : Ref} {x : Binding}

/-- Handles are not parts of a tree. -/
def Holder.IsHandle : Holder → Prop
  | .caller | .file _ | .context _ => True
  | .binding _ | .inst _ => False

namespace World

/-- There is a handle to the object. -/
def Handled (w : World) (ref : Ref) : Prop :=
  ∃ holder : Holder, holder.IsHandle ∧ w.Owner ref holder

/-- The binding is there, and there is a handle to it if it is in the tree of the instance. -/
def Outlasts (w : World) (i : InstanceId) (b : BindingId) : Prop :=
  w.bindings.has b = true ∧ (w.InTree i b → w.Handled (.binding b))

/-- There is a handle to the node, or it is the node of a binding that outlasts the
instance. -/
def Retains (w : World) (i : InstanceId) (n : NodeId) : Prop :=
  w.Handled (.node n) ∨ ∃ b, w.Outlasts i b ∧ w.nodeOf b = some n

end World

/-- What is made of `w` by tearing the instance down. -/
structure Dissolved (w : World) (i : InstanceId) (v : World) : Prop where
  bare : ∃ inst, v.instances.get? i = some inst ∧ inst.root = none ∧ inst.data = none
  handles : v.held = w.held ∧ v.files = w.files ∧ v.contexts = w.contexts
  bindings : ∀ b, v.bindings.has b = true ↔ w.Outlasts i b
  outside : ∀ b, ¬ w.InTree i b → v.bindings.get? b = w.bindings.get? b
  /-- What is left of the tree has no entries and no pins. -/
  inside : ∀ b x, w.InTree i b → v.bindings.get? b = some x →
    (∀ name : String, x.children[name]? = none) ∧ x.pins = 0 ∧
      ∃ y, w.bindings.get? b = some y ∧ x.name = y.name ∧ x.parent = y.parent ∧ x.node = y.node
  retained : ∀ n, w.Retains i n → v.nodes.get? n = w.nodes.get? n
  released : ∀ n, ¬ w.Retains i n → v.nodes.get? n = none
  /-- What is given back is what is gone. -/
  live_binding : v.host.live .binding + (w.bindings.ids \ v.bindings.ids).card
    = w.host.live .binding
  live_node : v.host.live .node + (w.nodes.ids \ v.nodes.ids).card = w.host.live .node
  live_page : v.host.live .page
      + ∑ n ∈ w.nodes.ids \ v.nodes.ids, (w.nodes.get? n).elim 0 (·.content.held)
    = w.host.live .page
  again : v.deactivate i = v

namespace World

/-! ## Trees -/

namespace InTree

/-- The directory that a binding of a tree is in is in the tree, for the root is in no directory. -/
theorem directory (p : Poised rs w) (h : w.InTree i b) (entered : w.Entered d b) :
    w.InTree i d := by
  obtain ⟨inst, -, hi, -⟩ := id h
  rcases h.cases_top hi with root | ⟨e, above, inside⟩
  · obtain ⟨name, entry⟩ := entered
    cases (p.steady.roots ⟨i, inst, hi, root⟩).symm.trans (p.sound.forest.entry entry).2
  · exact entered_once p.sound.forest inside entered ▸ above

/-- A root that is in the tree is the root of this instance, for trees are apart. -/
theorem root_of_other (p : Poised rs w) (h : w.InTree i b) {j : InstanceId} {other : Instance}
    (hj : w.instances.get? j = some other) (root : other.root = some b) : j = i := by
  obtain ⟨inst, -, hi, -⟩ := id h
  rcases h.cases_top hi with top | ⟨d, -, name, entry⟩
  · exact p.steady.sole hj hi root top
  · cases (p.steady.roots ⟨j, other, hj, root⟩).symm.trans (p.sound.forest.entry entry).2

end InTree

/-! ## Before the tree is taken apart -/

/-- The instance has begun to end and has given up its data. -/
def stripped (w : World) (i : InstanceId) (inst : Instance) : World :=
  let v := (w.modifyInstance i ({ · with dying := true })).note (.deactivating inst.type.name)
  let v := if inst.data = some .foreign then v.note .foreignData else v
  v.setData i none

/-- It has given up its root too. -/
def uprooted (w : World) (i : InstanceId) (inst : Instance) : World :=
  (w.stripped i inst).modifyInstance i ({ · with root := none })

theorem setData_frame {data : Option PrivateData} : Spared w (w.setData i data) ∧
    (w.setData i data).nodes = w.nodes ∧ (w.setData i data).bindings = w.bindings ∧
      (w.setData i data).instances = w.instances.modify i ({ · with data }) := by
  unfold setData
  rw [settle_dispose]
  cases (w.instances.get? i).bind (·.data) with
  | none => exact ⟨Spared.refl.modifyInstance, rfl, rfl, rfl⟩
  | some before =>
      obtain ⟨-, nodes, bindings, inst⟩ :=
        (w.modifyInstance i ({ · with data })).alike_disposeData before
      exact ⟨Spared.refl.modifyInstance.disposeData, nodes, bindings, inst⟩

section

variable (hi : w.instances.get? i = some inst)
include hi

/-- Nothing but the instance changes, and no handle does. -/
theorem stripped_frame : Spared w (w.stripped i inst) ∧ (w.stripped i inst).nodes = w.nodes ∧
    (w.stripped i inst).bindings = w.bindings ∧
      ∀ j, (w.stripped i inst).instances.get? j = if j = i then
        some { inst with dying := true, data := none } else w.instances.get? j := by
  have strip : ∀ {v : World}, Spared w v → v.nodes = w.nodes → v.bindings = w.bindings →
      v.instances = w.instances.modify i ({ · with dying := true }) →
        Spared w (v.setData i none) ∧ (v.setData i none).nodes = w.nodes ∧
          (v.setData i none).bindings = w.bindings ∧
            ∀ j, (v.setData i none).instances.get? j = if j = i then
              some { inst with dying := true, data := none } else w.instances.get? j := by
    intro v spared nodes bindings instances
    obtain ⟨spared', nodes', bindings', instances'⟩ : Spared v (v.setData i none) ∧ _ :=
      setData_frame
    refine ⟨spared.trans spared', nodes'.trans nodes, bindings'.trans bindings, fun j => ?_⟩
    rw [instances', instances]
    simp only [Table.get?_modify, if_true, hi, Option.map_some]
    split
    · rfl
    · rfl
  unfold stripped
  simp only
  split
  · exact strip Spared.refl.modifyInstance.onHost.onHost rfl rfl rfl
  · exact strip Spared.refl.modifyInstance.onHost rfl rfl rfl

theorem instances_stripped : (w.stripped i inst).instances.get? i
    = some { inst with dying := true, data := none } :=
  ((stripped_frame hi).2.2.2 i).trans (if_pos rfl)

/-- A teardown with the configuration, once it has begun. -/
theorem deactivate_eq (stands : inst.dying = false) (own : inst.type.teardown = .withConfig) :
    w.deactivate i = (((w.uprooted i inst).settle inst.uprooting).note
      (.tornDown inst.type.name)).note .released := by
  have marked : ((w.modifyInstance i ({ · with dying := true })).note
      (.deactivating inst.type.name)).instances.get? i = some { inst with dying := true } := by
    refine (Table.get?_modify ..).trans ?_
    rw [if_pos rfl, hi]
    rfl
  rw [deactivate_of_standing hi stands]
  unfold tearDown
  rw [marked]
  simp only [own]
  rw [dissolveBuiltIn_eq]
  simp only [marked, Option.bind_some]
  show ((w.stripped i inst).dissolveTree i).note .released = _
  unfold dissolveTree
  rw [instances_stripped hi]
  rfl

end

end World

/-- What is left to do is sound, for the root is let go of. -/
theorem Sound.uprooted (s : Sound w []) (hi : w.instances.get? i = some inst) :
    Sound (w.uprooted i inst) inst.uprooting := by
  have stripped : Sound (w.stripped i inst) [] := by
    unfold World.stripped
    simp only
    split
    · exact (((s.dying hi).note _).note _).setData
    · exact ((s.dying hi).note _).setData
  have sound := stripped.unroot (instances_stripped hi)
  rwa [List.append_nil] at sound

/-! ## After the tree is taken apart -/

theorem World.handled_congr (s : Spared w v) : v.Handled ref ↔ w.Handled ref := by
  refine exists_congr fun holder => and_congr_right fun handle => ?_
  unfold Owner
  cases holder with
  | caller => simp only [s.held]
  | file f => simp only [s.files]
  | context c => simp only [s.contexts]
  | binding b => exact handle.elim
  | inst j => exact handle.elim

/-- The tree that the instance had in `w` is apart in `v`, and all the work is done. -/
structure Apart (w : World) (i : InstanceId) (v : World) : Prop where
  sound : Sound v []
  spared : Spared w v
  outside : ∀ b, ¬ w.InTree i b → v.bindings.get? b = w.bindings.get? b
  empty : ∀ {b c}, w.InTree i b → ¬ v.Entered b c
  unpinned : ∀ {b x}, w.InTree i b → v.bindings.get? b = some x → x.pins = 0
  bare : ∃ inst, v.instances.get? i = some inst ∧ inst.root = none ∧ inst.data = none
  others : ∀ {j x}, j ≠ i → v.instances.get? j = some x → w.instances.get? j = some x

theorem Poised.apart (p : Poised rs w) (hi : w.instances.get? i = some inst) :
    Apart w i ((w.uprooted i inst).settle inst.uprooting) := by
  obtain ⟨spared, -, bindings, instances⟩ := stripped_frame hi
  have spared : Spared w (w.uprooted i inst) := spared.modifyInstance
  have bindings : (w.uprooted i inst).bindings = w.bindings := bindings
  have uprooted : ∀ j, (w.uprooted i inst).instances.get? j = if j = i then
      some { inst with dying := true, data := none, root := none } else w.instances.get? j := by
    intro j
    refine (Table.get?_modify ..).trans ?_
    simp only [instances, if_true, Option.map_some]
    split
    · rfl
    · rfl
  have entered : ∀ d c, (w.uprooted i inst).Entered d c ↔ w.Entered d c := fun d c => by
    unfold World.Entered World.child?
    rw [bindings]
  have apart : Dissolving (w.uprooted i inst) (w.InTree i)
      ((w.uprooted i inst).settle inst.uprooting) [] := by
    refine (Dissolving.settling fun inside edge => inside.child ((entered _ _).1 edge)).settle_all
      (.start (p.sound.uprooted hi) (fun b root => ?_) (fun {b x} inside hx => ?_)
        fun {b} inside => ?_)
    · exact ⟨inst, b, hi, root, .refl⟩
    · rw [bindings] at hx
      exact p.steady.pins hx inside.placed
    · exact (inside.cases_top hi).imp id fun ⟨d, _, edge⟩ => ⟨d, (entered d b).2 edge⟩
  have up : ∀ {d b}, w.InTree i b → (w.uprooted i inst).Entered d b → w.InTree i d :=
    fun inside edge => inside.directory p ((entered _ _).1 edge)
  refine ⟨apart.sound, spared.trans apart.spared, fun b out => ?_, apart.empty up,
    apart.unpinned up, ⟨{ inst with dying := true, data := none, root := none }, ?_, rfl, rfl⟩,
    fun {j x} hne hj => ?_⟩
  · rw [apart.outside b out, bindings]
  · -- somebody owns the instance, so it is not let go of with its tree
    have there : w.Has (.inst i) := Table.has_of_get? hi
    have owned : w.Owned (.inst i) := p.sound.owned there
    rw [instances_settle_of_owned ((owned_inst_congr spared.held spared.contexts).2 owned),
      uprooted, if_pos rfl]
  · have before := mountsKept_settle.instances _ _ hj
    rwa [uprooted, if_neg hne] at before

namespace Apart

theorem note (a : Apart w i v) (notice : Notice) : Apart w i (v.note notice) :=
  ⟨a.sound.note _, a.spared.onHost, a.outside, a.empty, a.unpinned, a.bare, a.others⟩

variable (a : Apart w i v) (p : Poised rs w)
include a p

/-- In the tree there is nobody left to own a binding, and so it takes a handle. -/
theorem has_binding_iff : v.bindings.has b = true ↔ w.Outlasts i b := by
  constructor
  · intro there
    obtain ⟨x, hx⟩ := Table.has_iff.1 there
    obtain ⟨y, hy, -⟩ := a.spared.bindings hx
    refine ⟨Table.has_of_get? hy, fun inside => (handled_congr a.spared).1 ?_⟩
    have there : v.Has (.binding b) := there
    obtain ⟨holder, owner⟩ := a.sound.owned there
    cases holder with
    | caller => exact ⟨.caller, trivial, owner⟩
    | file f => exact ⟨.file f, trivial, owner⟩
    | context c => exact ⟨.context c, trivial, owner⟩
    | binding d =>
        obtain ⟨z, hz, name, hc⟩ := owner
        have entered : v.Entered d b := ⟨name, child?_eq_some_iff.2 ⟨z, hz, hc⟩⟩
        exact absurd entered (a.empty (inside.directory p (a.spared.entered entered)))
    | inst j =>
        obtain ⟨other, hj, root⟩ := owner
        by_cases e : j = i
        · subst e
          obtain ⟨bare, hbare, none, -⟩ := a.bare
          cases hbare.symm.trans hj
          cases none.symm.trans root
        · exact absurd (inside.root_of_other p (a.others e hj) root) e
  · rintro ⟨there, handled⟩
    by_cases inside : w.InTree i b
    · obtain ⟨holder, -, owner⟩ := (handled_congr a.spared).2 (handled inside)
      exact a.sound.tended.there ⟨holder, owner⟩
    · obtain ⟨x, hx⟩ := Table.has_iff.1 there
      exact Table.has_of_get? ((a.outside b inside).trans hx)

theorem has_node_iff : v.nodes.has n = true ↔ w.Retains i n := by
  constructor
  · intro there
    have there : v.Has (.node n) := there
    obtain ⟨holder, owner⟩ := a.sound.owned there
    cases holder with
    | caller => exact .inl ((handled_congr a.spared).1 ⟨.caller, trivial, owner⟩)
    | file f => exact .inl ((handled_congr a.spared).1 ⟨.file f, trivial, owner⟩)
    | context c => exact .inl ((handled_congr a.spared).1 ⟨.context c, trivial, owner⟩)
    | binding b =>
        obtain ⟨x, hx, hn⟩ := owner
        exact .inr ⟨b, (a.has_binding_iff p).1 (Table.has_of_get? hx),
          a.spared.nodeOf (nodeOf_eq_some_iff.2 ⟨x, hx, hn⟩)⟩
    | inst j => exact owner.choose_spec.2.elim
  · rintro (handled | ⟨b, outlasts, hn⟩)
    · obtain ⟨holder, -, owner⟩ := (handled_congr a.spared).2 handled
      exact a.sound.tended.there ⟨holder, owner⟩
    · have there := (a.has_binding_iff p).2 outlasts
      exact a.sound.tended.there (owned_of_nodeOf ((a.spared.nodeOf_eq there).trans hn))

end Apart

/-- What is given back on the way is what is gone. -/
theorem Spared.live (spared : Spared w v) (s : Sound w []) (s' : Sound v []) :
    v.host.live .binding + (w.bindings.ids \ v.bindings.ids).card = w.host.live .binding ∧
      v.host.live .node + (w.nodes.ids \ v.nodes.ids).card = w.host.live .node ∧
        v.host.live .page
            + ∑ n ∈ w.nodes.ids \ v.nodes.ids, (w.nodes.get? n).elim 0 (·.content.held)
          = w.host.live .page := by
  have bindings : v.bindings.ids ⊆ w.bindings.ids := fun b mem => by
    obtain ⟨x, hx⟩ := Table.has_iff.1 (Table.mem_ids.1 mem)
    obtain ⟨y, hy, -⟩ := spared.bindings hx
    exact Table.mem_ids.2 (Table.has_of_get? hy)
  have same : ∀ n ∈ v.nodes.ids, w.nodes.get? n = v.nodes.get? n := fun n mem => by
    obtain ⟨x, hx⟩ := Table.has_iff.1 (Table.mem_ids.1 mem)
    exact (spared.nodes hx).trans hx.symm
  have nodes : v.nodes.ids ⊆ w.nodes.ids := fun n mem => by
    rw [Table.mem_ids] at mem ⊢
    rwa [Table.has, same n (Table.mem_ids.2 mem)]
  refine ⟨?_, ?_, ?_⟩
  · rw [s.live_binding, s'.live_binding, Nat.add_comm]
    exact Finset.card_sdiff_add_card_eq_card bindings
  · rw [s.live_node, s'.live_node, Nat.add_comm]
    exact Finset.card_sdiff_add_card_eq_card nodes
  · rw [s.live_page, s'.live_page, Nat.add_comm, ← Finset.sum_sdiff nodes]
    refine congrArg (_ + ·) (Finset.sum_congr rfl fun n mem => ?_)
    rw [same n mem]

/-- The built-in teardown, as a whole. -/
theorem Poised.dissolved (p : Poised rs w) (hi : w.instances.get? i = some inst)
    (stands : inst.dying = false) (own : inst.type.teardown = .withConfig) :
    Dissolved w i (w.deactivate i) := by
  have apart : Apart w i (w.deactivate i) := by
    rw [deactivate_eq hi stands own]
    exact ((p.apart hi).note _).note _
  obtain ⟨bindings, nodes, pages⟩ := apart.spared.live p.sound apart.sound
  refine {
    bare := apart.bare
    handles := ⟨apart.spared.held, apart.spared.files, apart.spared.contexts⟩
    bindings := fun b => apart.has_binding_iff p
    outside := apart.outside
    inside := fun b x inside hx => ?_
    retained := fun n retained => ?_
    released := fun n lost => ?_
    live_binding := bindings
    live_node := nodes
    live_page := pages
    again := deactivate_of_not_standing (Bool.eq_false_iff.2 fun stands =>
      (standing_of_deactivate stands).1 rfl) }
  · obtain ⟨y, hy, name, parent, node, -⟩ := apart.spared.bindings hx
    refine ⟨fun k => ?_, apart.unpinned inside hx, y, hy, name, parent, node⟩
    cases hc : x.children[k]? with
    | none => rfl
    | some c => exact absurd ⟨k, child?_eq_some_iff.2 ⟨x, hx, hc⟩⟩ (apart.empty inside)
  · obtain ⟨x, hx⟩ := Table.has_iff.1 ((apart.has_node_iff p).2 retained)
    exact hx.trans (apart.spared.nodes hx).symm
  · refine Option.eq_none_iff_forall_ne_some.2 fun x hx => ?_
    exact lost ((apart.has_node_iff p).1 (Table.has_of_get? hx))

/-- After any calls, the teardown of an instance takes its whole tree apart and gives back
everything that no handle leads to. -/
theorem dissolved_run (clock : Clock) {calls : List Call}
    (hi : ((World.fresh clock).run calls).instances.get? i = some inst)
    (stands : inst.dying = false) (own : inst.type.teardown = .withConfig) :
    Dissolved ((World.fresh clock).run calls) i (((World.fresh clock).run calls).deactivate i) :=
  (Poised.fresh.run (List.forall_mem_nil _)).dissolved hi stands own

/-- A directory is held, and of two files in it, each with a page, one has another name and
is open. -/
theorem dissolved_run_held :
    let calls : List Call := [.register builtInType, .mount "tagfs" "",
      .operate (.mkdir 0 "d" ⟨0o755⟩), .hold (.binding 1), .operate (.create 1 "f" ⟨0o644⟩),
      .operate (.link 2 0 "g"), .operate (.openFile 2 .writing), .operate (.write 0 #[1, 2, 3]),
      .operate (.create 1 "h" ⟨0o644⟩), .operate (.openFile 4 .writing),
      .operate (.write 1 #[4, 5]), .closeFile 1]
    let w := (World.fresh (.steady 0 0 1)).run calls
    ∃ inst, w.instances.get? 0 = some inst ∧ inst.dying = false ∧
      inst.type.teardown = .withConfig ∧ Dissolved w 0 (w.deactivate 0) ∧
        w.host.live .page = 2 ∧ (w.deactivate 0).host.live .page = 1 := by
  intro calls w
  have found : (w.instances.get? 0).any
      (fun inst => !inst.dying && inst.type.teardown == .withConfig) = true := by decide +kernel
  obtain ⟨inst, hi, mounted⟩ := (Option.any_eq_true _ _).1 found
  simp only [Bool.and_eq_true, Bool.not_eq_true', beq_iff_eq] at mounted
  exact ⟨inst, hi, mounted.1, mounted.2, dissolved_run (.steady 0 0 1) hi mounted.1 mounted.2,
    by decide +kernel, by decide +kernel⟩

end Memfs
