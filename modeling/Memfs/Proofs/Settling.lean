import Memfs.Instance
import Memfs.Proofs.Charges
import Memfs.Proofs.Forest.Changes

/-!
# Letting go, step by step

`settle` does a list of work that grows while it is done, so what it ends in is not
read off the list. What can be read off is what one step does. `Settling P` lists
the steps, and a property of a world and of its pending work that each of them keeps
is kept by all of them, whatever other work is pending besides. `Ending P` does the same
for the teardown of an instance.

An owner that lets go of an object which has another owner, or of one that is gone,
changes nothing. Most of what the operations let go of is of that sort.
-/

namespace Memfs

namespace World

variable {w : World} {ref : Ref} {rest : List Task}

@[simp]
theorem settle_nil : w.settle [] = w := by
  rw [settle]

theorem settle_dissolve {b : BindingId} {x : Binding} (hx : w.bindings.get? b = some x) :
    w.settle (.dissolve b :: rest)
      = (w.modifyBinding b fun x => { x with children := ∅ }).settle (x.dissolution ++ rest) := by
  rw [settle]
  split
  · next h => cases h.symm.trans hx
  · next h => cases h.symm.trans hx; rfl

theorem settle_dissolve_absent {b : BindingId} (hx : w.bindings.get? b = none) :
    w.settle (.dissolve b :: rest) = w.settle rest := by
  rw [settle]
  split
  · rfl
  · next h => cases h.symm.trans hx

/-- Letting go of what has another owner changes nothing, nor does letting go of what
will be let go of again. -/
theorem settle_letGo_kept (h : (w.owns ref || rest.contains (.letGo ref)) = true) :
    w.settle (.letGo ref :: rest) = w.settle rest := by
  cases ref with
  | node n => rw [settle, if_pos h]
  | binding b => rw [settle, if_pos h]
  | inst i => rw [settle, if_pos h]

theorem settle_letGo_owned (h : w.Owned ref) : w.settle (.letGo ref :: rest) = w.settle rest :=
  settle_letGo_kept (by rw [owns_iff.2 h, Bool.true_or])

theorem settle_letGo_absent (h : ¬ w.Has ref) : w.settle (.letGo ref :: rest) = w.settle rest := by
  by_cases hkept : (w.owns ref || rest.contains (.letGo ref)) = true
  · exact settle_letGo_kept hkept
  · cases ref with
    | node n =>
        have hn : w.nodes.get? n = none := by simpa [Has, Table.has] using h
        rw [settle, if_neg hkept, hn]
    | binding b =>
        have hb : w.bindings.get? b = none := by simpa [Has, Table.has] using h
        rw [settle, if_neg hkept]
        split
        · rfl
        · next h => cases h.symm.trans hb
    | inst i =>
        have hi : w.instances.get? i = none := by simpa [Has, Table.has] using h
        rw [settle, if_neg hkept]
        split
        · rfl
        · next h => cases h.symm.trans hi

theorem settle_letGo_node {n : NodeId} {node : Node} (hn : w.nodes.get? n = some node)
    (h : ¬ (w.owns (.node n) || rest.contains (.letGo (.node n))) = true) :
    w.settle (.letGo (.node n) :: rest) = (w.evict n node).settle rest := by
  rw [settle, if_neg h, hn]

theorem settle_letGo_binding {b : BindingId} {x : Binding} (hx : w.bindings.get? b = some x)
    (h : ¬ (w.owns (.binding b) || rest.contains (.letGo (.binding b))) = true) :
    w.settle (.letGo (.binding b) :: rest) = (w.removeBinding b).settle (x.owned ++ rest) := by
  rw [settle, if_neg h]
  split
  · next h => cases h.symm.trans hx
  · next h => cases h.symm.trans hx; rfl

theorem settle_letGo_inst {i : InstanceId} {inst : Instance}
    (hi : w.instances.get? i = some inst)
    (h : ¬ (w.owns (.inst i) || rest.contains (.letGo (.inst i))) = true) :
    w.settle (.letGo (.inst i) :: rest) = (w.removeInstance i).settle (inst.owned ++ rest) := by
  rw [settle, if_neg h]
  split
  · next h => cases h.symm.trans hi
  · next h => cases h.symm.trans hi; rfl

theorem settle_dispose {data : Option PrivateData} :
    w.settle (data.toList.map .dispose) = data.elim w w.disposeData := by
  cases data with
  | none => exact settle_nil
  | some data =>
      show w.settle [.dispose data] = _
      rw [settle, settle_nil]
      rfl

/-- A teardown puts the devices back itself before it gives the configuration up. That comes
to the same as giving the configuration up with its devices. -/
theorem dissolveBuiltIn_eq {i : InstanceId} : w.dissolveBuiltIn i =
    (((if (w.instances.get? i).bind (·.data) = some .foreign then w.note .foreignData
      else w).setData i none).dissolveTree i).note .released := by
  unfold dissolveBuiltIn setData
  cases found : (w.instances.get? i).bind (·.data) with
  | none =>
      rw [if_neg nofun, found, settle_dispose]
      rfl
  | some data =>
      cases data with
      | config config =>
          rw [if_neg nofun, found, settle_dispose]
          rfl
      | foreign =>
          have noted : ((w.note .foreignData).instances.get? i).bind (·.data) = some .foreign :=
            found
          rw [if_pos rfl, noted, settle_dispose]
          rfl

/-- Giving data back is a matter of the host and of what the devices record. -/
theorem disposeData_eq (w : World) (data : PrivateData) :
    ∃ host puts, w.host.Alike host ∧ w.disposeData data = { w with host, puts } := by
  have put : ∀ (v : World) sort device, ∃ host puts, v.host.Alike host ∧
      v.put sort device = { v with host, puts } := by
    intro v sort device
    unfold World.put
    simp only
    split
    · exact ⟨_, _, .note rfl, rfl⟩
    · exact ⟨_, _, .note rfl, rfl⟩
  have optional : ∀ (v : World) sort (device : Option Device), ∃ host puts, v.host.Alike host ∧
      device.elim v (v.put sort) = { v with host, puts } := by
    intro v sort device
    cases device with
    | none => exact ⟨_, _, .refl, rfl⟩
    | some device => exact put v sort device
  cases data with
  | foreign => exact ⟨_, _, .refl, rfl⟩
  | config config =>
      unfold disposeData
      obtain ⟨_, _, block, e⟩ := optional w .block config.block
      simp only [e]
      obtain ⟨_, _, direct, e⟩ := optional _ .direct config.direct
      rw [e]
      exact ⟨_, _, (block.trans direct).trans .released, rfl⟩

/-! ## What is below nothing -/

theorem bindings_letGo_node {n : NodeId} :
    (w.settle [.letGo (.node n)]).bindings = w.bindings := by
  by_cases kept : (w.owns (.node n) || [].contains (Task.letGo (.node n))) = true
  · rw [settle_letGo_kept kept, settle_nil]
  · cases hn : w.nodes.get? n with
    | none => rw [settle_letGo_absent (by simp [Has, Table.has, hn]), settle_nil]
    | some node =>
        rw [settle_letGo_node hn kept, settle_nil]
        rfl

variable {b c d : BindingId} {name : String}

/-- A binding with nothing below it takes no other binding with it. -/
theorem bindings_letGo_leaf (leaf : ∀ c, ¬ w.Entered b c) :
    (w.settle [.letGo (.binding b)]).bindings = w.bindings ∨
      (w.settle [.letGo (.binding b)]).bindings = w.bindings.erase b := by
  by_cases kept : (w.owns (.binding b) || [].contains (Task.letGo (.binding b))) = true
  · exact .inl (by rw [settle_letGo_kept kept, settle_nil])
  · cases hx : w.bindings.get? b with
    | none => exact .inl (by rw [settle_letGo_absent (by simp [Has, Table.has, hx]), settle_nil])
    | some x =>
        have bare : x.below = [] := List.eq_nil_iff_forall_not_mem.2 fun c mem => by
          obtain ⟨k, hk⟩ := Binding.mem_below.1 mem
          exact leaf c ⟨k, child?_eq_some_iff.2 ⟨x, hx, hk⟩⟩
        have owned : x.owned = x.node.toList.map fun n => .letGo (.node n) := by
          unfold Binding.owned
          rw [bare, List.map_nil, List.append_nil]
        rw [settle_letGo_binding hx kept, owned]
        refine .inr ?_
        cases x.node with
        | none => exact congrArg World.bindings settle_nil
        | some n => exact bindings_letGo_node

theorem child?_letGo_leaf (leaf : ∀ c, ¬ w.Entered b c) :
    (w.settle [.letGo (.binding b)]).child? d name = w.child? d name := by
  unfold World.child?
  rcases bindings_letGo_leaf leaf with same | gone
  · rw [same]
  · rw [gone, Table.get?_erase]
    split
    · next e =>
        subst e
        cases inside : w.child? d name with
        | none => exact inside.symm
        | some c => exact absurd ⟨name, inside⟩ (leaf c)
    · rfl

theorem nodeOf_letGo_leaf (leaf : ∀ c, ¬ w.Entered b c) :
    (w.settle [.letGo (.binding b)]).nodeOf c = w.nodeOf c ∨
      c = b ∧ (w.settle [.letGo (.binding b)]).nodeOf c = none := by
  unfold World.nodeOf
  rcases bindings_letGo_leaf leaf with same | gone
  · rw [same]
    exact .inl rfl
  · rw [gone, Table.get?_erase]
    split
    · next e => exact .inr ⟨e, rfl⟩
    · exact .inl rfl

end World

/-- `P` is kept by each step of letting go. -/
structure Settling (P : World → List Task → Prop) : Prop where
  disposed : ∀ {w data todo}, P w (.dispose data :: todo) → P (w.disposeData data) todo
  unpinned : ∀ {w b todo}, P w (.unpin b :: todo) → P (w.unpin b) todo
  dissolved : ∀ {w b x todo}, w.bindings.get? b = some x → P w (.dissolve b :: todo) →
    P (w.modifyBinding b fun x => { x with children := ∅ }) (x.dissolution ++ todo)
  absent : ∀ {w b todo}, w.bindings.get? b = none → P w (.dissolve b :: todo) → P w todo
  kept : ∀ {w ref todo}, (w.Has ref → w.Owned ref ∨ .letGo ref ∈ todo) →
    P w (.letGo ref :: todo) → P w todo
  evicted : ∀ {w n node todo}, w.nodes.get? n = some node → ¬ w.Owned (.node n) →
    P w (.letGo (.node n) :: todo) → P (w.evict n node) todo
  removedBinding : ∀ {w b x todo}, w.bindings.get? b = some x → ¬ w.Owned (.binding b) →
    P w (.letGo (.binding b) :: todo) → P (w.removeBinding b) (x.owned ++ todo)
  removedInstance : ∀ {w i inst todo}, w.instances.get? i = some inst → ¬ w.Owned (.inst i) →
    P w (.letGo (.inst i) :: todo) → P (w.removeInstance i) (inst.owned ++ todo)

namespace Settling

open World

theorem settle {P : World → List Task → Prop} (p : Settling P) {hand : List Task} :
    ∀ {w : World} {tasks : List Task}, P w (tasks ++ hand) → P (w.settle tasks) hand := by
  have held : ∀ {w : World} {ref : Ref} {rest : List Task},
      (w.owns ref || rest.contains (.letGo ref)) = true →
        w.Has ref → w.Owned ref ∨ .letGo ref ∈ rest ++ hand := by
    intro w ref rest h _
    rcases (Bool.or_eq_true _ _).mp h with h | h
    · exact .inl (owns_iff.1 h)
    · exact .inr (List.mem_append_left _ (List.contains_iff_mem.1 h))
  have free : ∀ {w : World} {ref : Ref} {rest : List Task},
      ¬ (w.owns ref || rest.contains (.letGo ref)) = true → ¬ w.Owned ref := by
    intro w ref rest h owned
    rw [owns_iff.2 owned, Bool.true_or] at h
    exact h rfl
  have absent : ∀ {w : World} {ref : Ref} {todo : List Task}, ¬ w.Has ref →
      w.Has ref → w.Owned ref ∨ .letGo ref ∈ todo := fun h there => absurd there h
  intro w tasks
  induction w, tasks using World.settle.induct with
  | case1 w =>
      intro h
      rw [settle_nil]
      exact h
  | case2 w data rest ih =>
      intro h
      rw [World.settle]
      exact ih (p.disposed h)
  | case3 w b rest ih =>
      intro h
      rw [World.settle]
      exact ih (p.unpinned h)
  | case4 w b rest found ih =>
      intro h
      rw [settle_dissolve_absent found]
      exact ih (p.absent found h)
  | case5 w b rest x found ih =>
      intro h
      rw [settle_dissolve found]
      refine ih ?_
      rw [List.append_assoc]
      exact p.dissolved found h
  | case6 w ref rest kept ih =>
      intro h
      rw [settle_letGo_kept kept]
      exact ih (p.kept (held kept) h)
  | case7 w rest n gone _ ih =>
      intro h
      have gone : ¬ w.Has (.node n) := by simp [Has, Table.has, gone]
      rw [settle_letGo_absent gone]
      exact ih (p.kept (absent gone) h)
  | case8 w rest n node found unkept ih =>
      intro h
      rw [settle_letGo_node found unkept]
      exact ih (p.evicted found (free unkept) h)
  | case9 w rest b gone _ ih =>
      intro h
      have gone : ¬ w.Has (.binding b) := by simp [Has, Table.has, gone]
      rw [settle_letGo_absent gone]
      exact ih (p.kept (absent gone) h)
  | case10 w rest b x found unkept ih =>
      intro h
      rw [settle_letGo_binding found unkept]
      refine ih ?_
      rw [List.append_assoc]
      exact p.removedBinding found (free unkept) h
  | case11 w rest i gone _ ih =>
      intro h
      have gone : ¬ w.Has (.inst i) := by simp [Has, Table.has, gone]
      rw [settle_letGo_absent gone]
      exact ih (p.kept (absent gone) h)
  | case12 w rest i inst found unkept ih =>
      intro h
      rw [settle_letGo_inst found unkept]
      refine ih ?_
      rw [List.append_assoc]
      exact p.removedInstance found (free unkept) h

/-- All the work is done, and none is left. -/
theorem settle_all {P : World → List Task → Prop} (p : Settling P) {w : World} {tasks : List Task}
    (h : P w tasks) : P (w.settle tasks) [] := by
  refine p.settle ?_
  rwa [List.append_nil]

end Settling

/-- The work on the tree of an instance that has given up its root. -/
def Instance.uprooting (inst : Instance) : List Task :=
  inst.root.toList.flatMap fun root => [.dissolve root, .unpin root, .letGo (.binding root)]

theorem Instance.mem_uprooting {inst : Instance} {task : Task} : task ∈ inst.uprooting ↔
    ∃ b, inst.root = some b ∧
      (task = .dissolve b ∨ task = .unpin b ∨ task = .letGo (.binding b)) := by
  simp [Instance.uprooting]

/-- `P` is kept by each step of a teardown that has begun. -/
structure Ending (i : InstanceId) (P : World → Prop) : Prop where
  noted : ∀ {w : World} {notice : Notice}, notice.Calm → P w → P (w.note notice)
  stripped : ∀ {w}, P w → P (w.setData i none)
  dissolved : ∀ {w inst}, w.instances.get? i = some inst → P w →
    P ((w.modifyInstance i ({ · with root := none })).settle inst.uprooting)

namespace Ending

variable {P : World → Prop} {i : InstanceId} {w : World}

theorem dissolveTree (e : Ending i P) (h : P w) : P (w.dissolveTree i) := by
  unfold World.dissolveTree
  cases hi : w.instances.get? i with
  | none => exact h
  | some inst => exact e.noted ⟨rfl, rfl, rfl⟩ (e.dissolved hi h)

theorem dissolveBuiltIn (e : Ending i P) (h : P w) : P (w.dissolveBuiltIn i) := by
  rw [World.dissolveBuiltIn_eq]
  refine e.noted ⟨rfl, rfl, rfl⟩ (e.dissolveTree (e.stripped ?_))
  split
  · exact e.noted ⟨rfl, rfl, rfl⟩ h
  · exact h

theorem tearDown (e : Ending i P) (h : P w) : P (w.tearDown i) := by
  unfold World.tearDown
  cases w.instances.get? i with
  | none => exact h
  | some inst =>
      simp only
      split
      · exact e.dissolveTree h
      · exact e.dissolveBuiltIn h

/-- A teardown begins when its instance is marked. -/
theorem deactivate (e : Ending i P) (h : P w) (marked : ∀ {inst}, w.instances.get? i = some inst →
    P (w.modifyInstance i ({ · with dying := true }))) : P (w.deactivate i) := by
  unfold World.deactivate
  cases hi : w.instances.get? i with
  | none => exact h
  | some inst =>
      simp only
      split
      · exact h
      · exact e.tearDown (e.noted ⟨rfl, rfl, rfl⟩ (marked hi))

end Ending

end Memfs
