import Memfs.Proofs.Links.Counters

/-!
# What is not in place

A binding that is not in place and has no names in it gives no links. It may be made,
be given a node, or be gone, and the same bindings are in place as before; and a node
that no binding stands for may come and go as well. So letting go changes no shape, as
long as no tree hangs from an instance that is let go of.
-/

namespace Memfs

/-- The step takes no tree apart. -/
structure Task.Idle (task : Task) (w : World) : Prop where
  calm : task.Calm
  rootless : ∀ {i x}, task = .letGo (.inst i) → w.instances.get? i = some x → x.root = none

namespace World

variable {w w' : World} {todo : List Task} {b c d : BindingId} {n : NodeId} {i : InstanceId}
  {name : String} {loose : List BindingId}

/-! ## Nothing depends on it -/

theorem owned_of_placed (h : w.Placed b) : w.Owned (.binding b) := by
  rcases h with ⟨i, x, hi, root⟩ | ⟨d, name, entry⟩
  · exact ⟨.inst i, x, hi, root⟩
  · exact owned_of_child? entry

theorem not_entered_of_hasChildren (h : w.hasChildren d = false) : ¬ w.Entered d c := by
  rintro ⟨name, entry⟩
  obtain ⟨x, hx, hc⟩ := child?_eq_some_iff.1 entry
  have empty : x.children.isEmpty = true := by simpa [hasChildren, hx] using h
  rw [Std.TreeMap.isEmpty_iff_forall_not_mem] at empty
  exact empty name (Std.TreeMap.mem_iff_isSome_getElem?.2 (by rw [hc]; rfl))

/-- There are names in directories only. -/
theorem bindsDirectory_of_entered (f : Forest w) (h : w.Entered d c) :
    w.bindsDirectory d = true := by
  obtain ⟨_, entry⟩ := h
  exact f.above (f.entry entry).2

theorem not_entered_of_file (f : Forest w) (hn : w.nodeOf d = some n)
    (file : w.isDirectory n = false) : ¬ w.Entered d c := by
  intro entered
  obtain ⟨m, hm, isDir⟩ := bindsDirectory_iff.1 (bindsDirectory_of_entered f entered)
  rw [hn] at hm
  cases hm
  cases file.symm.trans isDir

theorem not_inUse_of_negative (f : Forest w) (out : ¬ w.Placed b) (negative : w.nodeOf b = none) :
    ¬ w.InUse b := by
  rintro (placed | ⟨c, entered⟩)
  · exact out placed
  · obtain ⟨m, hm, -⟩ := bindsDirectory_iff.1 (bindsDirectory_of_entered f entered)
    cases negative.symm.trans hm

/-- A loose directory without names in it is none that the others wait for. -/
theorem Upheld.leave (u : Upheld w (b :: loose)) (empty : ∀ c, ¬ w.Entered b c) :
    Upheld w loose where
  entered {e c} entered := by
    rcases u.entered entered with placed | mem
    · exact .inl placed
    · rcases List.mem_cons.1 mem with rfl | mem
      · exact absurd entered (empty c)
      · exact .inr mem
  roots := u.roots

/-- A node that no binding stands for has no links due. -/
theorem due_of_unbound (h : ∀ b, w.nodeOf b ≠ some n) : w.due n = 0 := by
  have own : ∀ b, w.own b n = 0 := fun b => if_neg (h b)
  have given : ∀ b d, w.given b d n = 0 := fun b d => if_neg fun both => h d both.2
  refine Finset.sum_eq_zero fun b _ => ?_
  have gives : ¬ ∃ d, w.Entered d b ∧ w.given b d n = 1 := by
    rintro ⟨d, -, one⟩
    rw [given] at one
    cases one
  unfold share
  rw [own, ite_self, if_neg gives, Nat.add_zero]

/-! ## Objects that come and go -/

namespace SameShape

theorem of_tables (nodes : w'.nodes = w.nodes) (bindings : w'.bindings = w.bindings)
    (instances : w'.instances = w.instances) : SameShape w w' := by
  refine .of_tree ⟨?_, fun b => ?_, fun _ => ?_⟩ instances
  · rw [bindings]
  · rw [bindings]
  · unfold World.isDirectory
    rw [nodes]

theorem pushNode (s : Sound w todo) {host : Host} {node : Node} :
    SameShape w { w with host, nodes := w.nodes.push node } := by
  refine .of_tree ⟨Nat.le_refl _, fun _ => rfl, fun {b m} h => ?_⟩ rfl
  have there : w.nodes.has m = true := s.tended.there (owned_of_nodeOf h)
  obtain ⟨x, hx⟩ := Table.has_iff.1 there
  unfold World.isDirectory
  simp only [Table.get?_push_of_ne (Nat.ne_of_lt (Table.get?_lt hx))]

theorem evict {node : Node} (free : ¬ w.Owned (.node n)) : SameShape w (w.evict n node) := by
  refine .of_tree ⟨Nat.le_refl _, fun _ => rfl, fun {b m} h => ?_⟩ rfl
  have hne : m ≠ n := by
    rintro rfl
    exact free (owned_of_nodeOf h)
  unfold World.isDirectory World.evict
  simp only [Table.get?_erase, if_neg hne]

theorem pushBinding (s : Sound w todo) {host : Host} {parent : Option BindingId} :
    SameShape w { w with host, bindings := w.bindings.push { name, parent } } where
  rooted _ := rooted_of_instances rfl
  entered _ _ := entered_of_child? fun _ _ => Forest.child?_pushBinding
  node _ _ := Forest.nodeOf_pushBinding
  directory _ _ _ _ := rfl
  parentless b root none := by
    have there : w.bindings.has b = true := s.tended.there (owned_of_placed (.inl root))
    obtain ⟨x, hx⟩ := Table.has_iff.1 there
    rw [Forest.parentOf_pushBinding s.forest (Nat.ne_of_lt (Table.get?_lt hx)), none]

/-- A binding that nothing depends on gets a node. -/
theorem setNode {x : Binding} {g : Binding → Binding} (hx : w.bindings.get? b = some x)
    (hparent : (g x).parent = x.parent) (hchildren : (g x).children = x.children)
    (free : ¬ w.InUse b) : SameShape w (w.modifyBinding b g) where
  rooted _ := rooted_of_instances rfl
  entered _ _ := entered_of_child? fun _ _ => child?_modifyBinding_of_children_eq hx hchildren
  node c used := by
    rw [nodeOf_modifyBinding hx, if_neg]
    rintro rfl
    exact free used
  directory _ _ _ _ := rfl
  parentless _ _ none := (parentOf_modifyBinding_of_parent_eq hx hparent).trans none

theorem removeBinding (free : ¬ w.InUse b) : SameShape w (w.removeBinding b) := by
  have found : ∀ c, c ≠ b → (w.removeBinding b).bindings.get? c = w.bindings.get? c := fun c hne =>
    (Table.get?_erase ..).trans (if_neg hne)
  have gone : (w.removeBinding b).bindings.get? b = none :=
    (Table.get?_erase ..).trans (if_pos rfl)
  have child : ∀ e k, (w.removeBinding b).child? e k = w.child? e k := by
    intro e k
    unfold World.child?
    by_cases same : e = b
    · subst same
      rw [gone]
      cases inside : w.child? e k with
      | none => exact inside.symm
      | some c => exact absurd (.inr ⟨c, k, inside⟩) free
    · rw [found e same]
  refine ⟨fun _ => rooted_of_instances rfl, fun _ _ => entered_of_child? child, fun c used => ?_,
    fun _ _ _ _ => rfl, fun c _ none => ?_⟩
  · have hne : c ≠ b := by
      rintro rfl
      exact free used
    unfold World.nodeOf
    rw [found c hne]
  · cases still : (w.removeBinding b).parentOf c with
    | none => rfl
    | some p =>
        obtain ⟨⟨x, hx, hp⟩, there⟩ := parentOf_eq_some_iff.1 still
        have parent : w.parentOf c = some p := parentOf_eq_some_iff.2
          ⟨⟨x, Table.get?_of_erase hx, hp⟩, (Table.has_erase.1 there).2⟩
        cases none.symm.trans parent

theorem removeInstance {x : Instance} (hi : w.instances.get? i = some x) (rootless : x.root = none) :
    SameShape w (w.removeInstance i) where
  rooted b := by
    constructor
    · rintro ⟨j, y, hy, root⟩
      exact ⟨j, y, Table.get?_of_erase hy, root⟩
    · rintro ⟨j, y, hy, root⟩
      refine ⟨j, y, (Table.get?_erase ..).trans ?_, root⟩
      rw [if_neg, hy]
      rintro rfl
      cases hi.symm.trans hy
      cases rootless.symm.trans root
  entered _ _ := Iff.rfl
  node _ _ := rfl
  directory _ _ _ _ := rfl
  parentless _ _ h := h

end SameShape

end World

/-- The next binding is in no place. -/
theorem Sound.fresh_unplaced {w : World} {todo : List Task} (s : Sound w todo) :
    ¬ w.Placed w.bindings.nextId :=
  fun placed => s.tended.fresh_binding (World.owned_of_placed placed)

/-- A binding for a free name is not in place yet. -/
theorem Vacant.not_placed {w : World} {b d : BindingId} {name : String}
    {loose : List BindingId} (v : Vacant w b d name) (u : w.Upheld loose) (f : Forest w) :
    ¬ w.Placed b := by
  rintro (root | ⟨e, k, entry⟩)
  · cases (u.roots root).symm.trans v.parent
  · obtain ⟨m, hm⟩ := f.bound entry
    cases v.negative.symm.trans hm

open World in
/-- A fresh binding gets its node and its place, and with them its links. -/
theorem Vacant.shape {w : World} {b d : BindingId} {name : String} {n dir : NodeId}
    {loose : List BindingId} (v : Vacant w b d name) (u : w.Upheld loose) (f : Forest w)
    (upheld : w.Placed d ∨ d ∈ loose) (hd : w.nodeOf d = some dir) :
    (w.instantiate b n).Upheld loose ∧
      (∀ c, (w.instantiate b n).Placed c ↔ c = b ∨ w.Placed c) ∧
      (∀ e c, (w.instantiate b n).Entered e c ↔ (e = d ∧ c = b) ∨ w.Entered e c) ∧
      ∀ m, (w.instantiate b n).due m = w.due m
        + ((if m = n then if w.isDirectory n then 2 else 1 else 0)
          + if m = dir then if w.isDirectory n then 1 else 0 else 0) := by
  obtain ⟨x, hx⟩ := Table.has_iff.1 (has_of_parentOf v.parent)
  have out : ¬ w.Placed b := v.not_placed u f
  have bound : SameShape w (w.modifyBinding b ({ · with node := some n })) :=
    .setNode hx rfl rfl (not_inUse_of_negative f out v.negative)
  have hnb : (w.modifyBinding b ({ · with node := some n })).nodeOf b = some n := by
    rw [nodeOf_modifyBinding hx, if_pos rfl]
  have hnd : (w.modifyBinding b ({ · with node := some n })).nodeOf d = some dir := by
    rw [nodeOf_modifyBinding hx, if_neg, hd]
    rintro rfl
    cases v.negative.symm.trans hd
  have isDir : (w.modifyBinding b ({ · with node := some n })).bindsDirectory b
      = w.isDirectory n := by
    unfold World.bindsDirectory
    rw [hnb]
    rfl
  have there : (w.modifyBinding b ({ · with node := some n })).bindings.has d = true :=
    has_modifyBinding.trans (has_parent v.parent)
  have free : (w.modifyBinding b ({ · with node := some n })).child? d name = none := by
    rw [child?_modifyBinding_of_children_eq hx rfl, v.free]
  have outB : ¬ (w.modifyBinding b ({ · with node := some n })).Placed b := mt bound.placed.1 out
  rw [v.instantiate_eq]
  refine ⟨Upheld.enter ?_ there free (upheld.imp bound.placed.2 id), fun c => ?_, fun e c => ?_,
    fun m => ?_⟩
  · exact (bound.upheld u).mono fun _ mem => List.mem_cons_of_mem _ mem
  · rw [placed_enter there free, bound.placed]
  · rw [entered_enter there free, bound.entered]
  · rw [due_enter there free outB, bound.due, own_of_nodeOf hnb, given_of_nodeOf hnd, isDir]
    rfl

/-! ## Letting go -/

namespace Task.Idle

variable {w w' : World} {task : Task}

theorem mono (h : task.Idle w)
    (fewer : ∀ i x, w'.instances.get? i = some x → w.instances.get? i = some x) :
    task.Idle w' :=
  ⟨h.calm, fun e hi => h.rootless e (fewer _ _ hi)⟩

theorem binding {b : BindingId} : (Task.letGo (.binding b)).Idle w := ⟨trivial, nofun⟩

theorem node {n : NodeId} : (Task.letGo (.node n)).Idle w := ⟨trivial, nofun⟩

theorem of_binding {x : Binding} (h : task ∈ x.owned) : task.Idle w := by
  refine ⟨Binding.calm_owned task h, fun e => ?_⟩
  unfold Binding.owned at h
  rcases List.mem_append.1 h with h | h
  · obtain ⟨n, -, rfl⟩ := List.mem_map.1 h
    cases e
  · obtain ⟨c, -, rfl⟩ := List.mem_map.1 h
    cases e

theorem of_instance {x : Instance} (h : task ∈ x.owned) : task.Idle w := by
  refine ⟨Instance.calm_owned task h, fun e => ?_⟩
  unfold Instance.owned at h
  rcases List.mem_append.1 h with h | h
  · obtain ⟨b, -, rfl⟩ := List.mem_map.1 h
    cases e
  · obtain ⟨data, -, rfl⟩ := List.mem_map.1 h
    cases e

end Task.Idle

/-- What holds while work is done that takes no tree apart. -/
structure Idling (w v : World) (todo : List Task) : Prop where
  sound : Sound v todo
  shape : World.SameShape w v
  upheld : World.Upheld v []
  idle : ∀ task ∈ todo, task.Idle v

open World in
theorem Idling.settling {w : World} : Settling (Idling w) where
  disposed {v data todo} h := by
    obtain ⟨-, nodes, bindings, inst⟩ := v.alike_disposeData data
    have shape : SameShape v (v.disposeData data) := .of_tables nodes bindings inst
    refine ⟨h.sound.dispose, h.shape.trans shape, shape.upheld h.upheld, fun task mem => ?_⟩
    refine (h.idle task (List.mem_cons_of_mem _ mem)).mono fun i x hx => ?_
    rwa [inst] at hx
  unpinned h := (h.idle _ List.mem_cons_self).calm.elim
  dissolved _ h := (h.idle _ List.mem_cons_self).calm.elim
  absent _ h := (h.idle _ List.mem_cons_self).calm.elim
  kept owned h := ⟨h.sound.drop owned, h.shape, h.upheld, fun task mem =>
    h.idle task (List.mem_cons_of_mem _ mem)⟩
  evicted hn free h := by
    refine ⟨h.sound.evict hn free, h.shape.trans (.evict free),
      (SameShape.evict free).upheld h.upheld, fun task mem => ?_⟩
    exact (h.idle task (List.mem_cons_of_mem _ mem)).mono fun _ _ hx => hx
  removedBinding {v b x todo} hx free h := by
    -- it is not in place, so nothing is in it
    have out : ¬ v.Placed b := mt owned_of_placed free
    have unused : ¬ v.InUse b := by
      rintro (placed | ⟨c, entered⟩)
      · exact out placed
      · exact out ((h.upheld.entered entered).resolve_right List.not_mem_nil)
    refine ⟨h.sound.removeBinding hx free, h.shape.trans (.removeBinding unused),
      (SameShape.removeBinding unused).upheld h.upheld, fun task mem => ?_⟩
    rcases List.mem_append.1 mem with mem | mem
    · exact .of_binding mem
    · exact (h.idle task (List.mem_cons_of_mem _ mem)).mono fun _ _ hx => hx
  removedInstance {v i x todo} hi free h := by
    have rootless : x.root = none := (h.idle _ List.mem_cons_self).rootless rfl hi
    have shape : SameShape v (v.removeInstance i) := .removeInstance hi rootless
    refine ⟨h.sound.removeInstance hi free, h.shape.trans shape, shape.upheld h.upheld,
      fun task mem => ?_⟩
    rcases List.mem_append.1 mem with mem | mem
    · exact .of_instance mem
    · exact (h.idle task (List.mem_cons_of_mem _ mem)).mono fun _ _ hx => Table.get?_of_erase hx

open World in
/-- Letting go changes no shape, as long as no tree is taken apart. -/
theorem World.Upheld.settle {w : World} {tasks hand : List Task} (u : Upheld w [])
    (s : Sound w (tasks ++ hand)) (idle : ∀ task ∈ tasks ++ hand, task.Idle w) :
    SameShape w (w.settle tasks) := by
  have start : Idling w w (tasks ++ hand) := ⟨s, .refl, u, idle⟩
  exact (Idling.settling.settle start).shape

end Memfs
