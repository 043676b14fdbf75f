import Memfs.Proofs.Links.Idle

/-!
# Counters that show what is due

`Exact` is the invariant: the counter of every node shows the links that are due to it,
a binding is pinned if it is in place and only then, and every name is in a directory
that is in place.

In the middle of an operation the counters are ahead of the tree or behind it. `Showing`
says by how much: the same bindings are in place as before the operation, and the
counters show some other number. An operation then changes the tree, in one of five
ways, and what is due changes by `δ`. `Reshaped` keeps both numbers until the end, where
they have to agree.
-/

namespace Memfs

open World

structure Exact (w : World) : Prop where
  counters : Counters w (fun n => w.due n) w.Placed
  upheld : w.Upheld []

/-- The tree of `v` is that of `w`, and its counters show `l`. -/
structure Showing (w v : World) (l : NodeId → Int) : Prop where
  counters : Counters v l w.Placed
  shape : SameShape w v

/-- In `v` the links due are those of `w` and `δ` more, and the counters show `l`. -/
structure Reshaped (w v : World) (l δ : NodeId → Int) : Prop where
  showing : Showing v v l
  upheld : v.Upheld []
  due : ∀ n, (v.due n : Int) = w.due n + δ n

variable {w v v' : World} {l δ : NodeId → Int} {todo : List Task} {a b d e : BindingId}
  {n m dir : NodeId} {name k : String}

/-! ## Links that are due -/

namespace World

theorem own_le_due (h : w.Placed b) : w.own b n ≤ w.due n := by
  have le := w.share_le_due (b := b) (n := n)
  unfold share at le
  rw [if_pos h] at le
  omega

theorem own_add_given_le_due (f : Forest w) (h : w.Entered d b) :
    w.own b n + w.given b d n ≤ w.due n := by
  have le := w.share_le_due (b := b) (n := n)
  rwa [share_of_entered h fun e => entered_once f h] at le

/-- The node of a binding in place has a link. -/
theorem due_pos (h : w.Placed b) (hn : w.nodeOf b = some n) : 0 < w.due n := by
  have le := own_le_due (n := n) h
  rw [own_of_nodeOf hn, if_pos rfl] at le
  split at le
  · omega
  · omega

theorem instances_markChanged {time : Timestamp} :
    (w.markChanged b time).instances = w.instances := by
  unfold World.markChanged
  cases w.nodeOf b with
  | none => rfl
  | some n => rfl

theorem instances_dropLink : (w.dropLink n).instances = w.instances := by
  rw [dropLink_eq]
  rfl

theorem instances_unpin : (w.unpin b).instances = w.instances := by
  unfold World.unpin
  split
  · rfl
  · split
    · rfl
    · rfl

/-! Counters and times are not part of the shape. -/

namespace SameShape

theorem touch : SameShape w (w.touch n) := .of_tree .touch rfl

theorem touchWith : SameShape w (w.touchWith n m) := .of_tree .touchWith rfl

theorem touchRenamed : SameShape w (w.touchRenamed n a m b) := by
  refine .of_tree .touchRenamed ?_
  exact instances_markChanged.trans instances_markChanged

theorem addLink : SameShape w (w.addLink n) := .of_tree .addLink rfl

theorem dropLink : SameShape w (w.dropLink n) := .of_tree .dropLink instances_dropLink

theorem pin : SameShape w (w.pin b) := .of_tree .pin rfl

theorem unpin : SameShape w (w.unpin b) := .of_tree .unpin instances_unpin

theorem shiftLink : SameShape w (w.shiftLink n m) := dropLink.trans addLink

theorem exchangeLinks {dirA nodeA dirB nodeB : NodeId} :
    SameShape w (w.exchangeLinks dirA nodeA dirB nodeB) := by
  unfold World.exchangeLinks
  split
  · split
    · exact shiftLink
    · exact shiftLink
  · exact refl

theorem of_unchanged {v : World} (u : Unchanged w v) : SameShape w v where
  rooted b := by
    unfold World.Rooted
    simp only [u.instances]
  entered _ _ := entered_of_child? fun _ _ => u.sameTree.child?
  node _ _ := u.sameTree.nodeOf
  directory _ _ _ := u.sameTree.directory
  parentless _ _ none := u.sameTree.parentOf.trans none

theorem newNode (s : Sound w todo) {home : InstanceId} {from? : Option NodeId} {mode : Mode}
    {device : DeviceNumber} (made : Action.newNode home from? mode device w = .ok n v) :
    SameShape w v := by
  obtain ⟨-, _, _, _, _, -, rfl, -⟩ := Action.newNode_ok made
  exact .pushNode s

theorem storeBytes {offset : Nat} {src : Bytes}
    (stored : Action.storeBytes n offset src w = .ok () v) : SameShape w v := by
  obtain ⟨node, content, host, -, -, rfl⟩ := Action.storeBytes_ok stored
  exact .of_tree (SameTree.onHost.trans (.modifyNode fun _ => rfl)) rfl

theorem storeTarget {closed : Bytes} (stored : Action.storeTarget n closed w = .ok () v) :
    SameShape w v := by
  obtain ⟨mid, bytes, rfl⟩ := Action.storeTarget_ok stored
  exact (storeBytes bytes).trans (.of_tree (.modifyNode fun _ => rfl) rfl)

end SameShape

end World

/-! ## Counters on the way -/

namespace Showing

theorem start (x : Exact w) : Showing w w (fun n => w.due n) := ⟨x.counters, .refl⟩

theorem congr {l' : NodeId → Int} (h : Showing w v l) (same : ∀ n, l' n = l n) :
    Showing w v l' :=
  ⟨h.counters.congr (fun n _ => same n) fun _ => Iff.rfl, h.shape⟩

/-- A change that the tree does not show. -/
theorem step (h : Showing w v l) {l' : NodeId → Int} (counters : Counters v' l' w.Placed)
    (shape : SameShape v v') : Showing w v' l' :=
  ⟨counters, h.shape.trans shape⟩

theorem touch (h : Showing w v l) : Showing w (v.touch n) l :=
  h.step h.counters.touch .touch

theorem touchWith (h : Showing w v l) : Showing w (v.touchWith n m) l :=
  h.step h.counters.touchWith .touchWith

theorem touchRenamed (h : Showing w v l) : Showing w (v.touchRenamed n a m b) l :=
  h.step h.counters.touchRenamed .touchRenamed

theorem addLink (h : Showing w v l) :
    Showing w (v.addLink n) (fun m => l m + if m = n then 1 else 0) :=
  h.step h.counters.addLink .addLink

theorem dropLink (h : Showing w v l) (pos : 0 < l n) (lt : l n < 2 ^ 32) :
    Showing w (v.dropLink n) (fun m => l m - if m = n then 1 else 0) :=
  h.step (h.counters.dropLink pos lt) .dropLink

/-- A new binding is not in place. -/
theorem newBinding (h : Showing w v l) (s : Sound v todo)
    (made : Action.newBinding d name v = .ok b v') : Showing w v' l := by
  obtain ⟨host, acquired, rfl, rfl⟩ := Action.newBinding_eq_ok.1 made
  have out : ¬ w.Placed v.bindings.nextId := mt h.shape.placed.2 s.fresh_unplaced
  exact h.step (h.counters.pushBinding (Host.alike_of_acquire acquired) out) (.pushBinding s)

/-- A new node, which no binding stands for yet, shows the links of a node with one. -/
theorem newNode (h : Showing w v fun n => w.due n) (s : Sound v todo) {home : InstanceId}
    {from? : Option NodeId} {mode : Mode} {device : DeviceNumber}
    (made : Action.newNode home from? mode device v = .ok n v') :
    Showing w v' fun m => w.due m + if m = n then if mode.isDirectory then 2 else 1 else 0 := by
  have counters := h.counters.newNode made
  rw [Action.isDirectory_of_newNode made] at counters
  obtain ⟨rfl, host, ino, kind, time, -, rfl, -⟩ := Action.newNode_ok made
  have none : w.due v.nodes.nextId = 0 :=
    h.shape.due.symm.trans (due_of_unbound fun b hb => s.tended.fresh_node (owned_of_nodeOf hb))
  refine h.step (counters.congr (fun m _ => ?_) fun _ => Iff.rfl) (.pushNode s)
  by_cases e : m = v.nodes.nextId
  · rw [if_pos e, if_pos e, e, none]
    exact Int.zero_add _
  · rw [if_neg e, if_neg e, Int.add_zero]

theorem storeBytes (h : Showing w v l) {offset : Nat} {src : Bytes}
    (stored : Action.storeBytes n offset src v = .ok () v') : Showing w v' l :=
  h.step (h.counters.storeBytes stored) (.storeBytes stored)

theorem storeTarget (h : Showing w v l) {closed : Bytes}
    (stored : Action.storeTarget n closed v = .ok () v') : Showing w v' l := by
  obtain ⟨mid, bytes, rfl⟩ := Action.storeTarget_ok stored
  have h := h.storeBytes bytes
  refine h.step (h.counters.modifyNode ?_) (.of_tree (.modifyNode ?_) rfl)
  · exact fun _ => rfl
  · exact fun _ => rfl

end Showing

namespace Reshaped

/-- The tree changes no more, and the counters do. -/
theorem next {l' : NodeId → Int} (h : Reshaped w v l δ) (t : Showing v v' l') :
    Reshaped w v' l' δ where
  showing := ⟨t.counters.congr (fun _ _ => rfl) fun _ => t.shape.placed, .refl⟩
  upheld := t.shape.upheld h.upheld
  due n := by
    rw [t.shape.due]
    exact h.due n

/-- The tree changes once more. -/
theorem trans {l' δ' : NodeId → Int} (h : Reshaped w v l δ) (t : Reshaped v v' l' δ') :
    Reshaped w v' l' fun n => δ n + δ' n where
  showing := t.showing
  upheld := t.upheld
  due n := by
    rw [t.due, h.due, Int.add_assoc]

/-- The counters have caught up with the tree. -/
theorem exact (h : Reshaped w v l δ) (same : ∀ n, l n = w.due n + δ n) : Exact v where
  counters := h.showing.counters.congr (fun n _ => (h.due n).trans (same n).symm) fun _ => Iff.rfl
  upheld := h.upheld

end Reshaped

namespace Exact

theorem of_shape (x : Exact w) (shape : SameShape w v)
    (counters : Counters v (fun n => w.due n) w.Placed) : Exact v where
  counters := counters.congr (fun _ _ => congrArg _ shape.due) fun _ => shape.placed
  upheld := shape.upheld x.upheld

theorem of_showing (x : Exact w) (h : Showing w v l) (same : ∀ n, l n = w.due n) : Exact v :=
  x.of_shape h.shape (h.congr fun n => (same n).symm).counters

theorem settle (x : Exact w) {tasks hand : List Task} (s : Sound w (tasks ++ hand))
    (idle : ∀ task ∈ tasks ++ hand, task.Idle w) : Exact (w.settle tasks) :=
  x.of_shape (x.upheld.settle s idle)
    (x.counters.settle fun task mem => (idle task (List.mem_append_left _ mem)).calm)

theorem settleAll (x : Exact w) {tasks : List Task} (s : Sound w tasks)
    (idle : ∀ task ∈ tasks, task.Idle w) : Exact (w.settle tasks) := by
  rw [← List.append_nil tasks] at s idle
  exact x.settle s idle

theorem letGo_binding (x : Exact w) (s : Sound w [.letGo (.binding b)]) :
    Exact (w.settle [.letGo (.binding b)]) :=
  x.settleAll s fun task mem => by
    cases List.mem_singleton.1 mem
    exact .binding

theorem unchanged (x : Exact w) (u : Unchanged w v) : Exact v :=
  x.of_shape (.of_unchanged u) (x.counters.unchanged u)

end Exact

/-! ## Changes of the tree -/

namespace Showing

/-- A node gets a binding that is entered into a directory and is pinned. -/
theorem instantiate (h : Showing w v l) (u : w.Upheld [])
    (s : Sound v (.letGo (.node n) :: .letGo (.binding b) :: todo)) (vacant : Vacant v b d name)
    (placed : w.Placed d) (hd : v.nodeOf d = some dir) :
    Reshaped w ((v.instantiate b n).pin b) l fun m =>
      (if m = n then if v.isDirectory n then 2 else 1 else 0)
        + if m = dir then if v.isDirectory n then 1 else 0 else 0 := by
  have uv := h.shape.upheld u
  have out : ¬ w.Placed b := mt h.shape.placed.2 (vacant.not_placed uv s.forest)
  obtain ⟨upheld, after, -, due⟩ :=
    vacant.shape (n := n) uv s.forest (.inl (h.shape.placed.2 placed)) hd
  have pinned : SameShape (v.instantiate b n) ((v.instantiate b n).pin b) := .pin
  refine ⟨⟨?_, .refl⟩, pinned.upheld upheld, fun m => ?_⟩
  · refine (h.counters.instantiate.pin out).congr (fun _ _ => rfl) fun c => ?_
    rw [pinned.placed, after, h.shape.placed]
  · rw [pinned.due, due, h.shape.due]
    push_cast
    rfl

/-- A binding is taken out of its directory and is pinned no longer. -/
theorem takeOut (h : Showing w v l) (u : w.Upheld []) (f : Forest v) (hb : v.child? d name = some b)
    (empty : ∀ c, ¬ v.Entered b c) :
    Reshaped w ((v.detach b).unpin b) l fun m => - (v.own b m + v.given b d m : Nat) := by
  have uv := h.shape.upheld u
  have unpinned : SameShape (v.detach b) ((v.detach b).unpin b) := .unpin
  have upheld : (v.detach b).Upheld [] :=
    (uv.detach f hb).leave fun c entered => empty c ((entered_detach f hb).1 entered).2
  have placed : w.Placed b := h.shape.placed.1 (placed_of_entered ⟨name, hb⟩)
  refine ⟨⟨?_, .refl⟩, unpinned.upheld upheld, fun m => ?_⟩
  · refine (h.counters.detach.unpin placed).congr (fun _ _ => rfl) fun c => ?_
    rw [unpinned.placed, placed_detach uv f hb, h.shape.placed]
  · have out := due_detach (n := m) uv f hb
    rw [h.shape.due] at out
    rw [unpinned.due]
    omega

theorem moveBinding (h : Showing w v l) (u : w.Upheld []) (f : Forest v)
    (ha : v.child? e k = some a) (placed : w.Placed d) (hd : v.bindings.has d = true) (hne : d ≠ a)
    (free : v.child? d name = none) :
    Reshaped w (v.moveBinding a d name) l fun m => v.given a d m - v.given a e m := by
  obtain ⟨upheld, after, due⟩ :=
    moveBinding_shape (h.shape.upheld u) f ha (.inl (h.shape.placed.2 placed)) hd hne free
  refine ⟨⟨?_, .refl⟩, upheld, fun m => ?_⟩
  · exact h.counters.moveBinding.congr (fun _ _ => rfl) fun c => (after c).trans h.shape.placed
  · have moved := due m
    rw [h.shape.due] at moved
    omega

theorem exchangeBindings (h : Showing w v l) (u : w.Upheld []) (s : Sound v [])
    (ha : v.child? d name = some a) (hb : v.child? e k = some b) (hne : a ≠ b) (apartA : e ≠ a)
    (apartB : d ≠ b) :
    Reshaped w (v.exchangeBindings a b) l fun m =>
      v.given a e m + v.given b d m - (v.given a d m + v.given b e m) := by
  obtain ⟨upheld, after, due⟩ :=
    exchangeBindings_shape (h.shape.upheld u) s.forest ha hb hne apartA apartB
  refine ⟨⟨?_, .refl⟩, upheld, fun m => ?_⟩
  · exact h.counters.exchangeBindings.congr (fun _ _ => rfl) fun c => (after c).trans h.shape.placed
  · have moved := due m
    rw [h.shape.due] at moved
    omega

end Showing

end Memfs
