import Memfs.Proofs.Housekeeping

/-!
# The times of nodes

Every helper that moves a name or touches content reads the clock for itself, and stores what
it read in some of the nodes. What an operation has done to the times in the end is said by
three lists of nodes, `Marks`: those that were read, those whose content changed, and those
that changed in another way. `Stamped` says that the marked times are one reading of the clock,
made meanwhile, that no other time of a node that was there has moved, and that the times of a
new node are all equal.

One reading is enough although some operations make two. The later one is stored wherever the
earlier one was, so `Stamped.stamp` lets a reading replace another if it marks as much.
-/

namespace Memfs

/-! ## Earlier and later -/

namespace Timestamp

instance : LE Timestamp :=
  ⟨fun a b => a.seconds < b.seconds ∨ a.seconds = b.seconds ∧ a.nanos ≤ b.nanos⟩

instance : DecidableLE Timestamp := fun a b =>
  inferInstanceAs (Decidable (a.seconds < b.seconds ∨ a.seconds = b.seconds ∧ a.nanos ≤ b.nanos))

instance : Preorder Timestamp where
  le_refl _ := .inr ⟨rfl, Nat.le_refl _⟩
  le_trans a b c h h' := by
    change _ ∨ _ at h h' ⊢
    omega

/-- A clock without a coarser grain is stored as it is read. -/
theorem truncate_fine {time : Timestamp} {grain : Nat} (fine : grain ≤ 1) :
    time.truncate grain = time :=
  if_pos fine

end Timestamp

/-- The reading was made on the way from one state of the clock to another. -/
def Clock.Gave (clock clock' : Clock) (time : Timestamp) : Prop :=
  ∃ k, clock.taken ≤ k ∧ k < clock'.taken ∧ time = clock.reading k

namespace Clock.Gave

variable {clock clock' clock'' : Clock} {time : Timestamp}

theorem later (h : clock.Gave clock' time) (onward : clock'.Onward clock'') :
    clock.Gave clock'' time := by
  obtain ⟨k, first, last, eq⟩ := h
  exact ⟨k, first, last.trans_le onward.taken, eq⟩

theorem earlier (h : clock'.Gave clock'' time) (onward : clock.Onward clock') :
    clock.Gave clock'' time := by
  obtain ⟨k, first, last, eq⟩ := h
  exact ⟨k, onward.taken.trans first, last, onward.reading ▸ eq⟩

theorem read : clock.Gave clock.read.2 clock.read.1 :=
  ⟨clock.taken, Nat.le_refl _, Nat.lt_succ_self _, rfl⟩

end Clock.Gave

/-! ## Marked nodes -/

/-- The nodes whose times are moved: by an access, by a change of their content, and by a
change in any other way. -/
structure Marks where
  accessed : List NodeId := []
  written : List NodeId := []
  changed : List NodeId := []
  deriving DecidableEq

namespace Marks

/-- All that are marked. -/
def nodes (marks : Marks) : List NodeId := marks.accessed ++ marks.written ++ marks.changed

/-- The node was `x` and is `y`, and its times are those that it had, or `time` where it is
marked. A change of the content counts as a change. -/
structure Moved (marks : Marks) (time : Timestamp) (n : NodeId) (x y : Node) : Prop where
  atime : y.atime = if n ∈ marks.accessed then time else x.atime
  mtime : y.mtime = if n ∈ marks.written then time else x.mtime
  ctime : y.ctime = if n ∈ marks.written ∨ n ∈ marks.changed then time else x.ctime

/-- What is marked here is marked there. -/
structure Within (marks marks' : Marks) : Prop where
  accessed : marks.accessed ⊆ marks'.accessed
  written : marks.written ⊆ marks'.written
  changed : marks.changed ⊆ marks'.changed

end Marks

/-- The times are the same. -/
structure Node.Coeval (x y : Node) : Prop where
  atime : y.atime = x.atime
  mtime : y.mtime = x.mtime
  ctime : y.ctime = x.ctime

theorem Node.Coeval.refl {x : Node} : x.Coeval x := ⟨rfl, rfl, rfl⟩

namespace Marks.Moved

variable {marks marks' : Marks} {time later : Timestamp} {n : NodeId} {x y z : Node}

theorem coeval (h : marks.Moved time n x y) (same : y.Coeval z) : marks.Moved time n x z :=
  ⟨same.atime.trans h.atime, same.mtime.trans h.mtime, same.ctime.trans h.ctime⟩

theorem none (same : x.Coeval y) : Moved {} time n x y := ⟨same.atime, same.mtime, same.ctime⟩

/-- A reading that marks as much takes the place of one that was made before. -/
theorem again (h : marks.Moved time n x y) (h' : marks'.Moved later n y z)
    (within : marks.Within marks') : marks'.Moved later n x z where
  atime := by
    rw [h'.atime]
    refine ite_congr rfl (fun _ => rfl) fun other => ?_
    rw [h.atime, if_neg (mt (within.accessed ·) other)]
  mtime := by
    rw [h'.mtime]
    refine ite_congr rfl (fun _ => rfl) fun other => ?_
    rw [h.mtime, if_neg (mt (within.written ·) other)]
  ctime := by
    rw [h'.ctime]
    refine ite_congr rfl (fun _ => rfl) fun other => ?_
    rw [h.ctime, if_neg (mt (Or.imp (within.written ·) (within.changed ·)) other)]

end Marks.Moved

namespace World

variable {w v u : World} {marks marks' : Marks} {time : Timestamp} {n m d : NodeId}
  {b dir : BindingId} {name : String}

/-- The marks are made with this reading, and nothing else has changed that times depend on. -/
structure Marked (w v : World) (marks : Marks) (time : Timestamp) : Prop where
  clock : v.host.clock = w.host.clock
  instances : v.instances = w.instances
  next : v.nodes.nextId = w.nodes.nextId
  nodes : ∀ n y, v.nodes.get? n = some y →
    ∃ x, w.nodes.get? n = some x ∧ marks.Moved time n x y

@[simp]
theorem nodeOf_markChanged {c : BindingId} : (w.markChanged b time).nodeOf c = w.nodeOf c := by
  unfold World.markChanged
  cases w.nodeOf b with
  | none => rfl
  | some n => rfl

namespace Marked

theorem refl : w.Marked w {} time := ⟨rfl, rfl, rfl, fun _ y hy => ⟨y, hy, .none .refl⟩⟩

theorem modifyNode (h : w.Marked v marks time) {f : Node → Node}
    (moved : ∀ x y, marks.Moved time m x y → marks'.Moved time m x (f y))
    (others : ∀ n x y, n ≠ m → marks.Moved time n x y → marks'.Moved time n x y) :
    w.Marked (v.modifyNode m f) marks' time where
  clock := h.clock
  instances := h.instances
  next := Table.nextId_modify.trans h.next
  nodes n z hz := by
    rcases Table.get?_of_modify hz with ⟨rfl, y, hy, rfl⟩ | ⟨other, hy⟩
    · obtain ⟨x, hx, before⟩ := h.nodes _ y hy
      exact ⟨x, hx, moved x y before⟩
    · obtain ⟨x, hx, before⟩ := h.nodes n z hy
      exact ⟨x, hx, others n x z other before⟩

theorem written (h : w.Marked v marks time) :
    w.Marked (v.modifyNode m (·.written time)) { marks with written := m :: marks.written }
      time := by
  refine h.modifyNode (fun x y before => ⟨before.atime, ?_, ?_⟩) fun n x y other before =>
    ⟨before.atime, ?_, ?_⟩
  · exact (if_pos List.mem_cons_self).symm
  · exact (if_pos (.inl List.mem_cons_self)).symm
  · simpa only [List.mem_cons, other, false_or] using before.mtime
  · simpa only [List.mem_cons, other, false_or] using before.ctime

theorem changed (h : w.Marked v marks time) :
    w.Marked (v.modifyNode m (·.changed time)) { marks with changed := m :: marks.changed }
      time := by
  refine h.modifyNode (fun x y before => ⟨before.atime, before.mtime, ?_⟩) fun n x y other before =>
    ⟨before.atime, before.mtime, ?_⟩
  · exact (if_pos (.inr List.mem_cons_self)).symm
  · simpa only [List.mem_cons, other, false_or] using before.ctime

theorem accessed (h : w.Marked v marks time) :
    w.Marked (v.modifyNode m (·.accessed time)) { marks with accessed := m :: marks.accessed }
      time := by
  refine h.modifyNode (fun x y before => ⟨?_, before.mtime, before.ctime⟩) fun n x y other before =>
    ⟨?_, before.mtime, before.ctime⟩
  · exact (if_pos List.mem_cons_self).symm
  · simpa only [List.mem_cons, other, false_or] using before.atime

theorem markChanged (h : w.Marked v marks time) :
    w.Marked (v.markChanged b time)
      { marks with changed := (v.nodeOf b).toList ++ marks.changed } time := by
  unfold World.markChanged
  cases v.nodeOf b with
  | none => exact h
  | some n => exact h.changed

end Marked

/-- What became of the times. -/
structure Stamped (w v : World) (marks : Marks) : Prop where
  paced : w.Paced v
  next : w.nodes.nextId ≤ v.nodes.nextId
  old : ∃ time, (marks.nodes = [] ∨ w.host.clock.Gave v.host.clock time) ∧
    ∀ n y, n < w.nodes.nextId → v.nodes.get? n = some y →
      ∃ x, w.nodes.get? n = some x ∧ marks.Moved time n x y
  born : ∀ n x, w.nodes.nextId ≤ n → v.nodes.get? n = some x →
    x.atime = x.mtime ∧ x.mtime = x.ctime ∧ w.host.clock.Gave v.host.clock x.ctime

/-- The clock read for a node gives its next reading. -/
theorem now_fst (fine : w.Fine) : (w.now n).1 = w.host.clock.read.1 := by
  refine Timestamp.truncate_fine ?_
  cases found : (w.nodes.get? n).bind fun node => w.instances.get? node.home with
  | none => exact Nat.le_refl _
  | some x =>
      obtain ⟨node, -, hx⟩ := Option.bind_eq_some_iff.1 found
      exact fine _ x hx

namespace Stamped

theorem refl : w.Stamped w {} where
  paced := .refl
  next := Nat.le_refl _
  old := ⟨default, .inl rfl, fun _ y _ hy => ⟨y, hy, .none .refl⟩⟩
  born _ _ newer hx := absurd (Table.get?_lt hx) (Nat.not_lt.2 newer)

/-- No node comes and no time moves, but nodes may go. -/
theorem less (h : w.Stamped v marks) (paced : v.Paced u) (next : u.nodes.nextId = v.nodes.nextId)
    (nodes : ∀ n z, u.nodes.get? n = some z → ∃ y : Node, v.nodes.get? n = some y ∧ y.Coeval z) :
    w.Stamped u marks where
  paced := h.paced.trans paced
  next := next ▸ h.next
  old := by
    obtain ⟨time, gave, moved⟩ := h.old
    refine ⟨time, gave.imp_right (·.later paced.clock), fun n z known hz => ?_⟩
    obtain ⟨y, hy, same⟩ := nodes n z hz
    obtain ⟨x, hx, before⟩ := moved n y known hy
    exact ⟨x, hx, before.coeval same⟩
  born n z newer hz := by
    obtain ⟨y, hy, same⟩ := nodes n z hz
    obtain ⟨first, second, gave⟩ := h.born n y newer hy
    rw [same.atime, same.mtime, same.ctime]
    exact ⟨first, second, gave.later paced.clock⟩

/-- The nodes are the same. -/
theorem frame (h : w.Stamped v marks) (paced : v.Paced u) (nodes : u.nodes = v.nodes) :
    w.Stamped u marks :=
  h.less paced (nodes ▸ rfl) fun _ z hz => ⟨z, nodes ▸ hz, .refl⟩

theorem aside (h : w.Stamped v marks) (host : v.host.Onward u.host) (nodes : u.nodes = v.nodes)
    (instances : u.instances = v.instances) : w.Stamped u marks :=
  h.frame (.onward host.clock instances) nodes

theorem modifyNode (h : w.Stamped v marks) {f : Node → Node} (same : ∀ x : Node, x.Coeval (f x)) :
    w.Stamped (v.modifyNode m f) marks := by
  refine h.less (.same rfl rfl) Table.nextId_modify fun n z hz => ?_
  rcases Table.get?_of_modify hz with ⟨-, y, hy, rfl⟩ | ⟨-, hy⟩
  · exact ⟨y, hy, same y⟩
  · exact ⟨z, hy, .refl⟩

/-- The clock is read, and the reading is stored. -/
theorem stamp (h : w.Stamped v marks) (within : marks.Within marks') (fine : w.Fine)
    (known : ∀ n ∈ marks'.nodes, n < w.nodes.nextId)
    (marked : (v.now d).2.Marked u marks' (v.now d).1) : w.Stamped u marks' where
  paced := by
    refine h.paced.trans (.onward ?_ marked.instances)
    rw [marked.clock]
    exact .read
  next := marked.next ▸ h.next
  old := by
    refine ⟨(v.now d).1, .inr ?_, fun n z old hz => ?_⟩
    · rw [marked.clock, now_fst (h.paced.fine fine)]
      exact Clock.Gave.read.earlier h.paced.clock
    · obtain ⟨y, hy, moved⟩ := marked.nodes n z hz
      obtain ⟨earlier, -, before⟩ := h.old
      obtain ⟨x, hx, before⟩ := before n y old hy
      exact ⟨x, hx, before.again moved within⟩
  born n z newer hz := by
    obtain ⟨y, hy, moved⟩ := marked.nodes n z hz
    have unmarked : n ∉ marks'.nodes := fun mem => absurd (known n mem) (Nat.not_lt.2 newer)
    simp only [Marks.nodes, List.mem_append, not_or] at unmarked
    obtain ⟨⟨unread, unwritten⟩, unchanged⟩ := unmarked
    obtain ⟨first, second, gave⟩ := h.born n y newer hy
    rw [moved.atime, moved.mtime, moved.ctime, if_neg unread, if_neg unwritten,
      if_neg (not_or.2 ⟨unwritten, unchanged⟩)]
    refine ⟨first, second, gave.later ?_⟩
    rw [marked.clock]
    exact .read

/-! ## Letting go -/

theorem note (h : w.Stamped v marks) {notice : Notice} : w.Stamped (v.note notice) marks :=
  h.frame (.same rfl rfl) rfl

theorem unpin (h : w.Stamped v marks) : w.Stamped (v.unpin b) marks := by
  unfold World.unpin
  split
  · exact h
  · split
    · exact h.note
    · exact h.frame (.same rfl rfl) rfl

theorem disposeData (h : w.Stamped v marks) {data : PrivateData} :
    w.Stamped (v.disposeData data) marks := by
  have optional : ∀ {t : World} {sort} {device : Option Device}, w.Stamped t marks →
      w.Stamped (device.elim t (t.put sort)) marks := by
    intro t sort device h
    cases device with
    | none => exact h
    | some device =>
        simp only [Option.elim_some, World.put]
        split
        · exact h.frame (.same rfl rfl) rfl
        · exact h.frame (.same rfl rfl) rfl
  cases data with
  | foreign => exact h
  | config c => exact (optional (optional h)).frame (.same rfl rfl) rfl

theorem settling : Settling fun v _ => w.Stamped v marks where
  disposed h := h.disposeData
  unpinned h := h.unpin
  dissolved _ h := h.frame (.same rfl rfl) rfl
  absent _ h := h
  kept _ h := h
  evicted _ _ h := h.less (.same rfl rfl) Table.nextId_erase fun _ z hz =>
    ⟨z, Table.get?_of_erase hz, .refl⟩
  removedBinding _ _ h := h.frame (.same rfl rfl) rfl
  removedInstance _ _ h := h.frame ⟨.refl, fun fine => fine.removeInstance⟩ rfl

theorem settle (h : w.Stamped v marks) {tasks : List Task} : w.Stamped (v.settle tasks) marks :=
  settling.settle_all h

/-! ## What no time moves with -/

theorem addLink (h : w.Stamped v marks) : w.Stamped (v.addLink n) marks :=
  h.modifyNode fun _ => ⟨rfl, rfl, rfl⟩

theorem dropLink (h : w.Stamped v marks) : w.Stamped (v.dropLink n) marks := by
  unfold World.dropLink
  split
  · exact h
  · simp only
    split
    · exact h.note.modifyNode (f := Node.dropLink) fun _ => ⟨rfl, rfl, rfl⟩
    · exact h.modifyNode fun _ => ⟨rfl, rfl, rfl⟩

theorem modifyBinding (h : w.Stamped v marks) {f : Binding → Binding} :
    w.Stamped (v.modifyBinding b f) marks :=
  h.frame (.same rfl rfl) rfl

theorem detach (h : w.Stamped v marks) : w.Stamped (v.detach b) marks := by
  unfold World.detach
  split
  · exact h
  · split
    · exact h.modifyBinding
    · exact h

theorem enter (h : w.Stamped v marks) : w.Stamped (v.enter dir name b) marks :=
  h.modifyBinding.settle

theorem instantiate (h : w.Stamped v marks) : w.Stamped (v.instantiate b n) marks := by
  unfold World.instantiate
  simp only
  split
  · exact h.modifyBinding.settle.enter
  · exact h.modifyBinding.settle

theorem moveBinding (h : w.Stamped v marks) : w.Stamped (v.moveBinding b dir name) marks :=
  h.detach.modifyBinding.enter

theorem exchangeBindings (h : w.Stamped v marks) {a : BindingId} :
    w.Stamped (v.exchangeBindings a b) marks := by
  unfold World.exchangeBindings
  split
  · exact h.detach.detach.modifyBinding.modifyBinding.enter.enter
  · exact h

theorem shiftLink (h : w.Stamped v marks) : w.Stamped (v.shiftLink n m) marks :=
  h.dropLink.addLink

/-! ## What times move with -/

theorem touch (h : w.Stamped v {}) (fine : w.Fine) (known : d < w.nodes.nextId) :
    w.Stamped (v.touch d) { written := [d] } :=
  h.stamp ⟨nofun, nofun, nofun⟩ fine (by simpa [Marks.nodes] using known) Marked.refl.written

theorem touchWith (h : w.Stamped v {}) (fine : w.Fine) (knownD : d < w.nodes.nextId)
    (known : n < w.nodes.nextId) : w.Stamped (v.touchWith d n) { written := [d], changed := [n] } :=
  h.stamp ⟨nofun, nofun, nofun⟩ fine (by simpa [Marks.nodes] using ⟨knownD, known⟩)
    Marked.refl.changed.written

theorem markAccessed (h : w.Stamped v {}) (fine : w.Fine) (known : n < w.nodes.nextId) :
    w.Stamped (v.markAccessed n) { accessed := [n] } :=
  h.stamp ⟨nofun, nofun, nofun⟩ fine (by simpa [Marks.nodes] using known) Marked.refl.accessed

/-- The times that a rename moves stand for those that it moved before. -/
theorem touchRenamed (h : w.Stamped v marks) {dirA dirB : NodeId} {a : BindingId}
    (within : marks.Within
      { written := [dirB, dirA], changed := (v.nodeOf b).toList ++ (v.nodeOf a).toList })
    (fine : w.Fine)
    (knownA : dirA < w.nodes.nextId) (knownB : dirB < w.nodes.nextId)
    (known : ∀ c n, v.nodeOf c = some n → n < w.nodes.nextId) :
    w.Stamped (v.touchRenamed dirA a dirB b)
      { written := [dirB, dirA], changed := (v.nodeOf b).toList ++ (v.nodeOf a).toList } := by
  have marked : (v.now dirA).2.Marked (v.touchRenamed dirA a dirB b) _ (v.now dirA).1 :=
    Marked.refl.written.written.markChanged.markChanged
  rw [nodeOf_markChanged, List.append_nil] at marked
  refine h.stamp within fine (fun n mem => ?_) marked
  simp only [Marks.nodes, List.nil_append, List.mem_append, List.mem_cons, List.not_mem_nil,
    or_false, Option.mem_toList] at mem
  rcases mem with (rfl | rfl) | mem | mem
  · exact knownB
  · exact knownA
  · exact known _ n mem
  · exact known _ n mem

theorem unlinked (h : w.Stamped v {}) (fine : w.Fine) (knownD : d < w.nodes.nextId)
    (known : n < w.nodes.nextId) :
    w.Stamped (v.unlinked d b n) { written := [d], changed := [n] } :=
  (h.touchWith fine knownD known).dropLink.detach.unpin

end Stamped

end World

end Memfs
