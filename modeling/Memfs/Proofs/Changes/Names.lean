import Memfs.Proofs.Changes
import Memfs.Proofs.Effects.Files
import Memfs.Proofs.Forest

/-!
# The changes of an operation on names

Each operation is gone through once, step by step as it is written, and whatever it has
done when it ends, well or not, it has done by changes. None of them is a write. Only the
moves ask something of the world that they start in: the names that they move are filed
in directories, which is what an entry of a forest says.
-/

namespace Memfs

theorem Node.typed_make {ino : UInt64} {kind : NodeKind} {dir : Option Node} {mode : Mode}
    {device : DeviceNumber} {uid gid gid' : UInt32} {time : Timestamp} {home : InstanceId}
    (h : NodeKind.ofMode mode device = some kind) :
    (Node.make ino kind (Node.inherit dir mode gid).1 uid gid' time home).Typed := by
  unfold Node.Typed Node.make
  rw [Mode.isDirectory, Node.fileType_inherit]
  exact NodeKind.isDirectory_of_ofMode h

namespace Changes

open World Memfs.Action

variable {writes : Prop} {w v : World} {α : Type} {b dir : BindingId} {n : NodeId} {name : String}

/-! ## Parts of operations -/

theorem onHostEnds (c : Changes writes w v) {f : Host → α × Host} :
    Ends (Changes writes w) (Action.onHost f) v :=
  .total c.onHost

theorem nowEnds (c : Changes writes w v) : Ends (Changes writes w) (Action.now n) v :=
  .total c.now

theorem letGo (c : Changes writes w v) {ref : Ref} : Ends (Changes writes w) (Action.letGo ref) v :=
  .modify c.settle

theorem orLetGo {x : Action α} (h : Ends (Changes writes w) x v) {ref : Ref} :
    Ends (Changes writes w) (x.orLetGo ref) v :=
  .onFailure h.ok fun failed => (h.error failed).settle

/-- Nothing comes behind a failure. -/
theorem newNode (c : Changes writes w v) {home : InstanceId} {from? : Option NodeId} {mode : Mode}
    {device : DeviceNumber} :
    Ends (Changes writes w) (Action.newNode home from? mode device) v where
  ok h := by
    obtain ⟨-, host, ino, kind, time, hkind, rfl, -⟩ := newNode_ok h
    have charged : Changes writes w { v with host } := c.onHost
    exact charged.step (.pushNode (Node.typed_make hkind) (fun _ => ⟨_, rfl⟩) rfl)
  error h := by
    obtain ⟨host, rfl, -⟩ := newNode_error h
    exact c.onHost

theorem newBinding (c : Changes writes w v) :
    Ends (Changes writes w) (Action.newBinding dir name) v where
  ok h := by
    obtain ⟨host, -, -, rfl⟩ := newBinding_eq_ok.1 h
    have charged : Changes writes w { v with host } := c.onHost
    exact charged.step (.pushBinding nofun)
  error h := by
    obtain ⟨host, -, -, rfl⟩ := newBinding_eq_error.1 h
    exact c.onHost

/-! ## Making names -/

theorem place (c : Changes writes w v) {d : NodeId} :
    Ends (Changes writes w) (Action.place d b n) v :=
  .bind (.modify c.instantiate.pin) fun _ _ _ c => .bind c.nowEnds fun _ _ _ c => .modify c.written

theorem makeAt (c : Changes writes w v) {d : NodeId} {mode : Mode} {device : DeviceNumber} :
    Ends (Changes writes w) (Action.makeAt d b mode device) v :=
  .read c (reads_homeOf d) fun _ _ => .bind c.newNode fun _ _ _ c => c.place

theorem newSymlink (c : Changes writes w v) {home : InstanceId} {from? : Option NodeId}
    {u u' : World} {closed : Bytes} (made : Action.newNode home from? symlinkMode .none v = .ok n u)
    (stored : Action.storeTarget n closed u = .ok () u') : Changes writes w u' := by
  obtain ⟨-, host, ino, time, content, rfl, -⟩ := newSymlink_ok made stored
  have charged : Changes writes w { v with host } := c.onHost
  have typed : NodeKind.symlink.isDirectory = symlinkMode.isDirectory := by decide
  exact charged.step (.pushNode typed (fun other => absurd rfl other) rfl)

theorem makeSymlinkAt (c : Changes writes w v) {d : NodeId} {target : String} :
    Ends (Changes writes w) (Action.makeSymlinkAt d b target) v := by
  refine .read c (reads_homeOf d) fun home _ => .seq (fun _ _ failed => c.newNode.error failed)
    fun n u made => .bind (.onFailure (fun stored => c.newSymlink made stored) fun failed => ?_)
      fun _ _ _ c => c.place
  obtain ⟨host, rfl, -⟩ := storeTarget_error failed
  exact (c.newNode.ok made).onHost.settle

theorem linkAt (c : Changes writes w v) {old : BindingId} {d : NodeId} :
    Ends (Changes writes w) (Action.linkAt old d b) v :=
  .read c (reads_boundNode old) fun _ _ => .bind c.nowEnds fun _ _ _ c =>
    .modify c.changed.written.addLink.instantiate.pin

theorem makeName (c : Changes writes w v) {d : NodeId} {make : NodeId → BindingId → Action Unit}
    (hmake : ∀ {b u}, Changes writes w u → Ends (Changes writes w) (make d b) u) :
    Ends (Changes writes w) (Action.makeName dir d name make) v := by
  have fresh : Ends (Changes writes w) (freshBinding dir name) v :=
    .read c .get fun _ _ => .ite (fun _ => .stop c) fun _ => c.newBinding
  exact .bind fresh fun _ _ _ c => .bind (orLetGo (hmake c)) fun _ _ _ c => .pure c _

theorem create (c : Changes writes w v) {mode : Mode} :
    Ends (Changes writes w) (Action.create dir name mode) v :=
  .read c (.test _) fun _ _ => .read c (reads_directoryOf dir) fun _ _ => c.makeName (·.makeAt)

theorem mkdir (c : Changes writes w v) {mode : Mode} :
    Ends (Changes writes w) (Action.mkdir dir name mode) v :=
  .read c (.test _) fun _ _ => .read c (reads_directoryOf dir) fun _ _ =>
    c.makeName fun c => .bind c.makeAt fun _ _ _ c => .modify c.addLink

theorem mknod (c : Changes writes w v) {mode : Mode} {device : DeviceNumber} :
    Ends (Changes writes w) (Action.mknod dir name mode device) v :=
  .read c (.test _) fun _ _ => .read c (reads_directoryOf dir) fun _ _ =>
    .ite (fun _ => c.makeName (·.makeAt)) fun _ => .ite (fun _ => c.makeName (·.makeAt)) fun _ =>
    .ite (fun _ => .throw c _) fun _ => .throw c _

theorem symlink (c : Changes writes w v) {target : String} :
    Ends (Changes writes w) (Action.symlink dir name target) v :=
  .read c (.test _) fun _ _ => .ite (fun _ => .stop c) fun _ =>
    .read c (reads_directoryOf dir) fun _ _ => c.makeName (·.makeSymlinkAt)

theorem link (c : Changes writes w v) {old : BindingId} :
    Ends (Changes writes w) (Action.link old dir name) v :=
  .read c (.test _) fun _ _ => .read c (reads_boundNode old) fun _ _ => .read c .get fun _ _ =>
    .ite (fun _ => .stop c) fun _ => .read c (reads_directoryOf dir) fun _ _ =>
    .read c (reads_homeOf _) fun _ _ => .read c (reads_homeOf _) fun _ _ =>
    .ite (fun _ => .stop c) fun _ => .read c (reads_node _) fun _ _ =>
    .ite (fun _ => .stop c) fun _ => c.makeName (·.linkAt)

/-! ## Removing names -/

theorem unlinkAt (c : Changes writes w v) {d : NodeId} :
    Ends (Changes writes w) (Action.unlinkAt d b) v :=
  .read c (reads_boundNode b) fun _ _ => .bind c.nowEnds fun _ _ _ c =>
    .modify c.changed.written.dropLink.detach.unpin

theorem rmdirAt (c : Changes writes w v) {d : NodeId} :
    Ends (Changes writes w) (Action.rmdirAt d b) v :=
  .read c .get fun _ _ => .ite (fun _ => .stop c) fun _ => .read c (reads_boundNode b) fun _ _ =>
    .bind (.modify c.dropLink) fun _ _ _ c => .bind c.unlinkAt fun _ _ _ c => .modify c.dropLink

theorem unlink (c : Changes writes w v) : Ends (Changes writes w) (Action.unlink dir name) v :=
  .read c (.test _) fun _ _ => .read c (reads_directoryOf dir) fun _ _ =>
    .read c (reads_takenBinding dir name) fun _ _ => .read c .get fun _ _ =>
    .ite (fun _ => .stop c) fun _ => .bind c.unlinkAt fun _ _ _ c => c.letGo

theorem rmdir (c : Changes writes w v) : Ends (Changes writes w) (Action.rmdir dir name) v := by
  unfold Action.rmdir
  exact .ite (fun _ => .stop c) fun _ => .ite (fun _ => .stop c) fun _ => .read c (.test _) fun _ _ =>
    .read c (reads_directoryOf dir) fun _ _ => .read c (reads_takenBinding dir name) fun _ _ =>
    .read c .get fun _ _ => .ite
      (fun _ => .bind c.rmdirAt fun _ _ _ c => c.letGo) fun _ => .stop c

/-! ## Moving names -/

variable {dirA dirB : BindingId} {a : BindingId} {nodeA nodeB : NodeId} {flags : RenameFlags}

theorem stampRename (c : Changes writes w v) :
    Ends (Changes writes w) (Action.stampRename nodeA a nodeB b) v :=
  .bind c.nowEnds fun _ _ _ c => .modify (markChanged (markChanged c.written.written))

theorem exchangeAt (c : Changes writes w v) :
    Ends (Changes writes w) (Action.exchangeAt nodeA a nodeB b) v :=
  .read c (reads_boundNode a) fun _ _ => .read c (reads_boundNode b) fun _ _ =>
    .read c .get fun _ _ => .ite
      (fun _ => .ite (fun _ => .bind (.modify c.dropLink.addLink) fun _ _ _ c => c.stampRename)
        fun _ => .bind (.modify c.dropLink.addLink) fun _ _ _ c => c.stampRename)
      fun _ => c.stampRename

theorem replaceAt (c : Changes writes w v) :
    Ends (Changes writes w) (Action.replaceAt nodeA a nodeB b) v := by
  refine .read c (reads_boundNode a) fun source _ => .read c .get fun u _ => ?_
  have removed : ∀ {u : World}, Changes writes w u → Ends (Changes writes w) (do
      Action.unlinkAt nodeB b
      Action.stampRename nodeA a nodeB b) u :=
    fun c => .bind c.unlinkAt fun _ _ _ c => c.stampRename
  cases u.nodeOf b with
  | none =>
      exact .ite (fun _ => .bind (.modify c.dropLink.addLink) fun _ _ _ c => c.stampRename)
        fun _ => c.stampRename
  | some target =>
      exact .ite (fun _ => .stop c) fun _ => .ite
        (fun _ => .bind (.modify c.dropLink.dropLink) fun _ _ _ c => removed c) fun _ => removed c

theorem renameAt (c : Changes writes w v) :
    Ends (Changes writes w) (Action.renameAt nodeA a nodeB b flags) v := by
  unfold Action.renameAt
  exact .ite (fun _ => .stop c) fun _ => .ite (fun _ => c.exchangeAt) fun _ => c.replaceAt

theorem exchangeNames (c : Changes writes w v) (filedA : v.Filed a) (filedB : v.Filed b) :
    Ends (Changes writes w) (Action.exchangeNames dirA nodeA a dirB nodeB b flags) v := by
  refine .read c .get fun _ _ => .ite (fun _ => .stop c) fun _ =>
    .bind c.renameAt fun _ u done c => .modify ?_
  have since : Changes writes v u := Changes.refl.renameAt.ok done
  exact c.exchangeBindings (since.filed filedA) (since.filed filedB)

theorem moveName (c : Changes writes w v) (filed : v.Filed a) {source : NodeId}
    {target : Option BindingId} :
    Ends (Changes writes w) (Action.moveName nodeA a source dirB nodeB name target flags) v := by
  have onto : ∀ {u : World} {b}, Changes writes v u → Changes writes w u →
      Ends (Changes writes w) (do
        (Action.renameAt nodeA a nodeB b flags).orLetGo (.binding b)
        modify fun w => (w.moveBinding a dirB name).settle [.letGo (.binding b)]) u := by
    intro u b since c
    refine .bind (orLetGo c.renameAt) fun _ t done c => .modify (settle ?_)
    exact c.moveBinding (((orLetGo since.renameAt).ok done).filed filed)
  refine .read c .get fun _ _ => .ite (fun _ => .stop c) fun _ => ?_
  cases target with
  | none =>
      exact .bind c.newBinding fun b u made c => onto (Changes.refl.newBinding.ok made) c
  | some b =>
      exact .ite (fun _ => .stop c) fun _ => .ite (fun _ => .stop c) fun _ =>
        .ite (fun _ => .stop c) fun _ => .bind (.pure c _) fun b u same c => by
          obtain ⟨rfl, rfl⟩ := pure_eq_ok.1 same
          exact onto .refl c

/-- A name in a directory is filed there. -/
theorem filed_of_child? (f : Forest w) (h : w.child? dir name = some b) : w.Filed b := by
  obtain ⟨⟨x, hx, parent⟩, -⟩ := parentOf_eq_some_iff.1 (f.entry h).2
  refine ⟨Table.get?_lt hx, fun y hy => ?_⟩
  cases hx.symm.trans hy
  rw [parent]
  rfl

theorem rename (c : Changes writes w v) (f : Forest v) {nameA nameB : String} :
    Ends (Changes writes w) (Action.rename dirA nameA dirB nameB flags) v := by
  refine .read c (.test _) fun _ _ => .read c (.test _) fun _ _ => .ite (fun _ => .stop c) fun _ =>
    .read c (reads_directoryOf dirA) fun _ _ => .read c (reads_directoryOf dirB) fun _ _ =>
    .read c (reads_homeOf _) fun _ _ => .read c (reads_homeOf _) fun _ _ =>
    .ite (fun _ => .stop c) fun _ => .read c (reads_takenBinding dirA nameA) fun a ha =>
    .read c .get fun u hu => .read c (reads_boundNode a) fun _ _ => .read c .get fun _ _ =>
    .ite (fun _ => .pure c _) fun _ => ?_
  have filedA : v.Filed a := filed_of_child? f (takenBinding_eq_ok.1 ha).1
  obtain ⟨rfl, -⟩ := get_eq_ok.1 hu
  refine .ite (fun _ => .read c (.require _ _) fun b hb => ?_) fun _ => c.moveName filedA
  exact c.exchangeNames filedA (filed_of_child? f (require_eq_ok.1 hb).1)

end Changes

end Memfs
