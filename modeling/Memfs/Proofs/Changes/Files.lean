import Memfs.Proofs.Changes.Names

/-!
# The changes of an operation on files

The operations that open and close files, read and write. All of them but `readdir`
change the table of files or the content of a regular node, so they are the ones that
the permission to write is for.
-/

namespace Memfs.Changes

open World Memfs.Action

variable {writes : Prop} {w v : World} {b dir : BindingId} {n : NodeId} {f : FileId}
  {offset len size : Nat} {src : Bytes} {flags : OpenFlags}

/-! ## Content -/

theorem touchEnds (c : Changes writes w v) : Ends (Changes writes w) (do
    let time ← Action.now n
    modify (·.modifyNode n (·.written time))) v :=
  .bind c.nowEnds fun _ _ _ c => .modify c.written

theorem accessed (c : Changes writes w v) {time : Timestamp} :
    Changes writes w (v.modifyNode n (·.accessed time)) :=
  c.step (.modifyNode (fun _ => rfl) fun _ _ => .inl)

theorem readContent (c : Changes writes w v) :
    Ends (Changes writes w) (Action.readContent n offset len) v :=
  .read c (reads_node n) fun _ _ => .bind c.nowEnds fun _ _ _ c =>
    .bind (.modify c.accessed) fun _ _ _ c => .pure c _

theorem storeBytes (c : Changes writes w v) (allowed : writes) (plain : v.Plain n) :
    Ends (Changes writes w) (Action.storeBytes n offset src) v := by
  refine .read c (reads_node n) fun node _ => .bind c.onHostEnds fun outcome u done c => ?_
  cases outcome with
  | error e => exact .throw c _
  | ok content =>
      obtain ⟨-, rfl⟩ := onHost_eq_ok.1 done
      exact .modify (c.step (.content (f := fun _ => content) allowed plain))

theorem writeContent (c : Changes writes w v) (allowed : writes) (plain : v.Plain n) :
    Ends (Changes writes w) (Action.writeContent n offset src) v :=
  .read c (reads_node n) fun _ _ => .ite (fun _ => .stop c) fun _ => .read c .get fun _ _ =>
    .ite (fun _ => .stop c) fun _ => .bind (c.storeBytes allowed plain) fun _ _ _ c =>
    .bind c.nowEnds fun _ _ _ c => .bind (.modify c.written) fun _ _ _ c => .pure c _

theorem resizeContent (c : Changes writes w v) (allowed : writes) (plain : v.Plain n) :
    Ends (Changes writes w) (Action.resizeContent n size) v := by
  refine .read c (reads_node n) fun _ _ => .read c .get fun _ _ => .ite (fun _ => .stop c) fun _ =>
    .bind c.onHostEnds fun content u done c => .bind (.modify ?_) fun _ _ _ c => c.touchEnds
  obtain ⟨-, rfl⟩ := onHost_eq_ok.1 done
  exact c.step (.content (f := fun _ => content) allowed plain)

theorem readdir (c : Changes writes w v) : Ends (Changes writes w) (Action.readdir dir) v :=
  .read c (reads_boundNode dir) fun _ _ => .read c (reads_node _) fun _ _ =>
    .ite (fun _ => .stop c) fun _ => .read c .get fun _ _ => .bind c.nowEnds fun _ _ _ c =>
    .bind (.modify c.accessed) fun _ _ _ c => .pure c _

/-! ## Files -/

theorem enterFile (c : Changes writes w v) (allowed : writes) {file : OpenFile} :
    Ends (Changes writes w) (Action.enterFile file) v :=
  .total (c.step (.files allowed))

theorem closeFile (c : Changes writes w v) (allowed : writes) :
    Ends (Changes writes w) (Action.closeFile f) v := by
  refine .modify ?_
  cases v.files.get? f with
  | none => exact c
  | some file => exact settle (c.step (.files allowed))

theorem seek (c : Changes writes w v) (allowed : writes) {position : Nat} :
    Ends (Changes writes w) (Action.seek f position) v :=
  .modify (c.step (.files allowed))

theorem readAt (c : Changes writes w v) :
    Ends (Changes writes w) (Action.readAt f offset len) v :=
  .read c (reads_contentNode f _) fun _ _ => c.readContent

theorem read (c : Changes writes w v) (allowed : writes) :
    Ends (Changes writes w) (Action.read f len) v :=
  .read c (reads_file f) fun _ _ => .bind c.readAt fun _ _ _ c =>
    .bind (c.seek allowed) fun _ _ _ c => .pure c _

theorem writeAt (c : Changes writes w v) (allowed : writes) :
    Ends (Changes writes w) (Action.writeAt f offset src) v :=
  .read c (reads_contentNode f _) fun _ found => c.writeContent allowed (contentNode_ok found).2.1

theorem write (c : Changes writes w v) (allowed : writes) :
    Ends (Changes writes w) (Action.write f src) v := by
  refine .read c (reads_file f) fun opened _ => ?_
  have written : ∀ offset, Ends (Changes writes w) (do
      let written ← Action.writeAt f offset src
      Action.seek f (offset + written)
      return written : Action Nat) v := fun offset =>
    .bind (c.writeAt allowed) fun _ _ _ c => .bind (c.seek allowed) fun _ _ _ c => .pure c _
  simp only
  split
  · exact .read c (reads_fileNode f) fun _ _ => .read c (reads_node _) fun _ _ =>
      .read c (.pure _) fun _ _ => written _
  · exact .read c (.pure _) fun _ _ => written _

theorem setLength (c : Changes writes w v) (allowed : writes) :
    Ends (Changes writes w) (Action.setLength f size) v :=
  .read c (reads_contentNode f _) fun _ found => c.resizeContent allowed (contentNode_ok found).2.1

theorem openFile (c : Changes writes w v) (allowed : writes) :
    Ends (Changes writes w) (Action.openFile b flags) v := by
  refine .read c (reads_boundNode b) fun n _ => .read c (reads_node n) fun node hn => ?_
  have entered : ∀ {u}, Changes writes w u →
      Ends (Changes writes w) (Action.enterFile { binding := b, node := some n, flags }) u :=
    fun c => c.enterFile allowed
  cases kind : node.kind with
  | directory => exact .ite (fun _ => .stop c) fun _ => entered c
  | regular =>
      have plain : v.Plain n := fun x hx => by
        cases (node_eq_ok.1 hn).1.symm.trans hx
        exact kind
      exact .ite (fun _ => .ite (fun _ => .bind (c.resizeContent allowed plain) fun _ _ _ c =>
        entered c) fun _ => .stop c) fun _ => entered c
  | symlink => exact entered c
  | special kind device => exact entered c

/-- The binding of the file was made for the directory, though it is not entered there. -/
theorem makeUnnamedAt (c : Changes writes w v) (allowed : writes) {d : NodeId} {mode : Mode}
    (filed : ∀ x, v.files.get? f = some x → v.Filed x.binding) :
    Ends (Changes writes w) (Action.makeUnnamedAt d f mode) v := by
  refine .read c (reads_homeOf d) fun home _ => .bind c.newNode fun n u made c => ?_
  have since : Changes writes v u := Changes.refl.newNode.ok made
  have files : u.files = v.files := by
    obtain ⟨-, host, ino, kind, time, -, rfl, -⟩ := newNode_ok made
    rfl
  refine .bind (.modify c.dropLink) fun _ u' dropped c => ?_
  cases modify_eq_ok.1 dropped
  refine .read c (reads_node n) fun node _ => .read c .get fun t ht =>
    .read c (.require _ _) fun opened found => .read c .get fun _ _ => .modify ?_
  obtain ⟨rfl, -⟩ := get_eq_ok.1 ht
  have found := (require_eq_ok.1 found).1
  rw [files_dropLink, files] at found
  refine settle (step (settle (c.step ?_)) (.files allowed))
  refine .readdress ?_ (fun _ => rfl) fun _ h => h
  exact since.dropLink.filed (filed opened found)

theorem openUnnamed (c : Changes writes w v) (allowed : writes) {mode : Mode} :
    Ends (Changes writes w) (Action.openUnnamed dir mode flags) v := by
  refine .read c (reads_directoryOf dir) fun d _ => .ite (fun _ => ?_) fun _ => .stop c
  refine .bind c.newBinding fun b u made c => .bind (c.enterFile allowed) fun f u' entered c => ?_
  obtain ⟨host, -, rfl, rfl⟩ := newBinding_eq_ok.1 made
  obtain ⟨rfl, rfl⟩ := total_eq_ok.1 entered
  have unnamed : Ends (Changes writes w) (Action.makeUnnamedAt d v.files.nextId
      (mode.withType Mode.regularType)) _ := c.makeUnnamedAt allowed fun x hx => by
    have hx := (Table.get?_push_self (t := v.files)).symm.trans hx
    cases hx
    refine ⟨Nat.lt_of_lt_of_eq (Nat.lt_succ_self _) Table.nextId_push.symm, fun y hy => ?_⟩
    cases (Table.get?_push_self (t := v.bindings)).symm.trans hy
    rfl
  refine .bind (.onFailure unnamed.ok fun failed => ?_) fun _ u opened c =>
    .ite (fun _ => .pure c _) fun _ => ?_
  · exact settle ((unnamed.error failed).step (.files allowed))
  · refine .read c (reads_boundNode _) fun n hn => ?_
    have file : u.isDirectory n = false := by
      rw [isDirectory_of_makeUnnamedAt Table.get?_push_self rfl Table.get?_push_self rfl
        (onFailure_eq_ok.1 opened) (boundNode_eq_ok.1 hn).1]
      exact Mode.isDirectory_withType_regular
    refine .bind (.modify (c.step (.modifyNode (fun _ => rfl) fun x hx _ => .inr ?_)))
      fun _ _ _ c => .pure c _
    rwa [World.isDirectory, hx] at file

end Memfs.Changes
