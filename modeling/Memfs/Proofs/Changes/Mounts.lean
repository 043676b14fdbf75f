import Memfs.Proofs.Changes.Files
import Memfs.Proofs.Runs

/-!
# The changes of a mount, and of a run

Contexts are no object of the tables that changes are about, so what a mount does to
them passes as an aside. What is left are the instance that is made, its data, its
root and its teardown. The root is made on the spot, which is why no instance has a root
that was made for a directory.

With the mounts all calls have been gone through: `run_changes` says that any run is a
list of changes.
-/

namespace Memfs

namespace Changes

open World Memfs.Action

variable {writes : Prop} {w v : World} {c : ContextId} {i : InstanceId}

theorem configuring : Configuring (Changes writes w) where
  noted _ changes := changes.onHost
  sourced changes := changes.aside rfl rfl rfl rfl
  configured _ _ changes := changes.aside rfl rfl rfl rfl
  backed _ _ changes := by
    refine changes.step (.modifyInstance ?_)
    exact fun _ => .inl rfl

theorem onContexts {contexts : Table Context} (changes : Changes writes w v) :
    Changes writes w { v with contexts } :=
  changes.aside rfl rfl rfl rfl

theorem newContext (changes : Changes writes w v) {type : FilesystemType} :
    Ends (Changes writes w) (Action.newContext type) v :=
  .newContext changes (fun _ => changes.onHost) fun changes => changes.onContexts

theorem leaving : Leaving (Changes writes w) where
  noted _ changes := changes.onHost
  contexts changes := changes.onContexts
  held changes := changes.aside rfl rfl rfl rfl
  settled changes := changes.settle
  deactivated changes := changes.deactivate

/-- A root that was just made has no parent. -/
theorem newRoot (changes : Changes writes w v) {n : NodeId} :
    Ends (Changes writes w) (Action.newRoot n) v where
  ok h := by
    obtain ⟨host, -, -, rfl⟩ := newRoot_ok h
    have charged : Changes writes w { v with host } := changes.onHost
    exact ((charged.step (.pushBinding fun _ => rfl)).step (.modifyBinding fun _ => rfl)).pin
  error h := by
    obtain ⟨host, -, rfl⟩ := newRoot_error h
    exact changes.onHost.settle

theorem topmost_of_newRoot {n : NodeId} {b : BindingId} (h : Action.newRoot n v = .ok b w) :
    w.Topmost b := by
  obtain ⟨host, -, rfl, rfl⟩ := newRoot_ok h
  exact ⟨_, get?_withRoot, rfl⟩

theorem setRoot (changes : Changes writes w v) {b : BindingId} (top : v.Topmost b) :
    Changes writes w (v.setRoot i b) :=
  settle (changes.step (.setRoot top))

theorem fill (changes : Changes writes w v) {filling : Filling} :
    Ends (Changes writes w) (Action.fill i filling) v := by
  cases filling with
  | noRoot => exact .pure changes _
  | failing cause => exact .throw changes cause
  | freshRoot =>
      refine .read changes .get fun _ _ => .read changes (.require _ _) fun config _ =>
        .bind (.modify (changes.step (.modifyInstance fun _ => .inl rfl))) fun _ u _ changes =>
        .bind (.mk (fun h => ?_) fun h => ?_) fun n _ _ changes =>
        .bind changes.newRoot fun b _ made changes =>
        .modify (changes.setRoot (topmost_of_newRoot made))
      · rcases tryCatch_eq_ok.1 h with h | ⟨_, _, -, h⟩
        · exact changes.newNode.ok h
        · exact absurd h throw_eq_ok
      · obtain ⟨_, _, failed, h⟩ := tryCatch_eq_error.1 h
        obtain ⟨-, rfl⟩ := throw_eq_error.1 h
        exact changes.newNode.error failed

theorem makeInstance (changes : Changes writes w v) {filling : Filling} :
    Ends (Changes writes w) (Action.makeInstance c filling) v := by
  refine .read changes (reads_context c) fun before _ =>
    .bind (.total (changes.step (.pushInstance rfl))) fun i _ _ changes =>
    .bind (.modify (step (onContexts changes) (.modifyInstance ?_))) fun _ u _ changes =>
    .bind (.onFailure (fun done => (fill changes).ok done) fun failed =>
      settle (deactivate (onHost ((fill changes).error failed)))) fun _ _ _ changes =>
    .modify (settle (onContexts changes))
  exact fun _ => .inl rfl

theorem makeTree (changes : Changes writes w v) :
    Ends (Changes writes w) (Action.makeTree c) v :=
  .makeTree changes (fun _ _ => changes.makeInstance) configuring.noted

theorem mount (changes : Changes writes w v) {name options : String} :
    Ends (Changes writes w) (Action.mount name options) v :=
  .mount changes fun _ _ => .mountType changes.newContext
    (fun changes => configuring.applyOptions changes) (fun changes => changes.makeTree)
    (fun changes => leaving.takeInstance changes) (fun changes => changes.onHost)
    fun changes => leaving.dropContext changes

end Changes

/-! ## Runs -/

open World Memfs.Action

variable {w : World}

/-- Is the operation one on open files? -/
def Operation.onFiles : Operation → Prop
  | openUnnamed _ _ _ | openFile _ _ | read _ _ | readAt _ _ _ | write _ _ | writeAt _ _ _
  | seek _ _ | setLength _ _ => True
  | create _ _ _ | mkdir _ _ _ | mknod _ _ _ _ | symlink _ _ _ | link _ _ _ | unlink _ _
  | rmdir _ _ | rename _ _ _ _ _ | readdir _ => False

/-- Is the call one on open files? -/
def Call.onFiles : Call → Prop
  | .operate op => op.onFiles
  | .closeFile _ => True
  | _ => False

theorem Action.Ends.discard {α : Type} {P : World → Prop} {x : Action α} (h : Ends P x w) :
    Ends P (do let _ ← x : Action Unit) w :=
  .bind h fun _ _ _ p => .pure p _

/-- What an operation does, it does by changes, whether it fails or not. -/
theorem Operation.changes (f : Forest w) (op : Operation) :
    Ends (Changes op.onFiles w) op.act w := by
  have c : ∀ {p}, Changes p w w := .refl
  cases op with
  | create dir name mode => exact c.create.discard
  | mkdir dir name mode => exact c.mkdir.discard
  | mknod dir name mode device => exact c.mknod.discard
  | symlink dir name target => exact c.symlink.discard
  | openUnnamed dir mode flags => exact (c.openUnnamed trivial).discard
  | link old dir name => exact c.link.discard
  | unlink dir name => exact c.unlink
  | rmdir dir name => exact c.rmdir
  | rename dirA nameA dirB nameB flags => exact c.rename f
  | openFile b flags => exact (c.openFile trivial).discard
  | readdir dir => exact c.readdir.discard
  | read h len => exact (c.read trivial).discard
  | readAt h offset len => exact c.readAt.discard
  | write h src => exact (c.write trivial).discard
  | writeAt h offset src => exact (c.writeAt trivial).discard
  | seek h position => exact c.seek trivial
  | setLength h size => exact c.setLength trivial

theorem World.after_changes (f : Forest w) (call : Call) :
    Changes call.onFiles w (w.after call) := by
  have c : ∀ {p}, Changes p w w := .refl
  have registered : ∀ {v : World} {types}, Changes False w v → Changes False w { v with types } :=
    fun c => c.aside rfl rfl rfl rfl
  cases call with
  | operate op => exact (op.changes f).into
  | closeFile h => exact (c.closeFile trivial).into
  | hold ref =>
      unfold World.after
      simp only
      split
      · exact c.aside rfl rfl rfl rfl
      · exact c
  | drop ref =>
      have given : Changes False w { w with held := w.held.erase ref } := c.aside rfl rfl rfl rfl
      exact given.settle
  | register type => exact (Changes.configuring.register c registered).into
  | unregister name => exact (Changes.configuring.unregister c registered).into
  | mount name options => exact c.mount.into
  | newContext type => exact c.newContext.into
  | applyParameter i param => exact (Changes.configuring.applyParameter c).into
  | makeTree i => exact c.makeTree.into
  | takeInstance i => exact Changes.leaving.takeInstance c
  | dropContext i => exact Changes.leaving.dropContext c
  | attachToContext i sort device => exact (Changes.configuring.attachToContext c).into
  | attachToInstance i sort device => exact (Changes.configuring.attachToInstance c).into
  | deactivate i => exact c.deactivate
  | setBudget kind budget => exact c.onHost
  | setCredentials uid gid => exact c.onHost
  | setClock clock => exact c.onHost
  | resetIno ino => exact c.onHost

/-- Any run is a list of changes. -/
theorem World.run_changes (s : Sound w []) (calls : List Call) : Changes True w (w.run calls) := by
  have step : ∀ (v : World) (call : Call), Sound v [] ∧ Changes True w v →
      Sound (v.after call) [] ∧ Changes True w (v.after call) := by
    intro v call ⟨s, c⟩
    refine ⟨s.after call, ?_⟩
    have last : Changes True v (v.after call) :=
      (World.after_changes s.forest call).mono fun _ => trivial
    exact last.keeps (P := Changes True w) (fun change c => c.step change) c
  exact (World.run_induction step calls ⟨s, .refl⟩).2

/-- What every change keeps holds after every run. -/
theorem World.run_keeps {P : World → Prop} (kept : ∀ {u v : World}, Change True u v → P u → P v)
    {clock : Clock} (start : P (World.fresh clock)) (calls : List Call) :
    P ((World.fresh clock).run calls) :=
  (World.run_changes Sound.fresh calls).keeps kept start

end Memfs
