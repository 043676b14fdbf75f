import Memfs.Proofs.Sound.Files
import Memfs.Proofs.Sound.Mounts

/-!
# Runs

A run is a list of calls, made one after the other. Every call is total: an operation
that fails ends in the world that it leaves behind, and a call that names an object
which is gone is a call that fails. So a run needs no conditions, and whatever holds
after every run holds in every state that callers can bring about.

What an operation hands out belongs to nobody until it is held. A caller may hold any
object that is there, and as many as it likes, so bindings and nodes that have lost
their names are among the arguments of later calls.
-/

namespace Memfs

/-- An operation on names, on open files or on content. -/
inductive Operation where
  | create (dir : BindingId) (name : String) (mode : Mode)
  | mkdir (dir : BindingId) (name : String) (mode : Mode)
  | mknod (dir : BindingId) (name : String) (mode : Mode) (device : DeviceNumber)
  | symlink (dir : BindingId) (name target : String)
  | openUnnamed (dir : BindingId) (mode : Mode) (flags : OpenFlags)
  | link (old dir : BindingId) (name : String)
  | unlink (dir : BindingId) (name : String)
  | rmdir (dir : BindingId) (name : String)
  | rename (dirA : BindingId) (nameA : String) (dirB : BindingId) (nameB : String)
    (flags : RenameFlags)
  | openFile (b : BindingId) (flags : OpenFlags)
  | readdir (dir : BindingId)
  | read (f : FileId) (len : Nat)
  | readAt (f : FileId) (offset len : Nat)
  | write (f : FileId) (src : Bytes)
  | writeAt (f : FileId) (offset : Nat) (src : Bytes)
  | seek (f : FileId) (position : Nat)
  | setLength (f : FileId) (size : Nat)

/-- What the operation does; what it hands out is not looked at. -/
def Operation.act : Operation → Action Unit
  | create dir name mode => do let _ ← Action.create dir name mode
  | mkdir dir name mode => do let _ ← Action.mkdir dir name mode
  | mknod dir name mode device => do let _ ← Action.mknod dir name mode device
  | symlink dir name target => do let _ ← Action.symlink dir name target
  | openUnnamed dir mode flags => do let _ ← Action.openUnnamed dir mode flags
  | link old dir name => do let _ ← Action.link old dir name
  | unlink dir name => Action.unlink dir name
  | rmdir dir name => Action.rmdir dir name
  | rename dirA nameA dirB nameB flags => Action.rename dirA nameA dirB nameB flags
  | openFile b flags => do let _ ← Action.openFile b flags
  | readdir dir => do let _ ← Action.readdir dir
  | read f len => do let _ ← Action.read f len
  | readAt f offset len => do let _ ← Action.readAt f offset len
  | write f src => do let _ ← Action.write f src
  | writeAt f offset src => do let _ ← Action.writeAt f offset src
  | seek f position => Action.seek f position
  | setLength f size => Action.setLength f size

/-- What a caller may do. -/
inductive Call where
  | operate (op : Operation)
  | closeFile (f : FileId)
  /-- The caller becomes an owner of an object that is there. -/
  | hold (ref : Ref)
  | drop (ref : Ref)
  | register (type : FilesystemType)
  | unregister (name : String)
  | mount (name options : String)
  | newContext (type : FilesystemType)
  | applyParameter (c : ContextId) (param : Parameter)
  | makeTree (c : ContextId)
  | takeInstance (c : ContextId)
  | dropContext (c : ContextId)
  | attachToContext (c : ContextId) (sort : DeviceSort) (device : Device)
  | attachToInstance (i : InstanceId) (sort : DeviceSort) (device : Device)
  | deactivate (i : InstanceId)
  | setBudget (kind : Resource) (budget : Option Nat)
  | setCredentials (uid gid : UInt32)
  | setClock (clock : Clock)
  | resetIno (ino : UInt64)

/-- The world that an operation leads to, whether it fails or not. -/
def Action.into {α : Type} (x : Action α) (w : World) : World :=
  match x w with
  | .ok _ w' => w'
  | .error _ w' => w'

namespace World

instance decidableHas (w : World) : (ref : Ref) → Decidable (w.Has ref)
  | .node n => inferInstanceAs (Decidable (w.nodes.has n = true))
  | .binding b => inferInstanceAs (Decidable (w.bindings.has b = true))
  | .inst i => inferInstanceAs (Decidable (w.instances.has i = true))

/-- The world after a call. -/
def after (w : World) : Call → World
  | .operate op => op.act.into w
  | .closeFile f => (Action.closeFile f).into w
  | .hold ref => if w.Has ref then w.hold ref else w
  | .drop ref => w.drop ref
  | .register type => (Action.register type).into w
  | .unregister name => (Action.unregister name).into w
  | .mount name options => (Action.mount name options).into w
  | .newContext type => (Action.newContext type).into w
  | .applyParameter c param => (Action.applyParameter c param).into w
  | .makeTree c => (Action.makeTree c).into w
  | .takeInstance c => (w.takeInstance c).2
  | .dropContext c => w.dropContext c
  | .attachToContext c sort device => (Action.attachToContext c sort device).into w
  | .attachToInstance i sort device => (Action.attachToInstance i sort device).into w
  | .deactivate i => w.deactivate i
  | .setBudget kind budget => { w with host := w.host.setBudget kind budget }
  | .setCredentials uid gid => { w with host := { w.host with uid, gid } }
  | .setClock clock => { w with host := { w.host with clock } }
  | .resetIno ino => { w with host := { w.host with nextIno := ino } }

/-- The world after a list of calls. -/
def run (w : World) (calls : List Call) : World := calls.foldl after w

theorem run_cons {w : World} {call : Call} {rest : List Call} :
    w.run (call :: rest) = (w.after call).run rest := rfl

/-- What each call keeps is kept by a run. -/
theorem run_induction {P : World → Prop} (step : ∀ w call, P w → P (w.after call)) :
    ∀ {w : World} (calls : List Call), P w → P (w.run calls)
  | _, [], h => h
  | w, call :: rest, h => run_induction step rest (step w call h)

end World

open World

variable {w : World}

theorem Action.Ends.into {α : Type} {P : World → Prop} {x : Action α} (h : Ends P x w) :
    P (x.into w) := by
  unfold Action.into
  cases hx : x w with
  | ok a w' => exact h.ok hx
  | error e w' => exact h.error hx

theorem Action.exists_of_discard_ok {α : Type} {x : Action α} {u : Unit} {w' : World}
    (h : (do let _ ← x : Action Unit) w = .ok u w') : ∃ a, x w = .ok a w' := by
  simpa using h

/-! ## Failing operations -/

theorem Action.Clean.discard {α : Type} {x : Action α} (h : Clean x w) :
    Clean (do let _ ← x : Action Unit) w :=
  h.last fun _ _ _ _ _ => pure_eq_error

/-- No operation that fails leaves a trace in a world that is in order. -/
theorem Operation.act_clean (s : Sound w []) : ∀ op : Operation, Action.Clean op.act w
  | create _ _ _ => (Action.create_clean s).discard
  | mkdir _ _ _ => (Action.mkdir_clean s).discard
  | mknod _ _ _ _ => (Action.mknod_clean s).discard
  | symlink _ _ _ => (Action.symlink_clean s).discard
  | openUnnamed _ _ _ => (Action.openUnnamed_clean s).discard
  | link _ _ _ => (Action.link_clean s).discard
  | unlink _ _ => Action.unlink_clean
  | rmdir _ _ => Action.rmdir_clean
  | rename _ _ _ _ _ => Action.rename_clean s
  | openFile _ _ => Action.openFile_clean.discard
  | readdir _ => Action.readdir_clean.discard
  | read _ _ => Action.read_clean.discard
  | readAt _ _ _ => Action.readAt_clean.discard
  | write _ _ => Action.write_clean.discard
  | writeAt _ _ _ => Action.writeAt_clean.discard
  | seek _ _ => .of_safe fun _ _ => Action.modify_eq_error
  | setLength _ _ => Action.setLength_clean

/-! ## Every run leads to a world in order -/

namespace Sound

theorem fresh {clock : Clock} : Sound (World.fresh clock) [] where
  tended := by
    refine ⟨fun {ref} h => ?_, fun {ref} h => ?_⟩
    · obtain ⟨holder, h⟩ := h
      cases holder with
      | caller => cases h
      | binding b => simp [Owner, World.fresh] at h
      | file f => simp [Owner, World.fresh] at h
      | inst i => simp [Owner, World.fresh] at h
      | context c => simp [Owner, World.fresh] at h
    · cases ref with
      | node n => simp [Has, World.fresh, Table.has] at h
      | binding b => simp [Has, World.fresh, Table.has] at h
      | inst i => simp [Has, World.fresh, Table.has] at h
  charged := ⟨rfl, rfl, rfl, rfl⟩
  forest := by
    have parent : ∀ b, (World.fresh clock).parentOf b = none := fun b => by
      simp [parentOf, World.fresh]
    have child : ∀ d name, (World.fresh clock).child? d name = none := fun d name => by
      simp [child?, World.fresh]
    exact {
      known := fun h => by simp [World.fresh] at h
      entry := fun h => by simp [child] at h
      above := fun h => by simp [parent] at h
      once := fun h => by simp [nodeOf, World.fresh] at h
      checked := fun h => by simp [child] at h
      bound := fun h => by simp [child] at h
      grounded := ⟨fun b => ⟨b, fun p h => by simp [IsParent, parent] at h⟩⟩ }

/-- A failure leaves nothing to put in order. -/
theorem ends_of_clean {α : Type} {x : Action α} (s : Sound w []) (clean : Action.Clean x w)
    (ok : ∀ a w', x w = .ok a w' → Sound w' []) : Action.Ends (Sound · []) x w where
  ok h := ok _ _ h
  error h := (clean _ _ h).sound s

theorem operate (s : Sound w []) (op : Operation) : Action.Ends (Sound · []) op.act w := by
  refine s.ends_of_clean (op.act_clean s) fun _ w' h => ?_
  cases op with
  | create dir name mode =>
      obtain ⟨b, h⟩ := Action.exists_of_discard_ok h
      exact s.create h
  | mkdir dir name mode =>
      obtain ⟨b, h⟩ := Action.exists_of_discard_ok h
      exact s.mkdir h
  | mknod dir name mode device =>
      obtain ⟨b, h⟩ := Action.exists_of_discard_ok h
      exact s.mknod h
  | symlink dir name target =>
      obtain ⟨b, h⟩ := Action.exists_of_discard_ok h
      exact s.symlink h
  | openUnnamed dir mode flags =>
      obtain ⟨f, h⟩ := Action.exists_of_discard_ok h
      exact s.openUnnamed h
  | link old dir name =>
      obtain ⟨b, h⟩ := Action.exists_of_discard_ok h
      exact s.link h
  | unlink dir name => exact s.unlink h
  | rmdir dir name => exact s.rmdir h
  | rename dirA nameA dirB nameB flags => exact s.rename h
  | openFile b flags =>
      obtain ⟨f, h⟩ := Action.exists_of_discard_ok h
      exact s.openFile h
  | readdir dir =>
      obtain ⟨entries, h⟩ := Action.exists_of_discard_ok h
      exact s.readdir h
  | read f len =>
      obtain ⟨bytes, h⟩ := Action.exists_of_discard_ok h
      exact s.read h
  | readAt f offset len =>
      obtain ⟨bytes, h⟩ := Action.exists_of_discard_ok h
      exact s.readAt h
  | write f src =>
      obtain ⟨written, h⟩ := Action.exists_of_discard_ok h
      exact s.write h
  | writeAt f offset src =>
      obtain ⟨written, h⟩ := Action.exists_of_discard_ok h
      exact s.writeAt h
  | seek f position =>
      rw [← Action.seek_eq_ok.1 h]
      exact s.moveTo
  | setLength f size => exact s.setLength h

theorem registered (s : Sound w []) (types : List FilesystemType) : Sound { w with types } [] where
  tended := s.tended.same (fun ref => by cases ref <;> exact Iff.rfl)
    (fun ref holder => by cases holder <;> exact Iff.rfl)
  charged := ⟨s.charged.nodes, s.charged.bindings, s.charged.pages, s.charged.configs⟩
  forest := s.forest.of_bindings_eq rfl fun _ _ _ => rfl

theorem mount (s : Sound w []) {name options : String} :
    Action.Ends (Sound · []) (Action.mount name options) w :=
  .mount s fun _ _ => s.mountType fun _ _ s => s.note _

theorem after (s : Sound w []) (call : Call) : Sound (w.after call) [] := by
  cases call with
  | operate op => exact (s.operate op).into
  | closeFile f =>
      exact (Action.Ends.mk (P := (Sound · [])) (fun h => s.closeFile h)
        (fun h => absurd h Action.modify_eq_error)).into
  | hold ref =>
      unfold World.after
      simp only
      split
      · next there =>
          have waiting : Sound w [.letGo ref] := s.mono (fun _ h => nomatch h) rfl
          exact waiting.hold there
      · exact s
  | drop ref => exact (s.unhold ref).settleOne
  | register type => exact (configuring.register s fun s => s.registered _).into
  | unregister name => exact (configuring.unregister s fun s => s.registered _).into
  | mount name options => exact s.mount.into
  | newContext type => exact s.newContext.into
  | applyParameter c param => exact (configuring.applyParameter s).into
  | makeTree c => exact s.makeTree.into
  | takeInstance c => exact s.takeInstance
  | dropContext c => exact s.dropContext
  | attachToContext c sort device => exact (configuring.attachToContext s).into
  | attachToInstance i sort device => exact (configuring.attachToInstance s).into
  | deactivate i => exact s.deactivate
  | setBudget kind budget => exact s.onHost fun _ => Host.net_setBudget
  | setCredentials uid gid => exact s.onHost fun _ => rfl
  | setClock clock => exact s.onHost fun _ => rfl
  | resetIno ino => exact s.onHost fun _ => rfl

theorem run (s : Sound w []) (calls : List Call) : Sound (w.run calls) [] := by
  have step : ∀ (w : World) (call : Call), Sound w [] → Sound (w.after call) [] :=
    fun _ call s => s.after call
  exact run_induction step calls s

end Sound

/-! ## A failed operation after any run -/

/-- Whatever was called before, and whatever the budgets are, an operation that fails
leaves all objects as they were and as many of each kind in use. -/
theorem unchanged_of_failed (clock : Clock) (calls : List Call) (op : Operation) {e : Error}
    {w' : World} (h : op.act ((World.fresh clock).run calls) = .error e w') :
    Unchanged ((World.fresh clock).run calls) w' ∧
      ∀ kind, w'.host.live kind = ((World.fresh clock).run calls).host.live kind := by
  have s : Sound ((World.fresh clock).run calls) [] := Sound.fresh.run calls
  have kept := op.act_clean s e w' h
  exact ⟨kept, kept.live⟩

/-- A write over two pages, of which the budget grants one. -/
theorem unchanged_of_failed_halfway :
    let calls : List Call := [.register builtInType, .mount "tagfs" "",
      .operate (.create 0 "a" ⟨0o644⟩), .operate (.openFile 1 .writing), .setBudget .page (some 1)]
    let w := (World.fresh (.steady 0 0 1)).run calls
    ∃ w', (Operation.writeAt 0 4095 #[1, 2]).act w = .error .backingStore w' ∧
      (Unchanged w w' ∧ ∀ kind, w'.host.live kind = w.host.live kind) := by
  intro calls w
  have refused : (match (Operation.writeAt 0 4095 #[1, 2]).act w with
      | .ok _ _ => none
      | .error e _ => some e) = some Error.backingStore := by decide +kernel
  cases h : (Operation.writeAt 0 4095 #[1, 2]).act w with
  | ok u w' =>
      rw [h] at refused
      cases refused
  | error e w' =>
      rw [h] at refused
      cases refused
      exact ⟨w', rfl, unchanged_of_failed (.steady 0 0 1) calls _ h⟩

end Memfs
