import Memfs.Proofs.Quiet

/-!
# Calls that are no operations

A caller does more than work on names and files. It closes files, holds objects and drops
them, mounts and tears down, and turns the knobs of the host. For the nodes and the names
that are there all of this comes to little: objects are let go of, and a mount makes a root
with a node of its own. `Housekeeping P` lists these steps, and what each of them keeps is
kept by every call that is no operation.

The clock is read forwards, and every instance is made to keep times as fine as the clock, so
a property may rely on that (`Paced`). No inode number is drawn but for a root. Only the calls
that set the clock and the inode numbers are to be looked at for themselves.
-/

namespace Memfs

open World

/-- All instances keep times as fine as the clock. -/
def World.Fine (w : World) : Prop :=
  ∀ i x, w.instances.get? i = some x → x.geometry.timeGrain ≤ 1

namespace World.Fine

variable {w : World} {i : InstanceId}

theorem modifyInstance (h : w.Fine) {f : Instance → Instance}
    (same : ∀ x, (f x).geometry.timeGrain = x.geometry.timeGrain ∨ (f x).geometry.timeGrain = 1) :
    (w.modifyInstance i f).Fine := by
  intro j y hy
  rcases Table.get?_of_modify hy with ⟨-, x, hx, rfl⟩ | ⟨-, hy⟩
  · rcases same x with same | same
    · exact same ▸ h _ x hx
    · exact Nat.le_of_eq same
  · exact h j y hy

theorem push (h : w.Fine) {x : Instance} (fine : x.geometry.timeGrain ≤ 1) :
    Fine { w with instances := w.instances.push x } := by
  intro j y hy
  rcases Table.get?_of_push hy with ⟨-, rfl⟩ | ⟨-, hy⟩
  · exact fine
  · exact h j y hy

theorem removeInstance (h : w.Fine) : (w.removeInstance i).Fine :=
  fun j y hy => h j y (Table.get?_of_erase hy)

end World.Fine

/-- The clock was read on, and times are as fine as they were. -/
structure World.Paced (w v : World) : Prop where
  clock : w.host.clock.Onward v.host.clock
  fine : w.Fine → v.Fine

namespace World.Paced

variable {w v u : World} {i : InstanceId}

theorem refl : w.Paced w := ⟨.refl, id⟩

theorem trans (h : w.Paced v) (h' : v.Paced u) : w.Paced u :=
  ⟨h.clock.trans h'.clock, fun fine => h'.fine (h.fine fine)⟩

theorem onward (clock : w.host.clock.Onward v.host.clock) (instances : v.instances = w.instances) :
    w.Paced v where
  clock := clock
  fine h := by
    unfold Fine at h ⊢
    rwa [instances]

/-- Neither the clock nor an instance has changed. -/
theorem same (clock : v.host.clock = w.host.clock) (instances : v.instances = w.instances) :
    w.Paced v :=
  .onward (clock ▸ .refl) instances

theorem modifyInstance {f : Instance → Instance}
    (same : ∀ x, (f x).geometry.timeGrain = x.geometry.timeGrain ∨ (f x).geometry.timeGrain = 1) :
    w.Paced (w.modifyInstance i f) :=
  ⟨.refl, fun h => h.modifyInstance same⟩

theorem acquire {kind : Resource} {granted : Bool} {host : Host}
    (acquired : w.host.acquire kind = (granted, host)) : w.Paced { w with host } := by
  have clock : (w.host.acquire kind).2.clock = w.host.clock := by
    unfold Host.acquire
    split
    · rfl
    · rfl
  rw [acquired] at clock
  exact .same clock rfl

theorem blind : Blind w.Paced where
  host onward h := h.trans (.onward onward.clock rfl)
  nodes h := h.trans (.same rfl rfl)
  bindings h := h.trans (.same rfl rfl)
  files h := h.trans (.same rfl rfl)

/-- An operation is as good as its parts. -/
theorem quiet : Quiet w.Paced := blind.quiet

end World.Paced

/-- `P` is kept by each step of a call that is no operation. -/
structure Housekeeping (P : World → Prop) : Prop where
  /-- The nodes and the bindings are the same. -/
  aside : ∀ {v u : World}, P v → v.Paced u → v.host.Undrawn u.host → u.nodes = v.nodes →
    u.bindings = v.bindings → P u
  settled : ∀ {v : World} {tasks : List Task}, P v → P (v.settle tasks)
  /-- A directory is made that is in no directory. -/
  made : ∀ {v u : World} {home : InstanceId} {mode : Mode} {n : NodeId},
    Action.newNode home none (mode.withType Mode.directoryType) .none v = .ok n u → P v → P u
  /-- It is given a root. -/
  rooted : ∀ {v u : World} {home : InstanceId} {mode : Mode} {n : NodeId} {host : Host},
    Action.newNode home none (mode.withType Mode.directoryType) .none v = .ok n u →
      u.host.acquire .binding = (true, host) → P v → P (u.withRoot host n)

namespace Housekeeping

open Memfs.Action

variable {P : World → Prop} {w : World} {i : InstanceId} {c : ContextId}

theorem note (p : Housekeeping P) (h : P w) {notice : Notice} (undrawn : notice.draw? = none) :
    P (w.note notice) :=
  p.aside h (.same rfl rfl) (.note undrawn) rfl rfl

/-- Something else changed than nodes, bindings, instances and the host. -/
theorem beside (p : Housekeeping P) (h : P w) {u : World} (host : u.host = w.host)
    (nodes : u.nodes = w.nodes) (bindings : u.bindings = w.bindings)
    (instances : u.instances = w.instances) : P u :=
  p.aside h (.same (congrArg Host.clock host) instances) (host ▸ .refl) nodes bindings

theorem onContexts (p : Housekeeping P) (h : P w) {contexts : Table Context} :
    P { w with contexts } :=
  p.beside h rfl rfl rfl rfl

theorem modifyInstance (p : Housekeeping P) (h : P w) {f : Instance → Instance}
    (same : ∀ x, (f x).geometry.timeGrain = x.geometry.timeGrain ∨ (f x).geometry.timeGrain = 1) :
    P (w.modifyInstance i f) :=
  p.aside h (.modifyInstance same) .refl rfl rfl

theorem ending (p : Housekeeping P) : Ending i P where
  noted calm h := p.note h calm.undrawn
  stripped h := p.settled (p.modifyInstance h fun _ => .inl rfl)
  dissolved _ h := p.settled (p.modifyInstance h fun _ => .inl rfl)

theorem deactivate (p : Housekeeping P) (h : P w) : P (w.deactivate i) :=
  p.ending.deactivate h fun _ => p.modifyInstance h fun _ => .inl rfl

theorem configuring (p : Housekeeping P) : Configuring P where
  noted calm h := p.note h calm.undrawn
  sourced h := p.onContexts h
  configured _ _ h := p.onContexts h
  backed _ _ h := p.modifyInstance h fun _ => .inl rfl

/-! ## Mounts -/

theorem newContext (p : Housekeeping P) (h : P w) {type : FilesystemType} :
    Ends P (Action.newContext type) w :=
  .newContext h (fun acquired => p.aside h (.acquire acquired) (.of_acquire acquired) rfl rfl)
    fun h => p.onContexts h

theorem fill (p : Housekeeping P) (h : P w) {filling : Filling} :
    Ends P (Action.fill i filling) w := by
  cases filling with
  | noRoot => exact .pure h _
  | failing cause => exact .throw h cause
  | freshRoot =>
      refine .read h .get fun _ _ => .read h (.require _ _) fun config _ =>
        .bind (.modify (p.modifyInstance h fun _ => .inr rfl)) fun _ u _ h => ?_
      refine .seq (fun e v failed => ?_) fun n v made => ?_
      · obtain ⟨_, _, refused, again⟩ := tryCatch_eq_error.1 failed
        obtain ⟨-, rfl⟩ := throw_eq_error.1 again
        obtain ⟨host, acquired, rfl⟩ := newDirectory_error refused
        exact p.note (p.aside h (.acquire acquired) (.of_acquire acquired) rfl rfl) rfl
      · have made : Action.newNode i none (config.mode.withType Mode.directoryType) .none u
            = .ok n v := by
          rcases tryCatch_eq_ok.1 made with made | ⟨_, _, -, again⟩
          · exact made
          · exact absurd again throw_eq_ok
        refine .seq (fun e t failed => ?_) fun b t rooted => ?_
        · obtain ⟨host, refused, rfl⟩ := newRoot_error failed
          exact p.settled (p.aside (p.made made h) (.acquire refused) (.of_acquire refused) rfl rfl)
        · obtain ⟨host, acquired, rfl, rfl⟩ := newRoot_ok rooted
          exact .modify (p.settled (p.modifyInstance (p.rooted made acquired h) fun _ => .inl rfl))

theorem begun (p : Housekeeping P) (h : P w) {x : Context} : P (w.begun c x) := by
  have made : P (w.newInstance x.type x.source x.flags).2 :=
    p.aside h ⟨.refl, fun fine => fine.push (Nat.le_refl _)⟩ .refl rfl rfl
  exact p.modifyInstance (p.onContexts made) fun _ => .inl rfl

theorem makeInstance (p : Housekeeping P) (h : P w) {filling : Filling} :
    Ends P (Action.makeInstance c filling) w where
  ok done := by
    obtain ⟨before, v, -, filled, rfl⟩ := makeInstance_ok done
    have begun : P (w.begun c before) := p.begun h
    exact p.settled (p.onContexts ((p.fill begun).ok filled))
  error failed := by
    rcases makeInstance_error failed with ⟨-, rfl⟩ | ⟨before, v, -, refused, rfl⟩
    · exact h
    · exact p.settled (p.deactivate (p.note ((p.fill (p.begun h)).error refused) rfl))

theorem makeTree (p : Housekeeping P) (h : P w) : Ends P (Action.makeTree c) w :=
  .makeTree h (fun _ _ => p.makeInstance h) p.configuring.noted

theorem leaving (p : Housekeeping P) : Leaving P where
  noted calm h := p.note h calm.undrawn
  contexts h := p.onContexts h
  held h := p.beside h rfl rfl rfl rfl
  settled h := p.settled h
  deactivated h := p.deactivate h

theorem mount (p : Housekeeping P) (h : P w) {name options : String} :
    Ends P (Action.mount name options) w :=
  .mount h fun _ _ => .mountType (p.newContext h) (fun h => p.configuring.applyOptions h)
    (fun h => p.makeTree h) (fun h => p.leaving.takeInstance h) (fun h => p.note h rfl)
    fun h => p.leaving.dropContext h

/-! ## Every call but an operation -/

theorem closeFile (p : Housekeeping P) (h : P w) {f : FileId} : Ends P (Action.closeFile f) w := by
  refine .modify ?_
  cases w.files.get? f with
  | none => exact h
  | some file => exact p.settled (p.beside h rfl rfl rfl rfl)

theorem after (p : Housekeeping P) (h : P w) {call : Call} (other : ∀ op, call ≠ .operate op)
    (clocked : ∀ clock, call = .setClock clock → P { w with host := { w.host with clock } })
    (renumbered : ∀ nextIno, call = .resetIno nextIno →
      P { w with host := { w.host with nextIno } }) : P (w.after call) := by
  have registered : ∀ {v : World} {types}, P v → P { v with types } :=
    fun h => p.beside h rfl rfl rfl rfl
  cases call with
  | operate op => exact absurd rfl (other op)
  | closeFile f => exact (p.closeFile h).into
  | hold ref =>
      unfold World.after
      simp only
      split
      · exact p.beside h rfl rfl rfl rfl
      · exact h
  | drop ref => exact p.settled (p.beside h rfl rfl rfl rfl)
  | register type => exact (p.configuring.register h registered).into
  | unregister name => exact (p.configuring.unregister h registered).into
  | mount name options => exact (p.mount h).into
  | newContext type => exact (p.newContext h).into
  | applyParameter c param => exact (p.configuring.applyParameter h).into
  | makeTree c => exact (p.makeTree h).into
  | takeInstance c => exact p.leaving.takeInstance h
  | dropContext c => exact p.leaving.dropContext h
  | attachToContext c sort device => exact (p.configuring.attachToContext h).into
  | attachToInstance i sort device => exact (p.configuring.attachToInstance h).into
  | deactivate i => exact p.deactivate h
  | setBudget kind budget => exact p.aside h (.same rfl rfl) ⟨rfl, rfl⟩ rfl rfl
  | setCredentials uid gid => exact p.aside h (.same rfl rfl) ⟨rfl, rfl⟩ rfl rfl
  | setClock clock => exact clocked clock rfl
  | resetIno ino => exact renumbered ino rfl

end Housekeeping

end Memfs
