import Memfs.Proofs.Keeping

/-!
# The options of a mount

Settling the options of a mount changes the source of a context and the configuration of
a context or an instance, each in one place, and writes notices. `Configuring P` lists
these steps; what each of them keeps is kept by any number of options in any order, up
to the one that is refused.
-/

namespace Memfs

/-- `P` is kept by each step that settles an option from its text, which leaves devices alone. -/
structure Choosing (P : World → Prop) : Prop where
  noted : ∀ {w : World} {notice : Notice}, notice.Calm → P w → P (w.note notice)
  sourced : ∀ {w : World} {c} {value : String}, P w →
    P (w.modifyContext c ({ · with source := some value }))
  chosen : ∀ {w : World} {c x} {old : Config} {mode}, w.contexts.get? c = some x →
    x.config? = some old → P w →
    P (w.modifyContext c ({ · with data := some (.config { old with mode }) }))

/-- `P` is kept by each step that settles the options of a mount. -/
structure Configuring (P : World → Prop) : Prop where
  noted : ∀ {w : World} {notice : Notice}, notice.Calm → P w → P (w.note notice)
  sourced : ∀ {w : World} {c} {value : String}, P w →
    P (w.modifyContext c ({ · with source := some value }))
  configured : ∀ {w : World} {c x old new}, w.contexts.get? c = some x → x.config? = some old →
    P w → P (w.modifyContext c ({ · with data := some (.config new) }))
  backed : ∀ {w : World} {i x old new}, w.instances.get? i = some x → x.config? = some old →
    P w → P (w.modifyInstance i ({ · with data := some (.config new) }))

namespace Action

theorem reads_context (c : ContextId) : Reads (context c) := .bind .get fun _ => .require _ _

@[simp]
theorem context_eq_ok {c : ContextId} {x : Context} {w w' : World} :
    context c w = .ok x w' ↔ w.contexts.get? c = some x ∧ w = w' := by
  simp [context, and_comm]

theorem context_of_get? {c : ContextId} {x : Context} {w : World}
    (hc : w.contexts.get? c = some x) : context c w = .ok x w :=
  context_eq_ok.2 ⟨hc, rfl⟩

theorem context_of_absent {c : ContextId} {w : World} (hc : w.contexts.get? c = none) :
    context c w = .error .invalidArgument w := by
  unfold context
  simp [hc]

end Action

namespace Choosing

open Memfs.Action

variable {P : World → Prop} {w : World} {c : ContextId} {param : Parameter}

theorem note (p : Choosing P) (h : P w) {notice : Notice} (calm : notice.Calm) :
    Ends P (Action.note notice) w :=
  .modify (p.noted calm h)

/-- A complaint, and nothing else. -/
theorem complain {α : Type} (p : Choosing P) (h : P w) {notice : Notice} {cause : Error}
    (calm : notice.Calm) : Ends P (do Action.note notice; throw cause : Action α) w :=
  .bind (p.note h calm) fun _ _ _ h => .throw h _

theorem takeSource (p : Choosing P) (h : P w) : Ends P (takeSource c param) w := by
  unfold Action.takeSource
  refine .ite (fun _ => .pure h _) fun _ => .read h (reads_context c) fun x _ => .ite (fun _ => ?_)
    fun _ => .read h (.require _ _) fun value _ =>
      .bind (.modify (p.sourced h)) fun _ _ _ h => .pure h _
  exact .bind (p.note h ⟨rfl, rfl, rfl⟩) fun _ _ _ h => .stop h

theorem decode (p : Choosing P) (h : P w) : Ends P (decode c param) w := by
  refine .read h (reads_context c) fun x _ => ?_
  split
  · exact .pure h _
  · exact .ite (fun _ => p.complain h ⟨rfl, rfl, rfl⟩) fun _ => .throw h _

theorem applyLenient (p : Choosing P) (h : P w) : Ends P (applyLenient c param) w := by
  refine .bind (p.decode h) fun setting v _ h => ?_
  cases setting with
  | none =>
      exact .bind (p.takeSource h) fun taken _ _ h => .ite (fun _ => .pure h _) fun _ =>
        p.note h ⟨rfl, rfl, rfl⟩
  | some setting =>
      refine .read h (reads_context c) fun x hx => .read h (.require _ _) fun old hold =>
        .ite (fun _ => .read h (.require _ _) fun mode _ => ?_) fun _ => .pure h _
      exact .modify (p.chosen (context_eq_ok.1 hx).1 (require_eq_ok.1 hold).1 h)

theorem applyParameter (p : Choosing P) (h : P w) : Ends P (applyParameter c param) w := by
  refine .ite (fun _ => .stop h) fun _ => ?_
  refine .read h (reads_context c) fun x _ => ?_
  simp only
  split
  · exact p.applyLenient h
  · exact .bind (p.takeSource h) fun _ _ _ h => .ite (fun _ => .pure h _) fun _ => .throw h _

theorem applyOptions (p : Choosing P) (h : P w) {options : String} :
    Ends P (applyOptions c options) w :=
  .forM (fun _ _ h => p.applyParameter h) _ h

/-! ## The registered types -/

theorem register (p : Choosing P) (h : P w) {type : FilesystemType}
    (added : ∀ {w : World}, P w → P { w with types := w.types ++ [type] }) :
    Ends P (Action.register type) w := by
  have enter : ∀ v, P v → Ends P (do
      Action.note (.registered type.name)
      modify fun w => { w with types := w.types ++ [type] } : Action Unit) v := fun v h =>
    .bind (p.note h ⟨rfl, rfl, rfl⟩) fun _ _ _ h => .modify (added h)
  exact .read h .get fun _ _ => .ite
    (fun _ => .bind (p.note h ⟨rfl, rfl, rfl⟩) fun _ _ _ h => .stop h)
    fun _ => enter w h

theorem unregister (p : Choosing P) (h : P w) {name : String}
    (withdrawn : ∀ {w : World}, P w → P { w with types := w.types.eraseP (·.name == name) }) :
    Ends P (Action.unregister name) w :=
  .read h .get fun _ _ => .ite (fun _ => .stop h) fun _ =>
    .bind (.modify (withdrawn h)) fun _ _ _ h => p.note h ⟨rfl, rfl, rfl⟩

end Choosing

namespace Configuring

open Memfs.Action

variable {P : World → Prop} {w : World} {c : ContextId} {param : Parameter}

theorem choosing (p : Configuring P) : Choosing P := ⟨p.noted, p.sourced, p.configured⟩

theorem note (p : Configuring P) (h : P w) {notice : Notice} (calm : notice.Calm) :
    Ends P (Action.note notice) w :=
  p.choosing.note h calm

theorem applyParameter (p : Configuring P) (h : P w) : Ends P (applyParameter c param) w :=
  p.choosing.applyParameter h

theorem applyOptions (p : Configuring P) (h : P w) {options : String} :
    Ends P (applyOptions c options) w :=
  p.choosing.applyOptions h

theorem attachDevice (p : Configuring P) (h : P w) {config : Option Config} {sort : DeviceSort}
    {device : Device} {store : Config → World → World}
    (stored : ∀ old new v, config = some old → v = w.note (.holding sort device.name) → P v →
      P (store new v)) : Ends P (attachDevice config sort device store) w := by
  refine .read h (.require _ _) fun old hold => .read h (.require _ _) fun new _ =>
    .bind (p.note h ⟨rfl, rfl, rfl⟩) fun _ v done h =>
      .modify (stored old new v (require_eq_ok.1 hold).1 ?_ h)
  exact (note_eq_ok.1 done).symm

theorem attachToInstance (p : Configuring P) (h : P w) {i : InstanceId} {sort : DeviceSort}
    {device : Device} : Ends P (attachToInstance i sort device) w := by
  refine .read h .get fun v hv => p.attachDevice h fun old new u hold hu hP => ?_
  obtain ⟨rfl, -⟩ := get_eq_ok.1 hv
  obtain ⟨x, hx, hconfig⟩ := Option.bind_eq_some_iff.1 hold
  subst hu
  exact p.backed hx hconfig hP

theorem attachToContext (p : Configuring P) (h : P w) {sort : DeviceSort} {device : Device} :
    Ends P (attachToContext c sort device) w := by
  refine .read h .get fun v hv => p.attachDevice h fun old new u hold hu hP => ?_
  obtain ⟨rfl, -⟩ := get_eq_ok.1 hv
  obtain ⟨x, hx, hconfig⟩ := Option.bind_eq_some_iff.1 hold
  subst hu
  exact p.configured hx hconfig hP

theorem register (p : Configuring P) (h : P w) {type : FilesystemType}
    (added : ∀ {w : World}, P w → P { w with types := w.types ++ [type] }) :
    Ends P (Action.register type) w :=
  p.choosing.register h added

theorem unregister (p : Configuring P) (h : P w) {name : String}
    (withdrawn : ∀ {w : World}, P w → P { w with types := w.types.eraseP (·.name == name) }) :
    Ends P (Action.unregister name) w :=
  p.choosing.unregister h withdrawn

end Configuring

end Memfs
