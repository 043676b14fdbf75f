import Memfs.Proofs.Configured

/-!
# Who keeps a configuration

A configuration is allocated with a context, passes to the instance that is made for the
context, and is given back when the instance is torn down, or with the context if it
never left it. What a step may do to the keepers is the same for every step: at most
one context loses its configuration, and if an instance comes to one it is the instance
that was made in the step. `Moves` says this. Most steps do less (`Stays`).
-/

namespace Memfs

open World

/-- Where a configuration may be. -/
inductive Place where
  | context (c : ContextId)
  | inst (i : InstanceId)
  /-- It was given back. -/
  | nowhere
  deriving DecidableEq, Repr

/-- Is a configuration kept there? -/
def World.keeps (w : World) : Place → Bool
  | .context c => (w.contexts.get? c).any (·.config?.isSome)
  | .inst i => (w.instances.get? i).any (·.config?.isSome)
  | .nowhere => false

variable {w v u : World} {c d : ContextId} {i : InstanceId}

/-! ## Keepers -/

namespace World

theorem keeps_context : w.keeps (.context c) = (w.contexts.get? c).any (·.config?.isSome) := rfl

theorem keeps_inst : w.keeps (.inst i) = (w.instances.get? i).any (·.config?.isSome) := rfl

theorem keeps_context_iff : w.keeps (.context c) = true ↔
    ∃ x config, w.contexts.get? c = some x ∧ x.data = some (.config config) := by
  rw [keeps_context, Option.any_eq_true]
  refine exists_congr fun x => ?_
  rw [Option.isSome_iff_exists]
  constructor
  · rintro ⟨hx, config, h⟩
    obtain ⟨data, hdata, hconfig⟩ := Option.bind_eq_some_iff.1 h
    cases data with
    | foreign => cases hconfig
    | config config => exact ⟨config, hx, hdata⟩
  · rintro ⟨config, hx, hdata⟩
    exact ⟨hx, config, by rw [Context.config?, hdata]; rfl⟩

theorem keeps_inst_iff : w.keeps (.inst i) = true ↔
    ∃ x config, w.instances.get? i = some x ∧ x.data = some (.config config) := by
  rw [keeps_inst, Option.any_eq_true]
  refine exists_congr fun x => ?_
  rw [Option.isSome_iff_exists]
  simp only [Instance.config?_eq_some]
  exact exists_and_left.symm

theorem keeps_context_congr (h : v.contexts.get? c = w.contexts.get? c) :
    v.keeps (.context c) = w.keeps (.context c) :=
  congrArg (Option.any fun x : Context => x.config?.isSome) h

theorem keeps_inst_congr (h : v.instances.get? i = w.instances.get? i) :
    v.keeps (.inst i) = w.keeps (.inst i) :=
  congrArg (Option.any fun x : Instance => x.config?.isSome) h

theorem lt_of_keeps_context (h : w.keeps (.context c) = true) : c < w.contexts.nextId := by
  obtain ⟨x, config, hx, -⟩ := keeps_context_iff.1 h
  exact Table.get?_lt hx

theorem lt_of_keeps_inst (h : w.keeps (.inst i) = true) : i < w.instances.nextId := by
  obtain ⟨x, config, hx, -⟩ := keeps_inst_iff.1 h
  exact Table.get?_lt hx

end World

/-- Contexts keep their configurations, and no instance comes to one. -/
structure Stays (w v : World) : Prop where
  contexts : ∀ c, v.keeps (.context c) = w.keeps (.context c)
  instances : ∀ i, v.keeps (.inst i) = true → w.keeps (.inst i) = true

/-- One context may lose its configuration, and the next instance may come to it. Nobody
else comes to one. -/
structure Moves (c : ContextId) (w v : World) : Prop where
  others : ∀ d, d ≠ c → v.keeps (.context d) = w.keeps (.context d)
  here : v.keeps (.context c) = true → w.keeps (.context c) = true
  instances : ∀ i, v.keeps (.inst i) = true → w.keeps (.inst i) = true ∨
    (i = w.instances.nextId ∧ w.keeps (.context c) = true ∧ v.keeps (.context c) = false)

namespace Stays

theorem refl : Stays w w := ⟨fun _ => rfl, fun _ => id⟩

theorem trans (s : Stays w v) (t : Stays v u) : Stays w u :=
  ⟨fun c => (t.contexts c).trans (s.contexts c), fun i h => s.instances i (t.instances i h)⟩

theorem moves (s : Stays w v) : Moves c w v :=
  ⟨fun d _ => s.contexts d, fun h => (s.contexts c).symm.trans h,
    fun i h => .inl (s.instances i h)⟩

theorem of_tables (contexts : v.contexts = w.contexts)
    (instances : ∀ i x, v.instances.get? i = some x → w.instances.get? i = some x) : Stays w v where
  contexts c := keeps_context_congr (by rw [contexts])
  instances i h := by
    obtain ⟨x, config, hx, data⟩ := keeps_inst_iff.1 h
    exact keeps_inst_iff.2 ⟨x, config, instances i x hx, data⟩

theorem settle (s : Stays w v) {tasks : List Task} : Stays w (v.settle tasks) :=
  s.trans (.of_tables mountsKept_settle.contexts mountsKept_settle.instances)

theorem onHost (s : Stays w v) {host : Host} : Stays w { v with host } :=
  s.trans (.of_tables rfl fun _ _ => id)

theorem hold (s : Stays w v) {ref : Ref} : Stays w (v.hold ref) :=
  s.trans (.of_tables rfl fun _ _ => id)

theorem inert : Inert (Stays w) where
  host h := h.onHost
  nodes h := h.trans (.of_tables rfl fun _ _ => id)
  bindings h := h.trans (.of_tables rfl fun _ _ => id)
  files h := h.trans (.of_tables rfl fun _ _ => id)
  settled h := h.settle
  unchanged u h := h.trans {
    contexts := fun c => keeps_context_congr (u.contexts c)
    instances := fun i kept => (keeps_inst_congr (u.instances i)).symm.trans kept }

/-- A context may change, if it keeps a configuration as before. -/
theorem modifyContext (s : Stays w v) {g : Context → Context}
    (same : ∀ x, v.contexts.get? c = some x → (g x).config?.isSome = x.config?.isSome) :
    Stays w (v.modifyContext c g) := by
  refine s.trans ⟨fun d => ?_, fun _ => id⟩
  unfold World.keeps World.modifyContext
  simp only [Table.get?_modify]
  split
  · next e =>
      subst e
      cases hx : v.contexts.get? d with
      | none => rfl
      | some x => exact same x hx
  · rfl

theorem configuring : Configuring (Stays w) where
  noted _ h := h.onHost
  sourced h := h.modifyContext fun _ _ => rfl
  configured {v c x old new} hc hold h := h.modifyContext fun y hy => by
    cases hc.symm.trans hy
    rw [hold]
    rfl
  backed {v i x old new} hi hold h := by
    refine h.trans ⟨fun _ => rfl, fun j kept => ?_⟩
    by_cases e : j = i
    · subst e
      refine keeps_inst_iff.2 ⟨x, old, hi, Instance.config?_eq_some.1 hold⟩
    · rwa [keeps_inst_congr ((Table.get?_modify ..).trans (if_neg e))] at kept

/-- A teardown takes the configuration of its instance. -/
theorem deactivate (o : Configured w) : Stays w (w.deactivate i) := by
  have before : OnlyFor w w i fun x => x.type = builtInType ∧
      (x.dying = true → x.data = none ∧ x.root = none) :=
    ⟨rfl, fun hx => ⟨(o.instances hx).type, (o.instances hx).dead⟩, fun _ hx => hx⟩
  refine ⟨fun c => keeps_context_congr (by rw [contexts_deactivate]), fun j kept => ?_⟩
  obtain ⟨x, config, hx, data⟩ := keeps_inst_iff.1 kept
  by_cases e : j = i
  · subst e
    obtain ⟨-, -, empty, -⟩ := before.deactivate.here hx
    cases empty.symm.trans data
  · exact keeps_inst_iff.2 ⟨x, config, before.deactivate.others e hx, data⟩

theorem takeInstance : Stays w (w.takeInstance c).2 := by
  unfold World.takeInstance
  cases w.contexts.get? c with
  | none => exact .refl
  | some x =>
      refine Stays.settle ?_
      have left : Stays w (w.modifyContext c ({ · with root := none, made := none })) :=
        refl.modifyContext fun _ _ => rfl
      cases x.made with
      | none => exact left
      | some i => exact left.hold

end Stays

namespace Moves

theorem stay (m : Moves c w v) (s : Stays v u) : Moves c w u where
  others d hne := (s.contexts d).trans (m.others d hne)
  here h := m.here ((s.contexts c).symm.trans h)
  instances i h := (m.instances i (s.instances i h)).imp_right fun ⟨e, before, after⟩ =>
    ⟨e, before, (s.contexts c).trans after⟩

theorem of_stays (s : Stays w v) (next : v.instances.nextId = w.instances.nextId)
    (m : Moves c v u) : Moves c w u where
  others d hne := (m.others d hne).trans (s.contexts d)
  here h := (s.contexts c).symm.trans (m.here h)
  instances i h := (m.instances i h).imp (s.instances i) fun ⟨e, before, after⟩ =>
    ⟨e.trans next, (s.contexts c).symm.trans before, after⟩

theorem configuring : Configuring (Moves c w) where
  noted calm m := m.stay (Stays.configuring.noted calm .refl)
  sourced m := m.stay (Stays.configuring.sourced .refl)
  configured hc hold m := m.stay (Stays.configuring.configured hc hold .refl)
  backed hi hold m := m.stay (Stays.configuring.backed hi hold .refl)

/-- The context itself may change, if it does not come to a configuration. -/
theorem onContexts (m : Moves c w v) {contexts : Table Context}
    (others : ∀ d, d ≠ c → contexts.get? d = v.contexts.get? d)
    (here : ∀ x config, contexts.get? c = some x → x.data = some (.config config) →
      v.keeps (.context c) = true) : Moves c w { v with contexts } := by
  have lost : World.keeps { v with contexts } (.context c) = true → v.keeps (.context c) = true :=
    fun h => by
      obtain ⟨x, config, hx, data⟩ := keeps_context_iff.1 h
      exact here x config hx data
  refine ⟨fun d hne => ?_, fun h => m.here (lost h), fun i h => ?_⟩
  · exact (keeps_context_congr (others d hne)).trans (m.others d hne)
  · exact (m.instances i h).imp_right fun ⟨e, before, after⟩ =>
      ⟨e, before, Bool.eq_false_iff.2 fun h => Bool.eq_false_iff.1 after (lost h)⟩

theorem modifyContext (m : Moves c w v) {g : Context → Context}
    (data : ∀ x, (g x).data = x.data ∨ (g x).data = none) : Moves c w (v.modifyContext c g) := by
  refine m.onContexts (fun d hne => (Table.get?_modify ..).trans (if_neg hne))
    fun x config hx hdata => ?_
  rw [Table.get?_modify, if_pos rfl] at hx
  obtain ⟨y, hy, rfl⟩ := Option.map_eq_some_iff.1 hx
  rcases data y with same | empty
  · exact keeps_context_iff.2 ⟨y, config, hy, same.symm.trans hdata⟩
  · cases empty.symm.trans hdata

/-- The configuration of the context comes to the next instance, or is given back. -/
theorem of_begun {before : Context} {R : Instance → Prop} (hc : w.contexts.get? c = some before)
    (contexts : v.contexts = (w.begun c before).contexts)
    (only : OnlyFor (w.modifyContext c ({ · with data := none })) v w.instances.nextId R)
    (here : ∀ x config, R x → x.data = some (.config config) →
      w.keeps (.context c) = true) : Moves c w v := by
  have emptied : ∀ d, v.contexts.get? d = if d = c then some { before with data := none }
      else w.contexts.get? d := fun d => by
    rw [contexts]
    refine (Table.get?_modify ..).trans ?_
    show (if d = c then (w.contexts.get? c).map _ else w.contexts.get? d) = _
    rw [hc]
    rfl
  have lost : v.keeps (.context c) = false := Bool.eq_false_iff.2 fun h => by
    obtain ⟨x, config, hx, data⟩ := keeps_context_iff.1 h
    rw [emptied, if_pos rfl] at hx
    cases hx
    cases data
  refine ⟨fun d hne => keeps_context_congr ((emptied d).trans (if_neg hne)), fun h => ?_,
    fun i h => ?_⟩
  · cases lost.symm.trans h
  · obtain ⟨x, config, hx, data⟩ := keeps_inst_iff.1 h
    by_cases e : i = w.instances.nextId
    · subst e
      exact .inr ⟨rfl, here x config (only.here hx) data, lost⟩
    · exact .inl (keeps_inst_iff.2 ⟨x, config, only.others e hx, data⟩)

theorem makeInstance (o : Configured w) :
    Action.Ends (Moves c w) (Action.makeInstance c .freshRoot) w where
  ok done := by
    obtain ⟨before, v, hc, filling, rfl⟩ := Action.makeInstance_ok done
    obtain ⟨contexts, only⟩ := o.filled hc filling
    have moved : Moves c w v := of_begun hc contexts only fun x _ h _ => by
      obtain ⟨-, -, -, config, data, -⟩ := h
      exact keeps_context_iff.2 ⟨before, config, hc, data⟩
    have finished : Moves c w (v.modifyContext c fun x => { x with
        root := (v.instances.get? w.instances.nextId).bind (·.root)
        made := some w.instances.nextId }) := moved.modifyContext fun _ => .inl rfl
    exact finished.stay Stays.refl.settle
  error failed := by
    rcases Action.makeInstance_error failed with ⟨-, rfl⟩ | ⟨before, v, hc, filling, rfl⟩
    · exact Stays.refl.moves
    · obtain ⟨contexts, only⟩ := o.unfilled hc filling
      refine of_begun hc contexts only fun x config h data => ?_
      cases h.2.2.1.symm.trans data

theorem makeTree (o : Configured w) : Action.Ends (Moves c w) (Action.makeTree c) w := by
  refine .makeTree Stays.refl.moves (fun {x ops} hc hops => ?_) configuring.noted
  rw [(o.contexts hc).type] at hops
  cases hops
  exact makeInstance o

theorem freeData (m : Moves c w v) : Moves c w (v.freeData c) := by
  unfold World.freeData
  cases v.contexts.get? c with
  | none => exact m
  | some x =>
      simp only
      split
      · cases x.data with
        | none => exact m
        | some data =>
            have emptied : Moves c w ((v.note .configUnused).modifyContext c
                ({ · with data := none })) :=
              (m.stay Stays.refl.onHost).modifyContext fun _ => .inr rfl
            exact emptied.stay Stays.refl.settle
      · exact m

theorem dropContext (m : Moves c w v) (o : Configured v) : Moves c w (v.dropContext c) := by
  unfold World.dropContext
  simp only
  have freed := m.freeData
  have configured := o.freeData (c := c)
  generalize v.freeData c = v at *
  cases v.contexts.get? c with
  | none => exact freed
  | some x =>
      simp only
      have erased : ∀ {u : World}, Moves c w u → Moves c w { u with contexts := u.contexts.erase c } :=
        fun m => m.onContexts (fun d hne => (Table.get?_erase ..).trans (if_neg hne))
          fun x config hx _ => by
            rw [Table.get?_erase, if_pos rfl] at hx
            cases hx
      refine stay (erased ?_) Stays.refl.settle
      cases x.made with
      | none => exact freed
      | some i =>
          have unrooted : Moves c w (v.modifyContext c ({ · with root := none })) :=
            freed.modifyContext fun _ => .inl rfl
          have orderly : Configured ((v.modifyContext c ({ · with root := none })).settle
              (x.root.toList.map fun b => .letGo (.binding b))) :=
            Configured.inert.settled (configured.modifyContext fun _ _ o =>
              ⟨o.type, o.data, fun data => ⟨rfl, (o.unasked data).2⟩⟩)
          have torn : Moves c w (((v.modifyContext c ({ · with root := none })).settle
              (x.root.toList.map fun b => .letGo (.binding b))).deactivate i) :=
            (unrooted.stay Stays.refl.settle).stay (.deactivate orderly)
          have parted : Moves c w ((((v.modifyContext c ({ · with root := none })).settle
              (x.root.toList.map fun b => .letGo (.binding b))).deactivate i).modifyContext c
                ({ · with made := none })) := torn.modifyContext fun _ => .inl rfl
          exact parted.stay Stays.refl.settle

end Moves

/-! ## New configurations -/

/-- A context with a fresh configuration. -/
def World.opened (w : World) : World :=
  { w with
    host := (w.host.acquire .config).2
    contexts := w.contexts.push
      { type := builtInType, data := some (.config { mode := defaultRootMode }) } }

theorem newContext_builtIn : Action.newContext builtInType w =
    if (w.host.acquire .config).1 then .ok w.contexts.nextId w.opened
    else .error .outOfMemory { w with host := (w.host.acquire .config).2 } := by
  have taken : (Action.onHost (·.acquire .config)) w
      = .ok (w.host.acquire .config).1 { w with host := (w.host.acquire .config).2 } := rfl
  unfold Action.newContext World.opened
  simp only [builtInType]
  cases granted : (w.host.acquire .config).1 with
  | true =>
      rw [granted] at taken
      exact Action.bind_of_ok taken
  | false =>
      rw [granted] at taken
      exact Action.bind_of_ok taken

/-! ## Steps -/

/-- A call, or an option string that is applied to a context. -/
inductive Request where
  | call (call : Call)
  | options (c : ContextId) (text : String)

/-- The step brings no other type into play. -/
def Request.BuiltIn : Request → Prop
  | .call c => c.BuiltIn
  | .options _ _ => True

namespace World

/-- The world after a step. -/
def follow (w : World) : Request → World
  | .call call => w.after call
  | .options c text => (Action.applyOptions c text).into w

/-- Is a configuration allocated in the step? -/
def allots (w : World) : Request → Bool
  | .call (.newContext _) => (w.host.acquire .config).1
  | .call (.mount name _) => (w.findType name).isSome && (w.host.acquire .config).1
  | _ => false

end World

theorem Sound.follow (s : Sound w []) (step : Request) : Sound (w.follow step) [] := by
  cases step with
  | call call => exact s.after call
  | options c text => exact (Sound.configuring.applyOptions s).into

theorem Configured.follow (o : Configured w) {step : Request}
    (builtIn : step.BuiltIn) : Configured (w.follow step) := by
  cases step with
  | call call => exact o.after builtIn
  | options c text => exact (Configured.configuring.applyOptions o).into

/-- A mount moves the configuration of its own context. -/
theorem Moves.mountType {options : String} {done : InstanceId → World → World}
    (o : Configured w) (granted : (w.host.acquire .config).1 = true)
    (hdone : ∀ i v, Configured v → Configured (done i v) ∧ Stays v (done i v)) :
    Action.Ends (Moves w.contexts.nextId w.opened)
      (Action.mountType builtInType options done) w := by
  have opened : Action.newContext builtInType w = .ok w.contexts.nextId w.opened := by
    rw [newContext_builtIn, if_pos granted]
  have start : Configured w.opened := o.newContext.ok opened
  have settled : Configuring fun v => v.instances.nextId = w.opened.instances.nextId :=
    ⟨fun _ h => h, fun h => h, fun _ _ h => h, fun _ _ h => Table.nextId_modify.trans h⟩
  refine .mountType_seq
    (M := fun c v => c = w.contexts.nextId ∧ Moves c w.opened v ∧ Configured v)
    (fun failed => ?_) (fun {c v} begun => ?_)
    (fun ⟨same, m, o⟩ => ⟨same, m.stay (hdone _ _ o).2, (hdone _ _ o).1⟩) fun ⟨same, m, o⟩ => ?_
  · cases opened.symm.trans failed
  · cases opened.symm.trans begun
    have applied : Action.Ends (fun v => (Stays w.opened v ∧
        v.instances.nextId = w.opened.instances.nextId) ∧ Configured v)
        (Action.applyOptions w.contexts.nextId options) w.opened :=
      ((Stays.configuring.applyOptions .refl).and (settled.applyOptions rfl)).and
        (Configured.configuring.applyOptions start)
    refine .seq (fun e v failed => ?_) fun _ v done => ?_
    · obtain ⟨⟨stays, -⟩, configured⟩ := applied.error failed
      exact ⟨rfl, stays.moves, configured⟩
    · obtain ⟨⟨stays, next⟩, configured⟩ := applied.ok done
      have tree : Action.Ends (Moves w.contexts.nextId w.opened)
          (Action.makeTree w.contexts.nextId) v :=
        (Moves.makeTree configured).mono fun _ m => m.of_stays stays next
      exact .bind ((tree.and configured.makeTree).mono fun _ h => ⟨rfl, h⟩)
        fun _ _ _ ⟨same, m, o⟩ => .total ⟨same, m.stay .takeInstance, o.takeInstance⟩
  · subst same
    exact m.dropContext o

/-- No mount comes about without a configuration. -/
theorem Stays.mount {name options : String} (o : Configured w)
    (refused : ((w.findType name).isSome && (w.host.acquire .config).1) = false) :
    Action.Ends (Stays w) (Action.mount name options) w := by
  refine .mount .refl fun type found => ?_
  rw [found, Option.isSome_some, Bool.true_and] at refused
  rw [o.types type (List.mem_of_find?_eq_some found)]
  have failed : Action.newContext builtInType w
      = .error .outOfMemory { w with host := (w.host.acquire .config).2 } := by
    rw [newContext_builtIn, refused]
    rfl
  refine .seq (fun e v h => ?_) fun c v h => ?_
  · cases failed.symm.trans h
    exact Stays.refl.onHost
  · cases failed.symm.trans h

theorem Moves.mount {name options : String} (o : Configured w)
    (granted : ((w.findType name).isSome && (w.host.acquire .config).1) = true) :
    Moves w.contexts.nextId w.opened ((Action.mount name options).into w) := by
  obtain ⟨known, granted⟩ := Bool.and_eq_true_iff.1 granted
  obtain ⟨type, found⟩ := Option.isSome_iff_exists.1 known
  cases o.types type (List.mem_of_find?_eq_some found)
  unfold Action.into
  rw [Action.mount_of_found found]
  exact (Moves.mountType o granted fun _ _ h =>
    ⟨Configured.inert.note h, Stays.refl.onHost⟩).into

/-- In a step in which no configuration is allocated, contexts keep theirs but for the one
whose tree is asked for, or which ends. -/
theorem Stays.or_moves {step : Request} (o : Configured w) (builtIn : step.BuiltIn)
    (none : w.allots step = false) : Stays w (w.follow step) ∨
      ∃ c, (step = .call (.makeTree c) ∨ step = .call (.dropContext c)) ∧
        Moves c w (w.follow step) := by
  cases step with
  | options c text => exact .inl (Stays.configuring.applyOptions .refl).into
  | call call =>
      cases call with
      | operate op => exact .inl (Stays.inert.operate .refl op).into
      | closeFile f =>
          refine .inl (Action.Ends.into (x := Action.closeFile f) (.modify ?_))
          split
          · exact .refl
          · refine Stays.settle ?_
            exact Stays.inert.files .refl
      | hold ref =>
          refine .inl ?_
          unfold World.follow World.after
          simp only
          split
          · exact Stays.refl.hold
          · exact .refl
      | drop ref =>
          refine .inl (Stays.settle ?_)
          exact .of_tables rfl fun _ _ => id
      | register type =>
          refine .inl (Stays.configuring.register .refl fun h => h.trans ?_).into
          exact .of_tables rfl fun _ _ => id
      | unregister name =>
          refine .inl (Stays.configuring.unregister .refl fun h => h.trans ?_).into
          exact .of_tables rfl fun _ _ => id
      | mount name options => exact .inl (Stays.mount o none).into
      | newContext type =>
          cases (show type = builtInType from builtIn)
          have refused : (w.host.acquire .config).1 = false := none
          refine .inl ?_
          show Stays w ((Action.newContext builtInType).into w)
          unfold Action.into
          rw [newContext_builtIn, refused]
          exact Stays.refl.onHost
      | applyParameter c param => exact .inl (Stays.configuring.applyParameter .refl).into
      | makeTree c => exact .inr ⟨c, .inl rfl, (Moves.makeTree o).into⟩
      | takeInstance c => exact .inl .takeInstance
      | dropContext c => exact .inr ⟨c, .inr rfl, Stays.refl.moves.dropContext o⟩
      | attachToContext c sort device => exact .inl (Stays.configuring.attachToContext .refl).into
      | attachToInstance i sort device => exact .inl (Stays.configuring.attachToInstance .refl).into
      | deactivate i => exact .inl (.deactivate o)
      | setBudget kind budget => exact .inl Stays.refl.onHost
      | setCredentials uid gid => exact .inl Stays.refl.onHost
      | setClock clock => exact .inl Stays.refl.onHost
      | resetIno ino => exact .inl Stays.refl.onHost

/-- A step in which a configuration is allocated is one that opens a context. -/
theorem Moves.follow_opened {step : Request} (o : Configured w) (builtIn : step.BuiltIn)
    (allotted : w.allots step = true) : Moves w.contexts.nextId w.opened (w.follow step) := by
  cases step with
  | options c text => cases allotted
  | call call =>
      cases call with
      | newContext type =>
          cases (show type = builtInType from builtIn)
          have granted : (w.host.acquire .config).1 = true := allotted
          show Moves _ _ ((Action.newContext builtInType).into w)
          unfold Action.into
          rw [newContext_builtIn, if_pos granted]
          exact Stays.refl.moves
      | mount name options => exact Moves.mount o allotted
      | _ => cases allotted

/-- A context keeps its configuration until its tree is asked for, or it ends. -/
theorem World.keeps_context_follow {step : Request} (o : Configured w)
    (builtIn : step.BuiltIn) (kept : w.keeps (.context c) = true)
    (unasked : step ≠ .call (.makeTree c)) (lasting : step ≠ .call (.dropContext c)) :
    (w.follow step).keeps (.context c) = true := by
  cases allotted : w.allots step with
  | false =>
      rcases Stays.or_moves o builtIn allotted with stays | ⟨d, ending, moves⟩
      · exact (stays.contexts c).trans kept
      · have hne : c ≠ d := by
          rintro rfl
          exact ending.elim unasked lasting
        exact (moves.others c hne).trans kept
  | true =>
      have hne : c ≠ w.contexts.nextId := Nat.ne_of_lt (lt_of_keeps_context kept)
      refine ((Moves.follow_opened o builtIn allotted).others c hne).trans ?_
      exact (keeps_context_congr (Table.get?_push_of_ne hne)).trans kept

end Memfs
