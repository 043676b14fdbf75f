import Memfs.Proofs.Inert

/-!
# Where the configurations are

In a world where only the built-in type is mounted, an instance has its configuration
until it is torn down, and neither a configuration nor a tree from then on. A context
has a configuration until its tree is asked for. The operations have no hand in this;
what has to be looked at are the mounts.

A teardown, and the filling of a fresh instance, break the rule for the one instance
that they are about and for no other. `OnlyFor` follows that instance through them.
-/

namespace Memfs

structure Instance.Orderly (x : Instance) : Prop where
  type : x.type = builtInType
  live : x.dying = false → ∃ c, x.data = some (.config c)
  dead : x.dying = true → x.data = none ∧ x.root = none

structure Context.Orderly (x : Context) : Prop where
  type : x.type = builtInType
  data : x.data = none ∨ ∃ c, x.data = some (.config c)
  /-- The tree was not asked for yet. -/
  unasked : x.data ≠ none → x.root = none ∧ x.made = none

theorem Instance.config?_eq_some {x : Instance} {c : Config} :
    x.config? = some c ↔ x.data = some (.config c) := by
  unfold Instance.config?
  cases x.data with
  | none => simp
  | some data => cases data <;> simp [PrivateData.config?]

/-- The configurations are where they should be. -/
structure Configured (w : World) : Prop where
  types : ∀ t ∈ w.types, t = builtInType
  contexts : ∀ {c x}, w.contexts.get? c = some x → x.Orderly
  instances : ∀ {i x}, w.instances.get? i = some x → x.Orderly

/-- Instances that are in `v` were in `w`, but for one, which has the property `R`. -/
structure OnlyFor (w v : World) (i : InstanceId) (R : Instance → Prop) : Prop where
  types : v.types = w.types
  here : ∀ {x}, v.instances.get? i = some x → R x
  others : ∀ {j x}, j ≠ i → v.instances.get? j = some x → w.instances.get? j = some x

namespace OnlyFor

open World

variable {w v : World} {i : InstanceId} {R R' : Instance → Prop}

theorem host (h : OnlyFor w v i R) {host : Host} : OnlyFor w { v with host } i R :=
  ⟨h.types, h.here, h.others⟩

theorem modify (h : OnlyFor w v i R) {g : Instance → Instance} (hg : ∀ x, R x → R' (g x)) :
    OnlyFor w (v.modifyInstance i g) i R' where
  types := h.types
  here hx := by
    rw [World.modifyInstance, Table.get?_modify, if_pos rfl] at hx
    obtain ⟨y, hy, rfl⟩ := Option.map_eq_some_iff.1 hx
    exact hg y (h.here hy)
  others hne hx := by
    rw [World.modifyInstance, Table.get?_modify, if_neg hne] at hx
    exact h.others hne hx

theorem settle (h : OnlyFor w v i R) {tasks : List Task} : OnlyFor w (v.settle tasks) i R where
  types := mountsKept_settle.types.trans h.types
  here hx := h.here (mountsKept_settle.instances _ _ hx)
  others hne hx := h.others hne (mountsKept_settle.instances _ _ hx)

theorem sized (h : OnlyFor w v i fun x => x.type = builtInType ∧ x.dying = false) :
    OnlyFor w (v.sized i) i fun x => x.type = builtInType ∧ x.dying = false :=
  h.modify fun _ hx => hx

theorem setData (h : OnlyFor w v i R) (hg : ∀ x, R x → R' { x with data := none }) :
    OnlyFor w (v.setData i none) i R' :=
  (h.modify hg).settle

theorem dissolveTree (h : OnlyFor w v i R) (hg : ∀ x, R x → R' { x with root := none }) :
    OnlyFor w (v.dissolveTree i) i R' := by
  unfold World.dissolveTree
  cases hi : v.instances.get? i with
  | none =>
      refine ⟨h.types, fun hx => ?_, h.others⟩
      cases hi.symm.trans hx
  | some x => exact (h.modify hg).settle.host

/-- After its teardown an instance has neither a configuration nor a tree. -/
theorem deactivate (h : OnlyFor w v i fun x => x.type = builtInType ∧
      (x.dying = true → x.data = none ∧ x.root = none)) :
    OnlyFor w (v.deactivate i) i fun x => x.type = builtInType ∧
      x.dying = true ∧ x.data = none ∧ x.root = none := by
  unfold World.deactivate
  cases hi : v.instances.get? i with
  | none =>
      refine ⟨h.types, fun hx => ?_, h.others⟩
      cases hi.symm.trans hx
  | some y =>
      obtain ⟨type, dead⟩ := h.here hi
      simp only
      split
      · next dying =>
          refine ⟨h.types, fun hx => ?_, h.others⟩
          cases hi.symm.trans hx
          exact ⟨type, dying, dead dying⟩
      · have marked : OnlyFor w ((v.modifyInstance i ({ · with dying := true })).note
            (.deactivating y.type.name)) i fun x => x.type = builtInType ∧ x.dying = true :=
          OnlyFor.host (h.modify fun x hx => ⟨hx.1, rfl⟩)
        have found : ((v.modifyInstance i ({ · with dying := true })).note
            (.deactivating y.type.name)).instances.get? i = some { y with dying := true } :=
          (Table.get?_modify ..).trans (by rw [if_pos rfl, hi]; rfl)
        have teardown : y.type.teardown = .withConfig := by
          rw [type]
          rfl
        unfold World.tearDown
        rw [found]
        simp only [teardown]
        rw [dissolveBuiltIn_eq]
        refine host (dissolveTree (R := fun x => x.type = builtInType ∧ x.dying = true ∧
          x.data = none) ?_ fun x hx => ⟨hx.1, hx.2.1, hx.2.2, rfl⟩)
        split
        · exact marked.host.setData fun x hx => ⟨hx.1, hx.2, rfl⟩
        · exact marked.setData fun x hx => ⟨hx.1, hx.2, rfl⟩

/-- An instance that is given up is torn down. -/
theorem givenUp {type : FilesystemType} {e : Error}
    (only : OnlyFor w v i fun x => x.type = builtInType ∧ x.dying = false) :
    OnlyFor w (v.givenUp i type e) i fun x =>
      x.type = builtInType ∧ x.dying = true ∧ x.data = none ∧ x.root = none := by
  have marked : OnlyFor w (v.note (.fillFailed type.name e)) i fun x =>
      x.type = builtInType ∧ (x.dying = true → x.data = none ∧ x.root = none) :=
    host ⟨only.types, fun hx => ⟨(only.here hx).1, fun dying =>
      absurd ((only.here hx).2.symm.trans dying) Bool.false_ne_true⟩, only.others⟩
  exact marked.deactivate.settle

theorem contexts_givenUp {type : FilesystemType} {e : Error} :
    (v.givenUp i type e).contexts = v.contexts :=
  contexts_settle.trans contexts_deactivate

end OnlyFor

namespace Configured

open World

variable {w : World} {i : InstanceId} {c : ContextId}

theorem fresh {clock : Clock} : Configured (World.fresh clock) where
  types _ h := nomatch h
  contexts h := by simp [World.fresh] at h
  instances h := by simp [World.fresh] at h

theorem inert : Inert Configured where
  host h := ⟨h.types, h.contexts, h.instances⟩
  nodes h := ⟨h.types, h.contexts, h.instances⟩
  bindings h := ⟨h.types, h.contexts, h.instances⟩
  files h := ⟨h.types, h.contexts, h.instances⟩
  settled h := {
    types := by
      rw [mountsKept_settle.types]
      exact h.types
    contexts := fun hx => by
      rw [contexts_settle] at hx
      exact h.contexts hx
    instances := fun hx => h.instances (mountsKept_settle.instances _ _ hx) }
  unchanged u h := {
    types := by
      rw [u.types]
      exact h.types
    contexts := fun hx => by
      rw [u.contexts] at hx
      exact h.contexts hx
    instances := fun hx => by
      rw [u.instances] at hx
      exact h.instances hx }

theorem onHeld (h : Configured w) {held : List Ref} : Configured { w with held } :=
  ⟨h.types, h.contexts, h.instances⟩

theorem modifyContext (h : Configured w) {g : Context → Context}
    (hg : ∀ x, w.contexts.get? c = some x → x.Orderly → (g x).Orderly) :
    Configured (w.modifyContext c g) where
  types := h.types
  contexts {d y} hy := by
    rcases Table.get?_of_modify hy with ⟨rfl, x, hx, rfl⟩ | ⟨-, hy⟩
    · exact hg x hx (h.contexts hx)
    · exact h.contexts hy
  instances := h.instances

theorem configuring : Configuring Configured where
  noted _ h := inert.note h
  sourced h := h.modifyContext fun x _ o => ⟨o.type, o.data, o.unasked⟩
  configured hc hold h := h.modifyContext fun y hy o => by
    cases hc.symm.trans hy
    refine ⟨o.type, .inr ⟨_, rfl⟩, fun _ => o.unasked fun empty => ?_⟩
    rw [Context.config?, empty] at hold
    cases hold
  backed {v i x old new} hi hold h := {
    types := h.types
    contexts := h.contexts
    instances := fun {j y} hy => by
      rcases Table.get?_of_modify hy with ⟨rfl, z, hz, rfl⟩ | ⟨-, hy⟩
      · cases hi.symm.trans hz
        refine ⟨(h.instances hi).type, fun _ => ⟨new, rfl⟩, fun dying => ?_⟩
        -- a configuration was found, so the instance was not torn down
        have gone : x.config? = none := by
          unfold Instance.config?
          rw [((h.instances hi).dead dying).1]
          rfl
        cases gone.symm.trans hold
      · exact h.instances hy }

theorem of_onlyFor {v : World} (h : Configured w) (contexts : v.contexts = w.contexts)
    (only : OnlyFor w v i Instance.Orderly) : Configured v where
  types := by
    rw [only.types]
    exact h.types
  contexts hx := by
    rw [contexts] at hx
    exact h.contexts hx
  instances {j x} hx := by
    by_cases e : j = i
    · subst e
      exact only.here hx
    · exact h.instances (only.others e hx)

theorem deactivate (h : Configured w) : Configured (w.deactivate i) := by
  have before : OnlyFor w w i fun x => x.type = builtInType ∧
      (x.dying = true → x.data = none ∧ x.root = none) :=
    ⟨rfl, fun hx => ⟨(h.instances hx).type, (h.instances hx).dead⟩, fun _ hx => hx⟩
  have after := before.deactivate
  refine h.of_onlyFor contexts_deactivate ⟨after.types, fun hx => ?_, after.others⟩
  obtain ⟨type, dying, dead⟩ := after.here hx
  exact ⟨type, fun live => absurd (live.symm.trans dying) Bool.false_ne_true, fun _ => dead⟩

/-! ## Mounts -/

theorem newContext (h : Configured w) : Action.Ends Configured (Action.newContext builtInType) w where
  ok done := by
    obtain ⟨-, ⟨plain, -⟩ | ⟨-, host, -, rfl⟩⟩ := Action.newContext_ok done
    · cases plain
    · refine ⟨h.types, fun {c x} hx => ?_, h.instances⟩
      rcases Table.get?_of_push hx with ⟨-, rfl⟩ | ⟨-, hx⟩
      · exact ⟨rfl, .inr ⟨_, rfl⟩, fun _ => ⟨rfl, rfl⟩⟩
      · exact h.contexts hx
  error failed := inert.unchanged (Action.newContext_clean _ _ failed) h

/-- A new instance is not torn down, and has what its context had. -/
theorem onlyFor_begun {before : Context} (type : before.type = builtInType) :
    OnlyFor (w.modifyContext c ({ · with data := none })) (w.begun c before) w.instances.nextId
      fun x => x.type = builtInType ∧ x.dying = false := by
  have pushed : OnlyFor (w.modifyContext c ({ · with data := none }))
      ((w.newInstance before.type before.source before.flags).2.modifyContext c
        ({ · with data := none })) w.instances.nextId
      fun x => x.type = builtInType ∧ x.dying = false := {
    types := rfl
    here := fun {x} hx => by
      have pushed : (w.instances.push _).get? w.instances.nextId = some x := hx
      rw [Table.get?_push_self] at pushed
      cases pushed
      exact ⟨type, rfl⟩
    others := fun {j x} hne hx => by
      have pushed : (w.instances.push _).get? j = some x := hx
      rw [Table.get?_push_of_ne hne] at pushed
      exact pushed }
  exact pushed.modify fun _ hx => hx

/-- The instance of a context is filled, and has the configuration that the context had. -/
theorem filled {v : World} {before : Context} {u : Unit} (h : Configured w)
    (hc : w.contexts.get? c = some before)
    (done : Action.fill w.instances.nextId .freshRoot (w.begun c before) = .ok u v) :
    v.contexts = (w.begun c before).contexts ∧
      OnlyFor (w.modifyContext c ({ · with data := none })) v w.instances.nextId fun x =>
        x.type = builtInType ∧ x.dying = false ∧ x.root.isSome = true ∧
          ∃ config, before.data = some (.config config) ∧ x.data = some (.config config) := by
  obtain ⟨types, contexts, found, hfound, type, data, dying, rooted, others⟩ :=
    Action.fill_ok instances_begun rfl done
  obtain ⟨inst, config, _, _, _, hi, hconfig, -⟩ := Action.fillBuiltIn_ok done
  cases instances_begun.symm.trans hi
  have only := onlyFor_begun (w := w) (c := c) (h.contexts hc).type
  refine ⟨contexts, types.trans only.types, fun hx => ?_, fun hne hx => ?_⟩
  · cases hfound.symm.trans hx
    have config := Instance.config?_eq_some.1 hconfig
    exact ⟨type.trans (h.contexts hc).type, dying, rooted rfl, _, config, data.trans config⟩
  · rw [others _ hne] at hx
    exact only.others hne hx

/-- The instance of a context cannot be filled: it is torn down, and the configuration is
gone. -/
theorem unfilled {v : World} {before : Context} {e : Error} (h : Configured w)
    (hc : w.contexts.get? c = some before)
    (failed : Action.fill w.instances.nextId .freshRoot (w.begun c before) = .error e v) :
    (v.givenUp w.instances.nextId before.type e).contexts = (w.begun c before).contexts ∧
      OnlyFor (w.modifyContext c ({ · with data := none }))
        (v.givenUp w.instances.nextId before.type e) w.instances.nextId fun x =>
          x.type = builtInType ∧ x.dying = true ∧ x.data = none ∧ x.root = none := by
  have only := onlyFor_begun (w := w) (c := c) (h.contexts hc).type
  have sized := only.sized
  rcases Action.fillBuiltIn_error failed with rfl | ⟨mode, cause, refused⟩ |
    ⟨mode, n, u, host, made, -, rfl⟩
  · exact ⟨OnlyFor.contexts_givenUp, only.givenUp⟩
  · obtain ⟨host, rfl, -⟩ := Action.newNode_error refused
    exact ⟨OnlyFor.contexts_givenUp, sized.host.givenUp⟩
  · obtain ⟨-, _, _, _, _, -, rfl, -⟩ := Action.newNode_ok made
    refine ⟨OnlyFor.contexts_givenUp.trans contexts_settle, OnlyFor.givenUp (OnlyFor.settle ?_)⟩
    exact ⟨sized.types, sized.here, sized.others⟩

theorem makeInstance (h : Configured w) :
    Action.Ends Configured (Action.makeInstance c .freshRoot) w where
  ok done := by
    obtain ⟨before, v, hc, filling, rfl⟩ := Action.makeInstance_ok done
    obtain ⟨contexts, only⟩ := h.filled hc filling
    have emptied : Configured (w.modifyContext c ({ · with data := none })) :=
      h.modifyContext fun x _ o => ⟨o.type, .inl rfl, fun h => absurd rfl h⟩
    have empty : v.contexts.get? c = some { before with data := none } := by
      rw [contexts]
      exact contexts_begun hc
    refine inert.settled (modifyContext ?_ fun x hx o => ⟨o.type, o.data, fun data => ?_⟩)
    · refine emptied.of_onlyFor contexts ⟨only.types, fun hx => ?_, only.others⟩
      obtain ⟨type, alive, -, config, -, data⟩ := only.here hx
      exact ⟨type, fun _ => ⟨config, data⟩, fun dead =>
        absurd (alive.symm.trans dead) Bool.false_ne_true⟩
    · cases empty.symm.trans hx
      exact absurd rfl data
  error failed := by
    rcases Action.makeInstance_error failed with ⟨-, rfl⟩ | ⟨before, v, hc, filling, rfl⟩
    · exact h
    · obtain ⟨contexts, only⟩ := h.unfilled hc filling
      have emptied : Configured (w.modifyContext c ({ · with data := none })) :=
        h.modifyContext fun x _ o => ⟨o.type, .inl rfl, fun h => absurd rfl h⟩
      refine emptied.of_onlyFor contexts ⟨only.types, fun hx => ?_, only.others⟩
      obtain ⟨type, dying, dead⟩ := only.here hx
      exact ⟨type, fun live => absurd (live.symm.trans dying) Bool.false_ne_true, fun _ => dead⟩

theorem makeTree (h : Configured w) : Action.Ends Configured (Action.makeTree c) w := by
  refine .makeTree h (fun {x ops} hc hops => ?_) configuring.noted
  -- the type of the context is the built-in one, which fills an instance with a root
  rw [(h.contexts hc).type] at hops
  cases hops
  exact h.makeInstance

theorem takeInstance (h : Configured w) : Configured (w.takeInstance c).2 := by
  unfold World.takeInstance
  cases hc : w.contexts.get? c with
  | none => exact h
  | some x =>
      have left : Configured (w.modifyContext c ({ · with root := none, made := none })) :=
        h.modifyContext fun _ _ o => ⟨o.type, o.data, fun _ => ⟨rfl, rfl⟩⟩
      refine inert.settled ?_
      cases x.made with
      | none => exact left
      | some i => exact left.onHeld

theorem freeData (h : Configured w) : Configured (w.freeData c) := by
  unfold World.freeData
  cases w.contexts.get? c with
  | none => exact h
  | some x =>
      simp only
      split
      · cases x.data with
        | none => exact h
        | some data =>
            exact inert.settled ((inert.note h).modifyContext fun _ _ o =>
              ⟨o.type, .inl rfl, fun h => absurd rfl h⟩)
      · exact h

theorem eraseContext (h : Configured w) : Configured { w with contexts := w.contexts.erase c } where
  types := h.types
  contexts hx := h.contexts (Table.get?_of_erase hx)
  instances := h.instances

theorem dropContext (h : Configured w) : Configured (w.dropContext c) := by
  unfold World.dropContext
  simp only
  have freed := h.freeData (c := c)
  generalize w.freeData c = v at *
  cases v.contexts.get? c with
  | none => exact freed
  | some x =>
      simp only
      refine inert.settled (eraseContext ?_)
      cases x.made with
      | none => exact freed
      | some i =>
          have unrooted : Configured ((v.modifyContext c ({ · with root := none })).settle
              (x.root.toList.map fun b => .letGo (.binding b))) :=
            inert.settled (freed.modifyContext fun _ _ o =>
              ⟨o.type, o.data, fun data => ⟨rfl, (o.unasked data).2⟩⟩)
          exact inert.settled ((unrooted.deactivate).modifyContext fun _ _ o =>
            ⟨o.type, o.data, fun data => ⟨(o.unasked data).1, rfl⟩⟩)

theorem mountType (h : Configured w) {options : String} {done : InstanceId → World → World}
    (hdone : ∀ i v, Configured v → Configured (done i v)) :
    Action.Ends Configured (Action.mountType builtInType options done) w :=
  .mountType h.newContext (fun h => configuring.applyOptions h) (fun h => h.makeTree)
    (fun h => h.takeInstance) (fun h => hdone _ _ h) fun h => h.dropContext

theorem mount (h : Configured w) {name options : String} :
    Action.Ends Configured (Action.mount name options) w := by
  refine .mount h fun type found => ?_
  rw [h.types type (List.mem_of_find?_eq_some found)]
  exact h.mountType fun _ _ h => inert.note h

end Configured

/-! ## Runs with the built-in type -/

/-- The call brings no other type into play. -/
def Call.BuiltIn : Call → Prop
  | .register type | .newContext type => type = builtInType
  | _ => True

namespace Configured

variable {w : World}

theorem after (h : Configured w) {call : Call} (builtIn : call.BuiltIn) :
    Configured (w.after call) := by
  cases call with
  | operate op => exact (inert.operate h op).into
  | closeFile f =>
      refine Action.Ends.into (x := Action.closeFile f) (.modify ?_)
      split
      · exact h
      · exact inert.settled (inert.files h)
  | hold ref =>
      unfold World.after
      simp only
      split
      · exact h.onHeld
      · exact h
  | drop ref => exact inert.settled h.onHeld
  | register type =>
      refine (configuring.register h fun h => ⟨fun t ht => ?_, h.contexts, h.instances⟩).into
      rcases List.mem_append.1 ht with ht | ht
      · exact h.types t ht
      · exact (List.mem_singleton.1 ht).trans builtIn
  | unregister name =>
      exact (configuring.unregister h fun h =>
        ⟨fun t ht => h.types t (List.eraseP_subset ht), h.contexts, h.instances⟩).into
  | mount name options => exact h.mount.into
  | newContext type =>
      cases (show type = builtInType from builtIn)
      exact h.newContext.into
  | applyParameter c param => exact (configuring.applyParameter h).into
  | makeTree c => exact h.makeTree.into
  | takeInstance c => exact h.takeInstance
  | dropContext c => exact h.dropContext
  | attachToContext c sort device => exact (configuring.attachToContext h).into
  | attachToInstance i sort device => exact (configuring.attachToInstance h).into
  | deactivate i => exact h.deactivate
  | setBudget kind budget => exact inert.host h
  | setCredentials uid gid => exact inert.host h
  | setClock clock => exact inert.host h
  | resetIno ino => exact inert.host h

/-- The configurations stay where they should be. -/
theorem run (h : Configured w) {calls : List Call}
    (builtIn : ∀ call ∈ calls, call.BuiltIn) : Configured (w.run calls) := by
  induction calls generalizing w with
  | nil => exact h
  | cons call rest ih =>
      rw [World.run_cons]
      exact ih (h.after (builtIn call List.mem_cons_self)) fun other mem =>
        builtIn other (List.mem_cons_of_mem _ mem)

end Configured

end Memfs
