import Memfs.Proofs.Configuring

/-!
# What a mount has done

The steps of a mount: a root directory, an instance that is filled, a context that has
its tree. Where a step fails it gives back what it has made itself, so the failures are
listed as well.
-/

namespace Memfs

namespace World

/-- A root for a directory node, pinned once. -/
def withRoot (w : World) (host : Host) (n : NodeId) : World :=
  (World.modifyBinding
    { w with host, bindings := w.bindings.push { name := rootName, parent := none } }
    w.bindings.nextId ({ · with node := some n })).pin w.bindings.nextId

/-- The sizes and limits of an instance of the built-in type. -/
def sized (w : World) (i : InstanceId) : World :=
  w.modifyInstance i fun inst =>
    { inst with
      reports := true
      geometry :=
        { maxBytes := builtInMaxBytes, magic := builtInMagic, flags := inst.geometry.flags } }

/-- A new instance with the data of its context. -/
def begun (w : World) (c : ContextId) (before : Context) : World :=
  ((w.newInstance before.type before.source before.flags).2.modifyContext c
    ({ · with data := none })).modifyInstance w.instances.nextId ({ · with data := before.data })

/-- An instance that could not be filled is torn down again. -/
def givenUp (w : World) (i : InstanceId) (type : FilesystemType) (cause : Error) : World :=
  ((w.note (.fillFailed type.name cause)).deactivate i).settle [.letGo (.inst i)]

/-- An instance and its root come to a context, which lets go of what it had before. -/
def made (w : World) (c : ContextId) (before : Context) (i : InstanceId) : World :=
  (w.modifyContext c
    ({ · with root := (w.instances.get? i).bind (·.root), made := some i })).settle
      ((before.root.toList.map fun b => .letGo (.binding b))
        ++ before.made.toList.map fun i => .letGo (.inst i))

variable {w : World} {c : ContextId} {x : Context}

theorem get?_withRoot {host : Host} {n : NodeId} :
    (w.withRoot host n).bindings.get? w.bindings.nextId
      = some { name := rootName, parent := none, node := some n, pins := 1 } := by
  unfold withRoot pin modifyBinding
  simp only [Table.get?_modify, if_true, Table.get?_push_self, Option.map_some]
  rfl

/-- The instance that is begun has what its context had. -/
theorem instances_begun : (w.begun c x).instances.get? w.instances.nextId = some
    { type := x.type, source := x.source, geometry := { flags := x.flags }, data := x.data } := by
  refine (Table.get?_modify ..).trans ?_
  rw [if_pos rfl]
  exact congrArg _ Table.get?_push_self

theorem contexts_begun (hc : w.contexts.get? c = some x) :
    (w.begun c x).contexts.get? c = some { x with data := none } := by
  refine (Table.get?_modify ..).trans ?_
  rw [if_pos rfl]
  exact congrArg _ hc

end World

namespace Action

open World

variable {w w' : World} {e : Error} {u : Unit} {i : InstanceId} {c : ContextId} {n : NodeId}

/-- A context begins with a configuration or without data. -/
theorem newContext_ok {type : FilesystemType} (h : newContext type w = .ok c w') :
    c = w.contexts.nextId ∧
      ((type.start = .plain ∧ w' = { w with contexts := w.contexts.push { type } }) ∨
        (type.start = .configured ∧ ∃ host, w.host.acquire .config = (true, host) ∧
          w' = { w with
            host
            contexts := w.contexts.push
              { type, data := some (.config { mode := defaultRootMode }) } })) := by
  unfold newContext at h
  cases hstart : type.start with
  | refused cause => simp [hstart] at h
  | plain =>
      simp only [hstart, bind_eq_ok, pure_eq_ok, total_eq_ok] at h
      obtain ⟨_, _, ⟨rfl, rfl⟩, rfl, rfl⟩ := h
      exact ⟨rfl, .inl ⟨rfl, rfl⟩⟩
  | configured =>
      simp only [hstart, bind_eq_ok, onHost_eq_ok, ite_eq_ok, pure_eq_ok, throw_eq_ok, false_and,
        exists_false, and_false, or_false, total_eq_ok] at h
      obtain ⟨granted, _, ⟨acquired, rfl⟩, yes, _, _, ⟨rfl, rfl⟩, rfl, rfl⟩ := h
      rw [yes] at acquired
      exact ⟨rfl, .inr ⟨rfl, _, Prod.ext acquired rfl, rfl⟩⟩

/-- A context does not begin if its type refuses, or if there is no configuration for it. -/
theorem newContext_error {type : FilesystemType} (h : newContext type w = .error e w') :
    (type.start = .refused e ∧ w' = w) ∨
      (type.start = .configured ∧ e = .outOfMemory ∧
        ∃ host, w.host.acquire .config = (false, host) ∧ w' = { w with host }) := by
  unfold newContext at h
  cases hstart : type.start with
  | refused cause =>
      simp only [hstart, bind_eq_error, throw_eq_error, throw_eq_ok, false_and, exists_false,
        or_false] at h
      obtain ⟨rfl, rfl⟩ := h
      exact .inl ⟨rfl, rfl⟩
  | plain => simp [hstart] at h
  | configured =>
      simp only [hstart, bind_eq_error, onHost_eq_error, false_or, onHost_eq_ok, ite_eq_error,
        pure_eq_error, throw_eq_error, and_false, throw_eq_ok, exists_false, or_false,
        total_eq_error] at h
      obtain ⟨granted, _, ⟨refused, rfl⟩, no, rfl, rfl⟩ := h
      rw [Bool.not_eq_true] at no
      rw [no] at refused
      exact .inr ⟨rfl, rfl, _, Prod.ext refused rfl, rfl⟩

theorem newContext_clean {type : FilesystemType} : Clean (newContext type) w := by
  intro e w' h
  obtain ⟨-, rfl⟩ | ⟨-, -, host, refused, rfl⟩ := newContext_error h
  · exact .refl
  · exact .of_host (Host.alike_of_acquire refused) fun _ => Host.net_of_refused refused

theorem newRoot_ok {b : BindingId} (h : newRoot n w = .ok b w') : ∃ host,
    w.host.acquire .binding = (true, host) ∧ b = w.bindings.nextId ∧ w' = w.withRoot host n := by
  simp only [newRoot, bind_eq_ok, total_eq_ok, World.newBinding] at h
  obtain ⟨made, _, ⟨rfl, rfl⟩, h⟩ := h
  cases hacq : w.host.acquire .binding with
  | mk granted host =>
      cases granted with
      | true =>
          simp only [hacq, bind_eq_ok, modify_eq_ok, pure_eq_ok] at h
          obtain ⟨_, _, rfl, rfl, rfl⟩ := h
          exact ⟨host, rfl, rfl, rfl⟩
      | false => simp [hacq] at h

theorem newRoot_error (h : newRoot n w = .error e w') : ∃ host,
    w.host.acquire .binding = (false, host) ∧
      w' = World.settle { w with host } [.letGo (.node n)] := by
  simp only [newRoot, bind_eq_error, total_eq_error, false_or, total_eq_ok, World.newBinding] at h
  obtain ⟨made, _, ⟨rfl, rfl⟩, h⟩ := h
  cases hacq : w.host.acquire .binding with
  | mk granted host =>
      cases granted with
      | true => simp [hacq] at h
      | false =>
          simp [hacq] at h
          exact ⟨host, rfl, h.2.symm⟩

theorem fillBuiltIn_ok (h : fillBuiltIn i w = .ok u w') : ∃ inst config n v host,
    w.instances.get? i = some inst ∧ inst.config? = some config ∧
    newNode i none (config.mode.withType Mode.directoryType) .none (w.sized i) = .ok n v ∧
    v.host.acquire .binding = (true, host) ∧
    w' = (v.withRoot host n).setRoot i v.bindings.nextId := by
  simp only [fillBuiltIn, bind_eq_ok, get_eq_ok, require_eq_ok, modify_eq_ok, tryCatch_eq_ok,
    throw_eq_ok, and_false, exists_false, or_false] at h
  obtain ⟨_, _, ⟨rfl, rfl⟩, config, _, ⟨hconfig, rfl⟩, _, _, rfl, n, v, made, b, _, rooted, rfl⟩ := h
  obtain ⟨inst, hi, hconfig⟩ := Option.bind_eq_some_iff.1 hconfig
  obtain ⟨host, acquired, rfl, rfl⟩ := newRoot_ok rooted
  exact ⟨inst, config, n, v, host, hi, hconfig, made, acquired, rfl⟩

/-- An instance is not filled when it has no configuration, when no node can be made,
or when no root can be made for the node. -/
theorem fillBuiltIn_error (h : fillBuiltIn i w = .error e w') :
    w' = w ∨ (∃ mode cause, newNode i none mode .none (w.sized i) = .error cause w') ∨
      ∃ mode n v host, newNode i none mode .none (w.sized i) = .ok n v ∧
        v.host.acquire .binding = (false, host) ∧
        w' = World.settle { v with host } [.letGo (.node n)] := by
  simp only [fillBuiltIn, bind_eq_error, get_eq_error, false_or, get_eq_ok, require_eq_error,
    require_eq_ok, modify_eq_error, modify_eq_ok, tryCatch_eq_ok, tryCatch_eq_error, throw_eq_ok,
    throw_eq_error, and_false, exists_false, or_false] at h
  obtain ⟨_, _, ⟨rfl, rfl⟩, ⟨-, -, rfl⟩ | ⟨config, _, ⟨-, rfl⟩, _, _, rfl, h⟩⟩ := h
  · exact .inl rfl
  · rcases h with ⟨cause, _, failed, -, rfl⟩ | ⟨n, v, made, failed⟩
    · exact .inr (.inl ⟨_, cause, failed⟩)
    · obtain ⟨host, refused, rfl⟩ := newRoot_error failed
      exact .inr (.inr ⟨_, n, v, host, made, refused, rfl⟩)

theorem makeInstance_ok {filling : Filling} (h : makeInstance c filling w = .ok u w') :
    ∃ before v, w.contexts.get? c = some before ∧
      fill w.instances.nextId filling (w.begun c before) = .ok () v ∧
      w' = v.made c before w.instances.nextId := by
  simp only [makeInstance, bind_eq_ok, context_eq_ok, total_eq_ok, modify_eq_ok,
    onFailure_eq_ok] at h
  obtain ⟨before, _, ⟨hc, rfl⟩, _, _, ⟨rfl, rfl⟩, _, _, rfl, _, v, filled, rfl⟩ := h
  exact ⟨before, v, hc, filled, rfl⟩

theorem makeInstance_error {filling : Filling} (h : makeInstance c filling w = .error e w') :
    (w.contexts.get? c = none ∧ w' = w) ∨ ∃ before v, w.contexts.get? c = some before ∧
      fill w.instances.nextId filling (w.begun c before) = .error e v ∧
      w' = v.givenUp w.instances.nextId before.type e := by
  rcases bind_eq_error.1 h with h | ⟨before, _, found, h⟩
  · rw [(reads_context c).error h]
    simp only [context, bind_eq_error, get_eq_error, get_eq_ok, require_eq_error, false_or] at h
    obtain ⟨_, _, ⟨rfl, rfl⟩, absent, -⟩ := h
    exact .inl ⟨absent, rfl⟩
  · obtain ⟨hc, rfl⟩ := context_eq_ok.1 found
    simp only [bind_eq_error, total_eq_error, false_or, total_eq_ok, modify_eq_error, modify_eq_ok,
      onFailure_eq_error, and_false, exists_false, or_false] at h
    obtain ⟨_, _, ⟨rfl, rfl⟩, _, _, rfl, v, failed, rfl⟩ := h
    exact .inr ⟨before, v, hc, failed, rfl⟩

theorem setRoot_of_none {b : BindingId} (h : (w.instances.get? i).bind (·.root) = none) :
    w.setRoot i b = w.modifyInstance i ({ · with root := some b }) := by
  unfold World.setRoot
  rw [h]
  exact settle_nil

/-- Filling an instance that has no root yet gives it one, or nothing where the type
asks for none, and keeps what else it has. -/
theorem fill_ok {filling : Filling} {inst : Instance} (hi : w.instances.get? i = some inst)
    (empty : inst.root = none) (h : fill i filling w = .ok u w') :
    w'.types = w.types ∧ w'.contexts = w.contexts ∧
      ∃ found, w'.instances.get? i = some found ∧ found.type = inst.type ∧
        found.data = inst.data ∧ found.dying = inst.dying ∧
        (filling = .freshRoot → found.root.isSome = true) ∧
        ∀ j, j ≠ i → w'.instances.get? j = w.instances.get? j := by
  cases filling with
  | noRoot =>
      obtain ⟨-, rfl⟩ := pure_eq_ok.1 h
      exact ⟨rfl, rfl, inst, hi, rfl, rfl, rfl, nofun, fun _ _ => rfl⟩
  | failing cause => exact absurd h throw_eq_ok
  | freshRoot =>
      obtain ⟨_, config, n, v, host, -, -, made, -, rfl⟩ := fillBuiltIn_ok h
      have frame : v.instances = (w.sized i).instances ∧ v.types = w.types ∧
          v.contexts = w.contexts := by
        obtain ⟨-, _, _, _, _, -, rfl, -⟩ := newNode_ok made
        exact ⟨rfl, rfl, rfl⟩
      have sized : ∀ j, v.instances.get? j
          = if j = i then (w.instances.get? i).map _ else w.instances.get? j := fun j => by
        rw [frame.1]
        exact Table.get?_modify ..
      have before : ((v.withRoot host n).instances.get? i).bind (·.root) = none := by
        show (v.instances.get? i).bind _ = none
        rw [sized, if_pos rfl, hi]
        exact empty
      rw [setRoot_of_none before]
      have found : ((v.withRoot host n).instances.modify i
          ({ · with root := some v.bindings.nextId })).get? i
            = ((v.instances.get? i).map ({ · with root := some v.bindings.nextId })) :=
        (Table.get?_modify ..).trans (if_pos rfl)
      rw [sized, if_pos rfl, hi] at found
      refine ⟨frame.2.1, frame.2.2, _, found, rfl, rfl, rfl, fun _ => rfl,
        fun j hj => (Table.get?_modify ..).trans ?_⟩
      show (if j = i then _ else v.instances.get? j) = _
      rw [if_neg hj, sized, if_neg hj]

end Action

end Memfs
