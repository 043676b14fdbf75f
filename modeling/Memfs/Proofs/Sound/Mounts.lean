import Memfs.Proofs.Mounting
import Memfs.Proofs.Sound.Names

/-!
# A world in order: mounts

The configuration of a mount goes from its context to its instance, the instance from
its context to the caller, and the root belongs to both for a while. At every moment of
this something owns what there is, or is about to let go of it, whether the mount comes
about in the end or not.
-/

namespace Memfs

theorem PrivateData.configs_eq_one {data : Option PrivateData} {c : Config}
    (h : data.bind (·.config?) = some c) : PrivateData.configs data = 1 := by
  unfold PrivateData.configs
  rw [h]
  rfl

namespace World

variable {w : World} {tasks : List Task}

/-- What letting go keeps of the mounts: the registered types, all contexts, and each
instance that is still there. -/
structure MountsKept (w w' : World) : Prop where
  types : w'.types = w.types
  contexts : w'.contexts = w.contexts
  instances : ∀ i x, w'.instances.get? i = some x → w.instances.get? i = some x

theorem mountsKept_settle : MountsKept w (w.settle tasks) := by
  have same : ∀ {v v' : World}, MountsKept w v → v'.types = v.types → v'.contexts = v.contexts →
      v'.instances = v.instances → MountsKept w v' := fun h types contexts inst =>
    ⟨types.trans h.types, contexts.trans h.contexts, fun i x hx => h.instances i x (inst ▸ hx)⟩
  have step : Settling fun v _ => MountsKept w v := {
    disposed := fun {v data _} h => by
      obtain ⟨host, puts, -, e⟩ := v.disposeData_eq data
      rw [e]
      exact same h rfl rfl rfl
    unpinned := fun {v b _} h => by
      unfold World.unpin
      split
      · exact h
      · split
        · exact same h rfl rfl rfl
        · exact same h rfl rfl rfl
    dissolved := fun _ h => same h rfl rfl rfl
    absent := fun _ h => h
    kept := fun _ h => h
    evicted := fun _ _ h => same h rfl rfl rfl
    removedBinding := fun _ _ h => same h rfl rfl rfl
    removedInstance := fun _ _ h =>
      ⟨h.types, h.contexts, fun j x hx => h.instances j x (Table.get?_of_erase hx)⟩ }
  exact step.settle_all ⟨rfl, rfl, fun _ _ h => h⟩

/-- No context changes when something is let go of. -/
theorem contexts_settle : (w.settle tasks).contexts = w.contexts := mountsKept_settle.contexts

/-- A teardown changes its instance and the host, and lets go. -/
theorem deactivate_induction {P : World → Prop} {i : InstanceId}
    (host : ∀ {v : World} {host}, P v → P { v with host })
    (inst : ∀ {v : World} {g}, P v → P (v.modifyInstance i g))
    (settled : ∀ {v : World} {tasks}, P v → P (v.settle tasks)) (h : P w) : P (w.deactivate i) := by
  have ending : Ending i P := ⟨fun _ => host, fun h => settled (inst h), fun _ h => settled (inst h)⟩
  exact ending.deactivate h fun _ => inst h

theorem contexts_deactivate {i : InstanceId} : (w.deactivate i).contexts = w.contexts :=
  deactivate_induction (P := fun v => v.contexts = w.contexts) id id
    (fun h => contexts_settle.trans h) rfl

/-- A context without its instance, which is torn down and let go of. -/
def withoutInstance (w : World) (c : ContextId) (x : Context) (i : InstanceId) : World :=
  ((((w.modifyContext c ({ · with root := none })).settle
    (x.root.toList.map fun b => .letGo (.binding b))).deactivate i).modifyContext c
      ({ · with made := none })).settle [.letGo (.inst i)]

end World

namespace Sound

open World

variable {w w' : World} {todo todo' : List Task} {c : ContextId} {x : Context} {i : InstanceId}

/-! ## Contexts -/

theorem modifyContext (s : Sound w todo) {g : Context → Context}
    (hc : w.contexts.get? c = some x) (gained : ∀ ref, (g x).Owns ref → w.Has ref)
    (lost : ∀ ref, x.Owns ref → (g x).Owns ref ∨ .letGo ref ∈ todo')
    (done : ∀ ref, .letGo ref ∈ todo → (g x).Owns ref ∨ .letGo ref ∈ todo')
    (configs : PrivateData.configs (g x).data + waitingConfigs todo'
      = PrivateData.configs x.data + waitingConfigs todo) : Sound (w.modifyContext c g) todo' := by
  have here : (w.contexts.modify c g).get? c = some (g x) := by
    rw [Table.get?_modify, if_pos rfl, hc]
    rfl
  refine s.changeContext (c := c) (fun d hd => by rw [Table.get?_modify, if_neg hd])
    (fun y ref hy h => ?_) (fun y ref hy h => ?_) (fun ref h => ?_) ?_
  · cases here.symm.trans hy
    exact gained ref h
  · cases hc.symm.trans hy
    exact (lost ref h).imp (fun h => ⟨g x, here, h⟩) id
  · exact (done ref h).imp (fun h => ⟨g x, here, h⟩) id
  · have := w.contexts.sum_modify (PrivateData.configs ·.data) g hc
    omega

/-- A change of a context that concerns neither what it owns nor its configuration. -/
theorem modifyContext_of_owns (s : Sound w todo) {g : Context → Context}
    (root : ∀ x, (g x).root = x.root) (made : ∀ x, (g x).made = x.made)
    (configs : ∀ x, w.contexts.get? c = some x →
      PrivateData.configs (g x).data = PrivateData.configs x.data) :
    Sound (w.modifyContext c g) todo := by
  cases hc : w.contexts.get? c with
  | none =>
      unfold World.modifyContext
      rw [Table.modify_of_absent hc]
      exact s
  | some x =>
      have owns : ∀ ref, (g x).Owns ref ↔ x.Owns ref := fun ref => by
        cases ref with
        | node n => exact Iff.rfl
        | binding b => simp only [Context.Owns, root]
        | inst j => simp only [Context.Owns, made]
      refine s.modifyContext hc (fun ref h => ?_) (fun ref h => .inl ((owns ref).2 h))
        (fun ref h => .inr h) (by rw [configs x hc])
      exact s.tended.there ⟨.context c, x, hc, (owns ref).1 h⟩

/-- A context ends and leaves what it has. -/
theorem eraseContext (s : Sound w todo) (hc : w.contexts.get? c = some x) (made : x.made = none) :
    Sound { w with contexts := w.contexts.erase c }
      ((x.data.toList.map Task.dispose ++ x.root.toList.map fun b => .letGo (.binding b))
        ++ todo) := by
  refine s.changeContext (c := c) (fun d hd => by rw [Table.get?_erase, if_neg hd])
    (fun y ref hy => ?_) (fun y ref hy h => .inr (List.mem_append_left _ ?_))
    (fun ref h => .inr (List.mem_append_right _ h)) ?_
  · rw [Table.get?_erase, if_pos rfl] at hy
    cases hy
  · cases hc.symm.trans hy
    refine List.mem_append_right _ ?_
    cases ref with
    | node n => exact h.elim
    | binding b => simp [show x.root = some b from h]
    | inst j => cases made.symm.trans h
  · have := w.contexts.sum_erase (PrivateData.configs ·.data) hc
    simp only [waitingConfigs_append, waitingConfigs_dispose, waitingConfigs_letGo]
    omega

theorem configuring : Configuring (Sound · todo) where
  noted _ s := s.note _
  sourced s := s.modifyContext_of_owns (fun _ => rfl) (fun _ => rfl) fun _ _ => rfl
  configured hc hold s := s.modifyContext_of_owns (fun _ => rfl) (fun _ => rfl) fun y hy => by
    cases hc.symm.trans hy
    exact (PrivateData.configs_eq_one hold).symm
  backed {v i x old new} hi hold s := by
    refine s.modifyInstance hi (fun b h => ?_) (fun b h => .inl h) (fun ref h => .inr h) ?_
    · exact s.has_root hi h
    · rw [PrivateData.configs_eq_one hold]
      rfl

/-- A new context takes the data that it is given, and has neither a tree nor an
instance. -/
theorem pushContext (data : Option PrivateData) (s : Sound w (data.toList.map .dispose ++ todo))
    {type : FilesystemType} :
    Sound { w with contexts := w.contexts.push { type, data } } todo := by
  refine s.changeContext (c := w.contexts.nextId) (fun d hd => Table.get?_push_of_ne hd)
    (fun y ref hy h => ?_) (fun y ref hy => ?_) (fun ref h => ?_) ?_
  · rw [Table.get?_push_self] at hy
    cases hy
    cases ref with
    | node n => exact h.elim
    | binding b => cases h
    | inst j => cases h
  · rw [Table.get?_nextId] at hy
    cases hy
  · rcases List.mem_append.1 h with h | h
    · obtain ⟨d, -, e⟩ := List.mem_map.1 h
      cases e
    · exact .inr h
  · simp only [Table.sum_push, waitingConfigs_append, waitingConfigs_dispose]
    omega

theorem acquireConfig (s : Sound w todo) {host : Host} {config : Config}
    (acquired : w.host.acquire .config = (true, host)) :
    Sound { w with host } (.dispose (.config config) :: todo) where
  tended := (Tended.mk (w := w) s.tended.there fun h => (s.tended.owned h).imp id
      (List.mem_cons_of_mem _)).same
    (fun ref => by cases ref <;> exact Iff.rfl) (fun ref holder => by cases holder <;> exact Iff.rfl)
  charged := {
    nodes := by simpa [Host.net_of_acquired acquired] using s.charged.nodes
    bindings := by simpa [Host.net_of_acquired acquired] using s.charged.bindings
    pages := by simpa [Host.net_of_acquired acquired] using s.charged.pages
    configs := by
      have := s.charged.configs
      simp [Host.net_of_acquired acquired, Task.configs, PrivateData.configs, PrivateData.config?]
        at this ⊢
      omega }
  forest := s.forest.of_bindings_eq rfl fun _ _ _ => rfl

theorem newContext (s : Sound w []) {type : FilesystemType} :
    Action.Ends (Sound · []) (Action.newContext type) w where
  ok h := by
    obtain ⟨-, ⟨-, rfl⟩ | ⟨-, host, acquired, rfl⟩⟩ := Action.newContext_ok h
    · exact s.pushContext none
    · exact (s.acquireConfig acquired).pushContext (some (.config _))
  error h := (Action.newContext_clean _ _ h).sound s

/-! ## Teardown -/

theorem setData (s : Sound w todo) : Sound (w.setData i none) todo := by
  unfold World.setData
  cases hi : w.instances.get? i with
  | none =>
      unfold World.modifyInstance
      rw [Table.modify_of_absent hi]
      simpa using s
  | some inst =>
      refine settle (s.modifyInstance hi (fun b h => ?_) (fun b h => .inl h)
        (fun ref h => .inr (List.mem_append_right _ h)) ?_)
      · exact s.has_root hi h
      · simp [PrivateData.configs]

/-- An instance leaves its root, which is to be taken down with all that is below it. -/
theorem unroot (s : Sound w todo) {inst : Instance} (hi : w.instances.get? i = some inst) :
    Sound (w.modifyInstance i ({ · with root := none })) (inst.uprooting ++ todo) := by
  unfold Instance.uprooting
  refine s.modifyInstance hi (fun b h => by cases h) (fun b h => .inr ?_)
    (fun ref h => .inr (List.mem_append_right _ h)) ?_
  · simp [h]
  · cases inst.root with
    | none => rfl
    | some root => simp [Task.configs]

theorem ending : Ending i (Sound · todo) where
  noted _ s := s.note _
  stripped s := s.setData
  dissolved hi s := settle (s.unroot hi)

theorem dying (s : Sound w todo) {inst : Instance} (hi : w.instances.get? i = some inst) :
    Sound (w.modifyInstance i ({ · with dying := true })) todo :=
  s.modifyInstance hi (fun _ h => s.has_root hi h) (fun _ h => .inl h) (fun _ h => .inr h) rfl

theorem deactivate (s : Sound w todo) : Sound (w.deactivate i) todo :=
  ending.deactivate s fun hi => s.dying hi

/-! ## Making an instance -/

theorem withRoot {n : NodeId} (s : Sound w (.letGo (.node n) :: todo)) {host : Host}
    (acquired : w.host.acquire .binding = (true, host)) (there : w.nodes.has n = true)
    (alone : ∀ c, w.nodeOf c ≠ some n) :
    Sound (w.withRoot host n) (.letGo (.binding w.bindings.nextId) :: todo) := by
  have pushed : Sound
      { w with host, bindings := w.bindings.push { name := rootName, parent := none } }
      (.letGo (.binding w.bindings.nextId) :: .letGo (.node n) :: todo) :=
    s.pushBinding acquired fun p e => nomatch e
  refine (pushed.swap.setNode Table.get?_push_self rfl rfl rfl (fun _ _ _ => rfl) rfl there
    fun _ c hc => ?_).pin _
  rw [Forest.nodeOf_pushBinding] at hc
  exact alone c hc

theorem setRoot {b : BindingId} (s : Sound w (.letGo (.binding b) :: todo))
    (known : w.instances.has i = true) (there : w.bindings.has b = true) :
    Sound (w.setRoot i b) todo := by
  obtain ⟨inst, hi⟩ := Table.has_iff.1 known
  have before : (w.instances.get? i).bind (·.root) = inst.root := by
    rw [hi]
    rfl
  unfold World.setRoot
  rw [before]
  refine settle (s.modifyInstance hi (fun c h => ?_) (fun c h => .inr ?_) (fun ref h => ?_) ?_)
  · cases h
    exact there
  · simp [h]
  · rcases List.mem_cons.1 h with e | h
    · cases e
      exact .inl ⟨b, rfl, rfl⟩
    · exact .inr (List.mem_append_right _ h)
  · simp [Task.configs]

theorem sized (s : Sound w todo) : Sound (w.sized i) todo := by
  cases hi : w.instances.get? i with
  | none =>
      unfold World.sized World.modifyInstance
      rw [Table.modify_of_absent hi]
      exact s
  | some inst =>
      refine s.modifyInstance hi (fun b h => ?_) (fun b h => .inl h) (fun ref h => .inr h) rfl
      exact s.has_root hi h

theorem fillBuiltIn (s : Sound w todo) : Action.Ends (Sound · todo) (Action.fillBuiltIn i) w where
  ok h := by
    obtain ⟨inst, config, n, v, host, hi, -, made, acquired, rfl⟩ := Action.fillBuiltIn_ok h
    obtain ⟨sv, there, alone, -⟩ := s.sized.newNode made
    have frame : v.instances = (w.sized i).instances := by
      obtain ⟨-, _, _, _, _, -, rfl, -⟩ := Action.newNode_ok made
      rfl
    refine (sv.withRoot acquired there alone).setRoot ?_ ?_
    · show v.instances.has i = true
      rw [frame]
      exact Table.has_modify.trans (Table.has_of_get? hi)
    · exact has_modifyBinding.trans (has_modifyBinding.trans (Table.has_push.2 (.inr rfl)))
  error h := by
    rcases Action.fillBuiltIn_error h with rfl | ⟨mode, cause, failed⟩ |
      ⟨mode, n, v, host, made, refused, rfl⟩
    · exact s
    · exact (Action.newNode_clean _ _ failed).sound s.sized
    · obtain ⟨sv, -⟩ := s.sized.newNode made
      exact (sv.onHost fun _ => Host.net_of_refused refused).settleOne

theorem fill (s : Sound w todo) {filling : Filling} :
    Action.Ends (Sound · todo) (Action.fill i filling) w := by
  cases filling with
  | freshRoot => exact s.fillBuiltIn
  | noRoot => exact .pure s _
  | failing cause => exact .throw s _

theorem begun (s : Sound w []) (hc : w.contexts.get? c = some x) :
    Sound (w.begun c x) [.letGo (.inst w.instances.nextId)] := by
  have pushed : Sound (w.newInstance x.type x.source x.flags).2
      [.letGo (.inst w.instances.nextId)] := s.pushInstance rfl rfl
  have moved : Sound ((w.newInstance x.type x.source x.flags).2.modifyContext c
      ({ · with data := none }))
      (x.data.toList.map .dispose ++ [.letGo (.inst w.instances.nextId)]) := by
    refine pushed.modifyContext hc (fun ref h => ?_) (fun ref h => .inl h)
      (fun ref h => .inr (List.mem_append_right _ h)) ?_
    · exact pushed.tended.there ⟨.context c, x, hc, by cases ref <;> exact h⟩
    · simp [PrivateData.configs, Task.configs]
  refine moved.modifyInstance Table.get?_push_self (fun b h => ?_) (fun b h => ?_)
    (fun ref h => .inr ?_) ?_
  · cases h
  · cases h
  · rcases List.mem_append.1 h with h | h
    · obtain ⟨d, -, e⟩ := List.mem_map.1 h
      cases e
    · exact h
  · simp [Task.configs, PrivateData.configs]

theorem givenUp (s : Sound w (.letGo (.inst i) :: todo)) {type : FilesystemType} {cause : Error} :
    Sound (w.givenUp i type cause) todo :=
  (s.note _).deactivate.settleOne

/-- The context owns the instance from now on, and shares its root with it. What it had
before it leaves. -/
theorem claim (s : Sound w (.letGo (.inst i) :: todo)) {before : Context}
    (hc : w.contexts.get? c = some x) (root : x.root = before.root) (made : x.made = before.made)
    (known : w.instances.has i = true) :
    Sound (w.modifyContext c
        ({ · with root := (w.instances.get? i).bind (·.root), made := some i }))
      (((before.root.toList.map fun b => .letGo (.binding b))
        ++ before.made.toList.map fun i => .letGo (.inst i)) ++ todo) := by
  obtain ⟨inst, hi⟩ := Table.has_iff.1 known
  rw [hi]
  refine s.modifyContext hc (fun ref h => ?_) (fun ref h => .inr ?_) (fun ref h => ?_) ?_
  · cases ref with
    | node n => exact h.elim
    | binding b => exact s.has_root hi h
    | inst j =>
        cases h
        exact known
  · cases ref with
    | node n => exact h.elim
    | binding b => simp [← root, show x.root = some b from h]
    | inst j => simp [← made, show x.made = some j from h]
  · rcases List.mem_cons.1 h with e | h
    · cases e
      exact .inl rfl
    · exact .inr (List.mem_append_right _ h)
  · simp [Task.configs]

theorem made (s : Sound w (.letGo (.inst i) :: todo)) {before : Context}
    (hc : w.contexts.get? c = some x) (root : x.root = before.root) (made : x.made = before.made)
    (known : w.instances.has i = true) : Sound (w.made c before i) todo :=
  settle (s.claim hc root made known)

theorem makeInstance (s : Sound w []) {filling : Filling} :
    Action.Ends (Sound · []) (Action.makeInstance c filling) w where
  ok h := by
    obtain ⟨before, v, hc, filled, rfl⟩ := Action.makeInstance_ok h
    obtain ⟨-, contexts, found, hfound, -⟩ := Action.fill_ok instances_begun rfl filled
    refine ((s.begun hc).fill.ok filled).made (x := { before with data := none }) ?_ rfl rfl
      (Table.has_of_get? hfound)
    rw [contexts]
    exact contexts_begun hc
  error h := by
    rcases Action.makeInstance_error h with ⟨-, rfl⟩ | ⟨before, v, hc, failed, rfl⟩
    · exact s
    · exact ((s.begun hc).fill.error failed).givenUp

theorem makeTree (s : Sound w []) : Action.Ends (Sound · []) (Action.makeTree c) w :=
  .makeTree s (fun _ _ => s.makeInstance) configuring.noted

/-! ## The end of a context -/

/-- An instance goes from its context to the caller, and the context still has to let go
of the root. -/
theorem handOut (s : Sound w []) (hc : w.contexts.get? c = some x) :
    Sound (x.made.elim (w.modifyContext c ({ · with root := none, made := none }))
        fun i => (w.modifyContext c ({ · with root := none, made := none })).hold (.inst i))
      (x.root.toList.map fun b => .letGo (.binding b)) := by
  have left : Sound (w.modifyContext c ({ · with root := none, made := none }))
      ((x.made.toList.map fun i => .letGo (.inst i))
        ++ x.root.toList.map fun b => .letGo (.binding b)) := by
    refine s.modifyContext hc (fun ref h => ?_) (fun ref h => .inr ?_) (fun ref h => nomatch h) ?_
    · cases ref with
      | node n => exact h.elim
      | binding b => cases h
      | inst i => cases h
    · cases ref with
      | node n => exact h.elim
      | binding b => simp [show x.root = some b from h]
      | inst i => simp [show x.made = some i from h]
    · simp
  cases hmade : x.made with
  | none =>
      rw [hmade] at left
      exact left
  | some i =>
      rw [hmade] at left
      have owns : x.Owns (.inst i) := hmade
      exact left.hold (s.has_of_context hc owns)

theorem takeInstance (s : Sound w []) : Sound (w.takeInstance c).2 [] := by
  unfold World.takeInstance
  cases hc : w.contexts.get? c with
  | none => exact s
  | some x => exact settleAll (s.handOut hc)

theorem freeData (s : Sound w todo) : Sound (w.freeData c) todo := by
  unfold World.freeData
  cases hc : w.contexts.get? c with
  | none => exact s
  | some x =>
      simp only
      split
      · cases hdata : x.data with
        | none => exact s
        | some data =>
            refine settleOne ((s.note _).modifyContext hc (fun ref h => ?_)
              (fun ref h => .inl ?_) (fun ref h => .inr (List.mem_cons_of_mem _ h)) ?_)
            · exact s.has_of_context hc (by cases ref <;> exact h)
            · cases ref <;> exact h
            · simp [PrivateData.configs, Task.configs, hdata]
      · exact s

/-- A context leaves the root that it shares with its instance. -/
theorem unshare (s : Sound w todo) (hc : w.contexts.get? c = some x) :
    Sound (w.modifyContext c ({ · with root := none }))
      ((x.root.toList.map fun b => .letGo (.binding b)) ++ todo) := by
  refine s.modifyContext hc (fun ref h => ?_) (fun ref h => ?_)
    (fun ref h => .inr (List.mem_append_right _ h)) ?_
  · cases ref with
    | node n => exact h.elim
    | binding b => cases h
    | inst j => exact s.has_of_context hc h
  · cases ref with
    | node n => exact h.elim
    | binding b => exact .inr (List.mem_append_left _ (by simp [show x.root = some b from h]))
    | inst j => exact .inl h
  · simp

/-- A context without a root leaves its instance. -/
theorem unclaim (s : Sound w todo) (hc : w.contexts.get? c = some x) (root : x.root = none)
    (hi : x.made = some i) :
    Sound (w.modifyContext c ({ · with made := none })) (.letGo (.inst i) :: todo) := by
  refine s.modifyContext hc (fun ref h => ?_) (fun ref h => .inr ?_)
    (fun ref h => .inr (List.mem_cons_of_mem _ h)) ?_
  · cases ref with
    | node n => exact h.elim
    | binding b => exact s.has_of_context hc h
    | inst j => cases h
  · cases ref with
    | node n => exact h.elim
    | binding b => cases root.symm.trans h
    | inst j =>
        cases hi.symm.trans h
        exact List.mem_cons_self
  · simp [Task.configs]

/-- The context after its root is left, and its instance torn down. -/
theorem contexts_unshared (hc : w.contexts.get? c = some x) :
    (((w.modifyContext c ({ · with root := none })).settle
      (x.root.toList.map fun b => .letGo (.binding b))).deactivate i).contexts.get? c
        = some { x with root := none } := by
  rw [contexts_deactivate, contexts_settle]
  exact (Table.get?_modify ..).trans (by rw [if_pos rfl, hc]; rfl)

/-- The instance of a context is torn down and let go of. -/
theorem dropMade (s : Sound w todo) (hc : w.contexts.get? c = some x) (hi : x.made = some i) :
    Sound (w.withoutInstance c x i) todo ∧
      (w.withoutInstance c x i).contexts.get? c = some { x with root := none, made := none } := by
  have unshared := contexts_unshared (i := i) hc
  refine ⟨settleOne ((settle (s.unshare hc)).deactivate.unclaim unshared rfl hi), ?_⟩
  unfold World.withoutInstance
  rw [contexts_settle]
  exact (Table.get?_modify ..).trans (by rw [if_pos rfl, unshared]; rfl)

theorem dropContext (s : Sound w todo) : Sound (w.dropContext c) todo := by
  unfold World.dropContext
  simp only
  have freed := s.freeData (c := c)
  generalize w.freeData c = v at *
  cases hc : v.contexts.get? c with
  | none => exact freed
  | some x =>
      cases hmade : x.made with
      | none =>
          simp only [hmade, hc]
          refine settle ?_
          simpa using freed.eraseContext hc hmade
      | some i =>
          obtain ⟨dropped, hc₂⟩ := freed.dropMade hc hmade
          simp only [hmade]
          refine settle ?_
          have left := dropped.eraseContext hc₂ rfl
          unfold World.withoutInstance at left hc₂
          rw [hc₂]
          simpa using left

/-! ## Mounting -/

theorem mountType (s : Sound w []) {type : FilesystemType} {options : String}
    {done : InstanceId → World → World} (hdone : ∀ i v, Sound v [] → Sound (done i v) []) :
    Action.Ends (Sound · []) (Action.mountType type options done) w :=
  .mountType s.newContext (fun s => configuring.applyOptions s) (fun s => s.makeTree)
    (fun s => s.takeInstance) (fun s => hdone _ _ s) fun s => s.dropContext

end Sound

end Memfs
