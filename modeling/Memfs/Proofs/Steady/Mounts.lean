import Memfs.Proofs.Steady.Files

/-!
# Steady counters: mounts, teardowns and all calls

A root is given to its instance with two links and a pin, and it is given to one instance
only. A teardown takes the root out of its place before it takes the tree apart, so a
binding that is dissolved is in no place when its turn comes.
-/

namespace Memfs

open World

variable {w w' v : World} {rs : List Removed} {r : Removed} {todo : List Task} {i : InstanceId}
  {c : ContextId} {b : BindingId} {n : NodeId} {inst : Instance} {x : Context} {y : Binding}
  {most : NodeId → Nat}

namespace Steady

/-- Whatever is done to an instance, it keeps its root. -/
theorem modifyInstance (h : Steady w w.due rs) {g : Instance → Instance}
    (same : ∀ inst, w.instances.get? i = some inst → (g inst).root = inst.root) :
    Steady (w.modifyInstance i g) (w.modifyInstance i g).due rs := by
  have shape : SameShape w (w.modifyInstance i g) := .modifyInstance same
  refine of_shape ?_ shape
  refine h.reshape shape rfl (fun {j y b} hj root => ?_) (Nat.le_refl _)
    (fun hb _ => ⟨_, hb, rfl⟩) fun _ _ _ => id
  rcases Table.get?_of_modify hj with ⟨rfl, z, hz, rfl⟩ | ⟨-, hj⟩
  · exact ⟨z, hz, (same z hz).symm.trans root⟩
  · exact ⟨y, hj, root⟩

theorem pushInstance (h : Steady w w.due rs) (rootless : inst.root = none) :
    Steady { w with instances := w.instances.push inst }
      ({ w with instances := w.instances.push inst } : World).due rs := by
  have shape : SameShape w { w with instances := w.instances.push inst } := .pushInstance rootless
  refine of_shape ?_ shape
  refine h.reshape shape rfl (fun {j y b} hj root => ?_) (Nat.le_refl _)
    (fun hb _ => ⟨_, hb, rfl⟩) fun _ _ _ => id
  rcases Table.get?_of_push hj with ⟨-, rfl⟩ | ⟨-, hj⟩
  · cases rootless.symm.trans root
  · exact ⟨y, hj, root⟩

theorem onContexts (h : Steady w w.due rs) {contexts : Table Context} :
    Steady { w with contexts } ({ w with contexts } : World).due rs :=
  h.aside rfl rfl rfl

theorem note (h : Steady w w.due rs) (notice : Notice) :
    Steady (w.note notice) (w.note notice).due rs :=
  h.aside rfl rfl rfl

theorem settle_dispose (h : Steady w w.due rs) {data : Option PrivateData} :
    Steady (w.settle (data.toList.map .dispose)) (w.settle (data.toList.map .dispose)).due rs := by
  rw [World.settle_dispose]
  cases data with
  | none => exact h
  | some data =>
      obtain ⟨-, nodes, bindings, inst⟩ := w.alike_disposeData data
      exact h.aside nodes bindings inst

/-! ## Teardown -/

/-- A root that its instance has left is in no place, and the work can begin. -/
theorem unroot (h : Steady w w.due rs) (s : Sound w todo) (calm : ∀ task ∈ todo, task.Calm)
    (hi : w.instances.get? i = some inst) :
    Easing rs (w.modifyInstance i ({ · with root := none })) (inst.uprooting ++ todo) := by
  have roots : ∀ {j x b}, (w.modifyInstance i ({ · with root := none })).instances.get? j = some x →
      x.root = some b → j ≠ i ∧ w.instances.get? j = some x := by
    intro j x b hj root
    rcases Table.get?_of_modify hj with ⟨rfl, y, -, rfl⟩ | ⟨hne, hj⟩
    · cases root
    · exact ⟨hne, hj⟩
  have sound := s.unroot hi
  refine ⟨sound, ?_, fun {b} waits => ?_⟩
  · exact h.shrink s.forest Spared.refl.modifyInstance sound (Nat.le_refl _)
      (fun hj root => ⟨_, (roots hj root).2, root⟩) (fun _ _ _ _ => id)
      fun hb _ => ⟨_, hb, rfl⟩
  · have root : inst.root = some b := by
      rcases waits with mem | mem
      · rcases List.mem_append.1 mem with mem | mem
        · simpa using Instance.mem_uprooting.1 mem
        · exact (calm _ mem).elim
      · rcases List.mem_append.1 mem with mem | mem
        · simpa using Instance.mem_uprooting.1 mem
        · exact (calm _ mem).elim
    rintro (⟨j, x, hj, rooted⟩ | ⟨d, name, entry⟩)
    · obtain ⟨other, hj⟩ := roots hj rooted
      exact other (h.sole hj hi rooted root)
    · have entry : w.child? d name = some b := entry
      cases (h.roots ⟨i, inst, hi, root⟩).symm.trans (s.forest.entry entry).2

theorem setData (h : Steady w w.due rs) {data : Option PrivateData} :
    Steady (w.setData i data) (w.setData i data).due rs := by
  unfold World.setData
  refine (h.modifyInstance ?_).settle_dispose
  exact fun _ _ => rfl

theorem ending (calm : ∀ task ∈ todo, task.Calm) :
    Ending i fun v => Sound v todo ∧ Steady v v.due rs where
  noted _ h := ⟨h.1.note _, h.2.note _⟩
  stripped h := ⟨h.1.setData, h.2.setData⟩
  dissolved hi h := by
    have done := Easing.settling.settle (h.2.unroot h.1 calm hi)
    exact ⟨done.sound, done.steady⟩

theorem deactivate (h : Steady w w.due rs) (s : Sound w todo) (calm : ∀ task ∈ todo, task.Calm) :
    Steady (w.deactivate i) (w.deactivate i).due rs := by
  refine ((ending calm).deactivate ⟨s, h⟩ fun hi => ⟨s.dying hi, h.modifyInstance ?_⟩).2
  exact fun _ _ => rfl

/-- An instance that could not be filled goes. -/
theorem givenUp (h : Steady w w.due rs) (s : Sound w [.letGo (.inst i)]) {type : FilesystemType}
    {cause : Error} : Steady (w.givenUp i type cause) (w.givenUp i type cause).due rs := by
  have calm : ∀ task ∈ [Task.letGo (.inst i)], task.Calm := fun task mem => by
    cases List.mem_singleton.1 mem
    trivial
  exact ((h.note _).deactivate (s.note _) calm).settleAll (s.note _).deactivate calm

/-! ## A root -/

/-- A fresh binding in no place becomes the root of an instance that has none. -/
theorem attach (h : Steady w most rs) (hi : w.instances.get? i = some inst)
    (empty : inst.root = none) (hx : w.bindings.get? b = some y) (parent : w.parentOf b = none)
    (pins : y.pins = 1) (out : ¬ w.Placed b) (hn : w.nodeOf b = some n)
    (fits : ∀ z, w.nodes.get? n = some z → z.links.toNat ≤ most n)
    (apart : ∀ r ∈ rs, r.binding ≠ b) :
    Steady (w.modifyInstance i ({ · with root := some b })) most rs := by
  have roots : ∀ {j x d},
      (w.modifyInstance i ({ · with root := some b })).instances.get? j = some x →
        x.root = some d → (j = i ∧ d = b) ∨ w.instances.get? j = some x := by
    intro j x d hj root
    rcases Table.get?_of_modify hj with ⟨e, z, -, rfl⟩ | ⟨-, hj⟩
    · exact .inl ⟨e, (Option.some.inj root).symm⟩
    · exact .inr hj
  have placed : ∀ {d}, (w.modifyInstance i ({ · with root := some b })).Placed d →
      d = b ∨ w.Placed d :=
    (placed_attach hi empty).1
  have alone : ∀ {j x}, w.instances.get? j = some x → x.root ≠ some b := fun hj root =>
    out (.inl ⟨_, _, hj, root⟩)
  refine ⟨fun {d} root => ?_, fun hj hk rootJ rootK => ?_, fun {d z} hz here => ?_,
    fun {m z} hz seated => ?_, fun r mem => ?_⟩
  · rcases (rooted_attach hi empty).1 root with rfl | root
    · exact parent
    · exact h.roots root
  · rcases roots hj rootJ with ⟨rfl, rfl⟩ | oldJ
    · rcases roots hk rootK with ⟨rfl, -⟩ | oldK
      · rfl
      · exact absurd rootK (alone oldK)
    · rcases roots hk rootK with ⟨-, rfl⟩ | oldK
      · exact absurd rootJ (alone oldJ)
      · exact h.sole oldJ oldK rootJ rootK
  · rcases placed here with rfl | here
    · cases hx.symm.trans hz
      exact pins
    · exact h.pins hz here
  · obtain ⟨d, here, hd, isDir⟩ := seated
    rcases placed here with rfl | here
    · cases hn.symm.trans hd
      exact fits z hz
    · exact h.links hz ⟨d, here, hd, isDir⟩
  · exact (h.gone r mem).frame (Nat.le_refl _) (Nat.le_refl _)
      (fun here => (placed here).resolve_left (apart r mem)) (fun _ => id) (fun _ _ => id)
      fun x hx => ⟨x, hx, rfl, fun _ => id⟩

/-- A root is made for a directory node that no binding stands for yet. -/
theorem withRoot (h : Steady w w.due rs) (s : Sound w todo) {host : Host}
    (acquired : w.host.acquire .binding = (true, host)) (other : ∀ r ∈ rs, r.node ≠ n) :
    Steady (w.withRoot host n) w.due rs ∧ SameShape w (w.withRoot host n) := by
  obtain ⟨pushed, hpushed, rooted, made, given⟩ := SameShape.withRoot (n := n) s acquired
  have hv : Steady pushed w.due rs := by
    rw [hpushed]
    exact h.pushBinding s
  have outV : ¬ pushed.Placed w.bindings.nextId := mt made.placed.1 s.fresh_unplaced
  rw [rooted]
  exact ⟨(hv.adjust outV given fun _ => .inr ⟨rfl, other⟩).adjust (n := n) (mt given.placed.1 outV)
    .pin fun _ => .inl rfl, (made.trans given).trans .pin⟩

theorem sized (h : Steady w w.due rs) : Steady (w.sized i) (w.sized i).due rs := by
  unfold World.sized
  refine h.modifyInstance ?_
  exact fun _ _ => rfl

/-- An instance without a root is filled. The root directory has two links. -/
theorem fillBuiltIn (h : Steady w w.due rs) (s : Sound w todo) (rootless : w.Rootless i)
    (filled : Action.fillBuiltIn i w = .ok () w') : Steady w' w'.due rs := by
  obtain ⟨inst, config, n, v, host, hi, -, made, acquired, rfl⟩ := Action.fillBuiltIn_ok filled
  have sized : Steady (w.sized i) (w.sized i).due rs := h.sized
  have kind := Action.isDirectory_of_newNode made
  obtain ⟨hv, other⟩ := sized.newNode s.sized made
  obtain ⟨sv, -⟩ := s.sized.newNode made
  obtain ⟨hr, rooted⟩ := (hv.of_shape (.newNode s.sized made)).withRoot sv acquired other
  have hy : (v.withRoot host n).bindings.get? v.bindings.nextId = some _ := get?_withRoot
  have node := nodeOf_of_get? hy
  have frame : v.instances = (w.sized i).instances := by
    obtain ⟨-, _, _, _, _, -, rfl, -⟩ := Action.newNode_ok made
    rfl
  obtain ⟨found, hfound⟩ : ∃ found, v.instances.get? i = some found := by
    rw [frame]
    exact Table.has_iff.1 (Table.has_modify.trans (Table.has_of_get? hi))
  have empty : found.root = none := by
    rw [frame, World.sized, World.modifyInstance, Table.get?_modify, if_pos rfl] at hfound
    obtain ⟨y, hy, rfl⟩ := Option.map_eq_some_iff.1 hfound
    exact rootless y hy
  have hfound : (v.withRoot host n).instances.get? i = some found := hfound
  have before : ((v.withRoot host n).instances.get? i).bind (·.root) = none := by
    rw [hfound]
    exact empty
  have out : ¬ (v.withRoot host n).Placed v.bindings.nextId :=
    mt rooted.placed.1 sv.fresh_unplaced
  have parent : (v.withRoot host n).parentOf v.bindings.nextId = none := by
    rw [parentOf_of_get? hy]
    rfl
  have isDir : (v.withRoot host n).isDirectory n = true := by
    have kind : (v.withRoot host n).isDirectory n = v.isDirectory n := rfl
    rw [kind, Action.isDirectory_of_newNode made, Mode.isDirectory_withType_directory]
  have roomy : Steady (v.withRoot host n) (fun m => v.due m + if m = n then 2 else 0) rs :=
    hr.mono fun _ _ => Nat.le_add_right ..
  rw [Action.setRoot_of_none before]
  refine (roomy.attach hfound empty hy parent rfl out node (fun z hz => ?_) fun r mem => ?_).mono
    fun m _ => ?_
  · rw [if_pos rfl]
    exact (Action.links_of_newNode made hz).trans (Nat.le_add_left ..)
  · exact Nat.ne_of_lt (hv.gone r mem).known.1
  · rw [due_attach hfound empty out, own_of_nodeOf node, isDir, if_pos rfl, rooted.due]

theorem fill (h : Steady w w.due rs) (s : Sound w todo) (calm : ∀ task ∈ todo, task.Calm)
    (rootless : w.Rootless i) {filling : Filling} :
    Action.Ends (fun v => Steady v v.due rs) (Action.fill i filling) w := by
  cases filling with
  | noRoot => exact .pure h _
  | failing cause => exact .throw h _
  | freshRoot =>
      refine .mk (fun filled => h.fillBuiltIn s rootless filled) fun {e v} failed => ?_
      have changes : Changes True w v := Changes.refl.fill.error failed
      have next := changes.nodes_kept.next
      have sized : Steady (w.sized i) (w.sized i).due rs := h.sized
      rcases Action.fillBuiltIn_error failed with rfl | ⟨mode, cause, failed⟩ |
        ⟨mode, n, u, host, made, refused, rfl⟩
      · exact h
      · exact sized.unchanged (Action.newNode_clean _ _ failed) next
      · have charged : Steady { u with host } ({ u with host } : World).due rs :=
          ((sized.newNode s.sized made).1.of_shape (.newNode s.sized made)).aside rfl rfl rfl
        obtain ⟨su, -⟩ := s.sized.newNode made
        have waiting : Sound { u with host } ([.letGo (.node n)] ++ todo) :=
          su.onHost fun _ => Host.net_of_refused refused
        refine charged.settle waiting fun task mem => ?_
        rcases List.mem_cons.1 mem with rfl | mem
        · trivial
        · exact calm task mem

end Steady

/-! ## Making an instance -/

/-- The counters are steady, and no work is on the way. -/
structure Poised (rs : List Removed) (w : World) : Prop where
  sound : Sound w []
  steady : Steady w w.due rs

namespace Poised

theorem configuring : Configuring (Poised rs) where
  noted _ p := ⟨p.sound.note _, p.steady.note _⟩
  sourced p := ⟨Sound.configuring.sourced p.sound, p.steady.onContexts⟩
  configured hc hold p := ⟨Sound.configuring.configured hc hold p.sound, p.steady.onContexts⟩
  backed hi hold p := by
    refine ⟨Sound.configuring.backed hi hold p.sound, p.steady.modifyInstance ?_⟩
    exact fun _ _ => rfl

theorem newContext (p : Poised rs w) {type : FilesystemType} :
    Action.Ends (Poised rs) (Action.newContext type) w where
  ok h := by
    refine ⟨p.sound.newContext.ok h, ?_⟩
    obtain ⟨-, ⟨-, rfl⟩ | ⟨-, host, -, rfl⟩⟩ := Action.newContext_ok h
    · exact p.steady.aside rfl rfl rfl
    · exact p.steady.aside rfl rfl rfl
  error {e v} h := by
    have changes : Changes True w v := Changes.refl.newContext.error h
    exact ⟨p.sound.newContext.error h,
      p.steady.unchanged (Action.newContext_clean _ _ h) changes.nodes_kept.next⟩

theorem begun (p : Poised rs w) : Steady (w.begun c x) (w.begun c x).due rs := by
  have made : Steady (w.newInstance x.type x.source x.flags).2
      (w.newInstance x.type x.source x.flags).2.due rs := p.steady.pushInstance rfl
  unfold World.begun
  refine made.onContexts.modifyInstance ?_
  exact fun _ _ => rfl

theorem makeInstance (p : Poised rs w) {filling : Filling} :
    Action.Ends (Poised rs) (Action.makeInstance c filling) w := by
  have calm : ∀ task ∈ [Task.letGo (.inst w.instances.nextId)], task.Calm := fun task mem => by
    cases List.mem_singleton.1 mem
    trivial
  have filled : ∀ {x}, w.contexts.get? c = some x →
      Action.Ends (fun v => Steady v v.due rs) (Action.fill w.instances.nextId filling)
        (w.begun c x) := fun hc => by
    refine p.begun.fill (p.sound.begun hc) calm fun inst hi => ?_
    rw [instances_begun] at hi
    cases hi
    rfl
  refine .mk (fun h => ⟨p.sound.makeInstance.ok h, ?_⟩) fun h => ⟨p.sound.makeInstance.error h, ?_⟩
  · obtain ⟨before, v, hc, done, rfl⟩ := Action.makeInstance_ok h
    obtain ⟨-, contexts, found, hfound, -⟩ := Action.fill_ok instances_begun rfl done
    have here : v.contexts.get? c = some { before with data := none } := by
      rw [contexts]
      exact contexts_begun hc
    have root : ({ before with data := none } : Context).root = before.root := rfl
    have sound := ((p.sound.begun hc).fill.ok done).claim here root rfl (Table.has_of_get? hfound)
    rw [List.append_nil] at sound
    refine Steady.settleAll (((filled hc).ok done).onContexts) sound fun task mem => ?_
    rcases List.mem_append.1 mem with mem | mem
    · obtain ⟨_, -, rfl⟩ := List.mem_map.1 mem
      trivial
    · obtain ⟨_, -, rfl⟩ := List.mem_map.1 mem
      trivial
  · rcases Action.makeInstance_error h with ⟨-, rfl⟩ | ⟨before, v, hc, failed, rfl⟩
    · exact p.steady
    · exact ((filled hc).error failed).givenUp ((p.sound.begun hc).fill.error failed)

theorem makeTree (p : Poised rs w) : Action.Ends (Poised rs) (Action.makeTree c) w :=
  .makeTree p (fun _ _ => p.makeInstance) configuring.noted

/-! ## The end of a context -/

theorem takeInstance (p : Poised rs w) : Poised rs (w.takeInstance c).2 := by
  refine ⟨p.sound.takeInstance, ?_⟩
  unfold World.takeInstance
  cases hc : w.contexts.get? c with
  | none => exact p.steady
  | some x =>
      refine Steady.settleAll ?_ (p.sound.handOut hc) fun task mem => ?_
      · cases x.made with
        | none => exact p.steady.onContexts
        | some i => exact p.steady.aside rfl rfl rfl
      · obtain ⟨_, -, rfl⟩ := List.mem_map.1 mem
        trivial

theorem freeData (p : Poised rs w) : Poised rs (w.freeData c) := by
  refine ⟨p.sound.freeData, ?_⟩
  unfold World.freeData
  cases w.contexts.get? c with
  | none => exact p.steady
  | some x =>
      simp only
      split
      · cases x.data with
        | none => exact p.steady
        | some data =>
            have freed : Steady (((w.note .configUnused).modifyContext c
                ({ · with data := none })).settle ((some data).toList.map .dispose)) _ rs :=
              (p.steady.note _).onContexts.settle_dispose
            exact freed
      · exact p.steady

/-- The instance of a context is torn down and let go of. -/
theorem dropMade (p : Poised rs w) (hc : w.contexts.get? c = some x) (made : x.made = some i) :
    Poised rs (w.withoutInstance c x i) := by
  have unshared := p.sound.unshare hc
  have released : Steady ((w.modifyContext c ({ · with root := none })).settle
      (x.root.toList.map fun b => .letGo (.binding b)))
      ((w.modifyContext c ({ · with root := none })).settle
        (x.root.toList.map fun b => .letGo (.binding b))).due rs := by
    refine p.steady.onContexts.settle unshared fun task mem => ?_
    rw [List.append_nil] at mem
    obtain ⟨_, -, rfl⟩ := List.mem_map.1 mem
    trivial
  have torn := released.deactivate (i := i) (Sound.settle unshared) fun _ mem => nomatch mem
  have left := (Sound.settle unshared).deactivate (i := i)
    |>.unclaim (Sound.contexts_unshared hc) rfl made
  refine ⟨(p.sound.dropMade hc made).1, Steady.settleAll torn.onContexts left fun task mem => ?_⟩
  cases List.mem_singleton.1 mem
  trivial

/-- A context without an instance ends. -/
theorem eraseContext (p : Poised rs w) (hc : w.contexts.get? c = some x) (made : x.made = none) :
    Poised rs (World.settle { w with contexts := w.contexts.erase c }
      (x.data.toList.map Task.dispose ++ x.root.toList.map fun b => .letGo (.binding b))) := by
  have left := p.sound.eraseContext hc made
  rw [List.append_nil] at left
  refine ⟨Sound.settleAll left, Steady.settleAll p.steady.onContexts left fun task mem => ?_⟩
  rcases List.mem_append.1 mem with mem | mem
  · obtain ⟨_, -, rfl⟩ := List.mem_map.1 mem
    trivial
  · obtain ⟨_, -, rfl⟩ := List.mem_map.1 mem
    trivial

theorem dropContext (p : Poised rs w) : Poised rs (w.dropContext c) := by
  unfold World.dropContext
  simp only
  have freed := p.freeData (c := c)
  generalize w.freeData c = v at *
  cases hc : v.contexts.get? c with
  | none => exact freed
  | some x =>
      cases made : x.made with
      | none =>
          have ended := freed.eraseContext hc made
          simp only [made, hc, Option.toList_some, List.flatMap_cons, List.flatMap_nil,
            List.append_nil]
          exact ended
      | some i =>
          have dropped := freed.dropMade hc made
          have hc₂ := (freed.sound.dropMade hc made).2
          have ended := dropped.eraseContext hc₂ rfl
          unfold World.withoutInstance at ended hc₂
          simp only [made, hc₂, Option.toList_some, List.flatMap_cons, List.flatMap_nil,
            List.append_nil]
          exact ended

/-! ## Calls -/

theorem mount (p : Poised rs w) {name options : String} :
    Action.Ends (Poised rs) (Action.mount name options) w :=
  .mount p fun _ _ => .mountType p.newContext (fun p => configuring.applyOptions p)
    (fun p => p.makeTree) (fun p => p.takeInstance) (fun p => ⟨p.sound.note _, p.steady.note _⟩)
    fun p => p.dropContext

end Poised

/-- Does the operation succeed? -/
def Operation.succeeds (op : Operation) (w : World) : Bool :=
  match op.act w with
  | .ok _ _ => true
  | .error _ _ => false

/-- No name comes into the directory. -/
def Call.LeavesAlone (w : World) (b : BindingId) : Call → Prop
  | .operate op => op.target? = some b → op.succeeds w = false
  | _ => True

/-- No name comes into the directory all the way. -/
def World.LeavesAlone (b : BindingId) : World → List Call → Prop
  | _, [] => True
  | w, call :: rest => call.LeavesAlone w b ∧ (w.after call).LeavesAlone b rest

theorem Operation.succeeds_of_ok {op : Operation} {u : Unit} (h : op.act w = .ok u v) :
    op.succeeds w = true := by
  unfold succeeds
  rw [h]

theorem Operation.act_of_succeeds {op : Operation} (h : op.succeeds w = true) :
    op.act w = .ok () (w.after (.operate op)) := by
  unfold succeeds at h
  cases done : op.act w with
  | ok u v =>
      have into : w.after (.operate op) = op.act.into w := rfl
      rw [into, Action.into, done]
  | error e v =>
      rw [done] at h
      cases h

theorem Poised.after (p : Poised rs w) {call : Call}
    (left : ∀ r ∈ rs, r.alone → call.LeavesAlone w r.binding) : Poised rs (w.after call) := by
  refine ⟨p.sound.after call, ?_⟩
  have h := p.steady
  cases call with
  | operate op =>
      refine (Action.Ends.mk (P := fun v => Steady v v.due rs) (fun done => ?_)
        fun failed => h.refused p.sound failed).into
      refine h.operate p.sound (fun dir mem r hr alone e => ?_) (List.forall_mem_nil _) done
      have failed := left r hr alone (e ▸ Option.mem_def.1 mem)
      cases failed.symm.trans (Operation.succeeds_of_ok done)
  | closeFile f =>
      exact (Action.Ends.mk (P := fun v => Steady v v.due rs) (fun done => h.closeFile p.sound done)
        (fun done => absurd done Action.modify_eq_error)).into
  | hold ref =>
      unfold World.after
      simp only
      split
      · exact h.aside rfl rfl rfl
      · exact h
  | drop ref => exact h.drop p.sound
  | register type =>
      exact (Poised.configuring.register p fun p =>
        ⟨p.sound.registered _, p.steady.aside rfl rfl rfl⟩).into.steady
  | unregister name =>
      exact (Poised.configuring.unregister p fun p =>
        ⟨p.sound.registered _, p.steady.aside rfl rfl rfl⟩).into.steady
  | mount name options => exact p.mount.into.steady
  | newContext type => exact p.newContext.into.steady
  | applyParameter c param => exact (Poised.configuring.applyParameter p).into.steady
  | makeTree c => exact p.makeTree.into.steady
  | takeInstance c => exact p.takeInstance.steady
  | dropContext c => exact p.dropContext.steady
  | attachToContext c sort device => exact (Poised.configuring.attachToContext p).into.steady
  | attachToInstance i sort device => exact (Poised.configuring.attachToInstance p).into.steady
  | deactivate i => exact h.deactivate p.sound fun _ mem => nomatch mem
  | setBudget kind budget => exact h.aside rfl rfl rfl
  | setCredentials uid gid => exact h.aside rfl rfl rfl
  | setClock clock => exact h.aside rfl rfl rfl
  | resetIno ino => exact h.aside rfl rfl rfl

/-- Nothing is in a fresh world. -/
theorem Poised.fresh {clock : Clock} : Poised [] (World.fresh clock) where
  sound := .fresh
  steady := {
    roots := fun ⟨_, _, h, _⟩ => by simp [World.fresh] at h
    sole := fun h => by simp [World.fresh] at h
    pins := fun h => by simp [World.fresh] at h
    links := fun h => by simp [World.fresh] at h
    gone := List.forall_mem_nil _ }

/-- The directories that were removed stay removed, whatever is called later. -/
theorem Poised.run {calls : List Call} (p : Poised rs w)
    (left : ∀ r ∈ rs, r.alone → w.LeavesAlone r.binding calls) : Poised rs (w.run calls) := by
  induction calls generalizing w with
  | nil => exact p
  | cons call rest ih =>
      rw [run_cons]
      exact ih (p.after fun r mem alone => (left r mem alone).1) fun r mem alone =>
        (left r mem alone).2

end Memfs
