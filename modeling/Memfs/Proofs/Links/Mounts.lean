import Memfs.Proofs.Links.Files

/-!
# Counters that show what is due: mounts

A root directory has two links and a pin, like every binding in place, and it is in
place from the moment when it is given to its instance. An instance that cannot be
filled has no root yet, so giving it up takes no tree apart.
-/

namespace Memfs

open World

variable {w w' v : World} {todo : List Task} {i : InstanceId} {c : ContextId} {b d : BindingId}
  {n m : NodeId} {inst : Instance} {x : Context}

namespace World

/-! ## Instances without a root -/

/-- No tree hangs from the instance. -/
def Rootless (w : World) (i : InstanceId) : Prop :=
  ∀ inst, w.instances.get? i = some inst → inst.root = none

theorem SameShape.modifyInstance {g : Instance → Instance}
    (same : ∀ inst, w.instances.get? i = some inst → (g inst).root = inst.root) :
    SameShape w (w.modifyInstance i g) where
  rooted b := by
    constructor
    · rintro ⟨j, y, hy, root⟩
      rcases Table.get?_of_modify hy with ⟨rfl, z, hz, rfl⟩ | ⟨-, hy⟩
      · exact ⟨_, z, hz, (same z hz).symm.trans root⟩
      · exact ⟨j, y, hy, root⟩
    · rintro ⟨j, y, hy, root⟩
      by_cases e : j = i
      · subst e
        refine ⟨j, g y, (Table.get?_modify ..).trans ?_, (same y hy).trans root⟩
        rw [if_pos rfl, hy]
        rfl
      · exact ⟨j, y, (Table.get?_modify ..).trans (by rw [if_neg e, hy]), root⟩
  entered _ _ := Iff.rfl
  node _ _ := rfl
  directory _ _ _ _ := rfl
  parentless _ _ h := h

theorem SameShape.pushInstance (rootless : inst.root = none) :
    SameShape w { w with instances := w.instances.push inst } where
  rooted b := by
    constructor
    · rintro ⟨j, y, hy, root⟩
      rcases Table.get?_of_push hy with ⟨-, rfl⟩ | ⟨-, hy⟩
      · cases rootless.symm.trans root
      · exact ⟨j, y, hy, root⟩
    · rintro ⟨j, y, hy, root⟩
      exact ⟨j, y, Table.get?_push_of_some hy, root⟩
  entered _ _ := Iff.rfl
  node _ _ := rfl
  directory _ _ _ _ := rfl
  parentless _ _ h := h

/-! ## A root -/

theorem rooted_attach (hi : w.instances.get? i = some inst) (empty : inst.root = none) :
    (w.modifyInstance i ({ · with root := some b })).Rooted d ↔ d = b ∨ w.Rooted d := by
  constructor
  · rintro ⟨j, y, hy, root⟩
    rcases Table.get?_of_modify hy with ⟨rfl, z, hz, rfl⟩ | ⟨-, hy⟩
    · exact .inl (Option.some.inj root).symm
    · exact .inr ⟨j, y, hy, root⟩
  · rintro (rfl | ⟨j, y, hy, root⟩)
    · exact ⟨i, _, (Table.get?_modify ..).trans (by rw [if_pos rfl, hi]; rfl), rfl⟩
    · refine ⟨j, y, (Table.get?_modify ..).trans ?_, root⟩
      rw [if_neg, hy]
      rintro rfl
      cases hi.symm.trans hy
      cases empty.symm.trans root

theorem placed_attach (hi : w.instances.get? i = some inst) (empty : inst.root = none) :
    (w.modifyInstance i ({ · with root := some b })).Placed d ↔ d = b ∨ w.Placed d := by
  unfold Placed
  rw [rooted_attach hi empty, or_assoc]
  rfl

theorem due_attach (hi : w.instances.get? i = some inst) (empty : inst.root = none)
    (out : ¬ w.Placed b) :
    (w.modifyInstance i ({ · with root := some b })).due n = w.due n + w.own b n := by
  have change : (w.modifyInstance i ({ · with root := some b })).due n + w.share n b
      = w.due n + (w.modifyInstance i ({ · with root := some b })).share n b := by
    refine due_change b fun c hne => ?_
    refine share_congr ?_ (fun _ => Iff.rfl) (fun _ => rfl) fun _ _ => rfl
    rw [placed_attach hi empty, or_iff_right hne]
  rw [share_of_not_placed out, share_of_out ((placed_attach hi empty).2 (.inl rfl))
    fun d entered => out (.inr ⟨d, entered⟩)] at change
  exact change

end World

/-- The binding of a root is made, gets its node and is pinned, and is in no place yet. -/
theorem World.SameShape.withRoot {host : Host} (s : Sound w todo)
    (acquired : w.host.acquire .binding = (true, host)) : ∃ pushed : World,
      pushed = { w with host, bindings := w.bindings.push { name := rootName, parent := none } } ∧
      w.withRoot host n = (pushed.modifyBinding w.bindings.nextId
        ({ · with node := some n })).pin w.bindings.nextId ∧
      SameShape w pushed ∧
      SameShape pushed (pushed.modifyBinding w.bindings.nextId ({ · with node := some n })) := by
  obtain ⟨pushed, hpushed⟩ : ∃ pushed : World, pushed
      = { w with host, bindings := w.bindings.push { name := rootName, parent := none } } := ⟨_, rfl⟩
  have sound : Sound pushed (.letGo (.binding w.bindings.nextId) :: todo) := by
    rw [hpushed]
    exact s.pushBinding acquired nofun
  have made : SameShape w pushed := by
    rw [hpushed]
    exact .pushBinding s
  have hx : pushed.bindings.get? w.bindings.nextId
      = some { name := rootName, parent := none } := by
    rw [hpushed]
    exact Table.get?_push_self
  have unused : ¬ pushed.InUse w.bindings.nextId :=
    not_inUse_of_negative sound.forest (mt made.placed.1 s.fresh_unplaced) (nodeOf_of_get? hx)
  refine ⟨pushed, hpushed, ?_, made, .setNode hx rfl rfl unused⟩
  rw [hpushed]
  rfl

/-- A root comes to its instance, with a node that has no other binding. -/
theorem Showing.setRoot {l : NodeId → Int} {host : Host} (h : Showing w v l) (u : w.Upheld [])
    (s : Sound v todo) (acquired : v.host.acquire .binding = (true, host))
    (hi : v.instances.get? i = some inst) (empty : inst.root = none) :
    Reshaped w ((v.withRoot host n).setRoot i v.bindings.nextId) l fun m =>
      if m = n then if v.isDirectory n then 2 else 1 else 0 := by
  have out : ¬ v.Placed v.bindings.nextId := s.fresh_unplaced
  have before : ((v.withRoot host n).instances.get? i).bind (·.root) = none := by
    show (v.instances.get? i).bind _ = none
    rw [hi]
    exact empty
  rw [Action.setRoot_of_none before]
  obtain ⟨pushed, hpushed, rooted, made, given⟩ := SameShape.withRoot (n := n) s acquired
  have shape : SameShape w (v.withRoot host n) := by
    rw [rooted]
    exact ((h.shape.trans made).trans given).trans .pin
  have counters : Counters pushed l w.Placed := by
    rw [hpushed]
    exact h.counters.pushBinding (Host.alike_of_acquire acquired) (mt h.shape.placed.2 out)
  have counters : Counters (v.withRoot host n) l fun d => d = v.bindings.nextId ∨ w.Placed d := by
    rw [rooted]
    refine (counters.modifyBinding ?_).pin (mt h.shape.placed.2 out)
    exact fun _ => rfl
  have node : (v.withRoot host n).nodeOf v.bindings.nextId = some n := nodeOf_of_get? get?_withRoot
  have parent : (v.withRoot host n).parentOf v.bindings.nextId = none := by
    rw [parentOf_of_get? get?_withRoot]
    rfl
  have hi : (v.withRoot host n).instances.get? i = some inst := hi
  have upheld := shape.upheld u
  refine ⟨⟨⟨counters.links, fun hb placed => counters.pinned hb ?_, fun hb out =>
    counters.unpinned hb fun placed => out ?_, counters.quiet⟩, .refl⟩, ⟨fun entered => ?_,
    fun root => ?_⟩, fun m => ?_⟩
  · exact ((placed_attach hi empty).1 placed).imp id shape.placed.1
  · exact (placed_attach hi empty).2 (placed.imp id shape.placed.2)
  · exact (upheld.entered entered).imp (fun placed => (placed_attach hi empty).2 (.inr placed)) id
  · rcases (rooted_attach hi empty).1 root with rfl | root
    · exact parent
    · exact upheld.roots root
  · have out : ¬ (v.withRoot host n).Placed v.bindings.nextId := fun placed =>
      out (h.shape.placed.2 (shape.placed.1 placed))
    rw [due_attach hi empty out, shape.due, own_of_nodeOf node]
    push_cast
    rfl

namespace Exact

theorem onContexts (x : Exact w) {contexts : Table Context} : Exact { w with contexts } :=
  x.of_tables rfl rfl rfl rfl

theorem modifyInstance (x : Exact w) {g : Instance → Instance}
    (same : ∀ inst, w.instances.get? i = some inst → (g inst).root = inst.root) :
    Exact (w.modifyInstance i g) :=
  x.of_shape (.modifyInstance same)
    ⟨x.counters.links, x.counters.pinned, x.counters.unpinned, x.counters.quiet⟩

theorem disposeData (x : Exact w) {data : PrivateData} : Exact (w.disposeData data) := by
  obtain ⟨alike, nodes, bindings, inst⟩ := w.alike_disposeData data
  exact x.of_tables nodes bindings inst alike.misses

theorem settle_dispose (x : Exact w) {data : Option PrivateData} :
    Exact (w.settle (data.toList.map .dispose)) := by
  rw [World.settle_dispose]
  cases data with
  | none => exact x
  | some data => exact x.disposeData

theorem configuring : Configuring Exact where
  noted calm x := x.note calm.counted
  sourced x := x.onContexts
  configured _ _ x := x.onContexts
  backed _ _ x := by
    refine x.modifyInstance ?_
    exact fun _ _ => rfl

end Exact

/-! ## Giving up -/

/-- The counters are exact, and no tree hangs from the instance. -/
structure Barren (w : World) (i : InstanceId) : Prop where
  exact : Exact w
  rootless : w.Rootless i

namespace Barren

theorem note (h : Barren w i) {notice : Notice} (calm : notice.atZero = false) :
    Barren (w.note notice) i :=
  ⟨h.exact.note calm, h.rootless⟩

theorem modify (h : Barren w i) {g : Instance → Instance}
    (hg : ∀ inst, inst.root = none → (g inst).root = none) : Barren (w.modifyInstance i g) i where
  exact := h.exact.modifyInstance fun inst hi =>
    (hg inst (h.rootless inst hi)).trans (h.rootless inst hi).symm
  rootless inst hi := by
    rw [World.modifyInstance, Table.get?_modify, if_pos rfl] at hi
    obtain ⟨y, hy, rfl⟩ := Option.map_eq_some_iff.1 hi
    exact hg y (h.rootless y hy)

theorem settle_dispose (h : Barren w i) {data : Option PrivateData} :
    Barren (w.settle (data.toList.map .dispose)) i where
  exact := h.exact.settle_dispose
  rootless inst hi := h.rootless inst (mountsKept_settle.instances _ _ hi)

theorem setData (h : Barren w i) {data : Option PrivateData} : Barren (w.setData i data) i := by
  unfold World.setData
  refine (h.modify ?_).settle_dispose
  exact fun _ rootless => rootless

theorem ending : Ending i (Barren · i) where
  noted calm h := h.note calm.counted
  stripped h := h.setData
  dissolved {w inst} hi h := by
    unfold Instance.uprooting
    rw [h.rootless inst hi, Option.toList_none, List.flatMap_nil, settle_nil]
    refine h.modify ?_
    exact fun _ _ => rfl

theorem deactivate (h : Barren w i) : Barren (w.deactivate i) i := by
  refine ending.deactivate h fun _ => h.modify ?_
  exact fun _ rootless => rootless

/-- An instance without a tree is torn down and let go of. -/
theorem givenUp (h : Barren w i) (s : Sound w [.letGo (.inst i)]) {type : FilesystemType}
    {cause : Error} : Exact (w.givenUp i type cause) := by
  have noted : Barren (w.note (.fillFailed type.name cause)) i := h.note rfl
  have torn := noted.deactivate
  refine torn.exact.settleAll (s.note _).deactivate fun task mem => ?_
  cases List.mem_singleton.1 mem
  exact ⟨trivial, fun e hi => by cases e; exact torn.rootless _ hi⟩

end Barren

/-! ## Making an instance -/

namespace Barren

theorem begun (x : Exact w) {before : Context} :
    Barren (w.begun c before) w.instances.nextId := by
  have pushed : Exact (w.newInstance before.type before.source before.flags).2 :=
    x.of_shape (.pushInstance rfl)
      ⟨x.counters.links, x.counters.pinned, x.counters.unpinned, x.counters.quiet⟩
  have fresh : Barren ((w.newInstance before.type before.source before.flags).2.modifyContext c
      ({ · with data := none })) w.instances.nextId := by
    refine ⟨pushed.onContexts, fun inst hi => ?_⟩
    have hi : (w.instances.push _).get? w.instances.nextId = some inst := hi
    rw [Table.get?_push_self] at hi
    cases hi
    rfl
  unfold World.begun
  refine fresh.modify ?_
  exact fun _ rootless => rootless

theorem sized (h : Barren w i) : Barren (w.sized i) i := by
  unfold World.sized
  refine h.modify ?_
  exact fun _ rootless => rootless

theorem unchanged (h : Barren w i) (u : Unchanged w w') : Barren w' i where
  exact := h.exact.unchanged u
  rootless inst hi := h.rootless inst ((u.instances i).symm.trans hi)

/-- An instance that was filled has a root, which counts. -/
theorem fillBuiltIn (h : Barren w i) (s : Sound w todo)
    (filled : Action.fillBuiltIn i w = .ok () w') : Exact w' := by
  obtain ⟨inst, config, n, v, host, hi, -, made, acquired, rfl⟩ := Action.fillBuiltIn_ok filled
  have showing := (Showing.start h.sized.exact).newNode s.sized made
  obtain ⟨sv, -⟩ := s.sized.newNode made
  have frame : v.instances = (w.sized i).instances := by
    obtain ⟨-, _, _, _, _, -, rfl, -⟩ := Action.newNode_ok made
    rfl
  obtain ⟨found, hfound⟩ : ∃ found, (w.sized i).instances.get? i = some found :=
    Table.has_iff.1 (Table.has_modify.trans (Table.has_of_get? hi))
  have reshaped := showing.setRoot (n := n) h.sized.exact.upheld sv acquired
    ((congrArg (Table.get? · i) frame).trans hfound) (h.sized.rootless found hfound)
  refine reshaped.exact fun m => ?_
  rw [Action.isDirectory_of_newNode made, Mode.isDirectory_withType_directory]

theorem notFilled (h : Barren w i) (s : Sound w todo) {e : Error}
    (failed : Action.fillBuiltIn i w = .error e w') :
    Barren w' i ∧ ∀ c, w'.contexts.get? c = w.contexts.get? c := by
  rcases Action.fillBuiltIn_error failed with rfl | ⟨mode, cause, failed⟩ |
    ⟨mode, n, v, host, made, refused, rfl⟩
  · exact ⟨h, fun _ => rfl⟩
  · have u := Action.newNode_clean _ _ failed
    exact ⟨h.sized.unchanged u, u.contexts⟩
  · obtain ⟨rfl, _, _, _, _, -, rfl, alike, net⟩ := Action.newNode_ok made
    have u : Unchanged (w.sized i) _ := .letGo_node s.sized.tended alike net ?_
      (.of_host (Host.alike_of_acquire refused) fun _ => Host.net_of_refused refused)
    · exact ⟨h.sized.unchanged u, u.contexts⟩
    · rfl

end Barren

/-! ## Contexts -/

/-- The context has no instance that would have to go with it. -/
def World.Unmade (w : World) (c : ContextId) : Prop :=
  ∀ x, w.contexts.get? c = some x → x.made = none ∧ x.root = none

theorem World.Unmade.modifyContext (h : w.Unmade c) {g : Context → Context} {d : ContextId}
    (hg : ∀ x, x.made = none ∧ x.root = none → (g x).made = none ∧ (g x).root = none) :
    (w.modifyContext d g).Unmade c := by
  intro x hx
  rcases Table.get?_of_modify hx with ⟨-, y, hy, rfl⟩ | ⟨-, hx⟩
  · exact hg y (h y hy)
  · exact h x hx

/-- A mount in the making, before its instance is made. -/
structure Pending (w : World) (c : ContextId) : Prop where
  exact : Exact w
  sound : Sound w []
  unmade : w.Unmade c
  type : ∀ x, w.contexts.get? c = some x → x.type = builtInType

namespace Pending

theorem modifyContext (p : Pending w c) {g : Context → Context} (s : Sound (w.modifyContext d g) [])
    (hg : ∀ x, (g x).type = x.type ∧ (g x).made = x.made ∧ (g x).root = x.root) :
    Pending (w.modifyContext d g) c where
  exact := p.exact.onContexts
  sound := s
  unmade := p.unmade.modifyContext fun x none => by
    rw [(hg x).2.1, (hg x).2.2]
    exact none
  type x hx := by
    rcases Table.get?_of_modify hx with ⟨-, y, hy, rfl⟩ | ⟨-, hx⟩
    · exact (hg y).1.trans (p.type y hy)
    · exact p.type x hx

theorem configuring : Configuring (Pending · c) where
  noted calm p := ⟨p.exact.note calm.counted, p.sound.note _, p.unmade, p.type⟩
  sourced p := by
    refine p.modifyContext (Sound.configuring.sourced p.sound) ?_
    exact fun _ => ⟨rfl, rfl, rfl⟩
  configured hc hold p := by
    refine p.modifyContext (Sound.configuring.configured hc hold p.sound) ?_
    exact fun _ => ⟨rfl, rfl, rfl⟩
  backed hi hold p := ⟨Exact.configuring.backed hi hold p.exact,
    Sound.configuring.backed hi hold p.sound, p.unmade, p.type⟩

theorem newContext (x : Exact w) (s : Sound w [])
    (h : Action.newContext builtInType w = .ok c w') : Pending w' c := by
  have sound := s.newContext.ok h
  obtain ⟨rfl, ⟨plain, -⟩ | ⟨-, host, acquired, rfl⟩⟩ := Action.newContext_ok h
  · cases plain
  · refine ⟨x.of_tables rfl rfl rfl (Host.alike_of_acquire acquired).misses, sound, fun y hy => ?_,
      fun y hy => ?_⟩
    · simp only [Table.get?_push_self] at hy
      cases hy
      exact ⟨rfl, rfl⟩
    · simp only [Table.get?_push_self] at hy
      cases hy
      rfl

/-- The context has its instance, and the instance has a root. -/
theorem makeInstance_ok (p : Pending w c) {u : Unit}
    (h : Action.makeInstance c .freshRoot w = .ok u w') :
    Exact w' ∧ ∃ x, w'.contexts.get? c = some x ∧ x.root.isSome = true := by
  obtain ⟨before, v, hc, filled, rfl⟩ := Action.makeInstance_ok h
  obtain ⟨unmade, unrooted⟩ := p.unmade before hc
  obtain ⟨-, contexts, found, hfound, -, -, -, rooted, -⟩ :=
    Action.fill_ok instances_begun rfl filled
  have barren : Barren (w.begun c before) w.instances.nextId := .begun p.exact
  have counted := barren.fillBuiltIn (p.sound.begun hc) filled
  have here : v.contexts.get? c = some { before with data := none } := by
    rw [contexts]
    exact contexts_begun hc
  unfold World.made
  simp only [unmade, unrooted, Option.toList_none, List.map_nil, List.append_nil, settle_nil]
  refine ⟨counted.onContexts, _, (Table.get?_modify ..).trans (by rw [if_pos rfl, here]; rfl), ?_⟩
  rw [hfound]
  exact rooted rfl

theorem makeInstance_error (p : Pending w c) {e : Error}
    (h : Action.makeInstance c .freshRoot w = .error e w') : Exact w' ∧ w'.Unmade c := by
  rcases Action.makeInstance_error h with ⟨-, rfl⟩ | ⟨before, v, hc, failed, rfl⟩
  · exact ⟨p.exact, p.unmade⟩
  · have sound := p.sound.begun hc
    have barren : Barren (w.begun c before) w.instances.nextId := .begun p.exact
    obtain ⟨barren, contexts⟩ := barren.notFilled sound failed
    refine ⟨barren.givenUp (sound.fill.error failed), fun x hx => ?_⟩
    unfold World.givenUp at hx
    rw [contexts_settle, contexts_deactivate] at hx
    have begun : (w.begun c before).Unmade c := p.unmade.modifyContext fun _ none => none
    exact begun x ((contexts c).symm.trans hx)

end Pending

/-! ## The end of a context -/

/-- The instance is handed out, and the context has none any more. -/
theorem Exact.takeInstance (x : Exact w) (s : Sound w []) :
    Exact (w.takeInstance c).2 ∧ (w.takeInstance c).2.Unmade c := by
  unfold World.takeInstance
  cases hc : w.contexts.get? c with
  | none => exact ⟨x, fun y hy => nomatch hc.symm.trans hy⟩
  | some y =>
      have emptied : ∀ z, (w.modifyContext c ({ · with root := none, made := none })).contexts.get? c
          = some z → z.made = none ∧ z.root = none := fun z hz => by
        rw [World.modifyContext, Table.get?_modify, if_pos rfl] at hz
        obtain ⟨_, -, rfl⟩ := Option.map_eq_some_iff.1 hz
        exact ⟨rfl, rfl⟩
      refine ⟨settleAll ?_ (s.handOut hc) fun task mem => ?_, fun z hz => ?_⟩
      · cases y.made with
        | none => exact x.onContexts
        | some i => exact x.onContexts.onHeld
      · obtain ⟨b, -, rfl⟩ := List.mem_map.1 mem
        exact .binding
      · rw [contexts_settle] at hz
        cases hmade : y.made with
        | none =>
            rw [hmade] at hz
            exact emptied z hz
        | some i =>
            rw [hmade] at hz
            exact emptied z hz

theorem Exact.freeData (x : Exact w) (unmade : w.Unmade c) :
    Exact (w.freeData c) ∧ (w.freeData c).Unmade c := by
  unfold World.freeData
  cases w.contexts.get? c with
  | none => exact ⟨x, unmade⟩
  | some y =>
      simp only
      split
      · cases y.data with
        | none => exact ⟨x, unmade⟩
        | some data =>
            have freed : Exact (((w.note .configUnused).modifyContext c
                ({ · with data := none })).settle ((some data).toList.map .dispose)) :=
              (x.note rfl).onContexts.settle_dispose
            refine ⟨freed, fun z hz => ?_⟩
            rw [contexts_settle] at hz
            have emptied : ((w.note .configUnused).modifyContext c ({ · with data := none })).Unmade
                c := World.Unmade.modifyContext unmade fun _ none => none
            exact emptied z hz
      · exact ⟨x, unmade⟩

/-- The context ends, and there is no instance that would have to go with it. -/
theorem Exact.dropContext (x : Exact w) (unmade : w.Unmade c) : Exact (w.dropContext c) := by
  obtain ⟨x, unmade⟩ := x.freeData unmade
  unfold World.dropContext
  simp only
  generalize w.freeData c = v at *
  cases hc : v.contexts.get? c with
  | none => exact x
  | some y =>
      obtain ⟨made, root⟩ := unmade y hc
      simp only [made, root, hc, Option.toList_some, Option.toList_none, List.flatMap_cons,
        List.flatMap_nil, List.map_nil, List.append_nil]
      exact x.onContexts.settle_dispose

/-! ## Mounts -/

/-- The built-in type fills an instance with a root. -/
theorem Pending.filling (p : Pending w c) (hc : w.contexts.get? c = some x) {ops : ContextOps}
    (h : x.type.ops = some ops) : ops.filling = .freshRoot := by
  rw [p.type x hc] at h
  cases h
  rfl

theorem Pending.makeTree_ok (p : Pending w c) {u : Unit}
    (h : Action.makeTree c w = .ok u w') : Exact w' := by
  simp only [Action.makeTree, Action.bind_eq_ok, Action.context_eq_ok, Action.ite_eq_ok,
    Action.require_eq_ok, Action.throw_eq_ok, false_and, exists_false, and_false, false_or,
    Action.pure_eq_ok] at h
  obtain ⟨before, _, ⟨hc, rfl⟩, -, ops, _, ⟨hops, rfl⟩, _, v, made, after, _, ⟨-, rfl⟩, -, -, rfl⟩
    := h
  rw [p.filling hc hops] at made
  exact (p.makeInstance_ok made).1

/-- A mount that fails has no instance to tear down. -/
theorem Pending.makeTree_error (p : Pending w c) {e : Error}
    (h : Action.makeTree c w = .error e w') : Exact w' ∧ w'.Unmade c := by
  have same : Exact w ∧ w.Unmade c := ⟨p.exact, p.unmade⟩
  rcases Action.bind_eq_error.1 h with h | ⟨before, _, found, h⟩
  · rw [(Action.reads_context c).error h]
    exact same
  obtain ⟨hc, rfl⟩ := Action.context_eq_ok.1 found
  simp [Action.bind_eq_error, Action.ite_eq_error] at h
  rcases h with ⟨-, -, rfl⟩ | ⟨-, ⟨-, -, rfl⟩ | ⟨ops, hops, failed | ⟨_, v, made, after⟩⟩⟩
  · exact same
  · exact same
  · rw [p.filling hc hops] at failed
    exact p.makeInstance_error failed
  · -- the instance was made, so the context has a root
    rw [p.filling hc hops] at made
    obtain ⟨-, y, hy, root⟩ := p.makeInstance_ok made
    rcases after with failed | ⟨z, hz, none, -⟩
    · rw [Action.context_eq_ok.2 ⟨hy, rfl⟩] at failed
      cases failed
    · cases hy.symm.trans hz
      rw [none] at root
      cases root

theorem Exact.mountType (x : Exact w) (s : Sound w []) {options : String}
    {notice : InstanceId → World → Notice} (calm : ∀ i v, (notice i v).atZero = false) :
    Action.Ends Exact
      (Action.mountType builtInType options fun i v => v.note (notice i v)) w := by
  refine .mountType_seq (M := fun c v => Exact v ∧ v.Unmade c)
    (fun failed => x.unchanged (Action.newContext_clean _ _ failed)) (fun {c v} opened => ?_)
    (fun ⟨x, unmade⟩ => ⟨x.note (calm _ _), unmade⟩) fun ⟨x, unmade⟩ => x.dropContext unmade
  have applied : Action.Ends (Pending · c) (Action.applyOptions c options) v :=
    Pending.configuring.applyOptions (Pending.newContext x s opened)
  refine .seq (fun _ _ failed => ?_) fun _ v done => ?_
  · have p := applied.error failed
    exact ⟨p.exact, p.unmade⟩
  · have p := applied.ok done
    exact .seq (fun _ _ failed => p.makeTree_error failed) fun _ v made =>
      .total ((p.makeTree_ok made).takeInstance (p.sound.makeTree.ok made))

theorem Exact.mount (x : Exact w) (s : Sound w []) (types : ∀ t ∈ w.types, t = builtInType)
    {name options : String} : Action.Ends Exact (Action.mount name options) w := by
  refine .mount x fun type found => ?_
  rw [types type (List.mem_of_find?_eq_some found)]
  exact x.mountType s fun _ _ => rfl

end Memfs
