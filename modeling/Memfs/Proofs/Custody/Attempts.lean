import Memfs.Proofs.Custody.Record
import Memfs.Proofs.Links.Mounts

/-!
# Mounts that do not come about

A tree that cannot be made takes the configuration of its context with it. Nothing else
is left of the attempt: the root that was begun is given back, and the instance has no
tree when it is torn down, so its teardown gives back the configuration and no more.
With the end of the context, as many objects of each kind are in use as before the
context was begun.

What is compared are the totals of the ledger. `besides` leaves out the configuration of
one instance, so that the disposal of this configuration does not change it.
-/

namespace Memfs

open World

variable {w v u : World} {c : ContextId} {i : InstanceId} {k : Resource} {e : Error}

namespace World

/-- The configurations in the data of a mount, as they count for a kind. -/
def charge (k : Resource) (data : Option PrivateData) : Int :=
  if k = .config then PrivateData.configs data else 0

theorem charge_none : charge k none = 0 := ite_self _

theorem net_disposeData {data : PrivateData} :
    (w.disposeData data).host.net k = w.host.net k - charge k (some data) := by
  have put : ∀ {v : World} {sort device}, (v.put sort device).host.net k = v.host.net k := by
    intro v sort device
    unfold World.put
    simp only
    split
    · rfl
    · rfl
  cases data with
  | foreign => exact (sub_eq_self.2 (ite_self _)).symm
  | config config =>
      obtain ⟨mode, block, direct⟩ := config
      have released : ∀ u : World, u.host.net k = w.host.net k → (u.host.release .config).net k
          = w.host.net k - charge k (some (.config { mode, block, direct })) := fun u h => by
        rw [Host.net_release, h]
        unfold charge
        split
        · rfl
        · rfl
      cases block with
      | none =>
          cases direct with
          | none => exact released w rfl
          | some _ => exact released _ put
      | some _ =>
          cases direct with
          | none => exact released _ put
          | some _ => exact released _ (put.trans put)

theorem net_settle_dispose {data : Option PrivateData} :
    (w.settle (data.toList.map .dispose)).host.net k = w.host.net k - charge k data := by
  rw [settle_dispose]
  cases data with
  | none => rw [charge_none, sub_zero]; rfl
  | some data => exact net_disposeData

/-- A context whose tree was not asked for ends with its data. -/
theorem net_dropContext {x : Context} (hc : w.contexts.get? c = some x) (made : x.made = none)
    (root : x.root = none) :
    (w.dropContext c).host.net k = w.host.net k - charge k x.data := by
  obtain ⟨y, hy, made_y, root_y, net⟩ : ∃ y, (w.freeData c).contexts.get? c = some y ∧
      y.made = none ∧ y.root = none ∧
        (w.freeData c).host.net k - charge k y.data = w.host.net k - charge k x.data := by
    unfold World.freeData
    rw [hc]
    simp only
    split
    · cases hdata : x.data with
      | none => exact ⟨x, hc, made, root, by rw [hdata]⟩
      | some data =>
          refine ⟨{ x with data := none }, ?_, made, root, ?_⟩
          · rw [contexts_settle]
            refine (Table.get?_modify ..).trans ?_
            rw [if_pos rfl]
            exact congrArg _ hc
          · rw [charge_none, sub_zero]
            exact (net_settle_dispose : (World.settle _ ((some data).toList.map .dispose)).host.net k = _)
    · exact ⟨x, hc, made, root, rfl⟩
  unfold World.dropContext
  simp only [hy, made_y, root_y, Option.toList_some, Option.toList_none, List.map_nil,
    List.append_nil, List.flatMap_cons, List.flatMap_nil]
  exact net_settle_dispose.trans net

/-- What is in use, not counting the configuration of an instance. -/
def besides (w : World) (i : InstanceId) (k : Resource) : Int :=
  w.host.net k - charge k ((w.instances.get? i).bind (·.data))

/-- The instance has no tree, and between `w` and `v` no more was given back than its
configuration. -/
structure Bare (w : World) (i : InstanceId) (v : World) : Prop where
  rootless : ∀ x, v.instances.get? i = some x → x.root = none
  besides : ∀ k, v.besides i k = w.besides i k

namespace Bare

theorem note (b : Bare w i v) {notice : Notice} : Bare w i (v.note notice) :=
  ⟨b.rootless, b.besides⟩

theorem modify (b : Bare w i v) {g : Instance → Instance} (root : ∀ x, x.root = none → (g x).root = none)
    (data : ∀ x, (g x).data = x.data) : Bare w i (v.modifyInstance i g) where
  rootless x hx := by
    rw [World.modifyInstance, Table.get?_modify, if_pos rfl] at hx
    obtain ⟨y, hy, rfl⟩ := Option.map_eq_some_iff.1 hx
    exact root y (b.rootless y hy)
  besides k := by
    refine Eq.trans ?_ (b.besides k)
    unfold World.besides World.modifyInstance
    rw [Table.get?_modify, if_pos rfl]
    cases v.instances.get? i with
    | none => rfl
    | some x => exact congrArg (fun d => v.host.net k - charge k d) (data x)

theorem setData (b : Bare w i v) : Bare w i (v.setData i none) := by
  have found : (v.setData i none).instances.get? i
      = (v.instances.get? i).map ({ · with data := none }) := by
    unfold World.setData
    rw [instances_settle_dispose]
    exact (Table.get?_modify ..).trans (if_pos rfl)
  refine ⟨fun x hx => ?_, fun k => Eq.trans ?_ (b.besides k)⟩
  · rw [found] at hx
    obtain ⟨y, hy, rfl⟩ := Option.map_eq_some_iff.1 hx
    exact b.rootless y hy
  · unfold World.besides
    rw [found]
    have empty : ((v.instances.get? i).map ({ · with data := none })).bind (·.data) = none := by
      cases v.instances.get? i with
      | none => rfl
      | some x => rfl
    rw [empty, charge_none, sub_zero]
    exact net_settle_dispose

theorem ending : Ending i (Bare w i) where
  noted _ b := b.note
  stripped b := b.setData
  dissolved {v x} hi b := by
    unfold Instance.uprooting
    rw [b.rootless x hi, Option.toList_none, List.flatMap_nil, settle_nil]
    refine b.modify ?_ ?_
    · exact fun _ _ => rfl
    · exact fun _ => rfl

theorem deactivate (b : Bare w i v) : Bare w i (v.deactivate i) := by
  refine ending.deactivate b fun _ => b.modify ?_ ?_
  · exact fun _ rootless => rootless
  · exact fun _ => rfl

/-- An instance without a tree gives its data back when it goes. -/
theorem letGo (b : Bare w i v) : Bare w i (v.settle [.letGo (.inst i)]) := by
  by_cases kept : (v.owns (.inst i) || [].contains (Task.letGo (.inst i))) = true
  · rw [settle_letGo_kept kept, settle_nil]
    exact b
  · cases hi : v.instances.get? i with
    | none =>
        rw [settle_letGo_absent (by simp [Has, Table.has, hi]), settle_nil]
        exact b
    | some x =>
        have owned : x.owned = x.data.toList.map .dispose := by
          unfold Instance.owned
          rw [b.rootless x hi]
          rfl
        rw [settle_letGo_inst hi kept, owned, List.append_nil]
        have gone : ((v.removeInstance i).settle (x.data.toList.map .dispose)).instances.get? i
            = none := by
          rw [instances_settle_dispose]
          exact (Table.get?_erase ..).trans (if_pos rfl)
        refine ⟨fun y hy => ?_, fun k => Eq.trans ?_ (b.besides k)⟩
        · cases gone.symm.trans hy
        · unfold World.besides
          rw [gone, hi, Option.bind_none, charge_none, sub_zero]
          exact net_settle_dispose

theorem givenUp (b : Bare w i v) {type : FilesystemType} : Bare w i (v.givenUp i type e) :=
  (b.note.deactivate).letGo

theorem unchanged (b : Bare w i v) (h : Unchanged v u) : Bare w i u where
  rootless x hx := b.rootless x ((h.instances i).symm.trans hx)
  besides k := by
    refine Eq.trans ?_ (b.besides k)
    unfold World.besides
    rw [h.instances, h.net]

/-- An instance that cannot be filled gets no tree, and what was made for it is given
back. -/
theorem unfilled (b : Bare w i v) {todo : List Task} (s : Sound v todo)
    (failed : Action.fillBuiltIn i v = .error e u) : Bare w i u := by
  have sized : Bare w i (v.sized i) := b.modify (fun _ rootless => rootless) fun _ => rfl
  rcases Action.fillBuiltIn_error failed with rfl | ⟨mode, cause, refused⟩ |
    ⟨mode, n, v', host, made, refused, rfl⟩
  · exact b
  · obtain ⟨host, rfl, alike, net⟩ := Action.newNode_error refused
    exact sized.unchanged (.of_host alike net)
  · obtain ⟨rfl, host', ino, kind, time, -, rfl, alike, net⟩ := Action.newNode_ok made
    have same : Unchanged _ { (_ : World) with host } := Unchanged.of_host
      (Host.alike_of_acquire refused) fun _ => Host.net_of_refused refused
    exact sized.unchanged (Unchanged.letGo_node s.sized.tended alike net rfl same)

end Bare

end World

/-! ## A tree that cannot be made -/

/-- The instance of a context that was filled has its root. -/
theorem rooted_of_made {x : Context} {u : Unit} (hc : w.contexts.get? c = some x)
    (filled : Action.fill w.instances.nextId .freshRoot (w.begun c x) = .ok u v) :
    ∃ y, (v.made c x w.instances.nextId).contexts.get? c = some y ∧ y.root.isSome = true ∧
      y.made = some w.instances.nextId := by
  obtain ⟨-, contexts, found, hfound, -, -, -, rooted, -⟩ :=
    Action.fill_ok instances_begun rfl filled
  have emptied : v.contexts.get? c = some { x with data := none } := by
    rw [contexts]
    exact contexts_begun hc
  have root : (v.instances.get? w.instances.nextId).bind (·.root) = found.root := by
    rw [hfound]
    rfl
  refine ⟨{ x with data := none, root := found.root, made := some w.instances.nextId }, ?_,
    rooted rfl, rfl⟩
  unfold World.made
  rw [contexts_settle, root]
  refine (Table.get?_modify ..).trans ?_
  rw [if_pos rfl, emptied]
  rfl

/-- A context without a root is given the instance that is made for it, and no complaint
is made about the root. -/
theorem makeTree_eq_makeInstance {x : Context} (hc : w.contexts.get? c = some x)
    (type : x.type = builtInType) (root : x.root = none) :
    Action.makeTree c w = Action.makeInstance c .freshRoot w := by
  unfold Action.makeTree
  rw [Action.bind_of_ok (Action.context_of_get? hc), root, type]
  show (Action.makeInstance c .freshRoot >>= _) w = _
  cases made : Action.makeInstance c .freshRoot w with
  | error e v => exact Action.bind_of_error made
  | ok u v =>
      obtain ⟨y, v, hy, filled, rfl⟩ := Action.makeInstance_ok made
      cases hc.symm.trans hy
      obtain ⟨z, hz, rooted, -⟩ := rooted_of_made hc filled
      obtain ⟨b, hb⟩ := Option.isSome_iff_exists.1 rooted
      refine (Action.bind_of_ok made).trans ?_
      rw [Action.bind_of_ok (Action.context_of_get? hz), hb]
      rfl

/-- The first request for a tree of a context fails: the configuration is given back by
then, and nothing else is left of the attempt. -/
theorem makeTree_error {x : Context} (o : Configured w) (s : Sound w [])
    (hc : w.contexts.get? c = some x) (data : x.data ≠ none)
    (failed : Action.makeTree c w = .error e v) :
    v.contexts.get? c = some { x with data := none } ∧
      v.keeps (.inst w.instances.nextId) = false ∧
        ∀ k, v.host.net k = w.host.net k - World.charge k x.data := by
  obtain ⟨root, made⟩ := (o.contexts hc).unasked data
  rw [makeTree_eq_makeInstance hc (o.contexts hc).type root] at failed
  obtain ⟨absent, -⟩ | ⟨y, v₀, hy, unfilled, rfl⟩ := Action.makeInstance_error failed
  · cases hc.symm.trans absent
  cases hc.symm.trans hy
  obtain ⟨contexts, only⟩ := o.unfilled hc unfilled
  refine ⟨?_, ?_, fun k => ?_⟩
  · rw [contexts]
    exact contexts_begun hc
  · refine Bool.eq_false_iff.2 fun kept => ?_
    obtain ⟨z, config, hz, data⟩ := keeps_inst_iff.1 kept
    cases (only.here hz).2.2.1.symm.trans data
  · have begun : World.Bare (w.begun c x) w.instances.nextId (w.begun c x) := by
      refine ⟨fun y hy => ?_, fun _ => rfl⟩
      cases instances_begun.symm.trans hy
      rfl
    have given : World.Bare (w.begun c x) w.instances.nextId
        (v₀.givenUp w.instances.nextId x.type e) := (begun.unfilled (s.begun hc) unfilled).givenUp
    have left := given.besides k
    have empty : ((v₀.givenUp w.instances.nextId x.type e).instances.get?
        w.instances.nextId).bind (·.data) = none := by
      cases hy : (v₀.givenUp w.instances.nextId x.type e).instances.get? w.instances.nextId with
      | none => rfl
      | some y => exact (only.here hy).2.2.1
    unfold World.besides at left
    rw [empty, instances_begun, World.charge_none, sub_zero] at left
    exact left

/-! ## Attempts -/

/-- The step settles an option of the context. -/
def Request.Sets (c : ContextId) : Request → Prop
  | .call (.applyParameter d _) => d = c
  | .call (.attachToContext d _ _) => d = c
  | .options d _ => d = c
  | _ => False

/-- A context was opened in `w`, and its options are being settled. -/
structure Opened (w v : World) : Prop where
  sound : Sound v []
  configured : Configured v
  stays : Stays w.opened v
  net : ∀ k, v.host.net k = w.opened.host.net k

namespace Opened

theorem start (s : Sound w []) (o : Configured w) (granted : (w.host.acquire .config).1 = true) :
    Opened w w.opened := by
  have opened : Action.newContext builtInType w = .ok w.contexts.nextId w.opened := by
    rw [newContext_builtIn, if_pos granted]
  exact ⟨s.newContext.ok opened, o.newContext.ok opened, .refl, fun _ => rfl⟩

theorem configuring : Configuring (Opened w) where
  noted calm h := ⟨Sound.configuring.noted calm h.sound, Configured.configuring.noted calm h.configured,
    Stays.configuring.noted calm h.stays, h.net⟩
  sourced h := ⟨Sound.configuring.sourced h.sound, Configured.configuring.sourced h.configured,
    Stays.configuring.sourced h.stays, h.net⟩
  configured hc hold h := ⟨Sound.configuring.configured hc hold h.sound,
    Configured.configuring.configured hc hold h.configured,
    Stays.configuring.configured hc hold h.stays, h.net⟩
  backed hi hold h := ⟨Sound.configuring.backed hi hold h.sound,
    Configured.configuring.backed hi hold h.configured,
    Stays.configuring.backed hi hold h.stays, h.net⟩

theorem settled (h : Opened w v) {settings : List Request} (sets : ∀ step ∈ settings, step.Sets c) :
    Opened w (settings.foldl World.follow v) := by
  induction settings generalizing v with
  | nil => exact h
  | cons step rest ih =>
      refine ih ?_ fun other mem => sets other (List.mem_cons_of_mem _ mem)
      cases step with
      | options d text => exact (configuring.applyOptions h).into
      | call call =>
          cases call with
          | applyParameter d param => exact (configuring.applyParameter h).into
          | attachToContext d sort device => exact (configuring.attachToContext h).into
          | _ => exact (sets _ List.mem_cons_self).elim

/-- The context has a configuration, which is all that is in use beside what was before. -/
theorem context (h : Opened w v) (granted : (w.host.acquire .config).1 = true) :
    ∃ x, v.contexts.get? w.contexts.nextId = some x ∧ x.data ≠ none ∧
      ∀ k, v.host.net k - World.charge k x.data = w.host.net k := by
  have kept : w.opened.keeps (.context w.contexts.nextId) = true :=
    keeps_context_iff.2 ⟨_, _, Table.get?_push_self, rfl⟩
  obtain ⟨x, config, hx, data⟩ := keeps_context_iff.1 ((h.stays.contexts _).trans kept)
  refine ⟨x, hx, data ▸ nofun, fun k => ?_⟩
  have acquired : w.host.acquire .config = (true, (w.host.acquire .config).2) :=
    Prod.ext granted rfl
  rw [h.net, data]
  show (w.host.acquire .config).2.net k - _ = _
  rw [Host.net_of_acquired acquired]
  exact Int.add_sub_cancel _ _

/-- Without a tree, the end of the context is the end of the attempt. -/
theorem dropped (h : Opened w v) (granted : (w.host.acquire .config).1 = true) :
    (v.dropContext w.contexts.nextId).host.net k = w.host.net k := by
  obtain ⟨x, hx, data, net⟩ := h.context granted
  obtain ⟨root, made⟩ := (h.configured.contexts hx).unasked data
  exact (net_dropContext hx made root).trans (net k)

theorem dropped_unmade (h : Opened w v) (granted : (w.host.acquire .config).1 = true)
    (failed : Action.makeTree w.contexts.nextId v = .error e u) :
    (u.dropContext w.contexts.nextId).host.net k = w.host.net k := by
  obtain ⟨x, hx, data, net⟩ := h.context granted
  obtain ⟨root, made⟩ := (h.configured.contexts hx).unasked data
  obtain ⟨emptied, -, gone⟩ := makeTree_error h.configured h.sound hx data failed
  rw [net_dropContext emptied made root, charge_none, sub_zero, gone]
  exact net k

/-- The context has the instance that was made for it. -/
theorem made_of_makeTree {n : Unit} (h : Opened w v) (granted : (w.host.acquire .config).1 = true)
    (done : Action.makeTree w.contexts.nextId v = .ok n u) :
    ∃ i, (u.takeInstance w.contexts.nextId).1 = some i := by
  obtain ⟨x, hx, data, -⟩ := h.context granted
  obtain ⟨root, -⟩ := (h.configured.contexts hx).unasked data
  rw [makeTree_eq_makeInstance hx (h.configured.contexts hx).type root] at done
  obtain ⟨y, v₀, hy, filled, rfl⟩ := Action.makeInstance_ok done
  cases hx.symm.trans hy
  obtain ⟨z, hz, -, made⟩ := rooted_of_made hx filled
  refine ⟨v.instances.nextId, ?_⟩
  unfold World.takeInstance
  rw [hz]
  exact made

end Opened

theorem newContext_builtIn_ok (begun : Action.newContext builtInType w = .ok c u) :
    (w.host.acquire .config).1 = true ∧ c = w.contexts.nextId ∧ u = w.opened := by
  rw [newContext_builtIn] at begun
  split at begun
  · next granted =>
      cases begun
      exact ⟨granted, rfl, rfl⟩
  · cases begun

/-- A mount that fails leaves as many objects of each kind in use as there were. -/
theorem mountType_error {options : String} {done : InstanceId → World → World} (s : Sound w [])
    (o : Configured w) (failed : Action.mountType builtInType options done w = .error e v) :
    ∀ k, v.host.net k = w.host.net k := by
  intro k
  rcases Action.mountType_error failed with refused | ⟨c, u, v, begun, rfl, attempt⟩
  · exact (Action.newContext_clean _ _ refused).net k
  obtain ⟨granted, rfl, rfl⟩ := newContext_builtIn_ok begun
  have applied : Action.Ends (Opened w) (Action.applyOptions w.contexts.nextId options) w.opened :=
    Opened.configuring.applyOptions (.start s o granted)
  rcases attempt with failed | ⟨u, done, failed | ⟨u, made, untaken, -⟩⟩
  · exact (applied.error failed).dropped granted
  · exact (applied.ok done).dropped_unmade granted failed
  · obtain ⟨i, taken⟩ := (applied.ok done).made_of_makeTree granted made
    cases untaken.symm.trans taken

theorem mount_error {name options : String} (s : Sound w []) (o : Configured w)
    (failed : Action.mount name options w = .error e v) : ∀ k, v.host.net k = w.host.net k := by
  cases found : w.findType name with
  | none =>
      cases (Action.mount_of_absent found).symm.trans failed
      exact fun _ => rfl
  | some type =>
      rw [Action.mount_of_found found, o.types type (List.mem_of_find?_eq_some found)] at failed
      exact mountType_error s o failed

/-! ## After any run -/

theorem live_of_net {host host' : Host} (h : ∀ k, host'.net k = host.net k) :
    host'.live k = host.live k := by
  rw [Host.live_eq_toNat_net, Host.live_eq_toNat_net, h]

theorem Custody.Kept.live {t : Custody} (k : t.Kept) :
    t.world.host.live .config = t.places.countP (· ≠ .nowhere) := by
  rw [Host.live_eq_toNat_net, k.custodial.net_eq k.sound, Int.toNat_natCast]

/-- Without a context, and with all instances torn down, every configuration was given
back. -/
theorem Custody.Kept.ended {t : Custody} (k : t.Kept) (contexts : ∀ c, t.world.contexts.get? c = none)
    (instances : ∀ i x, t.world.instances.get? i = some x → x.dying = true) :
    ∀ place ∈ t.places, place = .nowhere := by
  intro place mem
  by_contra there
  have kept := k.custodial.keeps mem there
  cases place with
  | nowhere => exact there rfl
  | context c =>
      obtain ⟨x, config, hx, -⟩ := keeps_context_iff.1 kept
      cases (contexts c).symm.trans hx
  | inst i =>
      obtain ⟨x, config, hx, data⟩ := keeps_inst_iff.1 kept
      cases ((k.configured.instances hx).dead (instances i x hx)).1.symm.trans data

/-- The first request for a tree of a context fails. The configuration, which has the number
`n`, was given back by then. -/
theorem Custody.Kept.unmade {t : Custody} {n : Nat} (k : t.Kept)
    (here : t.places[n]? = some (.context c)) (failed : Action.makeTree c t.world = .error e v) :
    (t.after (.call (.makeTree c))).places[n]? = some .nowhere ∧
      v.host.live .config + 1 = t.world.host.live .config := by
  have after : (t.after (.call (.makeTree c))).world = v := by
    show (Action.makeTree c).into t.world = v
    unfold Action.into
    rw [failed]
  have kept := k.custodial.keeps (List.mem_of_getElem? here) Place.noConfusion
  obtain ⟨x, config, hx, data⟩ := keeps_context_iff.1 kept
  obtain ⟨emptied, unkept, net⟩ := makeTree_error k.configured k.sound hx (data ▸ nofun) failed
  have lost : v.keeps (.context c) = false := by
    rw [keeps_context, emptied]
    rfl
  refine ⟨?_, ?_⟩
  · rw [places_after here, Place.next_context, after, lost, unkept]
    rfl
  · have present : 0 < t.places.countP (· ≠ .nowhere) :=
      List.countP_pos_iff.2 ⟨_, List.mem_of_getElem? here, by simp⟩
    have before := k.custodial.net_eq k.sound
    have one : World.charge .config x.data = 1 := by
      rw [data]
      rfl
    have net := net .config
    rw [Host.live_eq_toNat_net, Host.live_eq_toNat_net]
    omega

/-- The record follows every configuration to its end. -/
structure Custody.Faithful (t : Custody) : Prop where
  /-- Where the record puts a configuration, one is kept, and the other way round. So each has
  one keeper until it is given back, which is its context or an instance. -/
  keeper : ∀ place, place ≠ .nowhere →
    t.places.count place = if t.world.keeps place then 1 else 0
  /-- As many are in use as were not given back. -/
  live : t.world.host.live .config = t.places.countP (· ≠ .nowhere)
  /-- What was given back is not given back again. -/
  final : ∀ step (n : Nat), t.places[n]? = some .nowhere →
    (t.after step).places[n]? = some .nowhere
  /-- Without contexts, and with all instances torn down, every one was given back. -/
  ended : (∀ c, t.world.contexts.get? c = none) →
    (∀ i x, t.world.instances.get? i = some x → x.dying = true) →
      ∀ place ∈ t.places, place = .nowhere

/-- A context begins, and then something else is done. -/
def Custody.opening (t : Custody) (later : List Request) : Custody :=
  (t.after (.call (.newContext builtInType))).run later

/-- The context that begins after `t` is asked for its tree for the first time, after whatever
was done meanwhile. -/
structure Custody.Asks (t : Custody) (c : ContextId) (later : List Request) : Prop where
  /-- The newest configuration is with the context until then. -/
  here : (t.opening later).places[t.places.length]? = some (.context c)
  /-- If the tree cannot be made, it was given back by the time that this is told. -/
  given : ∀ e v, Action.makeTree c (t.opening later).world = .error e v →
    ((t.opening later).after (.call (.makeTree c))).places[t.places.length]? = some .nowhere ∧
      v.host.live .config + 1 = (t.opening later).world.host.live .config

/-- A mount that fails, at whatever stage, leaves as many objects of each kind in use as there
were. -/
structure World.Recovers (w : World) : Prop where
  /-- In one call. -/
  mount : ∀ name options e v, Action.mount name options w = .error e v →
    ∀ k, v.host.live k = w.host.live k
  /-- There is no context. -/
  unopened : ∀ e v, Action.newContext builtInType w = .error e v →
    ∀ k, v.host.live k = w.host.live k
  /-- There is one, and its options were settled or not, but it was not asked for a tree. -/
  unasked : ∀ c u, Action.newContext builtInType w = .ok c u → ∀ settings : List Request,
    (∀ step ∈ settings, step.Sets c) →
      ∀ k, ((settings.foldl World.follow u).dropContext c).host.live k = w.host.live k
  /-- It was asked, but the tree could not be made. -/
  unmade : ∀ c u, Action.newContext builtInType w = .ok c u → ∀ settings : List Request,
    (∀ step ∈ settings, step.Sets c) →
      ∀ e v, Action.makeTree c (settings.foldl World.follow u) = .error e v →
        ∀ k, (v.dropContext c).host.live k = w.host.live k

namespace Custody.Kept

variable {t : Custody}

theorem faithful (k : t.Kept) : t.Faithful where
  keeper := k.custodial
  live := k.live
  final _ _ := Custody.nowhere_after
  ended := k.ended

theorem asks (k : t.Kept) (begun : Action.newContext builtInType t.world = .ok c u)
    {later : List Request} (unasked : ∀ step ∈ later,
      step.BuiltIn ∧ step ≠ .call (.makeTree c) ∧ step ≠ .call (.dropContext c)) :
    t.Asks c later := by
  obtain ⟨granted, rfl, -⟩ := newContext_builtIn_ok begun
  have first : (t.after (.call (.newContext builtInType))).Kept := k.after rfl
  have builtIn : ∀ step ∈ later, step.BuiltIn := fun step mem => (unasked step mem).1
  obtain ⟨here, -⟩ := first.unasked builtIn (fun step mem => (unasked step mem).2)
    (Custody.places_newContext granted)
  exact ⟨here, fun e v failed => (first.run builtIn).unmade here failed⟩

theorem recovers (k : t.Kept) : t.world.Recovers where
  mount _ _ _ _ failed _ := live_of_net (mount_error k.sound k.configured failed)
  unopened _ _ failed _ := live_of_net (Action.newContext_clean _ _ failed).net
  unasked c u begun settings sets _ := by
    obtain ⟨granted, rfl, rfl⟩ := newContext_builtIn_ok begun
    exact live_of_net fun _ =>
      ((Opened.start k.sound k.configured granted).settled sets).dropped granted
  unmade c u begun settings sets e v failed _ := by
    obtain ⟨granted, rfl, rfl⟩ := newContext_builtIn_ok begun
    exact live_of_net fun _ =>
      ((Opened.start k.sound k.configured granted).settled sets).dropped_unmade granted failed

end Custody.Kept

/-- The built-in type is mounted and its instances are used and torn down in any way: each
configuration that was allocated on the way has one keeper and is given back once, by the first
request for a tree if that fails, and a mount that fails costs nothing. -/
theorem custody_run (clock : Clock) (steps : List Request) (builtIn : ∀ step ∈ steps, step.BuiltIn) :
    let t := (Custody.fresh clock).run steps
    t.world = steps.foldl World.follow (World.fresh clock) ∧ t.Faithful ∧
    (∀ c u, Action.newContext builtInType t.world = .ok c u → ∀ later : List Request,
      (∀ step ∈ later, step.BuiltIn ∧ step ≠ .call (.makeTree c) ∧ step ≠ .call (.dropContext c)) →
        t.Asks c later) ∧
    t.world.Recovers := by
  intro t
  have k : t.Kept := Custody.Kept.fresh.run builtIn
  exact ⟨Custody.world_run, k.faithful, fun _ _ begun _ unasked => k.asks begun unasked,
    k.recovers⟩

/-- One mount that stands, one that was torn down, and a context that is being prepared.
There are no nodes for another mount. -/
theorem custody_run_refused :
    let steps : List Request := [.call (.register builtInType), .call (.mount "tagfs" ""),
      .call (.mount "tagfs" "mode=700"), .call (.deactivate 1), .call (.deactivate 1),
      .call (.newContext builtInType), .options 2 "source=a,mode=750",
      .call (.setBudget .node (some 0))]
    let t := (Custody.fresh (.steady 0 0 1)).run steps
    t.places = [.inst 0, .nowhere, .context 2] ∧ t.world.host.live .config = 2 ∧
      t.world.keeps (.inst 0) = true ∧ t.world.keeps (.inst 1) = false ∧
      ∃ v, Action.mount "tagfs" "mode=711" t.world = .error .outOfMemory v ∧
        ∀ k, v.host.live k = t.world.host.live k := by
  intro steps t
  have builtIn : ∀ step ∈ steps, step.BuiltIn := by simp [steps, Request.BuiltIn, Call.BuiltIn]
  have places : t.places = [.inst 0, .nowhere, .context 2] := by decide +kernel
  obtain ⟨-, faithful, -, recovers⟩ := custody_run (.steady 0 0 1) steps builtIn
  have refused : (match Action.mount "tagfs" "mode=711" t.world with
      | .ok _ _ => none
      | .error e _ => some e) = some Error.outOfMemory := by decide +kernel
  have keeps : ∀ place, place ≠ .nowhere →
      t.world.keeps place = decide (place ∈ t.places) := fun place there => by
    have count : t.places.count place = _ := faithful.keeper place there
    cases kept : t.world.keeps place with
    | true =>
        rw [kept, if_pos rfl] at count
        exact (decide_eq_true (List.count_pos_iff.1 (count ▸ Nat.one_pos))).symm
    | false =>
        rw [kept] at count
        exact (decide_eq_false (List.count_eq_zero.1 count)).symm
  refine ⟨places, ?_, ?_, ?_, ?_⟩
  · rw [faithful.live, places]
    rfl
  · rw [keeps _ Place.noConfusion, places]
    rfl
  · rw [keeps _ Place.noConfusion, places]
    rfl
  · cases h : Action.mount "tagfs" "mode=711" t.world with
    | ok i v =>
        rw [h] at refused
        cases refused
    | error e v =>
        rw [h] at refused
        cases refused
        exact ⟨v, rfl, recovers.mount _ _ _ _ h⟩

end Memfs
