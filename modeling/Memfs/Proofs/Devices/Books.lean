import Memfs.Proofs.Quiet
import Memfs.Proofs.Custody.Keepers

/-!
# The books on backing devices

What becomes of backing devices is a matter of four things: where a configuration is kept and
with which devices, which devices were put back, what they recorded of it, and how many
configurations are allocated. These are the `Books` of a world, and nothing else needs to be
known of it here.

A configuration goes in more than one way: its instance is torn down or let go of, its context
ends, something else takes its place. A teardown puts the devices back by itself and gives up a
configuration without devices (`dissolveBuiltIn`); everything else gives up the configuration
with its devices (`disposeData`). That all of them come to the same entry in the books,
`Books.close`, is what is shown. The entry says the order: the block device, the direct device,
and then the allocation.
-/

namespace Memfs

/-- The devices that a configuration holds. -/
structure Backing where
  block : Option Device := none
  direct : Option Device := none
  deriving DecidableEq, Repr

namespace Backing

def slot (b : Backing) : DeviceSort → Option Device
  | .block => b.block
  | .direct => b.direct

/-- One more device. A slot that is taken stays as it is. -/
def attach (b : Backing) (sort : DeviceSort) (device : Device) : Backing :=
  match sort with
  | .block => { b with block := b.block.or (some device) }
  | .direct => { b with direct := b.direct.or (some device) }

/-- The devices in the order in which they are put back. -/
def held (b : Backing) : List (DeviceSort × Device) :=
  (b.block.toList.map fun device => (.block, device))
    ++ b.direct.toList.map fun device => (.direct, device)

/-- What the journal says when they are put back. -/
def releases (b : Backing) : List (DeviceSort × String) :=
  b.held.map fun (sort, device) => (sort, device.name)

/-- What those that keep a record write down: how many configurations are in use. -/
def puts (b : Backing) (inUse : Nat) : List (String × Nat) :=
  (b.held.filter (·.2.recorded)).map fun (_, device) => (device.name, inUse)

end Backing

def Config.backing (c : Config) : Backing := ⟨c.block, c.direct⟩

/-- What has become of configurations and their devices. -/
@[ext]
structure Books where
  backing : Place → Option Backing
  releases : List (DeviceSort × String)
  puts : List (String × Nat)
  inUse : Int

namespace Books

variable {b : Books} {p : Place} {todo rest : List Task}

/-- A configuration with these devices, if there is one, is given back. -/
def give (b : Books) : Option Backing → Books
  | none => b
  | some x =>
    { b with
      releases := b.releases ++ x.releases
      puts := b.puts ++ x.puts b.inUse.toNat
      inUse := b.inUse - 1 }

/-- There is no configuration at the place any more. -/
def without (b : Books) (p : Place) : Books :=
  { b with backing := fun q => if q = p then none else b.backing q }

/-- The configuration of the place is given back. -/
def close (b : Books) (p : Place) : Books := (b.without p).give (b.backing p)

/-- There is a configuration with these devices at the place. -/
def keep (b : Books) (p : Place) (x : Backing) : Books :=
  { b with backing := fun q => if q = p then some x else b.backing q }

/-- A configuration without devices is allocated and takes the place, and the one that was
there, if any, is given back. -/
def allot (b : Books) (p : Place) : Books :=
  (({ b with inUse := b.inUse + 1 } : Books).close p).keep p {}

/-- The configuration of the place, if there is one, is given a device. -/
def attach (b : Books) (p : Place) (sort : DeviceSort) (device : Device) : Books :=
  { b with
    backing := fun q => if q = p then (b.backing p).map (·.attach sort device) else b.backing q }

/-- The configuration of the context passes to the instance. The one that the instance had, if
any, is given back. -/
def move (b : Books) (c : ContextId) (i : InstanceId) : Books :=
  let b := b.close (.inst i)
  match b.backing (.context c) with
  | none => b
  | some x => (b.without (.context c)).keep (.inst i) x

/-- What work gives back. -/
def giveAll (b : Books) (todo : List Task) : Books :=
  todo.foldl (fun b task => b.give (match task with
    | .dispose data => data.config?.map Config.backing
    | _ => none)) b

/-- What is entered in the books. -/
inductive Entry where
  | allot (p : Place)
  | attach (p : Place) (sort : DeviceSort) (device : Device)
  | move (c : ContextId) (i : InstanceId)
  | close (p : Place)
  deriving DecidableEq, Repr

/-- Enters what has happened. -/
def enter (b : Books) : Entry → Books
  | .allot p => b.allot p
  | .attach p sort device => b.attach p sort device
  | .move c i => b.move c i
  | .close p => b.close p

@[simp]
theorem backing_give {x : Option Backing} : (b.give x).backing = b.backing := by
  cases x with
  | none => rfl
  | some x => rfl

theorem without_of_none (h : b.backing p = none) : b.without p = b := by
  have same : (b.without p).backing = b.backing := by
    funext q
    refine ite_eq_right_iff.2 ?_
    rintro rfl
    exact h.symm
  exact Books.ext same rfl rfl rfl

theorem close_of_none (h : b.backing p = none) : b.close p = b := by
  rw [close, h, without_of_none h]
  rfl

/-- Where it is kept does not matter to what is given back. -/
theorem keep_give {x : Backing} {y : Option Backing} :
    (b.keep p x).give y = (b.give y).keep p x := by
  cases y with
  | none => rfl
  | some y => rfl

theorem without_keep {x : Backing} : (b.without p).keep p x = b.keep p x := by
  refine Books.ext (funext fun q => ?_) rfl rfl rfl
  simp only [keep, without]
  split
  · rfl
  · rfl

theorem keep_close {x : Backing} : (b.close p).keep p x = (b.give (b.backing p)).keep p x := by
  rw [close, ← keep_give, without_keep, keep_give]

theorem keep_of_backing {x : Backing} (backed : b.backing p = some x) : b.keep p x = b := by
  refine Books.ext (funext fun q => ite_eq_right_iff.2 ?_) rfl rfl rfl
  rintro rfl
  exact backed.symm

theorem attach_of_none {sort : DeviceSort} {device : Device} (none : b.backing p = none) :
    b.attach p sort device = b := by
  refine Books.ext (funext fun q => ite_eq_right_iff.2 ?_) rfl rfl rfl
  rintro rfl
  rw [none]
  rfl

theorem attach_of_some {sort : DeviceSort} {device : Device} {x : Backing}
    (backed : b.backing p = some x) : b.attach p sort device = b.keep p (x.attach sort device) := by
  rw [attach, backed]
  rfl

/-- Nothing is given back for a configuration that takes an empty place. -/
theorem allot_of_none (none : b.backing p = none) :
    b.allot p = ({ b with inUse := b.inUse + 1 } : Books).keep p {} := by
  have none : ({ b with inUse := b.inUse + 1 } : Books).backing p = .none := none
  rw [allot, close_of_none none]

theorem backing_close {q : Place} :
    (b.close p).backing q = if q = p then none else b.backing q := by
  rw [close, backing_give]
  rfl

theorem close_close : (b.close p).close p = b.close p :=
  close_of_none (backing_close.trans (if_pos rfl))

theorem giveAll_append : b.giveAll (todo ++ rest) = (b.giveAll todo).giveAll rest :=
  List.foldl_append

theorem giveAll_cons_light {task : Task} (light : task.Light) :
    b.giveAll (task :: rest) = b.giveAll rest := by
  cases task with
  | dispose data => exact light.elim
  | letGo | dissolve | unpin => rfl

theorem giveAll_light (light : ∀ task ∈ todo, task.Light) : b.giveAll todo = b := by
  induction todo with
  | nil => rfl
  | cons task rest ih =>
      obtain ⟨here, later⟩ := List.forall_mem_cons.1 light
      exact (giveAll_cons_light here).trans (ih later)

end Books

namespace World

/-- The devices of the configuration of a place. -/
def backing (w : World) : Place → Option Backing
  | .context c => ((w.contexts.get? c).bind (·.config?)).map Config.backing
  | .inst i => ((w.instances.get? i).bind (·.config?)).map Config.backing
  | .nowhere => none

def books (w : World) : Books where
  backing := w.backing
  releases := w.host.releases
  puts := w.puts
  inUse := w.host.net .config

variable {w v u : World} {B : Books} {p : Place} {c : ContextId} {i : InstanceId}
  {data : Option PrivateData} {todo : List Task}

theorem backing_context : w.books.backing (.context c)
    = ((w.contexts.get? c).bind (·.config?)).map Config.backing := rfl

theorem backing_inst : w.books.backing (.inst i)
    = ((w.instances.get? i).bind (·.config?)).map Config.backing := rfl

/-! ## Entries that are not made -/

theorem books_host {host : Host} (onward : w.host.Onward host) :
    World.books { w with host } = w.books := by
  refine Books.ext rfl onward.releases rfl ?_
  show ((host.ledger.config.allocated : Int) - host.ledger.config.released)
    = w.host.ledger.config.allocated - w.host.ledger.config.released
  rw [onward.configs]

/-- The books are not touched, and the instances are the same. -/
structure Level (w v : World) : Prop where
  books : v.books = w.books
  instances : v.instances = w.instances

theorem Level.refl : w.Level w := ⟨rfl, rfl⟩

/-- Operations leave the books alone. -/
theorem Level.blind : Blind w.Level where
  host onward h := ⟨(books_host onward).trans h.books, h.instances⟩
  nodes h := ⟨h.books, h.instances⟩
  bindings h := ⟨h.books, h.instances⟩
  files h := ⟨h.books, h.instances⟩

theorem Level.quiet : Quiet w.Level := Level.blind.quiet

theorem Level.settle {tasks : List Task} (light : ∀ task ∈ tasks, task.Light) :
    w.Level (w.settle tasks) :=
  Level.quiet.settle .refl light

theorem books_note {notice : Notice} (calm : notice.release? = none) :
    (w.note notice).books = w.books :=
  books_host (.note calm)

/-- The context keeps what it kept, if it kept anything. -/
theorem books_contexts {contexts : Table Context}
    (others : ∀ d, d ≠ c → contexts.get? d = w.contexts.get? d)
    (here : (contexts.get? c).bind (·.config?) = (w.contexts.get? c).bind (·.config?)) :
    World.books { w with contexts } = w.books := by
  have backing : World.backing { w with contexts } = w.backing := by
    funext p
    cases p with
    | nowhere => rfl
    | inst i => rfl
    | context d =>
        by_cases e : d = c
        · exact e ▸ congrArg (Option.map Config.backing) here
        · exact congrArg (fun x : Option Context => (x.bind (·.config?)).map Config.backing)
            (others d e)
  exact Books.ext backing rfl rfl rfl

/-- The instance keeps what it kept, if it kept anything. -/
theorem books_instances {instances : Table Instance}
    (others : ∀ j, j ≠ i → instances.get? j = w.instances.get? j)
    (here : (instances.get? i).bind (·.config?) = (w.instances.get? i).bind (·.config?)) :
    World.books { w with instances } = w.books := by
  have backing : World.backing { w with instances } = w.backing := by
    funext p
    cases p with
    | nowhere => rfl
    | context c => rfl
    | inst j =>
        by_cases e : j = i
        · exact e ▸ congrArg (Option.map Config.backing) here
        · exact congrArg (fun x : Option Instance => (x.bind (·.config?)).map Config.backing)
            (others j e)
  exact Books.ext backing rfl rfl rfl

theorem books_modifyContext {f : Context → Context}
    (same : ∀ x, w.contexts.get? c = some x → (f x).config? = x.config?) :
    (w.modifyContext c f).books = w.books := by
  refine books_contexts (c := c) (fun d e => Table.get?_modify_of_ne e) ?_
  rw [Table.get?_modify, if_pos rfl]
  cases hx : w.contexts.get? c with
  | none => rfl
  | some x => exact same x hx

theorem books_modifyInstance {f : Instance → Instance}
    (same : ∀ x, w.instances.get? i = some x → (f x).config? = x.config?) :
    (w.modifyInstance i f).books = w.books := by
  refine books_instances (i := i) (fun j e => Table.get?_modify_of_ne e) ?_
  rw [Table.get?_modify, if_pos rfl]
  cases hx : w.instances.get? i with
  | none => rfl
  | some x => exact same x hx

/-! ## Entries that are made -/

/-- The context keeps no configuration any more. -/
theorem books_contexts_none {contexts : Table Context}
    (others : ∀ d, d ≠ c → contexts.get? d = w.contexts.get? d)
    (here : (contexts.get? c).bind (·.config?) = none) :
    World.books { w with contexts } = w.books.without (.context c) := by
  have backing : World.backing { w with contexts } = (w.books.without (.context c)).backing := by
    funext p
    cases p with
    | nowhere => rfl
    | inst i => rfl
    | context d =>
        by_cases e : d = c
        · refine (e ▸ congrArg (Option.map Config.backing) here).trans ?_
          exact (if_pos (congrArg _ e)).symm
        · refine Eq.trans ?_ (if_neg (mt Place.context.inj e)).symm
          exact congrArg (fun x : Option Context => (x.bind (·.config?)).map Config.backing)
            (others d e)
  exact Books.ext backing rfl rfl rfl

/-- The instance keeps no configuration any more. -/
theorem books_instances_none {instances : Table Instance}
    (others : ∀ j, j ≠ i → instances.get? j = w.instances.get? j)
    (here : (instances.get? i).bind (·.config?) = none) :
    World.books { w with instances } = w.books.without (.inst i) := by
  have backing : World.backing { w with instances } = (w.books.without (.inst i)).backing := by
    funext p
    cases p with
    | nowhere => rfl
    | context c => rfl
    | inst j =>
        by_cases e : j = i
        · refine (e ▸ congrArg (Option.map Config.backing) here).trans ?_
          exact (if_pos (congrArg _ e)).symm
        · refine Eq.trans ?_ (if_neg (mt Place.inst.inj e)).symm
          exact congrArg (fun x : Option Instance => (x.bind (·.config?)).map Config.backing)
            (others j e)
  exact Books.ext backing rfl rfl rfl

/-- The context keeps another configuration than before. -/
theorem books_setContextConfig {x : Context} {new : Config} (hc : w.contexts.get? c = some x) :
    (w.modifyContext c ({ · with data := some (.config new) })).books
      = w.books.keep (.context c) new.backing := by
  refine Books.ext (funext fun q => ?_) rfl rfl rfl
  by_cases e : q = .context c
  · subst e
    have found : (w.contexts.modify c ({ · with data := some (.config new) })).get? c
        = some { x with data := some (.config new) } := by
      rw [Table.get?_modify, if_pos rfl, hc]
      rfl
    show (((w.contexts.modify c _).get? c).bind _).map _ = _
    rw [found]
    exact (if_pos rfl).symm
  · refine Eq.trans ?_ (if_neg e).symm
    cases q with
    | nowhere => rfl
    | inst i => rfl
    | context d =>
        have other : d ≠ c := mt (congrArg Place.context) e
        exact congrArg (fun y : Option Context => (y.bind (·.config?)).map Config.backing)
          (Table.get?_modify_of_ne other)

/-- The instance keeps another configuration than before. -/
theorem books_setInstanceConfig {x : Instance} {new : Config} (hi : w.instances.get? i = some x) :
    (w.modifyInstance i ({ · with data := some (.config new) })).books
      = w.books.keep (.inst i) new.backing := by
  refine Books.ext (funext fun q => ?_) rfl rfl rfl
  by_cases e : q = .inst i
  · subst e
    have found : (w.instances.modify i ({ · with data := some (.config new) })).get? i
        = some { x with data := some (.config new) } := by
      rw [Table.get?_modify, if_pos rfl, hi]
      rfl
    show (((w.instances.modify i _).get? i).bind _).map _ = _
    rw [found]
    exact (if_pos rfl).symm
  · refine Eq.trans ?_ (if_neg e).symm
    cases q with
    | nowhere => rfl
    | context c => rfl
    | inst j =>
        have other : j ≠ i := mt (congrArg Place.inst) e
        exact congrArg (fun y : Option Instance => (y.bind (·.config?)).map Config.backing)
          (Table.get?_modify_of_ne other)

theorem books_modifyContext_none {f : Context → Context} (none : ∀ x, (f x).config? = none) :
    (w.modifyContext c f).books = w.books.without (.context c) := by
  refine books_contexts_none (fun d e => Table.get?_modify_of_ne e) ?_
  rw [Table.get?_modify, if_pos rfl, Option.bind_map]
  exact Option.bind_eq_none_iff.2 fun x _ => none x

theorem books_modifyInstance_none {f : Instance → Instance} (none : ∀ x, (f x).config? = none) :
    (w.modifyInstance i f).books = w.books.without (.inst i) := by
  refine books_instances_none (fun j e => Table.get?_modify_of_ne e) ?_
  rw [Table.get?_modify, if_pos rfl, Option.bind_map]
  exact Option.bind_eq_none_iff.2 fun x _ => none x

theorem books_eraseContext :
    World.books { w with contexts := w.contexts.erase c } = w.books.without (.context c) :=
  books_contexts_none (fun d e => Table.get?_erase_of_ne e)
    (by rw [Table.get?_erase, if_pos rfl]; rfl)

theorem books_removeInstance : (w.removeInstance i).books = w.books.without (.inst i) :=
  books_instances_none (fun j e => Table.get?_erase_of_ne e)
    (by rw [Table.get?_erase, if_pos rfl]; rfl)

theorem books_put {sort : DeviceSort} {device : Device} : (w.put sort device).books =
    { w.books with
      releases := w.books.releases ++ [(sort, device.name)]
      puts := w.books.puts
        ++ if device.recorded then [(device.name, w.books.inUse.toNat)] else [] } := by
  have released : (w.host.note (.releasing sort device.name)).releases
      = w.host.releases ++ [(sort, device.name)] := by
    simp [Host.releases, Host.note, Notice.release?]
  unfold World.put
  simp only
  split
  · refine Books.ext rfl released ?_ rfl
    show w.puts ++ [(device.name, w.host.live .config)] = _
    rw [Host.live_eq_toNat_net]
    rfl
  · exact Books.ext rfl released (List.append_nil _).symm rfl

/-- A slot is emptied. -/
theorem books_putSlot {sort : DeviceSort} {slot : Option Device} :
    (slot.elim w (w.put sort)).books =
      { w.books with
        releases := w.books.releases ++ slot.toList.map fun device => (sort, device.name)
        puts := w.books.puts ++ (slot.toList.filter (·.recorded)).map fun device =>
          (device.name, w.books.inUse.toNat) } := by
  cases slot with
  | none => exact Books.ext rfl (List.append_nil _).symm (List.append_nil _).symm rfl
  | some device =>
      refine books_put.trans (Books.ext rfl rfl ?_ rfl)
      cases recorded : device.recorded with
      | true => simp [recorded]
      | false => simp [recorded]

/-- The block device, the direct device, the allocation. -/
theorem books_disposeData {data : PrivateData} :
    (w.disposeData data).books = w.books.give (data.config?.map Config.backing) := by
  have released : ∀ v : World, World.books { v with host := v.host.release .config }
      = { v.books with inUse := v.books.inUse - 1 } := fun v =>
    Books.ext rfl rfl rfl ((Host.net_release ..).trans (by rw [if_pos rfl]; rfl))
  cases data with
  | foreign => rfl
  | config config =>
      unfold disposeData
      simp only [released, books_putSlot]
      refine Books.ext rfl ?_ ?_ rfl
      · simp [Books.give, PrivateData.config?, Config.backing, Backing.releases, Backing.held,
          Function.comp_def]
      · simp [Books.give, PrivateData.config?, Config.backing, Backing.puts, Backing.held,
          List.filter_map, Function.comp_def]

/-! ## Work that gives configurations back -/

/-- If work is done in `v` then the books come to be `B`. Instances are not let go of any more,
so what is given back stands in the list. -/
structure Owing (B : Books) (v : World) (todo : List Task) : Prop where
  absent : ∀ i, .letGo (.inst i) ∈ todo → v.instances.get? i = none
  owed : v.books.giveAll todo = B

namespace Owing

variable {task : Task} {l : List Task}

/-- A task that gives nothing back is done, and may have left others of that sort. -/
theorem level (h : Owing B v (task :: todo)) (here : task.Light ∨ ∃ i, task = .letGo (.inst i))
    (same : v.Level u) (light : ∀ t ∈ l, t.Light) : Owing B u (l ++ todo) where
  absent i mem := by
    rw [same.instances]
    refine h.absent i (List.mem_cons_of_mem _ ((List.mem_append.1 mem).resolve_left fun mem => ?_))
    exact light _ mem
  owed := by
    rw [same.books, Books.giveAll_append, Books.giveAll_light light]
    rcases here with light | ⟨i, rfl⟩
    · exact (Books.giveAll_cons_light light).symm.trans h.owed
    · exact h.owed

theorem settling : Settling (Owing B) where
  disposed {v data todo} h := by
    obtain ⟨_, _, -, e⟩ := disposeData_eq v data
    refine ⟨fun i mem => ?_, ?_⟩
    · rw [e]
      exact h.absent i (List.mem_cons_of_mem _ mem)
    · rw [books_disposeData]
      exact h.owed
  unpinned h := h.level (l := []) (.inl trivial) (Level.quiet.unpin .refl) (List.forall_mem_nil _)
  dissolved _ h := h.level (.inl trivial) (Level.quiet.bindings .refl) Binding.light_dissolution
  absent _ h := h.level (l := []) (.inl trivial) .refl (List.forall_mem_nil _)
  kept {w ref todo} _ h := by
    refine h.level (l := []) ?_ .refl (List.forall_mem_nil _)
    cases ref with
    | inst i => exact .inr ⟨i, rfl⟩
    | node | binding => exact .inl trivial
  evicted _ _ h := h.level (l := []) (.inl trivial) (Level.quiet.evict .refl)
    (List.forall_mem_nil _)
  removedBinding _ _ h := h.level (.inl trivial) (Level.quiet.removeBinding .refl)
    Binding.light_owned
  removedInstance hi _ h := by
    cases hi.symm.trans (h.absent _ List.mem_cons_self)

end Owing

/-- The work gives back what stands in it. -/
theorem books_settle (light : ∀ i, .letGo (.inst i) ∉ todo) :
    (w.settle todo).books = w.books.giveAll todo :=
  (Owing.settling.settle_all (P := Owing (w.books.giveAll todo))
    ⟨fun i mem => absurd mem (light i), rfl⟩).owed

/-- One instance may be let go of, and nothing was given back so far. -/
structure Parting (B : Books) (i : InstanceId) (v : World) (todo : List Task) : Prop where
  tasks : ∀ task ∈ todo, task.Light ∨ task = .letGo (.inst i)
  books : v.books = B

namespace Parting

variable {task : Task} {l : List Task}

theorem level (h : Parting B i v (task :: todo)) (same : v.Level u) (light : ∀ t ∈ l, t.Light) :
    Parting B i u (l ++ todo) where
  tasks t mem := (List.mem_append.1 mem).elim (fun mem => .inl (light t mem)) fun mem =>
    h.tasks t (List.mem_cons_of_mem _ mem)
  books := same.books.trans h.books

/-- When it goes, its configuration is to be given back. -/
theorem removed {j : InstanceId} {x : Instance} (hj : v.instances.get? j = some x)
    (h : Parting B i v (.letGo (.inst j) :: todo)) :
    Owing (B.close (.inst i)) (v.removeInstance j) (x.owned ++ todo) := by
  obtain ⟨here, later⟩ := List.forall_mem_cons.1 h.tasks
  obtain rfl : j = i := by
    rcases here with light | same
    · exact light.elim
    · exact Ref.inst.inj (Task.letGo.inj same)
  have rest : ∀ b : Books, b.giveAll todo = b := fun b => by
    induction todo with
    | nil => rfl
    | cons task todo ih =>
        obtain ⟨first, later⟩ := List.forall_mem_cons.1 later
        have none : b.giveAll (task :: todo) = b.giveAll todo := by
          rcases first with light | rfl
          · exact Books.giveAll_cons_light light
          · rfl
        exact none.trans (ih ⟨List.forall_mem_cons.2 ⟨here, later⟩, h.books⟩ later)
  have given : (v.removeInstance j).books.giveAll (x.data.toList.map .dispose)
      = B.close (.inst j) := by
    have kept : v.books.backing (.inst j) = (x.data.bind (·.config?)).map Config.backing := by
      show ((v.instances.get? j).bind (·.config?)).map _ = _
      rw [hj]
      rfl
    rw [books_removeInstance, ← h.books, Books.close, kept]
    cases x.data with
    | none => rfl
    | some data => rfl
  refine ⟨fun k mem => ?_, ?_⟩
  · have same : k = j := by
      rcases List.mem_append.1 mem with mem | mem
      · unfold Instance.owned at mem
        rcases List.mem_append.1 mem with mem | mem
        · exact (Task.light_bindings _ mem).elim
        · obtain ⟨_, -, e⟩ := List.mem_map.1 mem
          cases e
      · exact (later _ mem).elim False.elim fun same => Ref.inst.inj (Task.letGo.inj same)
    rw [same]
    exact (Table.get?_erase ..).trans (if_pos rfl)
  · unfold Instance.owned
    rw [Books.giveAll_append, Books.giveAll_append, Books.giveAll_light Task.light_bindings,
      given, rest]

theorem settling :
    Settling fun v todo => Parting B i v todo ∨ Owing (B.close (.inst i)) v todo where
  disposed h := by
    rcases h with h | h
    · rcases h.tasks _ List.mem_cons_self with light | same
      · exact light.elim
      · cases same
    · exact .inr (Owing.settling.disposed h)
  unpinned h := h.imp (·.level (l := []) (Level.quiet.unpin .refl) (List.forall_mem_nil _))
    Owing.settling.unpinned
  dissolved hx h := h.imp (·.level (Level.quiet.bindings .refl) Binding.light_dissolution)
    (Owing.settling.dissolved hx)
  absent hx h := h.imp (·.level (l := []) .refl (List.forall_mem_nil _)) (Owing.settling.absent hx)
  kept free h := h.imp (·.level (l := []) .refl (List.forall_mem_nil _)) (Owing.settling.kept free)
  evicted hn free h := h.imp
    (·.level (l := []) (Level.quiet.evict .refl) (List.forall_mem_nil _))
    (Owing.settling.evicted hn free)
  removedBinding hx free h := h.imp
    (·.level (Level.quiet.removeBinding .refl) Binding.light_owned)
    (Owing.settling.removedBinding hx free)
  removedInstance hi free h := .inr (h.elim (removed hi) (Owing.settling.removedInstance hi free))

end Parting

/-- An instance that is let go of takes its configuration with it, unless somebody else owns it. -/
theorem books_letGo (tasks : ∀ task ∈ todo, task.Light ∨ task = .letGo (.inst i))
    (waiting : .letGo (.inst i) ∈ todo) : (w.settle todo).books
      = if w.Owned (.inst i) then w.books else w.books.close (.inst i) := by
  have start : Parting w.books i w todo ∨ Owing (w.books.close (.inst i)) w todo :=
    .inl ⟨tasks, rfl⟩
  have ends : (w.settle todo).books = w.books ∨ (w.settle todo).books = w.books.close (.inst i) :=
    (Parting.settling.settle_all start).imp (·.books) (·.owed)
  rcases ends with same | closed
  · split
    · exact same
    · next alone =>
        have free : (w.settle todo).books.backing (.inst i) = none := by
          rw [backing_inst, instances_settle_of_alone alone waiting]
          rfl
        rw [same] at free ⊢
        exact (Books.close_of_none free).symm
  · split
    · next owned =>
        have free : (w.settle todo).books.backing (.inst i) = none := by
          rw [closed]
          exact Books.backing_close.trans (if_pos rfl)
        rw [backing_inst, instances_settle_of_owned owned] at free
        rw [closed]
        exact Books.close_of_none free
    · exact closed

/-! ## Ends -/

theorem giveAll_dispose {b : Books} :
    b.giveAll (data.toList.map .dispose) = b.give ((data.bind (·.config?)).map Config.backing) := by
  cases data with
  | none => rfl
  | some data => rfl

theorem books_settle_dispose : (w.settle (data.toList.map .dispose)).books
    = w.books.give ((data.bind (·.config?)).map Config.backing) := by
  rw [books_settle, giveAll_dispose]
  intro i mem
  obtain ⟨_, -, e⟩ := List.mem_map.1 mem
  cases e

/-- Whatever else takes its place, the configuration of the instance is given back. -/
theorem books_setData (other : data.bind (·.config?) = none) :
    (w.setData i data).books = w.books.close (.inst i) := by
  have emptied : (w.modifyInstance i ({ · with data })).books = w.books.without (.inst i) :=
    books_modifyInstance_none fun _ => other
  unfold World.setData
  simp only
  rw [books_settle_dispose, emptied, Books.close]
  congr 1
  show _ = ((w.instances.get? i).bind (·.config?)).map _
  cases w.instances.get? i with
  | none => rfl
  | some x => rfl

theorem books_setContextData (other : data.bind (·.config?) = none) :
    (w.setContextData c data).books = w.books.close (.context c) := by
  have emptied : (w.modifyContext c ({ · with data })).books = w.books.without (.context c) :=
    books_modifyContext_none fun _ => other
  unfold World.setContextData
  simp only
  rw [books_settle_dispose, emptied, Books.close]
  congr 1
  show _ = ((w.contexts.get? c).bind (·.config?)).map _
  cases w.contexts.get? c with
  | none => rfl
  | some x => rfl

theorem books_uproot {x : Instance} :
    ((w.modifyInstance i ({ · with root := none })).settle x.uprooting).books = w.books :=
  (Level.settle Instance.light_uprooting).books.trans (books_modifyInstance fun _ _ => rfl)

theorem books_dissolveTree : (w.dissolveTree i).books = w.books := by
  unfold World.dissolveTree
  cases w.instances.get? i with
  | none => rfl
  | some x => exact (books_note rfl).trans books_uproot

/-- The teardown of the built-in type, whatever was done before. -/
theorem books_dissolveBuiltIn : (w.dissolveBuiltIn i).books = w.books.close (.inst i) := by
  have warned : ∀ p : Prop, ∀ [Decidable p],
      (if p then w.note .foreignData else w).books = w.books := by
    intro p _
    split
    · exact books_note rfl
    · rfl
  rw [dissolveBuiltIn_eq, books_note rfl, books_dissolveTree, books_setData rfl, warned]

/-- Does a teardown of the instance give its configuration back? It was not torn down before,
and its type is one that does so. -/
def tearsDown (w : World) (i : InstanceId) : Bool :=
  (w.instances.get? i).any fun x => !x.dying && decide (x.type.teardown = .withConfig)

theorem books_deactivate : (w.deactivate i).books
    = if w.tearsDown i then w.books.close (.inst i) else w.books := by
  unfold World.deactivate tearsDown
  cases hi : w.instances.get? i with
  | none => rfl
  | some x =>
      cases dying : x.dying with
      | true =>
          simp only [Option.any_some, dying]
          rfl
      | false =>
          have found : (w.instances.modify i ({ · with dying := true })).get? i
              = some { x with dying := true } := by
            rw [Table.get?_modify, if_pos rfl, hi]
            rfl
          have marked : ((w.modifyInstance i ({ · with dying := true })).note
              (.deactivating x.type.name)).books = w.books :=
            (books_note rfl).trans (books_modifyInstance fun _ _ => rfl)
          simp only [Option.any_some, dying]
          show (World.tearDown _ i).books = _
          unfold World.tearDown
          simp only [World.note, World.modifyInstance, found]
          cases x.type.teardown with
          | treeOnly => exact books_dissolveTree.trans marked
          | withConfig =>
              exact books_dissolveBuiltIn.trans (congrArg (Books.close · (.inst i)) marked)

end World

end Memfs
