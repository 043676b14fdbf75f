import Memfs.Proofs.Changes.Mounts

/-!
# What no operation disturbs

An operation on names, files or content may do as it likes with bindings and files. It makes
nodes, changes all of a node but its inode number, and removes nodes. With the host it has
little to do: it takes and gives back allocations, reads the clock, leaves notices, and draws
an inode number for each node that it makes. It never puts a device back, never allocates a
configuration and never gives one back, and it reads the clock forwards. What this comes to,
the numbers apart, is `Host.Still`; and a property that is kept by it, by the making of a node
and by the rest, is `Quiet`. One that does not look at nodes and numbers at all is `Blind`, and
so it is quiet.

Each operation is gone through as it is written, so that a failure is covered wherever it
comes. The work of letting go is no exception: as long as no instance is let go of and no
data is given back, letting go is a matter of nodes and bindings too.
-/

namespace Memfs

/-- The clock is the same and was read on, if it was read at all. -/
structure Clock.Onward (clock clock' : Clock) : Prop where
  reading : clock'.reading = clock.reading
  taken : clock.taken ≤ clock'.taken

namespace Clock.Onward

variable {clock clock' clock'' : Clock}

theorem refl : clock.Onward clock := ⟨rfl, Nat.le_refl _⟩

theorem trans (h : clock.Onward clock') (h' : clock'.Onward clock'') : clock.Onward clock'' :=
  ⟨h'.reading.trans h.reading, h.taken.trans h'.taken⟩

theorem read : clock.Onward clock.read.2 := ⟨rfl, Nat.le_succ _⟩

end Clock.Onward

namespace Host

variable {host host' host'' : Host} {kind : Resource}

/-- The devices that were put back, in the order in which that was noticed. -/
def releases (host : Host) : List (DeviceSort × String) :=
  host.journal.toList.filterMap Notice.release?

/-- The inode numbers that were drawn to make nodes, in the order in which that was noticed. -/
def draws (host : Host) : List Draw := host.journal.toList.filterMap Notice.draw?

/-- The clock was read on, no device was put back, the account of the configurations is as it
was, and what had no budget has none. -/
structure Onward (host host' : Host) : Prop where
  clock : host.clock.Onward host'.clock
  releases : host'.releases = host.releases
  configs : host'.ledger.config = host.ledger.config
  unlimited : ∀ kind, host.room kind = none → host'.room kind = none

/-- No inode number was drawn. -/
structure Undrawn (host host' : Host) : Prop where
  nextIno : host'.nextIno = host.nextIno
  draws : host'.draws = host.draws

/-- What an operation does to the host when it makes no node. -/
structure Still (host host' : Host) : Prop extends Onward host host', Undrawn host host'

theorem releases_note {notice : Notice} (h : notice.release? = none) :
    (host.note notice).releases = host.releases := by
  unfold releases note
  simp [h]

theorem draws_note {notice : Notice} :
    (host.note notice).draws = host.draws ++ notice.draw?.toList := by
  unfold draws note
  simp [List.filterMap_append, List.filterMap_cons]
  cases notice.draw? <;> rfl

theorem config_set {ledger : Ledger} {tally : Tally} (other : kind ≠ .config) :
    (ledger.set kind tally).config = ledger.config := by
  cases kind with
  | config => exact absurd rfl other
  | node | binding | page => rfl

/-- A charge uses up one of a budget, and sets none. -/
theorem unlimited_charged {tally : Tally} (charged : (host.ledger.get kind).charge = some tally)
    (other : Resource) (free : host.room other = none) :
    ({ host with ledger := host.ledger.set kind tally } : Host).room other = none := by
  unfold room at free ⊢
  rw [Ledger.get_set]
  split
  · next same =>
      rw [← same] at charged
      unfold Tally.charge at charged
      rw [free] at charged
      cases charged
      rfl
  · exact free

namespace Onward

theorem refl : host.Onward host := ⟨.refl, rfl, rfl, fun _ => id⟩

theorem trans (h : host.Onward host') (h' : host'.Onward host'') : host.Onward host'' where
  clock := h.clock.trans h'.clock
  releases := h'.releases.trans h.releases
  configs := h'.configs.trans h.configs
  unlimited kind free := h'.unlimited kind (h.unlimited kind free)

theorem note {notice : Notice} (h : notice.release? = none) : host.Onward (host.note notice) :=
  ⟨.refl, releases_note h, rfl, fun _ => id⟩

theorem drawIno : host.Onward host.drawIno.2 := ⟨.refl, rfl, rfl, fun _ => id⟩

end Onward

namespace Undrawn

theorem refl : host.Undrawn host := ⟨rfl, rfl⟩

theorem trans (h : host.Undrawn host') (h' : host'.Undrawn host'') : host.Undrawn host'' :=
  ⟨h'.nextIno.trans h.nextIno, h'.draws.trans h.draws⟩

theorem note {notice : Notice} (h : notice.draw? = none) : host.Undrawn (host.note notice) :=
  ⟨rfl, by rw [draws_note, h, Option.toList_none, List.append_nil]⟩

theorem acquire (kind : Resource) : host.Undrawn (host.acquire kind).2 := by
  unfold Host.acquire
  split
  · exact ⟨rfl, rfl⟩
  · exact .note rfl

theorem of_acquire {granted : Bool} (h : host.acquire kind = (granted, host')) :
    host.Undrawn host' := by
  have undrawn : host.Undrawn (host.acquire kind).2 := .acquire kind
  rwa [h] at undrawn

end Undrawn

namespace Still

theorem refl : host.Still host := ⟨.refl, .refl⟩

theorem trans (h : host.Still host') (h' : host'.Still host'') : host.Still host'' :=
  ⟨h.toOnward.trans h'.toOnward, h.toUndrawn.trans h'.toUndrawn⟩

theorem note {notice : Notice} (unreleased : notice.release? = none)
    (undrawn : notice.draw? = none) : host.Still (host.note notice) :=
  ⟨.note unreleased, .note undrawn⟩

theorem readClock : host.Still host.readClock.2 :=
  ⟨⟨.read, rfl, rfl, fun _ => id⟩, ⟨rfl, rfl⟩⟩

theorem acquire (kind : Resource) (other : kind ≠ .config) :
    host.Still (host.acquire kind).2 := by
  refine ⟨?_, .acquire kind⟩
  unfold Host.acquire
  split
  · next tally charged => exact ⟨.refl, rfl, config_set other, unlimited_charged charged⟩
  · exact .note rfl

theorem of_acquire {granted : Bool} (h : host.acquire kind = (granted, host'))
    (other : kind ≠ .config) : host.Still host' := by
  have still : host.Still (host.acquire kind).2 := .acquire kind other
  rwa [h] at still

theorem release (kind : Resource) (other : kind ≠ .config) {n : Nat} :
    host.Still (host.release kind n) :=
  ⟨⟨.refl, rfl, config_set other, fun _ free => room_release.trans free⟩, ⟨rfl, rfl⟩⟩

theorem acquireAll_go (other : kind ≠ .config) (n : Nat) :
    ∀ {taken : Nat} {host : Host}, host.Still (acquireAll.go kind taken n host).2 := by
  induction n with
  | zero => exact .refl
  | succ n ih =>
      intro taken host
      rw [acquireAll.go]
      split
      · next next acquired => exact (of_acquire acquired other).trans ih
      · next next refused => exact (of_acquire refused other).trans (.release _ other)

theorem write {map : PageMap} {offset : Nat} {src : Bytes} :
    host.Still (map.write host offset src).2 := by
  unfold PageMap.write
  split
  · exact .refl
  · split
    · exact .refl
    · have taken : host.Still
          (acquireAll.go .page 0 (map.missing offset src.size).length host).2 :=
        acquireAll_go Resource.noConfusion _
      split
      · next next acquired =>
          rw [Host.acquireAll] at acquired
          rw [acquired] at taken
          exact taken
      · next next refused =>
          rw [Host.acquireAll] at refused
          rw [refused] at taken
          exact taken

theorem resize {map : PageMap} {size : Nat} : host.Still (map.resize host size).2 :=
  .release .page nofun

end Still

end Host

/-- The step lets go of no instance and gives no data back. -/
def Task.Light : Task → Prop
  | .dispose _ => False
  | .letGo (.inst _) => False
  | _ => True

theorem Binding.light_owned {x : Binding} : ∀ task ∈ x.owned, task.Light := by
  intro task mem
  unfold Binding.owned at mem
  rcases List.mem_append.1 mem with mem | mem
  · obtain ⟨n, -, rfl⟩ := List.mem_map.1 mem
    trivial
  · obtain ⟨c, -, rfl⟩ := List.mem_map.1 mem
    trivial

theorem Binding.light_dissolution {x : Binding} : ∀ task ∈ x.dissolution, task.Light := by
  intro task mem
  obtain ⟨c, -, rfl | rfl | rfl⟩ := Binding.mem_dissolution.1 mem <;> trivial

theorem Instance.light_uprooting {x : Instance} : ∀ task ∈ x.uprooting, task.Light := by
  intro task mem
  obtain ⟨b, -, rfl | rfl | rfl⟩ := Instance.mem_uprooting.1 mem <;> trivial

theorem Task.light_bindings {owned : Option BindingId} :
    ∀ task ∈ owned.toList.map fun b => Task.letGo (.binding b), task.Light := by
  intro task mem
  obtain ⟨b, -, rfl⟩ := List.mem_map.1 mem
  trivial

/-- `P` is kept by whatever an operation does to a world. -/
structure Quiet (P : World → Prop) : Prop where
  host : ∀ {w : World} {host}, w.host.Still host → P w → P { w with host }
  modifyNode : ∀ {w : World} {n} {f : Node → Node}, (∀ x, (f x).ino = x.ino) → P w →
    P (w.modifyNode n f)
  eraseNode : ∀ {w : World} {n}, P w → P { w with nodes := w.nodes.erase n }
  newNode : ∀ {w : World} {home from? mode device}, P w →
    Action.Ends P (Action.newNode home from? mode device) w
  bindings : ∀ {w : World} {bindings}, P w → P { w with bindings }
  files : ∀ {w : World} {files}, P w → P { w with files }

/-- `P` looks at nothing that an operation changes. -/
structure Blind (P : World → Prop) : Prop where
  host : ∀ {w : World} {host}, w.host.Onward host → P w → P { w with host }
  nodes : ∀ {w : World} {nodes}, P w → P { w with nodes }
  bindings : ∀ {w : World} {bindings}, P w → P { w with bindings }
  files : ∀ {w : World} {files}, P w → P { w with files }

namespace Blind

open Memfs.Action

variable {P : World → Prop} {w : World}

theorem newNode (p : Blind P) (h : P w) {home : InstanceId} {from? : Option NodeId} {mode : Mode}
    {device : DeviceNumber} : Ends P (Action.newNode home from? mode device) w := by
  have still : ∀ {v : World} {host}, v.host.Still host → P v → P { v with host } :=
    fun still h => p.host still.toOnward h
  have taken : Ends P (onHost (·.acquire .node)) w := .total (still (.acquire .node nofun) h)
  refine .bind taken fun granted _ _ h => .ite (fun _ => ?_) fun _ =>
    .bind (.modify (still (.note rfl rfl) h)) fun _ _ _ h => .stop h
  refine .bind (.total (p.host .drawIno h)) fun ino _ _ h =>
    .bind (.total (still .readClock h)) fun time _ _ h => .read h .get fun v _ => ?_
  simp only
  split
  · exact .bind (.modify (p.host (.note rfl) h)) fun _ _ _ h =>
      .bind (.modify (still (.release .node nofun) h)) fun _ _ _ h => .throw h _
  · exact .bind (.modify (p.host (.note rfl) h)) fun _ _ _ h =>
      .bind (.modify (p.nodes h)) fun _ _ _ h => .pure h _

theorem quiet (p : Blind P) : Quiet P where
  host still h := p.host still.toOnward h
  modifyNode _ h := p.nodes h
  eraseNode h := p.nodes h
  newNode h := p.newNode h
  bindings h := p.bindings h
  files h := p.files h

end Blind

namespace Quiet

open World Memfs.Action

variable {P : World → Prop} {w : World} {α : Type} {n : NodeId} {b dir : BindingId} {f : FileId}
  {name : String}

/-! ## Letting go -/

theorem note (p : Quiet P) (h : P w) {notice : Notice} (unreleased : notice.release? = none)
    (undrawn : notice.draw? = none) : P (w.note notice) :=
  p.host (.note unreleased undrawn) h

theorem unpin (p : Quiet P) (h : P w) : P (w.unpin b) := by
  unfold World.unpin
  split
  · exact h
  · split
    · exact p.note h rfl rfl
    · exact p.bindings h

theorem evict (p : Quiet P) (h : P w) {x : Node} : P (w.evict n x) :=
  p.eraseNode (p.host (((Host.Still.note rfl rfl).trans (.release .page nofun)).trans
    (.release .node nofun)) h)

theorem removeBinding (p : Quiet P) (h : P w) : P (w.removeBinding b) :=
  p.bindings (p.host (.release .binding nofun) h)

theorem settling (p : Quiet P) :
    Settling fun w todo => P w ∧ ∀ task ∈ todo, Task.Light task where
  disposed h := (h.2 _ List.mem_cons_self).elim
  unpinned h := ⟨p.unpin h.1, (List.forall_mem_cons.1 h.2).2⟩
  dissolved _ h := ⟨p.bindings h.1, fun task mem => (List.mem_append.1 mem).elim
    (Binding.light_dissolution task) ((List.forall_mem_cons.1 h.2).2 task)⟩
  absent _ h := ⟨h.1, (List.forall_mem_cons.1 h.2).2⟩
  kept _ h := ⟨h.1, (List.forall_mem_cons.1 h.2).2⟩
  evicted _ _ h := ⟨p.evict h.1, (List.forall_mem_cons.1 h.2).2⟩
  removedBinding _ _ h := ⟨p.removeBinding h.1,
    fun task mem => (List.mem_append.1 mem).elim (Binding.light_owned task)
      ((List.forall_mem_cons.1 h.2).2 task)⟩
  removedInstance _ _ h := (h.2 _ List.mem_cons_self).elim

theorem settle (p : Quiet P) (h : P w) {tasks : List Task} (light : ∀ task ∈ tasks, task.Light) :
    P (w.settle tasks) :=
  (p.settling.settle_all ⟨h, light⟩).1

theorem letGo (p : Quiet P) (h : P w) {ref : Ref} (light : (Task.letGo ref).Light) :
    P (w.settle [.letGo ref]) :=
  p.settle h fun _ mem => List.mem_singleton.1 mem ▸ light

theorem letGoAll (p : Quiet P) (h : P w) {owned : Option α} {ref : α → Ref}
    (light : ∀ a, (Task.letGo (ref a)).Light) :
    P (w.settle (owned.toList.map fun a => .letGo (ref a))) :=
  p.settle h fun task mem => by
    obtain ⟨a, -, rfl⟩ := List.mem_map.1 mem
    exact light a

/-! ## Parts of operations -/

theorem now (p : Quiet P) (h : P w) : P (w.now n).2 := p.host .readClock h

theorem written (p : Quiet P) (h : P w) {time : Timestamp} :
    P (w.modifyNode n (·.written time)) :=
  p.modifyNode (fun _ => rfl) h

theorem changed (p : Quiet P) (h : P w) {time : Timestamp} :
    P (w.modifyNode n (·.changed time)) :=
  p.modifyNode (fun _ => rfl) h

theorem addLink (p : Quiet P) (h : P w) : P (w.addLink n) := p.modifyNode (fun _ => rfl) h

theorem dropLink (p : Quiet P) (h : P w) : P (w.dropLink n) := by
  unfold World.dropLink
  split
  · exact h
  · simp only
    split
    · exact p.modifyNode (fun _ => rfl) (p.note h rfl rfl)
    · exact p.modifyNode (fun _ => rfl) h

theorem detach (p : Quiet P) (h : P w) : P (w.detach b) := by
  unfold World.detach
  split
  · exact h
  · split
    · exact p.bindings h
    · exact h

theorem enter (p : Quiet P) (h : P w) : P (w.enter dir name b) :=
  p.letGoAll (p.bindings h) fun _ => trivial

theorem instantiate (p : Quiet P) (h : P w) : P (w.instantiate b n) := by
  have bound : P ((w.modifyBinding b ({ · with node := some n })).settle
      ((w.nodeOf b).toList.map fun n => .letGo (.node n))) :=
    p.letGoAll (p.bindings h) fun _ => trivial
  unfold World.instantiate
  simp only
  split
  · exact p.enter bound
  · exact bound

theorem moveBinding (p : Quiet P) (h : P w) : P (w.moveBinding b dir name) :=
  p.enter (p.bindings (p.detach h))

theorem exchangeBindings (p : Quiet P) (h : P w) {a : BindingId} :
    P (w.exchangeBindings a b) := by
  unfold World.exchangeBindings
  split
  · exact p.enter (p.enter (p.bindings (p.bindings (p.detach (p.detach h)))))
  · exact h

theorem nowEnds (p : Quiet P) (h : P w) : Ends P (Action.now n) w := .total (p.now h)

/-- A reading of the clock is stored in a node. -/
theorem stamp (p : Quiet P) (h : P w) {change : Timestamp → Node → Node} {m : NodeId}
    (same : ∀ time x, (change time x).ino = x.ino) :
    Ends P (do
      let time ← Action.now n
      modify (·.modifyNode m (change time))) w :=
  .bind (p.nowEnds h) fun time _ _ h => .modify (p.modifyNode (same time) h)

theorem orLetGo (p : Quiet P) {x : Action α} (h : Ends P x w) {ref : Ref}
    (light : (Task.letGo ref).Light) : Ends P (x.orLetGo ref) w :=
  .onFailure h.ok fun failed => p.letGo (h.error failed) light

theorem newBinding (p : Quiet P) (h : P w) : Ends P (Action.newBinding dir name) w where
  ok done := by
    obtain ⟨host, acquired, -, rfl⟩ := newBinding_eq_ok.1 done
    exact p.bindings (p.host (.of_acquire acquired nofun) h)
  error failed := by
    obtain ⟨host, refused, -, rfl⟩ := newBinding_eq_error.1 failed
    exact p.host (.of_acquire refused nofun) h

theorem storeBytes (p : Quiet P) (h : P w) {offset : Nat} {src : Bytes} :
    Ends P (Action.storeBytes n offset src) w := by
  refine .read h (reads_node n) fun node _ =>
    .bind (.total (p.host .write h)) fun outcome _ _ h => ?_
  cases outcome with
  | error e => exact .throw h e
  | ok content => exact .modify (p.modifyNode (fun _ => rfl) h)

theorem storeTarget (p : Quiet P) (h : P w) {closed : Bytes} :
    Ends P (Action.storeTarget n closed) w :=
  .ite (fun _ => .stop h) fun _ => .bind (p.storeBytes h) fun _ _ _ h =>
    .modify (p.modifyNode (fun _ => rfl) h)

/-! ## Making names -/

theorem place (p : Quiet P) (h : P w) {d : NodeId} : Ends P (Action.place d b n) w :=
  .bind (.modify (p.bindings (p.instantiate h))) fun _ _ _ h => p.stamp h fun _ _ => rfl

theorem makeAt (p : Quiet P) (h : P w) {d : NodeId} {mode : Mode} {device : DeviceNumber} :
    Ends P (Action.makeAt d b mode device) w :=
  .read h (reads_homeOf d) fun _ _ => .bind (p.newNode h) fun _ _ _ h => p.place h

theorem makeSymlinkAt (p : Quiet P) (h : P w) {d : NodeId} {target : String} :
    Ends P (Action.makeSymlinkAt d b target) w := by
  refine .read h (reads_homeOf d) fun _ _ => .bind (p.newNode h) fun n u _ h =>
    .bind (.onFailure (p.storeTarget h).ok fun failed => ?_) fun _ _ _ h => p.place h
  exact p.letGo (p.note ((p.storeTarget h).error failed) rfl rfl) trivial

theorem linkAt (p : Quiet P) (h : P w) {old : BindingId} {d : NodeId} :
    Ends P (Action.linkAt old d b) w :=
  .read h (reads_boundNode old) fun _ _ => .bind (p.nowEnds h) fun _ _ _ h =>
    .modify (p.bindings (p.instantiate (p.addLink (p.written (p.changed h)))))

theorem makeName (p : Quiet P) (h : P w) {d : NodeId} {make : NodeId → BindingId → Action Unit}
    (hmake : ∀ {b u}, P u → Ends P (make d b) u) : Ends P (Action.makeName dir d name make) w := by
  have fresh : Ends P (freshBinding dir name) w :=
    .read h .get fun _ _ => .ite (fun _ => .stop h) fun _ => p.newBinding h
  exact .bind fresh fun _ _ _ h => .bind (p.orLetGo (hmake h) trivial) fun _ _ _ h => .pure h _

theorem create (p : Quiet P) (h : P w) {mode : Mode} : Ends P (Action.create dir name mode) w :=
  .read h (.test _) fun _ _ => .read h (reads_directoryOf dir) fun _ _ => p.makeName h fun h => p.makeAt h

theorem mkdir (p : Quiet P) (h : P w) {mode : Mode} : Ends P (Action.mkdir dir name mode) w :=
  .read h (.test _) fun _ _ => .read h (reads_directoryOf dir) fun _ _ =>
    p.makeName h fun h => .bind (p.makeAt h) fun _ _ _ h => .modify (p.addLink h)

theorem mknod (p : Quiet P) (h : P w) {mode : Mode} {device : DeviceNumber} :
    Ends P (Action.mknod dir name mode device) w :=
  .read h (.test _) fun _ _ => .read h (reads_directoryOf dir) fun _ _ =>
    .ite (fun _ => p.makeName h fun h => p.makeAt h) fun _ => .ite (fun _ => p.makeName h fun h => p.makeAt h) fun _ =>
    .ite (fun _ => .throw h _) fun _ => .throw h _

theorem symlink (p : Quiet P) (h : P w) {target : String} :
    Ends P (Action.symlink dir name target) w :=
  .read h (.test _) fun _ _ => .ite (fun _ => .stop h) fun _ =>
    .read h (reads_directoryOf dir) fun _ _ => p.makeName h fun h => p.makeSymlinkAt h

theorem link (p : Quiet P) (h : P w) {old : BindingId} : Ends P (Action.link old dir name) w :=
  .read h (.test _) fun _ _ => .read h (reads_boundNode old) fun _ _ => .read h .get fun _ _ =>
    .ite (fun _ => .stop h) fun _ => .read h (reads_directoryOf dir) fun _ _ =>
    .read h (reads_homeOf _) fun _ _ => .read h (reads_homeOf _) fun _ _ =>
    .ite (fun _ => .stop h) fun _ => .read h (reads_node _) fun _ _ =>
    .ite (fun _ => .stop h) fun _ => p.makeName h fun h => p.linkAt h

/-! ## Removing and moving names -/

variable {dirA dirB : BindingId} {a : BindingId} {nodeA nodeB : NodeId} {flags : RenameFlags}

theorem unlinkAt (p : Quiet P) (h : P w) {d : NodeId} : Ends P (Action.unlinkAt d b) w :=
  .read h (reads_boundNode b) fun _ _ => .bind (p.nowEnds h) fun _ _ _ h =>
    .modify (p.unpin (p.detach (p.dropLink (p.written (p.changed h)))))

theorem rmdirAt (p : Quiet P) (h : P w) {d : NodeId} : Ends P (Action.rmdirAt d b) w :=
  .read h .get fun _ _ => .ite (fun _ => .stop h) fun _ => .read h (reads_boundNode b) fun _ _ =>
    .bind (.modify (p.dropLink h)) fun _ _ _ h => .bind (p.unlinkAt h) fun _ _ _ h =>
      .modify (p.dropLink h)

theorem unlink (p : Quiet P) (h : P w) : Ends P (Action.unlink dir name) w :=
  .read h (.test _) fun _ _ => .read h (reads_directoryOf dir) fun _ _ =>
    .read h (reads_takenBinding dir name) fun _ _ => .read h .get fun _ _ =>
    .ite (fun _ => .stop h) fun _ => .bind (p.unlinkAt h) fun _ _ _ h =>
      .modify (p.letGo h trivial)

theorem rmdir (p : Quiet P) (h : P w) : Ends P (Action.rmdir dir name) w := by
  unfold Action.rmdir
  exact .ite (fun _ => .stop h) fun _ => .ite (fun _ => .stop h) fun _ =>
    .read h (.test _) fun _ _ => .read h (reads_directoryOf dir) fun _ _ =>
    .read h (reads_takenBinding dir name) fun _ _ => .read h .get fun _ _ => .ite
      (fun _ => .bind (p.rmdirAt h) fun _ _ _ h => .modify (p.letGo h trivial)) fun _ => .stop h

theorem stampRename (p : Quiet P) (h : P w) :
    Ends P (Action.stampRename nodeA a nodeB b) w := by
  have marked : ∀ {u : World} {c : BindingId} {time : Timestamp}, P u →
      P ((u.nodeOf c).elim u (u.modifyNode · (·.changed time))) := by
    intro u c time h
    cases u.nodeOf c with
    | none => exact h
    | some m => exact p.changed h
  exact .bind (p.nowEnds h) fun _ _ _ h => .modify (marked (marked (p.written (p.written h))))

theorem exchangeAt (p : Quiet P) (h : P w) : Ends P (Action.exchangeAt nodeA a nodeB b) w := by
  have shifted : ∀ {d e : NodeId}, Ends P (do
      modify fun w : World => (w.dropLink d).addLink e
      Action.stampRename nodeA a nodeB b) w := fun {_ _} =>
    .bind (.modify (p.addLink (p.dropLink h))) fun _ _ _ h => p.stampRename h
  exact .read h (reads_boundNode a) fun _ _ => .read h (reads_boundNode b) fun _ _ =>
    .read h .get fun _ _ => .ite (fun _ => .ite (fun _ => shifted) fun _ => shifted)
      fun _ => p.stampRename h

theorem replaceAt (p : Quiet P) (h : P w) : Ends P (Action.replaceAt nodeA a nodeB b) w := by
  refine .read h (reads_boundNode a) fun source _ => .read h .get fun u _ => ?_
  have removed : ∀ {u : World}, P u → Ends P (do
      Action.unlinkAt nodeB b
      Action.stampRename nodeA a nodeB b) u :=
    fun h => .bind (p.unlinkAt h) fun _ _ _ h => p.stampRename h
  cases u.nodeOf b with
  | none =>
      exact .ite (fun _ => .bind (.modify (p.addLink (p.dropLink h))) fun _ _ _ h => p.stampRename h)
        fun _ => p.stampRename h
  | some target =>
      exact .ite (fun _ => .stop h) fun _ => .ite
        (fun _ => .bind (.modify (p.dropLink (p.dropLink h))) fun _ _ _ h => removed h)
        fun _ => removed h

theorem renameAt (p : Quiet P) (h : P w) :
    Ends P (Action.renameAt nodeA a nodeB b flags) w := by
  unfold Action.renameAt
  exact .ite (fun _ => .stop h) fun _ => .ite (fun _ => p.exchangeAt h) fun _ => p.replaceAt h

theorem moveName (p : Quiet P) (h : P w) {source : NodeId} {target : Option BindingId} :
    Ends P (Action.moveName nodeA a source dirB nodeB name target flags) w := by
  have onto : ∀ {u : World} {b}, P u → Ends P (do
      (Action.renameAt nodeA a nodeB b flags).orLetGo (.binding b)
      modify fun w => (w.moveBinding a dirB name).settle [.letGo (.binding b)]) u :=
    fun h => .bind (p.orLetGo (p.renameAt h) trivial) fun _ _ _ h =>
      .modify (p.letGo (p.moveBinding h) trivial)
  refine .read h .get fun _ _ => .ite (fun _ => .stop h) fun _ => ?_
  cases target with
  | none => exact .bind (p.newBinding h) fun _ _ _ h => onto h
  | some b =>
      exact .ite (fun _ => .stop h) fun _ => .ite (fun _ => .stop h) fun _ =>
        .ite (fun _ => .stop h) fun _ => .bind (.pure h _) fun _ _ _ h => onto h

theorem rename (p : Quiet P) (h : P w) {nameA nameB : String} :
    Ends P (Action.rename dirA nameA dirB nameB flags) w := by
  refine .read h (.test _) fun _ _ => .read h (.test _) fun _ _ => .ite (fun _ => .stop h) fun _ =>
    .read h (reads_directoryOf dirA) fun _ _ => .read h (reads_directoryOf dirB) fun _ _ =>
    .read h (reads_homeOf _) fun _ _ => .read h (reads_homeOf _) fun _ _ =>
    .ite (fun _ => .stop h) fun _ => .read h (reads_takenBinding dirA nameA) fun a _ =>
    .read h .get fun _ _ => .read h (reads_boundNode a) fun _ _ => .read h .get fun _ _ =>
    .ite (fun _ => .pure h _) fun _ => .ite (fun _ => ?_) fun _ => p.moveName h
  exact .read h (.require _ _) fun _ _ => .read h .get fun _ _ => .ite (fun _ => .stop h) fun _ =>
    .bind (p.renameAt h) fun _ _ _ h => .modify (p.exchangeBindings h)

/-! ## Content and files -/

variable {offset len size : Nat} {src : Bytes} {opening : OpenFlags}

theorem readContent (p : Quiet P) (h : P w) : Ends P (Action.readContent n offset len) w :=
  .read h (reads_node n) fun _ _ => .bind (p.nowEnds h) fun _ _ _ h =>
    .bind (.modify (p.modifyNode (fun _ => rfl) h)) fun _ _ _ h => .pure h _

theorem writeContent (p : Quiet P) (h : P w) : Ends P (Action.writeContent n offset src) w :=
  .read h (reads_node n) fun _ _ => .ite (fun _ => .stop h) fun _ => .read h .get fun _ _ =>
    .ite (fun _ => .stop h) fun _ => .bind (p.storeBytes h) fun _ _ _ h =>
    .bind (p.nowEnds h) fun _ _ _ h => .bind (.modify (p.written h)) fun _ _ _ h => .pure h _

theorem resizeContent (p : Quiet P) (h : P w) : Ends P (Action.resizeContent n size) w :=
  .read h (reads_node n) fun _ _ => .read h .get fun _ _ => .ite (fun _ => .stop h) fun _ =>
    .bind (.total (p.host .resize h)) fun _ _ _ h =>
    .bind (.modify (p.modifyNode (fun _ => rfl) h)) fun _ _ _ h =>
      p.stamp h fun _ _ => rfl

theorem readdir (p : Quiet P) (h : P w) : Ends P (Action.readdir dir) w :=
  .read h (reads_boundNode dir) fun _ _ => .read h (reads_node _) fun _ _ =>
    .ite (fun _ => .stop h) fun _ => .read h .get fun _ _ => .bind (p.nowEnds h) fun _ _ _ h =>
    .bind (.modify (p.modifyNode (fun _ => rfl) h)) fun _ _ _ h => .pure h _

theorem enterFile (p : Quiet P) (h : P w) {file : OpenFile} : Ends P (Action.enterFile file) w :=
  .total (p.files h)

theorem seek (p : Quiet P) (h : P w) {position : Nat} : Ends P (Action.seek f position) w :=
  .modify (p.files h)

theorem readAt (p : Quiet P) (h : P w) : Ends P (Action.readAt f offset len) w :=
  .read h (reads_contentNode f _) fun _ _ => p.readContent h

theorem read (p : Quiet P) (h : P w) : Ends P (Action.read f len) w :=
  .read h (reads_file f) fun _ _ => .bind (p.readAt h) fun _ _ _ h =>
    .bind (p.seek h) fun _ _ _ h => .pure h _

theorem writeAt (p : Quiet P) (h : P w) : Ends P (Action.writeAt f offset src) w :=
  .read h (reads_contentNode f _) fun _ _ => p.writeContent h

theorem write (p : Quiet P) (h : P w) : Ends P (Action.write f src) w := by
  refine .read h (reads_file f) fun opened _ => ?_
  have written : ∀ offset, Ends P (do
      let written ← Action.writeAt f offset src
      Action.seek f (offset + written)
      return written : Action Nat) w := fun offset =>
    .bind (p.writeAt h) fun _ _ _ h => .bind (p.seek h) fun _ _ _ h => .pure h _
  simp only
  split
  · exact .read h (reads_fileNode f) fun _ _ => .read h (reads_node _) fun _ _ =>
      .read h (.pure _) fun _ _ => written _
  · exact .read h (.pure _) fun _ _ => written _

theorem setLength (p : Quiet P) (h : P w) : Ends P (Action.setLength f size) w :=
  .read h (reads_contentNode f _) fun _ _ => p.resizeContent h

theorem openFile (p : Quiet P) (h : P w) : Ends P (Action.openFile b opening) w := by
  refine .read h (reads_boundNode b) fun n _ => .read h (reads_node n) fun node _ => ?_
  cases node.kind with
  | directory => exact .ite (fun _ => .stop h) fun _ => p.enterFile h
  | regular =>
      exact .ite (fun _ => .ite (fun _ => .bind (p.resizeContent h) fun _ _ _ h => p.enterFile h)
        fun _ => .stop h) fun _ => p.enterFile h
  | symlink | special => exact p.enterFile h

theorem makeUnnamedAt (p : Quiet P) (h : P w) {d : NodeId} {mode : Mode} :
    Ends P (Action.makeUnnamedAt d f mode) w := by
  have parted : ∀ {u : World} {before : Option NodeId}, P u →
      P (u.settle (before.toList.map fun n => .letGo (.node n))) :=
    fun h => p.letGoAll h fun _ => trivial
  exact .read h (reads_homeOf d) fun _ _ => .bind (p.newNode h) fun n _ _ h =>
    .bind (.modify (p.dropLink h)) fun _ _ _ h => .read h (reads_node n) fun _ _ =>
    .read h .get fun _ _ => .read h (.require _ _) fun _ _ => .read h .get fun _ _ =>
    .modify (parted (p.files (parted (p.bindings h))))

theorem openUnnamed (p : Quiet P) (h : P w) {mode : Mode} :
    Ends P (Action.openUnnamed dir mode opening) w := by
  refine .read h (reads_directoryOf dir) fun d _ => .ite (fun _ => ?_) fun _ => .stop h
  refine .bind (p.newBinding h) fun b _ _ h => .bind (p.enterFile h) fun f _ _ h =>
    .bind (.onFailure (p.makeUnnamedAt h).ok fun failed => ?_) fun _ _ _ h =>
    .ite (fun _ => .pure h _) fun _ => .read h (reads_boundNode _) fun _ _ =>
      .bind (.modify (p.modifyNode (fun _ => rfl) h)) fun _ _ _ h => .pure h _
  exact p.letGo (p.files ((p.makeUnnamedAt h).error failed)) trivial

theorem closeFile (p : Quiet P) (h : P w) : Ends P (Action.closeFile f) w := by
  refine .modify ?_
  cases w.files.get? f with
  | none => exact h
  | some file =>
      refine p.settle (p.files h) fun task mem => ?_
      rcases List.mem_cons.1 mem with rfl | mem
      · trivial
      · obtain ⟨n, -, rfl⟩ := List.mem_map.1 mem
        trivial

/-- No operation disturbs the property, whether it fails or not. -/
theorem operate (p : Quiet P) (h : P w) (op : Operation) : Ends P op.act w := by
  cases op with
  | create dir name mode => exact (p.create h).discard
  | mkdir dir name mode => exact (p.mkdir h).discard
  | mknod dir name mode device => exact (p.mknod h).discard
  | symlink dir name target => exact (p.symlink h).discard
  | openUnnamed dir mode flags => exact (p.openUnnamed h).discard
  | link old dir name => exact (p.link h).discard
  | unlink dir name => exact p.unlink h
  | rmdir dir name => exact p.rmdir h
  | rename dirA nameA dirB nameB flags => exact p.rename h
  | openFile b flags => exact (p.openFile h).discard
  | readdir dir => exact (p.readdir h).discard
  | read f len => exact (p.read h).discard
  | readAt f offset len => exact (p.readAt h).discard
  | write f src => exact (p.write h).discard
  | writeAt f offset src => exact (p.writeAt h).discard
  | seek f position => exact p.seek h
  | setLength f size => exact p.setLength h

end Quiet

end Memfs
