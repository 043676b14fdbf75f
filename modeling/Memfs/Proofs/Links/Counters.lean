import Memfs.Proofs.Effects.Mounts
import Memfs.Proofs.Effects.Files
import Memfs.Proofs.Links.Shape

/-!
# What the counters show

`Counters w number held` says of each node that its counter of links shows `number`, and
of each binding that its counter of pins shows one if it is `held` and nothing if it is
not, and that no counter was ever to be lowered below nothing. Each change of the world
either leaves the counters alone or moves one of them by one.

The counter of links has 32 bits. It is compared modulo its range, so that raising it
needs no condition; lowering it does, for a counter that shows nothing stays where it
is.
-/

namespace Memfs

structure Counters (w : World) (number : NodeId → Int) (held : BindingId → Prop) : Prop where
  links : ∀ {n node}, w.nodes.get? n = some node → (node.links.toNat : Int) = number n % 2 ^ 32
  pinned : ∀ {b x}, w.bindings.get? b = some x → held b → x.pins = 1
  unpinned : ∀ {b x}, w.bindings.get? b = some x → ¬ held b → x.pins = 0
  /-- No counter was found at zero when it was to be lowered. -/
  quiet : w.host.misses = 0

/-- The step lets go of an object or gives data back, and unpins nothing. -/
def Task.Calm : Task → Prop
  | .letGo _ | .dispose _ => True
  | .dissolve _ | .unpin _ => False

theorem Binding.calm_owned {x : Binding} : ∀ task ∈ x.owned, task.Calm := by
  intro task h
  unfold Binding.owned at h
  rcases List.mem_append.1 h with h | h
  · obtain ⟨n, -, rfl⟩ := List.mem_map.1 h
    trivial
  · obtain ⟨c, -, rfl⟩ := List.mem_map.1 h
    trivial

theorem Instance.calm_owned {x : Instance} : ∀ task ∈ x.owned, task.Calm := by
  intro task h
  unfold Instance.owned at h
  rcases List.mem_append.1 h with h | h
  · obtain ⟨b, -, rfl⟩ := List.mem_map.1 h
    trivial
  · obtain ⟨data, -, rfl⟩ := List.mem_map.1 h
    trivial

/-- Giving data back is no matter of counters. -/
theorem World.alike_disposeData {w : World} (data : PrivateData) :
    w.host.Alike (w.disposeData data).host ∧ (w.disposeData data).nodes = w.nodes ∧
      (w.disposeData data).bindings = w.bindings ∧
      (w.disposeData data).instances = w.instances := by
  obtain ⟨host, puts, alike, e⟩ := w.disposeData_eq data
  rw [e]
  exact ⟨alike, rfl, rfl, rfl⟩

namespace Counters

open World

variable {w w' : World} {l : NodeId → Int} {p : BindingId → Prop} {n m : NodeId} {b : BindingId}

theorem congr {l' : NodeId → Int} {p' : BindingId → Prop} (c : Counters w l p)
    (links : ∀ n, w.nodes.has n = true → l' n = l n) (pins : ∀ b, p' b ↔ p b) :
    Counters w l' p' where
  links h := by
    rw [links _ (Table.has_of_get? h)]
    exact c.links h
  pinned h hp := c.pinned h ((pins _).1 hp)
  unpinned h hp := c.unpinned h (mt (pins _).2 hp)
  quiet := c.quiet

/-- What is there has the counters that it had. -/
theorem of_tables (c : Counters w l p)
    (nodes : ∀ {n x}, w'.nodes.get? n = some x →
      ∃ y, w.nodes.get? n = some y ∧ x.links = y.links)
    (bindings : ∀ {b x}, w'.bindings.get? b = some x →
      ∃ y, w.bindings.get? b = some y ∧ x.pins = y.pins)
    (misses : w'.host.misses = w.host.misses) : Counters w' l p where
  links h := by
    obtain ⟨y, hy, e⟩ := nodes h
    rw [e]
    exact c.links hy
  pinned h hp := by
    obtain ⟨y, hy, e⟩ := bindings h
    exact e.trans (c.pinned hy hp)
  unpinned h hp := by
    obtain ⟨y, hy, e⟩ := bindings h
    exact e.trans (c.unpinned hy hp)
  quiet := misses.trans c.quiet

theorem onHost (c : Counters w l p) {host : Host} (alike : w.host.Alike host) :
    Counters { w with host } l p :=
  ⟨c.links, c.pinned, c.unpinned, alike.misses.trans c.quiet⟩

theorem now (c : Counters w l p) : Counters (w.now n).2 l p := c.onHost ⟨rfl, rfl, rfl⟩

theorem unchanged (c : Counters w l p) (u : Unchanged w w') : Counters w' l p :=
  c.of_tables (fun h => ⟨_, (u.nodes _).symm.trans h, rfl⟩)
    (fun h => ⟨_, (u.bindings _).symm.trans h, rfl⟩) u.alike.misses

/-! ## Counters that stay -/

theorem modifyNode (c : Counters w l p) {g : Node → Node} (same : ∀ x, (g x).links = x.links) :
    Counters (w.modifyNode n g) l p := by
  refine c.of_tables (fun {m x} h => ?_) (fun h => ⟨_, h, rfl⟩) rfl
  rcases Table.get?_of_modify h with ⟨-, y, hy, rfl⟩ | ⟨-, h⟩
  · exact ⟨y, hy, same y⟩
  · exact ⟨x, h, rfl⟩

theorem modifyBinding (c : Counters w l p) {g : Binding → Binding}
    (same : ∀ x, (g x).pins = x.pins) : Counters (w.modifyBinding b g) l p := by
  refine c.of_tables (fun h => ⟨_, h, rfl⟩) (fun {d x} h => ?_) rfl
  rcases Table.get?_of_modify h with ⟨-, y, hy, rfl⟩ | ⟨-, h⟩
  · exact ⟨y, hy, same y⟩
  · exact ⟨x, h, rfl⟩

theorem touch (c : Counters w l p) : Counters (w.touch n) l p := by
  unfold World.touch
  refine c.now.modifyNode ?_
  exact fun _ => rfl

theorem touchWith (c : Counters w l p) : Counters (w.touchWith n m) l p := by
  unfold World.touchWith
  refine (c.now.modifyNode ?_).modifyNode ?_
  · exact fun _ => rfl
  · exact fun _ => rfl

theorem markChanged (c : Counters w l p) {time : Timestamp} :
    Counters (w.markChanged b time) l p := by
  unfold World.markChanged
  cases w.nodeOf b with
  | none => exact c
  | some n => exact c.modifyNode fun _ => rfl

theorem touchRenamed (c : Counters w l p) {a : BindingId} :
    Counters (w.touchRenamed n a m b) l p := by
  unfold World.touchRenamed
  refine ((c.now.modifyNode ?_).modifyNode ?_).markChanged.markChanged
  · exact fun _ => rfl
  · exact fun _ => rfl

theorem detach (c : Counters w l p) : Counters (w.detach b) l p := by
  unfold World.detach
  split
  · exact c
  · split
    · exact c.modifyBinding fun _ => rfl
    · exact c

/-- Letting go takes objects away and leaves the counters of the others. -/
theorem settle (c : Counters w l p) {tasks : List Task} (calm : ∀ task ∈ tasks, task.Calm) :
    Counters (w.settle tasks) l p := by
  have step : Settling fun v todo => Counters v l p ∧ ∀ task ∈ todo, task.Calm := {
    disposed := fun {v data _} h => by
      obtain ⟨alike, nodes, bindings, -⟩ := v.alike_disposeData data
      refine ⟨h.1.of_tables (fun hx => ⟨_, nodes ▸ hx, rfl⟩) (fun hx => ⟨_, bindings ▸ hx, rfl⟩)
        alike.misses, fun task mem => h.2 task (List.mem_cons_of_mem _ mem)⟩
    unpinned := fun h => (h.2 _ List.mem_cons_self).elim
    dissolved := fun _ h => (h.2 _ List.mem_cons_self).elim
    absent := fun _ h => (h.2 _ List.mem_cons_self).elim
    kept := fun _ h => ⟨h.1, fun task mem => h.2 task (List.mem_cons_of_mem _ mem)⟩
    evicted := fun {v n node _} _ _ h => by
      have evicted : v.host.Alike (v.evict n node).host :=
        (Host.Alike.trans (.note rfl) .released).trans .released
      exact ⟨h.1.of_tables (fun hx => ⟨_, Table.get?_of_erase hx, rfl⟩) (fun hx => ⟨_, hx, rfl⟩)
        evicted.misses, fun task mem => h.2 task (List.mem_cons_of_mem _ mem)⟩
    removedBinding := fun _ _ h => by
      refine ⟨h.1.of_tables (fun hx => ⟨_, hx, rfl⟩) (fun hx => ⟨_, Table.get?_of_erase hx, rfl⟩)
        rfl, fun task mem => ?_⟩
      exact (List.mem_append.1 mem).elim (Binding.calm_owned task) fun mem =>
        h.2 task (List.mem_cons_of_mem _ mem)
    removedInstance := fun _ _ h =>
      ⟨⟨h.1.links, h.1.pinned, h.1.unpinned, h.1.quiet⟩, fun task mem =>
        (List.mem_append.1 mem).elim (Instance.calm_owned task) fun mem =>
          h.2 task (List.mem_cons_of_mem _ mem)⟩ }
  exact (step.settle_all ⟨c, calm⟩).1

theorem letGoAll {α : Type} {owned : Option α} {ref : α → Ref} (c : Counters w l p) :
    Counters (w.settle (owned.toList.map fun a => .letGo (ref a))) l p :=
  c.settle fun task mem => by
    obtain ⟨a, -, rfl⟩ := List.mem_map.1 mem
    trivial

theorem enter (c : Counters w l p) {d : BindingId} {name : String} :
    Counters (w.enter d name b) l p := by
  unfold World.enter
  refine (c.modifyBinding ?_).letGoAll
  exact fun _ => rfl

theorem readdress (c : Counters w l p) {d : BindingId} {name : String} :
    Counters (w.readdress b d name) l p := by
  unfold World.readdress
  refine c.modifyBinding ?_
  exact fun _ => rfl

theorem moveBinding (c : Counters w l p) {d : BindingId} {name : String} :
    Counters (w.moveBinding b d name) l p :=
  c.detach.readdress.enter

theorem exchangeBindings (c : Counters w l p) {a : BindingId} :
    Counters (w.exchangeBindings a b) l p := by
  unfold World.exchangeBindings
  split
  · exact c.detach.detach.readdress.readdress.enter.enter
  · exact c

theorem instantiate (c : Counters w l p) : Counters (w.instantiate b n) l p := by
  have bound : Counters ((w.modifyBinding b ({ · with node := some n })).settle
      ((w.nodeOf b).toList.map fun n => .letGo (.node n))) l p := by
    refine (c.modifyBinding ?_).letGoAll
    exact fun _ => rfl
  unfold World.instantiate
  simp only
  split
  · exact bound.enter
  · exact bound

/-! ## Counters that move -/

theorem addLink (c : Counters w l p) :
    Counters (w.addLink n) (fun m => l m + if m = n then 1 else 0) p where
  links {m node} h := by
    rcases Table.get?_of_modify h with ⟨e, y, hy, rfl⟩ | ⟨hne, h⟩
    · have before := c.links hy
      have raised : (y.addLink.links.toNat : Int) = (y.links.toNat + 1) % 2 ^ 32 := by
        unfold Node.addLink
        rw [UInt32.toNat_add]
        rfl
      rw [raised, before, e, if_pos rfl]
      omega
    · rw [if_neg hne, Int.add_zero]
      exact c.links h
  pinned := c.pinned
  unpinned := c.unpinned
  quiet := c.quiet

/-- A counter that shows something can be lowered. -/
theorem dropLink (c : Counters w l p) (pos : 0 < l n) (lt : l n < 2 ^ 32) :
    Counters (w.dropLink n) (fun m => l m - if m = n then 1 else 0) p := by
  unfold World.dropLink
  cases hn : w.nodes.get? n with
  | none =>
      refine c.congr (fun m hm => ?_) fun _ => Iff.rfl
      have hne : m ≠ n := by
        rintro rfl
        unfold Table.has at hm
        rw [hn] at hm
        cases hm
      rw [if_neg hne, Int.sub_zero]
  | some node =>
      have shown := c.links hn
      have some : node.links ≠ 0 := by
        intro zero
        rw [zero] at shown
        simp at shown
        omega
      simp only [if_neg some]
      refine ⟨fun {m x} h => ?_, c.pinned, c.unpinned, c.quiet⟩
      rcases Table.get?_of_modify h with ⟨rfl, y, hy, rfl⟩ | ⟨hne, h⟩
      · cases hn.symm.trans hy
        have lowered : (node.dropLink.links.toNat : Int) = node.links.toNat - 1 := by
          have one : (1 : UInt32) ≤ node.links := by
            rw [UInt32.le_iff_toNat_le]
            have : node.links.toNat ≠ 0 := fun zero => some (UInt32.toNat_inj.1 zero)
            exact Nat.one_le_iff_ne_zero.2 this
          unfold Node.dropLink
          rw [if_neg some, UInt32.toNat_sub_of_le _ _ one]
          have := UInt32.le_iff_toNat_le.1 one
          exact Int.ofNat_sub this
        rw [lowered, shown, if_pos rfl]
        omega
      · rw [if_neg hne, Int.sub_zero]
        exact c.links h

theorem pin (c : Counters w l p) (free : ¬ p b) : Counters (w.pin b) l fun d => d = b ∨ p d where
  links := c.links
  pinned {d x} h hp := by
    rcases Table.get?_of_modify h with ⟨rfl, y, hy, rfl⟩ | ⟨hne, h⟩
    · have zero : y.pins = 0 := c.unpinned hy free
      simp [zero]
    · exact c.pinned h (hp.resolve_left hne)
  unpinned {d x} h hp := by
    rcases Table.get?_of_modify h with ⟨e, -⟩ | ⟨-, h⟩
    · exact absurd (.inl e) hp
    · exact c.unpinned h fun pinned => hp (.inr pinned)
  quiet := c.quiet

theorem unpin (c : Counters w l p) (pinned : p b) :
    Counters (w.unpin b) l fun d => d ≠ b ∧ p d := by
  unfold World.unpin
  cases hb : w.bindings.get? b with
  | none =>
      refine ⟨c.links, fun h hp => c.pinned h hp.2, fun {d x} h hp => ?_, c.quiet⟩
      refine c.unpinned h fun pinned => hp ⟨?_, pinned⟩
      rintro rfl
      cases hb.symm.trans h
  | some x =>
      have one : x.pins = 1 := c.pinned hb pinned
      have some : x.pins ≠ 0 := by
        rw [one]
        decide
      simp only [if_neg some]
      refine ⟨c.links, fun {d y} h hp => ?_, fun {d y} h hp => ?_, c.quiet⟩
      · rw [World.modifyBinding, Table.get?_modify, if_neg hp.1] at h
        exact c.pinned h hp.2
      · rcases Table.get?_of_modify h with ⟨rfl, z, hz, rfl⟩ | ⟨hne, h⟩
        · cases hb.symm.trans hz
          simp [one]
        · exact c.unpinned h fun pinned => hp ⟨hne, pinned⟩

/-! ## New objects -/

theorem pushBinding (c : Counters w l p) {host : Host} {name : String} {parent : Option BindingId}
    (alike : w.host.Alike host) (free : ¬ p w.bindings.nextId) :
    Counters { w with host, bindings := w.bindings.push { name, parent } } l p where
  links := c.links
  pinned {d x} h hp := by
    rcases Table.get?_of_push h with ⟨e, -⟩ | ⟨-, h⟩
    · exact absurd (e ▸ hp) free
    · exact c.pinned h hp
  unpinned {d x} h hp := by
    rcases Table.get?_of_push h with ⟨-, rfl⟩ | ⟨-, h⟩
    · rfl
    · exact c.unpinned h hp
  quiet := alike.misses.trans c.quiet

/-- A new node has as many links as a name would give it. -/
theorem newNode (c : Counters w l p) {home : InstanceId} {dir : Option NodeId} {mode : Mode}
    {device : DeviceNumber} (made : Action.newNode home dir mode device w = .ok n w') :
    Counters w' (fun m => if m = n then if w'.isDirectory n then 2 else 1 else l m) p := by
  obtain ⟨rfl, host, ino, kind, time, -, rfl, alike, -⟩ := Action.newNode_ok made
  refine ⟨fun {m x} h => ?_, c.pinned, c.unpinned, alike.misses.trans c.quiet⟩
  rcases Table.get?_of_push h with ⟨e, rfl⟩ | ⟨hne, h⟩
  · have dir : World.isDirectory { w with host, nodes := w.nodes.push (Node.make ino kind
        (Node.inherit (dir.bind w.nodes.get?) mode host.gid).1 host.uid
        (Node.inherit (dir.bind w.nodes.get?) mode host.gid).2 time home) } w.nodes.nextId
        = kind.isDirectory := by
      unfold World.isDirectory
      rw [Table.get?_push_self]
      rfl
    rw [if_pos e, dir]
    unfold Node.make
    cases kind.isDirectory with
    | true => rfl
    | false => rfl
  · rw [if_neg hne]
    exact c.links h

theorem storeBytes (c : Counters w l p) {offset : Nat} {src : Bytes}
    (stored : Action.storeBytes n offset src w = .ok () w') : Counters w' l p := by
  obtain ⟨node, content, host, -, written, rfl⟩ := Action.storeBytes_ok stored
  exact (c.onHost (PageMap.write_ok written).1).modifyNode fun _ => rfl

end Counters

end Memfs
