import Memfs.Proofs.Sound.Holders

/-!
# What a failure leaves behind

An operation that fails has taken objects by then and has to undo its own work.
`Unchanged` says that it did: all objects are as they were, and as many are in use.
It says nothing about what a failure may move, which is the inode numbers and the
object numbers given out, the clock, the budgets, the totals of the ledger and the
journal.

An object that an operation made and then gave up leaves no trace but its number,
because nobody can own an object that was not there before.
-/

namespace Memfs

structure Unchanged (w w' : World) : Prop where
  nodes : ∀ n, w'.nodes.get? n = w.nodes.get? n
  bindings : ∀ b, w'.bindings.get? b = w.bindings.get? b
  files : ∀ f, w'.files.get? f = w.files.get? f
  instances : ∀ i, w'.instances.get? i = w.instances.get? i
  contexts : ∀ c, w'.contexts.get? c = w.contexts.get? c
  held : w'.held = w.held
  types : w'.types = w.types
  puts : w'.puts = w.puts
  alike : w.host.Alike w'.host
  net : ∀ kind, w'.host.net kind = w.host.net kind
  /-- A number is not given out again. -/
  next : w.bindings.nextId ≤ w'.bindings.nextId

theorem Table.sum_congr {α : Type} {t t' : Table α} (h : ∀ id, t'.get? id = t.get? id)
    (f : α → Nat) : t'.sum f = t.sum f := by
  have extend : ∀ (u : Table α) (m : Nat), u.nextId ≤ m →
      u.sum f = ∑ id ∈ Finset.range m, (u.get? id).elim 0 f := by
    intro u m hle
    rw [sum_eq_sum_range]
    refine Finset.sum_subset (Finset.range_mono hle) fun id _ hid => ?_
    rw [get?_of_nextId_le (Nat.le_of_not_lt fun h => hid (Finset.mem_range.2 h))]
    rfl
  rw [extend t (max t.nextId t'.nextId) (Nat.le_max_left ..),
    extend t' (max t.nextId t'.nextId) (Nat.le_max_right ..)]
  exact Finset.sum_congr rfl fun id _ => by rw [h]

namespace Unchanged

open World

variable {w w' w'' : World} {todo : List Task} {ref : Ref} {holder : Holder}

theorem refl : Unchanged w w :=
  ⟨fun _ => rfl, fun _ => rfl, fun _ => rfl, fun _ => rfl, fun _ => rfl, rfl, rfl, rfl, .refl,
    fun _ => rfl, Nat.le_refl _⟩

theorem trans (u : Unchanged w w') (v : Unchanged w' w'') : Unchanged w w'' where
  nodes n := (v.nodes n).trans (u.nodes n)
  bindings b := (v.bindings b).trans (u.bindings b)
  files f := (v.files f).trans (u.files f)
  instances i := (v.instances i).trans (u.instances i)
  contexts c := (v.contexts c).trans (u.contexts c)
  held := v.held.trans u.held
  types := v.types.trans u.types
  puts := v.puts.trans u.puts
  alike := u.alike.trans v.alike
  net k := (v.net k).trans (u.net k)
  next := Nat.le_trans u.next v.next

/-- Only the host changed, and it has as many allocations in use. -/
theorem of_host {host : Host} (alike : w.host.Alike host)
    (net : ∀ kind, host.net kind = w.host.net kind) : Unchanged w { w with host } :=
  ⟨fun _ => rfl, fun _ => rfl, fun _ => rfl, fun _ => rfl, fun _ => rfl, rfl, rfl, rfl, alike,
    net, Nat.le_refl _⟩

theorem note (u : Unchanged w w') {notice : Notice} (h : notice.atZero = false) :
    Unchanged w (w'.note notice) :=
  u.trans (of_host (.note h) fun _ => rfl)

theorem live (u : Unchanged w w') (kind : Resource) : w'.host.live kind = w.host.live kind := by
  rw [Host.live_eq_toNat_net, Host.live_eq_toNat_net, u.net]

theorem has (u : Unchanged w w') : w'.Has ref ↔ w.Has ref := by
  cases ref with
  | node n => simp only [Has, Table.has, u.nodes]
  | binding b => simp only [Has, Table.has, u.bindings]
  | inst i => simp only [Has, Table.has, u.instances]

theorem owner (u : Unchanged w w') : w'.Owner ref holder ↔ w.Owner ref holder := by
  cases holder with
  | caller => simp only [Owner, u.held]
  | binding b => simp only [Owner, u.bindings]
  | file f => simp only [Owner, u.files]
  | inst i => simp only [Owner, u.instances]
  | context c => simp only [Owner, u.contexts]

theorem owned (u : Unchanged w w') : w'.Owned ref ↔ w.Owned ref :=
  ⟨fun ⟨holder, h⟩ => ⟨holder, u.owner.1 h⟩, fun ⟨holder, h⟩ => ⟨holder, u.owner.2 h⟩⟩

theorem sameTree (u : Unchanged w w') : SameTree w w' where
  next := u.next
  bindings b := by rw [u.bindings]
  directory := by
    intro b n _
    unfold World.isDirectory
    rw [u.nodes]

/-- A world in order stays in order. -/
theorem sound (u : Unchanged w w') (s : Sound w todo) : Sound w' todo where
  tended := s.tended.same (fun _ => u.has) (fun _ _ => u.owner)
  charged := {
    nodes := by rw [u.net, Table.sum_congr u.nodes, s.charged.nodes]
    bindings := by rw [u.net, Table.sum_congr u.bindings, s.charged.bindings]
    pages := by rw [u.net, Table.sum_congr u.nodes, s.charged.pages]
    configs := by
      rw [u.net, Table.sum_congr u.instances, Table.sum_congr u.contexts, s.charged.configs] }
  forest := s.forest.congr u.sameTree

/-! ## Giving up what was made -/

/-- What is owned in an unchanged world has an owner there still, so letting go of it
changes nothing. -/
theorem letGo_owned (u : Unchanged w w') (h : w.Owned ref) :
    Unchanged w (w'.settle [.letGo ref]) := by
  rw [settle_letGo_owned (u.owned.2 h), settle_nil]
  exact u

/-- A binding that was made in between and given up again. -/
theorem letGo_binding (t : Tended w todo) {host : Host} {name : String} {parent : Option BindingId}
    (acquired : w.host.acquire .binding = (true, host))
    (u : Unchanged { w with host, bindings := w.bindings.push { name, parent } } w') :
    Unchanged w (w'.settle [.letGo (.binding w.bindings.nextId)]) := by
  have free : ¬ w'.Owned (.binding w.bindings.nextId) := by
    rw [u.owned]
    rintro ⟨holder, h⟩
    exact t.fresh_binding ⟨holder, owner_pushBinding.1 h⟩
  have found : w'.bindings.get? w.bindings.nextId = some { name, parent } := by
    rw [u.bindings]
    exact Table.get?_push_self
  have alone : ¬ (w'.owns (.binding w.bindings.nextId)
      || [].contains (Task.letGo (.binding w.bindings.nextId))) = true := by
    rw [owns_eq_false_iff.2 free]
    simp
  rw [settle_letGo_binding found alone, Binding.owned_negative, List.append_nil, settle_nil]
  exact {
    nodes := u.nodes
    bindings := fun b => by
      simp only [World.removeBinding, Table.get?_erase, u.bindings, Table.get?_push]
      split
      · next e => rw [e, Table.get?_nextId]
      · rfl
    files := u.files
    instances := u.instances
    contexts := u.contexts
    held := u.held
    types := u.types
    puts := u.puts
    alike := ((Host.alike_of_acquire acquired).trans u.alike).trans .released
    net := fun k => by
      simp only [World.removeBinding, Host.net_release, u.net, Host.net_of_acquired acquired]
      split
      · omega
      · omega
    next := by
      have := u.next
      simp only [Table.nextId_push] at this
      simp only [World.removeBinding, Table.nextId_erase]
      omega }

/-- A node that was made in between and given up again. -/
theorem letGo_node (t : Tended w todo) {host : Host} {node : Node}
    (alike : w.host.Alike host)
    (net : ∀ kind, host.net kind = w.host.net kind + if kind = .node then 1 else 0)
    (blank : node.content.held = 0)
    (u : Unchanged { w with host, nodes := w.nodes.push node } w') :
    Unchanged w (w'.settle [.letGo (.node w.nodes.nextId)]) := by
  have free : ¬ w'.Owned (.node w.nodes.nextId) := by
    rw [u.owned]
    rintro ⟨holder, h⟩
    exact t.fresh_node ⟨holder, owner_pushNode.1 h⟩
  have found : w'.nodes.get? w.nodes.nextId = some node := by
    rw [u.nodes]
    exact Table.get?_push_self
  have alone : ¬ (w'.owns (.node w.nodes.nextId)
      || [].contains (Task.letGo (.node w.nodes.nextId))) = true := by
    rw [owns_eq_false_iff.2 free]
    simp
  rw [settle_letGo_node found alone, settle_nil]
  exact {
    nodes := fun n => by
      simp only [World.evict, Table.get?_erase, u.nodes, Table.get?_push]
      split
      · next e => rw [e, Table.get?_nextId]
      · rfl
    bindings := u.bindings
    files := u.files
    instances := u.instances
    contexts := u.contexts
    held := u.held
    types := u.types
    puts := u.puts
    alike := (((alike.trans u.alike).trans (.note rfl)).trans .released).trans .released
    net := fun k => by
      simp only [World.evict, Host.net_release, Host.net_note, u.net, net, blank]
      split
      · next e => simp [e]
      · simp
    next := u.next }

end Unchanged

end Memfs
