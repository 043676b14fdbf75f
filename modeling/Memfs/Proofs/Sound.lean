import Memfs.Proofs.Settling

/-!
# A world in order

`Sound` puts the three invariants together: what is owned is there and the other way
round, the ledger agrees with the tables, and the bindings form a forest. Work that
is still to be done is part of the statement, so it holds in the middle of an
operation too, where a fresh node has no owner yet or a binding was taken out of its
directory and waits to be let go of.

There is one lemma for each way in which the world is changed. What a change of an
owner has to tell is what the owner gained and what it lost.
-/

namespace Memfs

structure Sound (w : World) (todo : List Task) : Prop where
  tended : Tended w todo
  charged : Charged w todo
  forest : Forest w

namespace World

variable {w : World} {ref : Ref} {holder : Holder}

theorem has_modifyBinding_iff {b : BindingId} {g : Binding → Binding} :
    (w.modifyBinding b g).Has ref ↔ w.Has ref := by
  cases ref with
  | node n => exact Iff.rfl
  | binding c =>
      show (w.modifyBinding b g).bindings.has c = true ↔ _
      rw [has_modifyBinding]
      exact Iff.rfl
  | inst i => exact Iff.rfl

theorem owner_modifyBinding_self {b : BindingId} {x : Binding} {g : Binding → Binding}
    (hx : w.bindings.get? b = some x) :
    (w.modifyBinding b g).Owner ref (.binding b) ↔ (g x).Owns ref := by
  simp [Owner, get?_modifyBinding hx]

theorem owner_binding_of_get? {b : BindingId} {x : Binding} (hx : w.bindings.get? b = some x) :
    w.Owner ref (.binding b) ↔ x.Owns ref := by
  simp [Owner, hx]

theorem owner_modifyBinding_of_ne {b : BindingId} {x : Binding} {g : Binding → Binding}
    (hx : w.bindings.get? b = some x) (hne : holder ≠ .binding b) :
    (w.modifyBinding b g).Owner ref holder ↔ w.Owner ref holder := by
  cases holder with
  | binding c =>
      have hc : c ≠ b := fun e => hne (e ▸ rfl)
      simp only [Owner, get?_modifyBinding hx, if_neg hc]
  | caller => exact Iff.rfl
  | file f => exact Iff.rfl
  | inst i => exact Iff.rfl
  | context c => exact Iff.rfl

end World

namespace Sound

open World

variable {w : World} {todo todo' : List Task} {b d : BindingId} {n : NodeId} {x : Binding}
  {name : String}

/-- With no work left, what is there has an owner. -/
theorem owned {ref : Ref} (s : Sound w []) (there : w.Has ref) : w.Owned ref :=
  (s.tended.owned there).resolve_right List.not_mem_nil

/-! ## The host -/

/-- A change of the host that takes no allocation and gives none back. -/
theorem onHost (s : Sound w todo) {host : Host} (h : ∀ kind, host.net kind = w.host.net kind) :
    Sound { w with host } todo where
  tended := s.tended.same (fun _ => Iff.rfl) (fun _ _ => Iff.rfl)
  charged := {
    nodes := (h _).trans s.charged.nodes
    bindings := (h _).trans s.charged.bindings
    pages := (h _).trans s.charged.pages
    configs := (h _).trans s.charged.configs }
  forest := s.forest.of_bindings_eq rfl fun _ _ _ => rfl

theorem note (s : Sound w todo) (notice : Notice) : Sound (w.note notice) todo :=
  s.onHost fun _ => rfl

theorem now (s : Sound w todo) (n : NodeId) : Sound (w.now n).2 todo :=
  s.onHost fun _ => rfl

/-- What is owned, or waits to be let go of again, need not be let go of. -/
theorem drop {ref : Ref} (s : Sound w (.letGo ref :: todo))
    (h : w.Has ref → w.Owned ref ∨ .letGo ref ∈ todo) : Sound w todo where
  tended := s.tended.drop h
  charged := ⟨s.charged.nodes, s.charged.bindings, s.charged.pages, by
    simpa [Task.configs] using s.charged.configs⟩
  forest := s.forest

/-- The order of the work to be done does not matter, and what is owned may be let go
of as well. -/
theorem mono (s : Sound w todo) (h : ∀ ref, .letGo ref ∈ todo → .letGo ref ∈ todo')
    (configs : waitingConfigs todo' = waitingConfigs todo) : Sound w todo' where
  tended := s.tended.mono h
  charged := ⟨s.charged.nodes, s.charged.bindings, s.charged.pages, by
    rw [configs]
    exact s.charged.configs⟩
  forest := s.forest

theorem swap {ref other : Ref} (s : Sound w (.letGo ref :: .letGo other :: todo)) :
    Sound w (.letGo other :: .letGo ref :: todo) :=
  s.mono (fun r h => by
    simp only [List.mem_cons] at h ⊢
    rcases h with h | h | h
    · exact .inr (.inl h)
    · exact .inl h
    · exact .inr (.inr h)) rfl

/-! ## Bindings -/

theorem modifyBinding (s : Sound w todo) {b : BindingId} {x : Binding} {g : Binding → Binding}
    (hx : w.bindings.get? b = some x) (gained : ∀ ref, (g x).Owns ref → w.Has ref)
    (lost : ∀ ref, x.Owns ref → (g x).Owns ref ∨ .letGo ref ∈ todo')
    (done : ∀ ref, .letGo ref ∈ todo → (g x).Owns ref ∨ .letGo ref ∈ todo')
    (configs : waitingConfigs todo' = waitingConfigs todo)
    (forest : Forest (w.modifyBinding b g)) : Sound (w.modifyBinding b g) todo' where
  tended := s.tended.change (o := .binding b) (fun _ => has_modifyBinding_iff)
    (fun ref holder hne => owner_modifyBinding_of_ne hx hne)
    (fun ref h => gained ref ((owner_modifyBinding_self hx).1 h))
    (fun ref h => by
      rw [owner_modifyBinding_self hx]
      exact lost ref ((owner_binding_of_get? hx).1 h))
    (fun ref h => by
      rw [owner_modifyBinding_self hx]
      exact done ref h)
  charged := {
    nodes := s.charged.nodes
    bindings := by
      have count : (w.bindings.modify b g).sum (fun _ => 1) = w.bindings.sum fun _ => 1 :=
        Table.sum_modify_of_eq fun _ _ => rfl
      exact s.charged.bindings.trans (congrArg Nat.cast count.symm)
    pages := s.charged.pages
    configs := by
      rw [configs]
      exact s.charged.configs }
  forest := forest

/-- A change of a binding that its owners and what it owns do not see. -/
theorem modifyBinding_of_owns (s : Sound w todo) {b : BindingId} {x : Binding}
    {g : Binding → Binding} (hx : w.bindings.get? b = some x)
    (owns : ∀ ref, (g x).Owns ref ↔ x.Owns ref) (forest : Forest (w.modifyBinding b g)) :
    Sound (w.modifyBinding b g) todo :=
  s.modifyBinding hx
    (fun ref h => s.tended.there ⟨.binding b, (owner_binding_of_get? hx).2 ((owns ref).1 h)⟩)
    (fun ref h => .inl ((owns ref).2 h)) (fun _ h => .inr h) rfl forest

theorem pin (s : Sound w todo) (b : BindingId) : Sound (w.pin b) todo := by
  cases hx : w.bindings.get? b with
  | none =>
      unfold World.pin
      rw [modifyBinding_of_absent hx]
      exact s
  | some x => exact s.modifyBinding_of_owns hx (fun _ => Iff.rfl) (s.forest.repinned hx rfl)

theorem unpin (s : Sound w todo) (b : BindingId) : Sound (w.unpin b) todo := by
  unfold World.unpin
  cases hx : w.bindings.get? b with
  | none => exact s
  | some x =>
      simp only
      split
      · exact s.note _
      · exact s.modifyBinding_of_owns hx (fun _ => Iff.rfl) (s.forest.repinned hx rfl)

/-- A binding gets its entry in its parent. It has an owner from then on. -/
theorem enter (s : Sound w (.letGo (.binding b) :: todo)) (hname : w.nameOf b = name)
    (hparent : w.parentOf b = some d) (hchecked : checkName name = .ok ())
    (hbound : ∃ n, w.nodeOf b = some n) (free : w.child? d name = none) :
    Sound (w.enter d name b) todo := by
  obtain ⟨x, hx⟩ := Table.has_iff.1 (has_parent hparent)
  rw [child?_of_get? hx] at free
  rw [enter_eq (by rw [child?_of_get? hx, free])]
  refine s.modifyBinding hx (fun ref h => ?_) (fun ref h => .inl ?_) (fun ref h => ?_)
    (by simp [Task.configs]) (s.forest.insert hx hname hparent hchecked hbound)
  · have own : x.Owns ref → w.Has ref := fun h =>
      s.tended.there ⟨.binding d, (owner_binding_of_get? hx).2 h⟩
    cases ref with
    | node n => exact own h
    | binding c =>
        obtain ⟨k, hk⟩ := h
        rw [getElem?_insert_name] at hk
        split at hk
        · cases hk
          exact has_of_parentOf hparent
        · exact own ⟨k, hk⟩
    | inst i => exact h.elim
  · cases ref with
    | node n => exact h
    | binding c =>
        obtain ⟨k, hk⟩ := h
        refine ⟨k, ?_⟩
        rw [getElem?_insert_name, if_neg, hk]
        rintro rfl
        rw [free] at hk
        cases hk
    | inst i => exact h
  · rcases List.mem_cons.1 h with e | h
    · cases e
      exact .inl ⟨name, by rw [getElem?_insert_name, if_pos rfl]⟩
    · exact .inr h

/-- A binding is taken out of its parent. Who took it out has to let go of it. -/
theorem detach (s : Sound w todo) (h : w.child? d name = some b) :
    Sound (w.detach b) (.letGo (.binding b) :: todo) := by
  obtain ⟨x, hx, hc⟩ := child?_eq_some_iff.1 h
  rw [s.forest.detach_eq h]
  refine s.modifyBinding hx (fun ref h => ?_) (fun ref h => ?_)
    (fun ref h => .inr (List.mem_cons_of_mem _ h)) (by simp [Task.configs]) (s.forest.erase hx)
  · refine s.tended.there ⟨.binding d, (owner_binding_of_get? hx).2 ?_⟩
    cases ref with
    | node n => exact h
    | binding c =>
        obtain ⟨k, hk⟩ := h
        rw [getElem?_erase_name] at hk
        split at hk
        · cases hk
        · exact ⟨k, hk⟩
    | inst i => exact h
  · cases ref with
    | node n => exact .inl h
    | binding c =>
        obtain ⟨k, hk⟩ := h
        by_cases e : k = name
        · rw [e, hc] at hk
          cases hk
          exact .inr List.mem_cons_self
        · exact .inl ⟨k, by rw [getElem?_erase_name, if_neg e, hk]⟩
    | inst i => exact h.elim

theorem readdress (s : Sound w todo) (hx : w.bindings.get? b = some x)
    (out : ∀ e k, w.child? e k ≠ some b) (hd : w.bindsDirectory d = true)
    (apart : ¬ w.Above b d) : Sound (w.readdress b d name) todo :=
  s.modifyBinding_of_owns hx (fun _ => Iff.rfl) (s.forest.readdress hx out hd apart)

/-- A binding gets its node. -/
theorem setNode (s : Sound w (.letGo (.node n) :: todo)) {g : Binding → Binding}
    (hx : w.bindings.get? b = some x) (hparent : (g x).parent = x.parent)
    (hchildren : (g x).children = x.children) (hnode : (g x).node = some n)
    (hname : ∀ e k, w.child? e k = some b → (g x).name = x.name)
    (free : x.node = none) (there : w.nodes.has n = true)
    (alone : w.isDirectory n = true → ∀ c, w.nodeOf c ≠ some n) :
    Sound (w.modifyBinding b g) todo := by
  have below : ∀ c, (g x).Owns (.binding c) ↔ x.Owns (.binding c) := by
    intro c
    unfold Binding.Owns
    simp only [hchildren]
  refine s.modifyBinding hx (fun ref h => ?_) (fun ref h => .inl ?_) (fun ref h => ?_)
    (by simp [Task.configs]) (s.forest.setNode hx hparent hchildren hnode hname free alone)
  · cases ref with
    | node m =>
        cases hnode.symm.trans h
        exact there
    | binding c =>
        exact s.tended.there ⟨.binding b, (owner_binding_of_get? hx).2 ((below c).1 h)⟩
    | inst i => exact h.elim
  · cases ref with
    | node m => cases free.symm.trans h
    | binding c => exact (below c).2 h
    | inst i => exact h
  · rcases List.mem_cons.1 h with e | h
    · cases e
      exact .inl hnode
    · exact .inr h

/-- A directory lets go of what is below it. -/
theorem clear (s : Sound w todo) (hx : w.bindings.get? b = some x) :
    Sound (w.modifyBinding b fun x => { x with children := ∅ }) (x.dissolution ++ todo) := by
  have none_below : ∀ c, ¬ Binding.Owns { x with children := ∅ } (.binding c) := by
    rintro c ⟨k, hk⟩
    rw [Std.TreeMap.getElem?_emptyc] at hk
    cases hk
  have dissolved : ∀ c, x.Owns (.binding c) → .letGo (.binding c) ∈ x.dissolution := fun c h =>
    Binding.mem_dissolution.2 ⟨c, Binding.mem_below.2 h, .inr (.inr rfl)⟩
  refine s.modifyBinding hx (fun ref h => ?_) (fun ref h => ?_)
    (fun ref h => .inr (List.mem_append_right _ h)) (by simp [Binding.waitingConfigs_dissolution])
    (s.forest.clear hx)
  · cases ref with
    | node n => exact s.tended.there ⟨.binding b, (owner_binding_of_get? hx).2 h⟩
    | binding c => exact absurd h (none_below c)
    | inst i => exact h.elim
  · cases ref with
    | node n => exact .inl h
    | binding c => exact .inr (List.mem_append_left _ (dissolved c h))
    | inst i => exact h.elim

/-- A new binding waits for an owner. -/
theorem pushBinding (s : Sound w todo) {parent : Option BindingId} {host : Host}
    (acquired : w.host.acquire .binding = (true, host))
    (hp : ∀ p, parent = some p → w.bindsDirectory p = true) :
    Sound { w with host, bindings := w.bindings.push { name, parent } }
      (.letGo (.binding w.bindings.nextId) :: todo) where
  tended := s.tended.push
    (fun ref => by
      cases ref with
      | node n => simp [Has]
      | binding c => simp [Has, Table.has_push]
      | inst i => simp [Has])
    (fun _ _ => owner_pushBinding)
  charged := {
    nodes := by simpa [Host.net_of_acquired acquired] using s.charged.nodes
    bindings := by simpa [Host.net_of_acquired acquired, Table.sum_push] using s.charged.bindings
    pages := by simpa [Host.net_of_acquired acquired] using s.charged.pages
    configs := by simpa [Host.net_of_acquired acquired, Task.configs] using s.charged.configs }
  forest := s.forest.pushBinding hp

/-- A binding that nobody owns is gone, and lets go of what it owned. -/
theorem removeBinding (s : Sound w (.letGo (.binding b) :: todo)) (hx : w.bindings.get? b = some x)
    (free : ¬ w.Owned (.binding b)) : Sound (w.removeBinding b) (x.owned ++ todo) where
  tended := s.tended.remove (.binding b) free
    (fun ref => by
      cases ref with
      | node n => simp [Has, World.removeBinding]
      | binding c => simp [Has, World.removeBinding, Table.has_erase, and_comm]
      | inst i => simp [Has, World.removeBinding])
    (fun ref holder => by
      cases holder with
      | binding c =>
          simp only [Owner, World.removeBinding, Table.get?_erase]
          split
          · rintro ⟨y, hy, -⟩
            cases hy
          · exact id
      | _ => exact id)
    (fun ref holder h => by
      cases holder with
      | binding c =>
          by_cases e : c = b
          · subst e
            exact .inr (List.mem_append_left _ (Binding.mem_owned ((owner_binding_of_get? hx).1 h)))
          · simp only [Owner, World.removeBinding, Table.get?_erase, if_neg e]
            exact .inl h
      | _ => exact .inl h)
    (fun ref h => by
      rcases List.mem_cons.1 h with e | h
      · cases e
        exact .inl rfl
      · exact .inr (List.mem_append_right _ h))
  charged := {
    nodes := by simpa [World.removeBinding] using s.charged.nodes
    bindings := by
      have := w.bindings.sum_erase (fun _ => 1) hx
      have := s.charged.bindings
      simp only [World.removeBinding, Host.net_release, if_true]
      omega
    pages := by simpa [World.removeBinding] using s.charged.pages
    configs := by
      simpa [World.removeBinding, Task.configs, Binding.waitingConfigs_owned]
        using s.charged.configs }
  forest := s.forest.removeBinding fun _ _ h => free (owned_of_child? h)

/-! ## Nodes -/

/-- A new node waits for an owner. -/
theorem pushNode (s : Sound w todo) {node : Node} {host : Host}
    (net : ∀ kind, host.net kind = w.host.net kind + if kind = .node then 1 else 0)
    (blank : node.content.held = 0) :
    Sound { w with host, nodes := w.nodes.push node } (.letGo (.node w.nodes.nextId) :: todo) where
  tended := s.tended.push
    (fun ref => by
      cases ref with
      | node n => simp [Has, Table.has_push]
      | binding c => simp [Has]
      | inst i => simp [Has])
    (fun _ _ => owner_pushNode)
  charged := {
    nodes := by simpa [net, Table.sum_push] using s.charged.nodes
    bindings := by simpa [net] using s.charged.bindings
    pages := by simpa [net, Table.sum_push, blank] using s.charged.pages
    configs := by simpa [net, Task.configs] using s.charged.configs }
  forest := s.forest.of_bindings_eq rfl fun b n h => by
    obtain ⟨node, hn⟩ := Table.has_iff.1 (s.tended.there (owned_of_nodeOf h))
    simp only [World.isDirectory, Table.get?_push_of_some hn, hn]

/-- The content of a node changes together with the charge for its pages. -/
theorem recharge (s : Sound w todo) {node : Node} {host : Host} {g : Node → Node}
    (hn : w.nodes.get? n = some node) (kind : (g node).kind = node.kind)
    (net : ∀ kind, host.net kind = w.host.net kind
      + if kind = .page then ((g node).content.held : Int) - node.content.held else 0) :
    Sound ({ w with host }.modifyNode n g) todo where
  tended := s.tended.same
    (fun ref => by
      cases ref with
      | node m => simp [Has, World.modifyNode, Table.has_modify]
      | _ => exact Iff.rfl)
    (fun ref holder => by cases holder <;> exact Iff.rfl)
  charged := {
    nodes := by
      have count : (w.nodes.modify n g).sum (fun _ => 1) = w.nodes.sum fun _ => 1 :=
        Table.sum_modify_of_eq fun _ _ => rfl
      simpa [net, World.modifyNode, count] using s.charged.nodes
    bindings := by simpa [net, World.modifyNode] using s.charged.bindings
    pages := by
      have := w.nodes.sum_modify (·.content.held) g hn
      have := s.charged.pages
      simp only [net, World.modifyNode, if_true]
      omega
    configs := by simpa [net, World.modifyNode] using s.charged.configs }
  forest := s.forest.of_bindings_eq rfl fun b m h => by
    simp only [World.isDirectory, World.modifyNode, Table.get?_modify]
    split
    · next e =>
        rw [e, hn]
        simp only [Option.map_some, Option.any_some, Node.isDirectory, kind]
    · rfl

/-- A change of a node that keeps its kind and its pages. -/
theorem modifyNode (s : Sound w todo) {g : Node → Node} (kind : ∀ node, (g node).kind = node.kind)
    (held : ∀ node, (g node).content.held = node.content.held) :
    Sound (w.modifyNode n g) todo := by
  cases hn : w.nodes.get? n with
  | none =>
      unfold World.modifyNode
      rw [Table.modify_of_absent hn]
      exact s
  | some node => exact s.recharge hn (kind node) fun k => by simp [held]

/-- A node that nobody owns is gone, and its pages are given back. -/
theorem evict (s : Sound w (.letGo (.node n) :: todo)) {node : Node}
    (hn : w.nodes.get? n = some node) (free : ¬ w.Owned (.node n)) :
    Sound (w.evict n node) todo where
  tended := s.tended.remove (.node n) free
    (fun ref => by
      cases ref with
      | node m => simp [Has, World.evict, Table.has_erase, and_comm]
      | _ => simp [Has, World.evict])
    (fun ref holder => by cases holder <;> exact id)
    (fun ref holder h => .inl (by cases holder <;> exact h))
    (fun ref h => by
      rcases List.mem_cons.1 h with e | h
      · cases e
        exact .inl rfl
      · exact .inr h)
  charged := {
    nodes := by
      have := w.nodes.sum_erase (fun _ => 1) hn
      have := s.charged.nodes
      simp [World.evict]
      omega
    bindings := by simpa [World.evict] using s.charged.bindings
    pages := by
      have := w.nodes.sum_erase (·.content.held) hn
      have := s.charged.pages
      simp [World.evict]
      omega
    configs := by simpa [World.evict, Task.configs] using s.charged.configs }
  forest := s.forest.of_bindings_eq rfl fun b m h => by
    have hne : m ≠ n := fun e => free (e ▸ owned_of_nodeOf h)
    simp only [World.isDirectory, World.evict, Table.get?_erase, if_neg hne]

end Sound

end Memfs
