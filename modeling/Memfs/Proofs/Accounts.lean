import Memfs.Proofs.Configured

/-!
# What is in use between calls

The ledger is exact at every moment: it counts what the tables hold. Callers do not see
the tables. What they see are the instances that they hold and the trees of these, and
when they hold nothing else, this is all there is. For then a binding has no owner but
an entry or an instance, so going from parent to parent ends at the root of an instance
that somebody holds.

Nothing is left of an instance that was torn down but the instance itself. When all are
torn down, nothing is in use.
-/

namespace Memfs

/-- Callers own instances and nothing else. -/
structure World.OnlyInstances (w : World) : Prop where
  held : ∀ ref ∈ w.held, ∃ i, ref = .inst i
  files : ∀ f, w.files.get? f = none
  contexts : ∀ c, w.contexts.get? c = none

/-- What is in use of each kind, told from the instances that are held. -/
structure Accounts (w : World) (bindings : Finset BindingId) (nodes : Finset NodeId)
    (live : Finset InstanceId) : Prop where
  /-- The bindings in the trees of the instances that are held. -/
  mem_bindings : ∀ b, b ∈ bindings ↔ ∃ i, .inst i ∈ w.held ∧ w.InTree i b
  /-- The nodes that these refer to. -/
  mem_nodes : ∀ n, n ∈ nodes ↔ ∃ b ∈ bindings, w.nodeOf b = some n
  /-- The instances that are held and were not torn down. -/
  mem_live : ∀ i, i ∈ live ↔
    .inst i ∈ w.held ∧ ∃ inst, w.instances.get? i = some inst ∧ inst.dying = false
  binding : w.host.live .binding = bindings.card
  node : w.host.live .node = nodes.card
  page : w.host.live .page = ∑ n ∈ nodes, (w.nodes.get? n).elim 0 (·.content.held)
  config : w.host.live .config = live.card
  /-- Once all instances are torn down, nothing is in use. -/
  ended : live = ∅ → ∀ kind, w.host.live kind = 0

namespace Sound

variable {w : World} {todo : List Task}

theorem live_binding (s : Sound w todo) : w.host.live .binding = w.bindings.ids.card := by
  rw [Host.live_eq_toNat_net, s.charged.bindings, Table.sum_one, Int.toNat_natCast]

theorem live_node (s : Sound w todo) : w.host.live .node = w.nodes.ids.card := by
  rw [Host.live_eq_toNat_net, s.charged.nodes, Table.sum_one, Int.toNat_natCast]

theorem live_page (s : Sound w todo) :
    w.host.live .page = ∑ n ∈ w.nodes.ids, (w.nodes.get? n).elim 0 (·.content.held) := by
  rw [Host.live_eq_toNat_net, s.charged.pages, Table.sum_eq_sum_ids, Int.toNat_natCast]

end Sound

namespace World.OnlyInstances

variable {w : World}

theorem held_of_has (only : w.OnlyInstances) (s : Sound w []) {i : InstanceId}
    (h : w.instances.has i = true) : .inst i ∈ w.held := by
  have there : w.Has (.inst i) := h
  obtain ⟨holder, owner⟩ := s.owned there
  cases holder with
  | caller => exact owner
  | binding b => exact owner.choose_spec.2.elim
  | file f => exact owner.choose_spec.2.elim
  | inst j => exact owner.choose_spec.2.elim
  | context c =>
      obtain ⟨x, hx, -⟩ := owner
      cases (only.contexts c).symm.trans hx

/-- A node that is there is the node of a binding. -/
theorem has_node_iff (only : w.OnlyInstances) (s : Sound w []) {n : NodeId} :
    w.nodes.has n = true ↔ ∃ b, w.nodeOf b = some n := by
  constructor
  · intro there
    have there : w.Has (.node n) := there
    obtain ⟨holder, owner⟩ := s.owned there
    cases holder with
    | caller =>
        obtain ⟨i, e⟩ := only.held _ owner
        cases e
    | binding b => exact ⟨b, nodeOf_eq_some_iff.2 owner⟩
    | file f =>
        obtain ⟨x, hx, -⟩ := owner
        cases (only.files f).symm.trans hx
    | inst i => exact owner.choose_spec.2.elim
    | context c => exact owner.choose_spec.2.elim
  · rintro ⟨b, h⟩
    exact s.tended.there (owned_of_nodeOf h)

/-- A binding that is there is in the tree of an instance that is held. The induction
goes up from the binding: its owner is an instance, or the directory that it is in. -/
theorem has_binding_iff (only : w.OnlyInstances) (s : Sound w []) {b : BindingId} :
    w.bindings.has b = true ↔ ∃ i, .inst i ∈ w.held ∧ w.InTree i b := by
  constructor
  · induction b using s.forest.grounded.induction with
    | _ b ih =>
        intro there
        have there : w.Has (.binding b) := there
        obtain ⟨holder, owner⟩ := s.owned there
        cases holder with
        | caller =>
            obtain ⟨i, e⟩ := only.held _ owner
            cases e
        | binding d =>
            obtain ⟨x, hx, name, hc⟩ := owner
            have entry : w.child? d name = some b := child?_eq_some_iff.2 ⟨x, hx, hc⟩
            obtain ⟨i, held, above⟩ := ih d (s.forest.entry entry).2 (Table.has_of_get? hx)
            exact ⟨i, held, above.child ⟨name, entry⟩⟩
        | file f =>
            obtain ⟨x, hx, -⟩ := owner
            cases (only.files f).symm.trans hx
        | inst i =>
            obtain ⟨inst, hi, hroot⟩ := owner
            exact ⟨i, only.held_of_has s (Table.has_of_get? hi), inst, b, hi, hroot, .refl⟩
        | context c =>
            obtain ⟨x, hx, -⟩ := owner
            cases (only.contexts c).symm.trans hx
  · rintro ⟨i, -, inside⟩
    obtain ⟨inst, -, hi, -⟩ := id inside
    rcases inside.cases_top hi with root | ⟨d, -, name, entry⟩
    · exact s.has_root hi root
    · exact has_of_parentOf (s.forest.entry entry).2

/-- An instance has its configuration until it is torn down, and contexts there are none. -/
theorem configs (only : w.OnlyInstances) (s : Sound w []) (h : Configured w) :
    w.host.live .config
      = (w.instances.ids.filter fun i => (w.instances.get? i).any (!·.dying)).card := by
  have contexts : w.contexts.sum (PrivateData.configs ·.data) = 0 := by
    rw [Table.sum_eq_sum_range]
    refine Finset.sum_eq_zero fun c _ => ?_
    rw [only.contexts c]
    rfl
  have instances : w.instances.sum (PrivateData.configs ·.data)
      = (w.instances.ids.filter fun i => (w.instances.get? i).any (!·.dying)).card := by
    rw [Table.sum_eq_sum_ids, Finset.card_filter]
    refine Finset.sum_congr rfl fun i mem => ?_
    obtain ⟨x, hx⟩ := Table.has_iff.1 (Table.mem_ids.1 mem)
    rw [hx]
    cases dying : x.dying with
    | false =>
        obtain ⟨c, data⟩ := (h.instances hx).live dying
        simp [data, dying, PrivateData.configs, PrivateData.config?]
    | true =>
        obtain ⟨data, -⟩ := (h.instances hx).dead dying
        simp [data, dying, PrivateData.configs]
  rw [Host.live_eq_toNat_net, s.charged.configs, contexts, instances]
  simp

/-- Without an instance that was not torn down there is no tree. -/
theorem no_binding (only : w.OnlyInstances) (s : Sound w []) (h : Configured w)
    (dead : ∀ i x, w.instances.get? i = some x → x.dying = true) {b : BindingId} :
    w.bindings.has b ≠ true := by
  intro there
  obtain ⟨i, -, inst, root, hi, hroot, -⟩ := (only.has_binding_iff s).1 there
  cases ((h.instances hi).dead (dead i inst hi)).2.symm.trans hroot

end World.OnlyInstances

open World in
/-- When callers own nothing but instances, the ledger counts what is in the trees of
these. -/
theorem Sound.accounts {w : World} (s : Sound w []) (h : Configured w) (only : w.OnlyInstances) :
    Accounts w w.bindings.ids w.nodes.ids
      (w.instances.ids.filter fun i => (w.instances.get? i).any (!·.dying)) := by
  refine {
    mem_bindings := fun b => Table.mem_ids.trans (only.has_binding_iff s)
    mem_nodes := fun n => Table.mem_ids.trans ((only.has_node_iff s).trans ?_)
    mem_live := fun i => ?_
    binding := s.live_binding
    node := s.live_node
    page := s.live_page
    config := only.configs s h
    ended := fun none kind => ?_ }
  · refine exists_congr fun b => ⟨fun hb => ⟨?_, hb⟩, And.right⟩
    obtain ⟨x, hx, -⟩ := nodeOf_eq_some_iff.1 hb
    exact Table.mem_ids.2 (Table.has_of_get? hx)
  · rw [Finset.mem_filter, Table.mem_ids, Option.any_eq_true]
    constructor
    · rintro ⟨there, x, hx, live⟩
      exact ⟨only.held_of_has s there, x, hx, by simpa using live⟩
    · rintro ⟨-, x, hx, live⟩
      exact ⟨Table.has_of_get? hx, x, hx, by simpa using live⟩
  · have dead : ∀ i x, w.instances.get? i = some x → x.dying = true := by
      intro i x hx
      have gone := Finset.filter_eq_empty_iff.1 none (Table.mem_ids.2 (Table.has_of_get? hx))
      rw [hx] at gone
      simpa using gone
    have no_binding : w.bindings.ids = ∅ := Finset.eq_empty_of_forall_notMem fun b mem =>
      only.no_binding s h dead (Table.mem_ids.1 mem)
    have no_node : w.nodes.ids = ∅ := Finset.eq_empty_of_forall_notMem fun n mem => by
      obtain ⟨b, hb⟩ := (only.has_node_iff s).1 (Table.mem_ids.1 mem)
      obtain ⟨x, hx, -⟩ := nodeOf_eq_some_iff.1 hb
      exact only.no_binding s h dead (Table.has_of_get? hx)
    cases kind with
    | node => rw [s.live_node, no_node, Finset.card_empty]
    | binding => rw [s.live_binding, no_binding, Finset.card_empty]
    | config => rw [only.configs s h, none, Finset.card_empty]
    | page => rw [s.live_page, no_node, Finset.sum_empty]

/-- After any run of calls with the built-in type: as soon as callers own nothing but
instances, what is in use is what is in the trees of these. -/
theorem accounts_run (clock : Clock) (calls : List Call)
    (builtIn : ∀ call ∈ calls, call.BuiltIn)
    (only : ((World.fresh clock).run calls).OnlyInstances) :
    ∃ bindings nodes live, Accounts ((World.fresh clock).run calls) bindings nodes live :=
  ⟨_, _, _, (Sound.fresh.run calls).accounts (Configured.fresh.run builtIn) only⟩

/-- Two instances, of which one is torn down, and in the other a node with two names and
a page. The one that was torn down has given back its configuration and its root. -/
theorem accounts_run_linked :
    let calls : List Call := [.register builtInType, .mount "tagfs" "", .mount "tagfs" "mode=700",
      .operate (.create 0 "a" ⟨0o644⟩), .operate (.link 2 0 "b"), .operate (.openFile 2 .writing),
      .operate (.write 0 #[1, 2, 3]), .closeFile 0, .deactivate 1]
    let w := (World.fresh (.steady 0 0 1)).run calls
    (∀ call ∈ calls, call.BuiltIn) ∧ w.OnlyInstances ∧ w.held = [.inst 1, .inst 0] ∧
      ∃ bindings nodes live, Accounts w bindings nodes live ∧
        live = {0} ∧ bindings.card = 3 ∧ nodes.card = 2 ∧
        w.host.live .config = 1 ∧ w.host.live .binding = 3 ∧ w.host.live .node = 2 ∧
          w.host.live .page = 1 := by
  intro calls w
  have builtIn : ∀ call ∈ calls, call.BuiltIn := by simp [calls, Call.BuiltIn]
  have held : w.held = [.inst 1, .inst 0] := by decide +kernel
  have only : w.OnlyInstances := {
    held := by simp [held]
    files := by
      have none : w.files.any (fun _ => true) = false := by decide +kernel
      refine fun f => Option.eq_none_iff_forall_ne_some.2 fun x hx => ?_
      rw [Table.any_iff.2 ⟨f, x, hx, rfl⟩] at none
      cases none
    contexts := by
      have none : w.contexts.any (fun _ => true) = false := by decide +kernel
      refine fun c => Option.eq_none_iff_forall_ne_some.2 fun x hx => ?_
      rw [Table.any_iff.2 ⟨c, x, hx, rfl⟩] at none
      cases none }
  have torn : (w.instances.get? 1).map (·.dying) = some true := by decide +kernel
  have stands : (w.instances.get? 0).map (·.dying) = some false := by decide +kernel
  obtain ⟨bindings, nodes, live, accounts⟩ := accounts_run _ calls builtIn only
  have alive : live = {0} := by
    ext i
    rw [accounts.mem_live, held, Finset.mem_singleton]
    constructor
    · rintro ⟨mem, x, hx, lives⟩
      rcases List.mem_cons.1 mem with same | mem
      · cases same
        rw [hx, Option.map_some, lives] at torn
        cases torn
      · exact Ref.inst.inj (List.mem_singleton.1 mem)
    · rintro rfl
      obtain ⟨x, hx, lives⟩ := Option.map_eq_some_iff.1 stands
      exact ⟨List.mem_cons_of_mem _ List.mem_cons_self, x, hx, lives⟩
  have config : w.host.live .config = 1 := by
    rw [accounts.config, alive, Finset.card_singleton]
  have binding : w.host.live .binding = 3 := by decide +kernel
  have node : w.host.live .node = 2 := by decide +kernel
  exact ⟨builtIn, only, held, bindings, nodes, live, accounts, alive,
    accounts.binding.symm.trans binding, accounts.node.symm.trans node, config, binding, node,
    by decide +kernel⟩

end Memfs
