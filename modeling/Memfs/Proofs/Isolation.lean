import Memfs.Proofs.Homes.Runs

/-!
# Instances do not reach each other

Any number of instances are mounted on one machine. What is called on the objects of one
of them leaves those of the others as they were, for all that a call is given belongs to
the realm of one instance and the realm is closed. `Contained` says that outside of the
instance nothing has changed but the host, with which goes the journal, the inode numbers,
the clock and the ledger. `Untouched` says for another instance that it has lost nothing and
gained nothing.

The two operations that could lead from one instance to another are refused.
-/

namespace Memfs

open World

variable {w v u : World} {i j : InstanceId} {b c : BindingId} {todo : List Task}

/-- What the call is given belongs to the instance. -/
def Call.Within (w : World) (i : InstanceId) : Call → Prop
  | .operate op => op.Within w i
  | .closeFile f => w.fileHome f = some i
  | .hold ref | .drop ref => w.refHome ref = some i
  | .deactivate k | .attachToInstance k _ _ => k = i
  | _ => False

/-- Each of the calls is given what belongs to the instance when it is made. -/
def World.StaysWithin (i : InstanceId) : World → List Call → Prop
  | _, [] => True
  | w, call :: rest => call.Within w i ∧ (w.after call).StaysWithin i rest

/-- What does not belong to the instance is as it was. The host is nobody's, and neither is the
record of the devices that were put back. -/
structure Contained (i : InstanceId) (w v : World) : Prop where
  nodes : ∀ {n}, w.nodes.has n = true → w.nodeHome n ≠ some i → v.nodes.get? n = w.nodes.get? n
  bindings : ∀ {b}, w.bindings.has b = true → w.bindingHome b ≠ some i →
    v.bindings.get? b = w.bindings.get? b
  files : ∀ {f}, w.files.has f = true → w.fileHome f ≠ some i → v.files.get? f = w.files.get? f
  instances : ∀ {j}, j ≠ i → v.instances.get? j = w.instances.get? j
  contexts : ∀ c, v.contexts.get? c = w.contexts.get? c
  types : v.types = w.types
  held : ∀ {ref}, w.Has ref → w.refHome ref ≠ some i → v.held.count ref = w.held.count ref

namespace Contained

theorem refl : Contained i w w :=
  ⟨fun _ _ => rfl, fun _ _ => rfl, fun _ _ => rfl, fun _ => rfl, fun _ => rfl, rfl, fun _ _ => rfl⟩

theorem unchanged (h : Unchanged w v) : Contained i w v where
  nodes _ _ := h.nodes _
  bindings _ _ := h.bindings _
  files _ _ := h.files _
  instances _ := h.instances _
  contexts := h.contexts
  types := h.types
  held _ _ := congrArg _ h.held

theorem inside {grows : Prop} (h : Inside grows (w.realm i) i w v) : Contained i w v where
  nodes there out := h.nodes fun inside => out ((realm_node there).1 inside)
  bindings there out := h.bindings fun inside => out ((realm_binding there).1 inside)
  files there out := h.files fun inside => out ((realm_file there).1 inside)
  instances := h.instances
  contexts _ := h.contexts ▸ rfl
  types := h.types
  held _ _ := congrArg _ h.held

theorem nodeHome (h : Contained i w v) {n : NodeId} (there : w.nodes.has n = true)
    (out : w.nodeHome n ≠ some i) : v.nodeHome n = w.nodeHome n :=
  nodeHome_congr (h.nodes there out)

theorem bindingHome (h : Contained i w v) (s : Sound w todo) (there : w.bindings.has b = true)
    (out : w.bindingHome b ≠ some i) : v.bindingHome b = w.bindingHome b := by
  refine bindingHome_congr (h.bindings there out) fun n hn => ?_
  refine h.nodes (s.tended.there (owned_of_nodeOf hn)) fun home => out ?_
  exact (bindingHome_of_nodeOf hn).trans home

theorem fileHome (h : Contained i w v) (s : Sound w todo) {f : FileId}
    (there : w.files.has f = true) (out : w.fileHome f ≠ some i) :
    v.fileHome f = w.fileHome f := by
  refine fileHome_congr (h.files there out) fun x n hx hn => ?_
  have owner : w.Owner (.node n) (.file f) := ⟨x, hx, hn⟩
  refine h.nodes (s.tended.there ⟨_, owner⟩) fun home => out ?_
  exact fileHome_eq_some_iff.2 ⟨x, n, hx, hn, home⟩

theorem trans (h : Contained i w v) (h' : Contained i v u) (s : Sound w todo) :
    Contained i w u where
  nodes {n} there out := by
    have same := h.nodes there out
    refine (h'.nodes ?_ ?_).trans same
    · rwa [Table.has, same]
    · rwa [h.nodeHome there out]
  bindings {b} there out := by
    have same := h.bindings there out
    refine (h'.bindings ?_ ?_).trans same
    · rwa [Table.has, same]
    · rwa [h.bindingHome s there out]
  files {f} there out := by
    have same := h.files there out
    refine (h'.files ?_ ?_).trans same
    · rwa [Table.has, same]
    · rwa [h.fileHome s there out]
  instances ne := (h'.instances ne).trans (h.instances ne)
  contexts c := (h'.contexts c).trans (h.contexts c)
  types := h'.types.trans h.types
  held {ref} there out := by
    refine (h'.held ?_ ?_).trans (h.held there out)
    · cases ref with
      | node n =>
          show v.nodes.has n = true
          rwa [Table.has, h.nodes there out]
      | binding b =>
          show v.bindings.has b = true
          rwa [Table.has, h.bindings there out]
      | inst k =>
          show v.instances.has k = true
          rwa [Table.has, h.instances fun same => out (congrArg some same)]
    · cases ref with
      | node n => exact (h.nodeHome there out).trans_ne out
      | binding b => exact (h.bindingHome s there out).trans_ne out
      | inst k => exact out

end Contained

/-! ## Calls -/

namespace Inside

variable {grows : Prop} {R : Realm}

theorem closeFile (h : Inside grows R i w v) {f : FileId} (hf : R.file f) :
    Action.Ends (Inside grows R i w) (Action.closeFile f) v := by
  refine .modify ?_
  cases found : v.files.get? f with
  | none => exact h
  | some file =>
      obtain ⟨insideB, bound⟩ := h.closed.file hf found
      refine (h.eraseFile hf).settle (List.forall_mem_cons.2 ⟨insideB, fun task mem => ?_⟩)
      obtain ⟨n, hn, rfl⟩ := List.mem_map.1 mem
      exact h.closed.bound insideB (bound n (Option.mem_toList.1 hn))

theorem attachToInstance (h : Inside grows R i w v) {sort : DeviceSort} {device : Device} :
    Action.Ends (Inside grows R i w) (Action.attachToInstance i sort device) v :=
  .read h .get fun _ _ => .read h (.require _ _) fun _ _ => .read h (.require _ _) fun _ _ =>
    .bind (.modify h.aside) fun _ _ _ h => .modify (h.modifyInstance fun _ _ _ had => .inl had)

end Inside

/-- A call on what belongs to an instance leaves all the rest alone. -/
theorem Call.contained (h : Homed w) (s : Sound w []) {call : Call} (within : call.Within w i) :
    Contained i w (w.after call) ∧ ∀ {j}, j ≠ i → Untouched j w (w.after call) := by
  have closed := h.closed s i
  have start : Inside True (w.realm i) i w w := .refl closed
  have done : ∀ {grows v}, Inside grows (w.realm i) i w v →
      Contained i w v ∧ ∀ {j}, j ≠ i → Untouched j w v := fun h => ⟨.inside h, h.untouched⟩
  cases call with
  | operate op =>
      have ends :
          Action.Ends (fun v => Contained i w v ∧ ∀ {j}, j ≠ i → Untouched j w v) op.act w :=
        ⟨fun act => done (op.inside h s within act), fun failed =>
          have same : Unchanged w _ := op.act_clean s _ _ failed
          ⟨.unchanged same, fun _ => .unchanged same⟩⟩
      exact ends.into
  | closeFile f => exact done (start.closeFile (.inr within)).into
  | hold ref =>
      unfold World.after
      simp only
      split
      · refine ⟨{ Contained.refl with held := fun {other} _ out => ?_ },
          fun _ => ⟨rfl, fun _ => rfl, fun _ => rfl, fun _ => rfl⟩⟩
        have other : ref ≠ other := fun same => out (same ▸ within)
        exact List.count_cons_of_ne other
      · exact ⟨.refl, fun _ => .refl⟩
  | drop ref =>
      let given : World := { w with held := w.held.erase ref }
      have closed : Closed (given.realm i) i given := { closed with }
      have dropped : Inside True (given.realm i) i given (given.settle [.letGo ref]) := by
        refine (Inside.refl closed).settle (List.forall_mem_singleton.2 ?_)
        cases ref with
        | node n => exact .inr within
        | binding b => exact .inr within
        | inst k => exact Option.some.inj within
      refine ⟨{ Contained.inside dropped with held := fun {other} _ out => ?_ }, fun ne => ?_⟩
      · rw [show (w.after (.drop ref)).held = w.held.erase ref from dropped.held]
        have other : other ≠ ref := fun same => out (same ▸ within)
        exact List.count_erase_of_ne other
      · have others := dropped.untouched ne
        exact ⟨others.inst, others.nodes, others.bindings, others.files⟩
  | attachToInstance k sort device =>
      cases within
      exact done start.attachToInstance.into
  | deactivate k =>
      cases within
      exact done start.deactivate
  | register _ | unregister _ | mount _ _ | newContext _ | applyParameter _ _ | makeTree _
  | takeInstance _ | dropContext _ | attachToContext _ _ _ | setBudget _ _ | setCredentials _ _
  | setClock _ | resetIno _ => exact within.elim

/-- Calls on what belongs to an instance, one after the other. -/
theorem World.contained_run : ∀ {w : World}, Homed w → Sound w [] → ∀ {calls : List Call},
    w.StaysWithin i calls →
      Contained i w (w.run calls) ∧ ∀ {j}, j ≠ i → Untouched j w (w.run calls)
  | _, _, _, [], _ => ⟨.refl, fun _ => .refl⟩
  | w, h, s, call :: rest, within => by
      obtain ⟨contained, others⟩ := Call.contained h s within.1
      obtain ⟨later, othersLater⟩ :=
        contained_run (abides_after h s call).homed (s.after call) within.2
      exact ⟨contained.trans later s, fun ne => (others ne).trans (othersLater ne)⟩

/-! ## What is read of an instance -/

/-- The options of an instance are read off the node of its root and off its data. -/
theorem Untouched.options (u : Untouched i w v) (h : Homed w) (s : Sound w []) :
    v.options i = w.options i := by
  unfold World.options
  rw [u.inst]
  cases hi : w.instances.get? i with
  | none => rfl
  | some inst =>
      rw [Option.bind_some]
      split
      · next none => rfl
      · next root hroot =>
          have hroot : inst.root = some root := by
            split at hroot
            · exact hroot
            · cases hroot
          have home := h.bindingHome_root s hi hroot
          obtain ⟨n, hn, homeN⟩ := bindingHome_eq_some_iff.1 home
          obtain ⟨x, hx, rfl⟩ := nodeHome_eq_some_iff.1 homeN
          have same : v.nodeOf root = some n := (nodeOf_congr (u.bindings (.inl home))).trans hn
          have found : v.nodes.get? n = some x := (u.nodes (.inl homeN)).trans hx
          unfold World.optionsAt
          rw [same, hn, Option.bind_some, Option.bind_some, found, hx]
          simp only [u.inst]

/-! ## Between two instances -/

/-- Arguments of two instances are refused. -/
theorem Operation.refused_across (s : Sound w []) (op : Operation) (hb : b ∈ op.bindings)
    (hc : c ∈ op.bindings) (homeB : w.bindingHome b = some i) (homeC : w.bindingHome c = some j)
    (differ : i ≠ j) : ∃ e v, op.act w = .error e v ∧ Unchanged w v := by
  cases act : op.act w with
  | error e v => exact ⟨e, v, rfl, op.act_clean s e v act⟩
  | ok u v =>
      rcases op.exists_within s act with ⟨f, position, rfl⟩ | ⟨k, within, -⟩
      · cases hb
      · have one : i = k := Option.some.inj (homeB.symm.trans (within.1 b hb))
        have other : j = k := Option.some.inj (homeC.symm.trans (within.1 c hc))
        exact absurd (one.trans other.symm) differ

/-- No binding and no node is in the trees of two instances. -/
theorem Homed.inTree_unique (h : Homed w) (s : Sound w []) (inB : w.InTree i b)
    (inC : w.InTree j c) (shared : b = c ∨ w.nodeOf b = w.nodeOf c) : i = j := by
  have same : w.bindingHome b = w.bindingHome c := by
    rcases shared with rfl | shared
    · rfl
    · unfold World.bindingHome
      rw [shared]
  have homeB := h.bindingHome_of_inTree s inB
  exact Option.some.inj (homeB.symm.trans (same.trans (h.bindingHome_of_inTree s inC)))

/-- The instances do not reach each other. -/
structure Isolated (w : World) : Prop where
  /-- Calls on the objects of one instance leave all that belongs to another. -/
  alone : ∀ {i} {later : List Call}, w.StaysWithin i later → Contained i w (w.run later) ∧
    ∀ {j}, j ≠ i → Untouched j w (w.run later) ∧ (w.run later).options j = w.options j
  /-- An operation on two of them fails and changes neither. -/
  across : ∀ {op : Operation} {b c i j}, b ∈ op.bindings → c ∈ op.bindings →
    w.bindingHome b = some i → w.bindingHome c = some j → i ≠ j →
      ∃ e v, op.act w = .error e v ∧ Unchanged w v
  /-- Nothing is in the trees of two. -/
  once : ∀ {i j b c}, w.InTree i b → w.InTree j c → b = c ∨ w.nodeOf b = w.nodeOf c → i = j

theorem Homed.isolated (h : Homed w) (s : Sound w []) : Isolated w where
  alone within := by
    obtain ⟨contained, others⟩ := World.contained_run h s within
    exact ⟨contained, fun ne => ⟨others ne, (others ne).options h s⟩⟩
  across hb hc := Operation.refused_across s _ hb hc
  once := h.inTree_unique s

/-- Whatever was called before, the instances do not reach each other. -/
theorem isolated_run (clock : Clock) (calls : List Call) :
    Isolated ((World.fresh clock).run calls) :=
  (World.homed_run .fresh Sound.fresh calls).isolated (Sound.fresh.run calls)

/-- Two instances with a file each. The file of the first gets content and a second name, and
the instance is torn down; into the second it cannot be linked. -/
theorem isolated_run_linked :
    let calls : List Call := [.register builtInType, .mount "tagfs" "", .mount "tagfs" "mode=700",
      .operate (.create 0 "a" ⟨0o644⟩), .operate (.openFile 2 .writing),
      .operate (.create 1 "a" ⟨0o644⟩)]
    let later : List Call := [.operate (.write 0 #[1, 2]), .operate (.link 2 0 "b"), .deactivate 0]
    let w := (World.fresh (.steady 0 0 1)).run calls
    w.StaysWithin 0 later ∧ Untouched 1 w (w.run later) ∧
      (w.run later).options 1 = w.options 1 ∧
      (∃ e v, (Operation.link 2 1 "b").act w = .error e v ∧ Unchanged w v) ∧
      w.InTree 0 2 ∧ w.InTree 1 3 ∧ w.nodeOf 2 ≠ w.nodeOf 3 := by
  intro calls later w
  have rooted : ∀ {i b}, (w.instances.get? i).bind (·.root) = some b → w.InTree i b := by
    intro i b found
    obtain ⟨inst, hi, hroot⟩ := Option.bind_eq_some_iff.1 found
    exact ⟨inst, b, hi, hroot, .refl⟩
  have below : w.child? 0 "a" = some 2 ∧ w.child? 1 "a" = some 3 := by decide +kernel
  have inFirst : w.InTree 0 2 := (rooted (b := 0) (by decide +kernel)).child ⟨_, below.1⟩
  have inSecond : w.InTree 1 3 := (rooted (b := 1) (by decide +kernel)).child ⟨_, below.2⟩
  have homes : w.bindingHome 2 = some 0 ∧ w.bindingHome 1 = some 1 := by decide +kernel
  have within : w.StaysWithin 0 later :=
    ⟨⟨nofun, List.forall_mem_singleton.2 (by decide +kernel)⟩,
      ⟨List.forall_mem_cons.2 ⟨by decide +kernel, List.forall_mem_singleton.2 (by decide +kernel)⟩,
        nofun⟩, rfl, trivial⟩
  have isolated : Isolated w := isolated_run (.steady 0 0 1) calls
  obtain ⟨untouched, options⟩ := (isolated.alone within).2 (show 1 ≠ 0 by decide)
  refine ⟨within, untouched, options, ?_, inFirst, inSecond, fun shared => ?_⟩
  · exact isolated.across List.mem_cons_self (List.mem_cons_of_mem _ List.mem_cons_self) homes.1
      homes.2 (by decide)
  · exact absurd (isolated.once inFirst inSecond (.inr shared)) (by decide)

end Memfs
