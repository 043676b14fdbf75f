import Memfs.Proofs.Homes.Inside

/-!
# Steps that stay inside

Each step of an operation is given numbers of the realm and stays inside of it. What else
it touches it finds by itself: the directory that a binding is in, what has the name that
a binding is to get, and all that goes because its owner has gone. The realm is closed, so
none of this leads out of it.
-/

namespace Memfs

open World

/-- The work begins in the realm. -/
def Task.Within (R : Realm) (i : InstanceId) : Task → Prop
  | .letGo (.node n) => R.node n
  | .letGo (.binding b) => R.binding b
  | .letGo (.inst j) => j = i
  | .dispose _ => True
  | .dissolve b => R.binding b
  | .unpin b => R.binding b

namespace Inside

variable {grows : Prop} {R : Realm} {i : InstanceId} {w v : World} {n m dirA dirB : NodeId}
  {a b c d dir : BindingId} {f : FileId} {name : String} {x : Binding} {tasks : List Task}

/-! ## Letting go -/

theorem disposeData (h : Inside grows R i w v) {data : PrivateData} :
    Inside grows R i w (v.disposeData data) := by
  obtain ⟨host, puts, -, e⟩ := v.disposeData_eq data
  rw [e]
  exact h.aside

theorem unpin (h : Inside grows R i w v) (hb : R.binding b) : Inside grows R i w (v.unpin b) := by
  unfold World.unpin
  split
  · exact h
  · split
    · exact h.aside
    · exact h.trim hb fun _ => ⟨rfl, fun _ _ => id⟩

/-- What a binding of the realm owns is in the realm. -/
theorem within_owned (h : Inside grows R i w v) (hb : R.binding b)
    (hx : v.bindings.get? b = some x) : ∀ task ∈ x.owned, task.Within R i := by
  intro task mem
  rcases List.mem_append.1 mem with mem | mem
  · obtain ⟨n, hn, rfl⟩ := List.mem_map.1 mem
    exact h.closed.bound hb (nodeOf_eq_some_iff.2 ⟨x, hx, Option.mem_toList.1 hn⟩)
  · obtain ⟨c, below, rfl⟩ := List.mem_map.1 mem
    obtain ⟨name, entry⟩ := Binding.mem_below.1 below
    exact (h.closed.child (child?_eq_some_iff.2 ⟨x, hx, entry⟩)).1 hb

theorem within_dissolution (h : Inside grows R i w v) (hb : R.binding b)
    (hx : v.bindings.get? b = some x) : ∀ task ∈ x.dissolution, task.Within R i := by
  intro task mem
  obtain ⟨c, below, same⟩ := Binding.mem_dissolution.1 mem
  obtain ⟨name, entry⟩ := Binding.mem_below.1 below
  have inside : R.binding c := (h.closed.child (child?_eq_some_iff.2 ⟨x, hx, entry⟩)).1 hb
  rcases same with rfl | rfl | rfl
  · exact inside
  · exact inside
  · exact inside

theorem within_instance (h : Inside grows R i w v) {inst : Instance}
    (hi : v.instances.get? i = some inst) : ∀ task ∈ inst.owned, task.Within R i := by
  intro task mem
  rcases List.mem_append.1 mem with mem | mem
  · obtain ⟨b, hb, rfl⟩ := List.mem_map.1 mem
    exact (h.closed.root hi (Option.mem_toList.1 hb)).1
  · obtain ⟨data, -, rfl⟩ := List.mem_map.1 mem
    trivial

theorem settling :
    Settling fun v todo => Inside grows R i w v ∧ ∀ task ∈ todo, task.Within R i where
  disposed h := ⟨h.1.disposeData, (List.forall_mem_cons.1 h.2).2⟩
  unpinned h := ⟨h.1.unpin (List.forall_mem_cons.1 h.2).1, (List.forall_mem_cons.1 h.2).2⟩
  dissolved hx h := by
    obtain ⟨hb, rest⟩ := List.forall_mem_cons.1 h.2
    refine ⟨h.1.trim hb fun _ => ⟨rfl, fun _ _ entry => ?_⟩,
      List.forall_mem_append.2 ⟨h.1.within_dissolution hb hx, rest⟩⟩
    rw [Std.TreeMap.getElem?_emptyc] at entry
    cases entry
  absent _ h := ⟨h.1, (List.forall_mem_cons.1 h.2).2⟩
  kept _ h := ⟨h.1, (List.forall_mem_cons.1 h.2).2⟩
  evicted _ _ h := ⟨h.1.evict (List.forall_mem_cons.1 h.2).1, (List.forall_mem_cons.1 h.2).2⟩
  removedBinding hx free h := by
    obtain ⟨hb, rest⟩ := List.forall_mem_cons.1 h.2
    exact ⟨h.1.removeBinding hb free, List.forall_mem_append.2 ⟨h.1.within_owned hb hx, rest⟩⟩
  removedInstance hi _ h := by
    obtain ⟨rfl, rest⟩ := List.forall_mem_cons.1 h.2
    exact ⟨h.1.removeInstance, List.forall_mem_append.2 ⟨h.1.within_instance hi, rest⟩⟩

theorem settle (h : Inside grows R i w v) (within : ∀ task ∈ tasks, task.Within R i) :
    Inside grows R i w (v.settle tasks) :=
  (settling.settle_all ⟨h, within⟩).1

theorem letGo_binding (h : Inside grows R i w v) (hb : R.binding b) :
    Inside grows R i w (v.settle [.letGo (.binding b)]) :=
  h.settle fun task mem => by
    cases List.mem_singleton.1 mem
    exact hb

/-! ## Counts and times -/

theorem now (h : Inside grows R i w v) : Inside grows R i w (v.now n).2 := h.aside

theorem changed (h : Inside grows R i w v) (hn : R.node n) {time : Timestamp} :
    Inside grows R i w (v.modifyNode n (·.changed time)) :=
  h.modifyNode hn fun _ => rfl

theorem written (h : Inside grows R i w v) (hn : R.node n) {time : Timestamp} :
    Inside grows R i w (v.modifyNode n (·.written time)) :=
  h.modifyNode hn fun _ => rfl

theorem addLink (h : Inside grows R i w v) (hn : R.node n) : Inside grows R i w (v.addLink n) :=
  h.modifyNode hn fun _ => rfl

theorem dropLink (h : Inside grows R i w v) (hn : R.node n) :
    Inside grows R i w (v.dropLink n) := by
  rw [dropLink_eq]
  exact h.aside.modifyNode hn fun _ => rfl

theorem touch (h : Inside grows R i w v) (hn : R.node n) : Inside grows R i w (v.touch n) :=
  h.now.written hn

theorem touchWith (h : Inside grows R i w v) (hn : R.node n) (hm : R.node m) :
    Inside grows R i w (v.touchWith n m) :=
  (h.now.changed hm).written hn

theorem markAccessed (h : Inside grows R i w v) (hn : R.node n) :
    Inside grows R i w (v.markAccessed n) :=
  h.now.modifyNode hn fun _ => rfl

theorem markChanged (h : Inside grows R i w v) (hb : R.binding b) {time : Timestamp} :
    Inside grows R i w (v.markChanged b time) := by
  unfold World.markChanged
  cases hn : v.nodeOf b with
  | none => exact h
  | some n => exact h.changed (h.closed.bound hb hn)

theorem touchRenamed (h : Inside grows R i w v) (hA : R.node dirA) (ha : R.binding a)
    (hB : R.node dirB) (hb : R.binding b) : Inside grows R i w (v.touchRenamed dirA a dirB b) :=
  (((h.now.written hA).written hB).markChanged ha).markChanged hb

theorem shiftLink (h : Inside grows R i w v) (hA : R.node dirA) (hB : R.node dirB) :
    Inside grows R i w (v.shiftLink dirA dirB) :=
  (h.dropLink hA).addLink hB

theorem exchangeLinks (h : Inside grows R i w v) (hA : R.node dirA) (hB : R.node dirB) :
    Inside grows R i w (v.exchangeLinks dirA n dirB m) := by
  unfold World.exchangeLinks
  split
  · split
    · exact h.shiftLink hA hB
    · exact h.shiftLink hB hA
  · exact h

theorem resized (h : Inside grows R i w v) (hn : R.node n) {node : Node} {size : Nat} :
    Inside grows R i w (v.resized n node size) :=
  h.aside.modifyNode hn fun _ => rfl

/-! ## Names -/

theorem pin (h : Inside grows R i w v) (hb : R.binding b) : Inside grows R i w (v.pin b) :=
  h.trim hb fun _ => ⟨rfl, fun _ _ => id⟩

/-- A name leads to the binding from its own realm only. -/
theorem detach (h : Inside grows R i w v) (hb : R.binding b) : Inside grows R i w (v.detach b) := by
  unfold World.detach
  split
  · exact h
  · split
    · next entry =>
        refine h.trim ((h.closed.child entry).2 hb) fun _ => ⟨rfl, fun k c hk => ?_⟩
        rw [getElem?_erase_name] at hk
        split at hk
        · cases hk
        · exact hk
    · exact h

theorem enter (h : Inside grows R i w v) (growing : grows) (hd : R.binding d) (hb : R.binding b) :
    Inside grows R i w (v.enter d name b) := by
  refine settle (h.modifyBinding hd (fun x n _ hn => hn) (fun x n hx hn => ?_)
    (fun x k c hx hk => ?_) fun still => absurd growing still) fun task mem => ?_
  · exact h.closed.bound hd (nodeOf_eq_some_iff.2 ⟨x, hx, hn⟩)
  · rw [getElem?_insert_name] at hk
    split at hk
    · cases hk
      exact hb
    · exact (h.closed.child (child?_eq_some_iff.2 ⟨x, hx, hk⟩)).1 hd
  · obtain ⟨c, entry, rfl⟩ := List.mem_map.1 mem
    exact (h.closed.child (Option.mem_toList.1 entry)).1 hd

/-- A binding that was just made for a directory gets its node and its place there. -/
theorem instantiate (h : Inside grows R i w v) (growing : grows)
    (hx : v.bindings.get? b = some { name, parent := some dir }) (hb : R.binding b)
    (hdir : R.binding dir) (hn : R.node n) : Inside grows R i w (v.instantiate b n) := by
  have bound : Inside grows R i w (v.modifyBinding b ({ · with node := some n })) := by
    refine h.modifyBinding hb (fun x m hx' hm => ?_) (fun x m _ hm => ?_) (fun x k c hx' hk => ?_)
      fun still => absurd growing still
    · cases hx.symm.trans hx'
      cases hm
    · cases hm
      exact hn
    · exact (h.closed.child (child?_eq_some_iff.2 ⟨x, hx', hk⟩)).1 hb
  unfold World.instantiate
  rw [nodeOf_of_get? hx]
  simp only [Option.toList_none, List.map_nil, settle_nil]
  rw [parentOf_modifyBinding_of_parent_eq hx rfl, parentOf_of_get? hx]
  cases there : Option.filter v.bindings.has (some dir) with
  | none => exact bound
  | some p =>
      cases (Option.filter_eq_some_iff.1 there).1
      exact bound.enter growing hdir hb

theorem readdress (h : Inside grows R i w v) (hb : R.binding b) :
    Inside grows R i w (v.readdress b d name) :=
  h.trim hb fun _ => ⟨rfl, fun _ _ => id⟩

theorem moveBinding (h : Inside grows R i w v) (growing : grows) (hb : R.binding b)
    (hd : R.binding d) : Inside grows R i w (v.moveBinding b d name) :=
  ((h.detach hb).readdress hb).enter growing hd hb

theorem exchangeBindings (h : Inside grows R i w v) (growing : grows) (ha : R.binding a)
    (hb : R.binding b) (above : ∀ d, v.parentOf a = some d ∨ v.parentOf b = some d → R.binding d) :
    Inside grows R i w (v.exchangeBindings a b) := by
  unfold World.exchangeBindings
  split
  · next dA dB parentA parentB =>
      exact ((((((h.detach ha).detach hb).readdress ha).readdress hb).enter growing
        (above dB (.inr parentB)) ha).enter growing (above dA (.inl parentA)) hb)
  · exact h

theorem unlinked (h : Inside grows R i w v) (hd : R.node n) (hb : R.binding b) (hm : R.node m) :
    Inside grows R i w (v.unlinked n b m) :=
  (((h.touchWith hd hm).dropLink hm).detach hb).unpin hb

theorem replaced (h : Inside grows R i w v) (hA : R.node dirA) (hB : R.node dirB)
    (hb : R.binding b) (hm : R.node m) : Inside grows R i w (v.replaced dirA n dirB b m) := by
  unfold World.replaced
  split
  · exact ((h.dropLink hm).dropLink hA).unlinked hB hb hm
  · exact h.unlinked hB hb hm

/-! ## New nodes -/

variable {v' : World} {mode : Mode} {device : DeviceNumber}

/-- A node made for the instance is in the realm. -/
theorem newNode (h : Inside grows R i w v) (growing : grows) {from? : Option NodeId}
    (made : Action.newNode i from? mode device v = .ok n v') :
    Inside grows R i w v' ∧ R.node n ∧ v'.bindings = v.bindings ∧ v'.files = v.files := by
  obtain ⟨rfl, host, ino, kind, time, -, rfl, -⟩ := Action.newNode_ok made
  exact ⟨h.pushNode growing rfl, h.closed.newNode (Nat.le_refl _), rfl, rfl⟩

theorem home_of_livesIn (h : Inside grows R i w v) (hn : R.node n) {j : InstanceId}
    (lives : v.LivesIn n j) : j = i := by
  obtain ⟨x, hx, rfl, -⟩ := lives
  exact h.closed.home hn hx

theorem storeBytes (h : Inside grows R i w v) (hn : R.node n) {offset : Nat} {src : Bytes}
    (stored : Action.storeBytes n offset src v = .ok () v') :
    Inside grows R i w v' ∧ v'.bindings = v.bindings := by
  obtain ⟨node, content, host, -, -, rfl⟩ := Action.storeBytes_ok stored
  exact ⟨h.aside.modifyNode hn fun _ => rfl, rfl⟩

/-- The position of a file is no matter of bindings. -/
theorem moveTo (h : Inside grows R i w v) (hf : R.file f) {position : Nat} :
    Inside grows R i w (v.modifyFile f ({ · with position })) :=
  h.modifyFile hf fun _ hx => ⟨rfl, (h.closed.file hf hx).2⟩

/-! ## Making names -/

theorem makeAt (h : Inside grows R i w v) (growing : grows)
    (hx : v.bindings.get? b = some { name, parent := some dir }) (hb : R.binding b)
    (hdir : R.binding dir) (hd : R.node m) (made : Action.makeAt m b mode device v = .ok () v') :
    Inside grows R i w v' := by
  obtain ⟨home, n, u, lives, made, rfl⟩ := Action.makeAt_ok made
  cases h.home_of_livesIn hd lives
  obtain ⟨hu, hn, same, -⟩ := h.newNode growing made
  exact ((hu.instantiate growing (same ▸ hx) hb hdir hn).pin hb).touch hd

theorem makeSymlinkAt (h : Inside grows R i w v) (growing : grows) {target : String}
    (hx : v.bindings.get? b = some { name, parent := some dir }) (hb : R.binding b)
    (hdir : R.binding dir) (hd : R.node m) (made : Action.makeSymlinkAt m b target v = .ok () v') :
    Inside grows R i w v' := by
  obtain ⟨home, n, u, u', lives, made, stored, rfl⟩ := Action.makeSymlinkAt_ok made
  cases h.home_of_livesIn hd lives
  obtain ⟨hu, hn, same, -⟩ := h.newNode growing made
  obtain ⟨t, bytes, rfl⟩ := Action.storeTarget_ok stored
  obtain ⟨ht, same'⟩ := hu.storeBytes hn bytes
  have sized : Inside grows R i w (t.modifyNode n fun node => { node with
      content := node.content.setSize ((target.toUTF8.data.push 0).size - 1) }) :=
    ht.modifyNode hn fun _ => rfl
  have hx : t.bindings.get? b = some { name, parent := some dir } := by rw [same', same, hx]
  exact ((sized.instantiate growing hx hb hdir hn).pin hb).touch hd

/-- A node without a name is given to the binding and the file that were made for it. -/
theorem openedUnnamed (h : Inside grows R i w v) (growing : grows) {file : OpenFile}
    (hx : v.bindings.get? b = some { name, parent := some dir }) (hf : v.files.get? f = some file)
    (same : file.binding = b) (insideB : R.binding b) (insideF : R.file f) (hn : R.node n)
    {shown : String} : Inside grows R i w (v.openedUnnamed b f n shown) := by
  rw [← bindings_dropLink (n := n)] at hx
  rw [← files_dropLink (n := n)] at hf
  have dropped := h.dropLink hn
  have bound : Inside grows R i w ((v.dropLink n).modifyBinding b
      fun x => { x with name := shown, node := some n }) := by
    refine dropped.modifyBinding insideB (fun x m hx' hm => ?_) (fun x m _ hm => ?_)
      (fun x k c hx' hk => ?_) fun still => absurd growing still
    · cases hx.symm.trans hx'
      cases hm
    · cases hm
      exact hn
    · exact (dropped.closed.child (child?_eq_some_iff.2 ⟨x, hx', hk⟩)).1 insideB
  refine bound.modifyFile insideF fun x hx' => ⟨rfl, fun m hm => ?_⟩
  cases hf.symm.trans hx'
  cases hm
  rw [same, nodeOf_modifyBinding hx, if_pos rfl]

theorem makeName (h : Inside grows R i w v) (growing : grows)
    {make : NodeId → BindingId → Action Unit}
    (made : ∀ {u}, Inside grows R i w u → u.bindings.get? b = some { name, parent := some dir } →
      R.binding b → make n b u = .ok () v' → Inside grows R i w v')
    (done : Action.makeName dir n name make v = .ok b v') : Inside grows R i w v' := by
  obtain ⟨-, u, fresh, done⟩ := Action.makeName_ok done
  obtain ⟨host, -, rfl, rfl⟩ := Action.newBinding_eq_ok.1 fresh
  exact made (h.pushBinding growing) Table.get?_push_self (h.closed.newBinding (Nat.le_refl _)) done

/-! ## The instance -/

theorem setData (h : Inside grows R i w v) {data : Option PrivateData} :
    Inside grows R i w (v.setData i data) := by
  refine settle (h.modifyInstance fun x root _ had => .inl had) fun task mem => ?_
  obtain ⟨_, -, rfl⟩ := List.mem_map.1 mem
  trivial

theorem ending : Ending i (Inside grows R i w) where
  noted _ h := h.aside
  stripped h := h.setData
  dissolved {v inst} hi h := by
    refine settle (h.modifyInstance fun x root _ had => nomatch had) fun task mem => ?_
    obtain ⟨root, hroot, same⟩ := Instance.mem_uprooting.1 mem
    have inside : R.binding root := (h.closed.root hi hroot).1
    rcases same with rfl | rfl | rfl
    · exact inside
    · exact inside
    · exact inside

theorem deactivate (h : Inside grows R i w v) : Inside grows R i w (v.deactivate i) :=
  ending.deactivate h fun _ => h.modifyInstance fun _ _ _ had => .inl had

theorem withRoot (h : Inside grows R i w v) (growing : grows) (hn : R.node n) {host : Host} :
    Inside grows R i w (v.withRoot host n) := by
  have inside : R.binding v.bindings.nextId := h.closed.newBinding (Nat.le_refl _)
  have pushed : Inside grows R i w
      { v with host, bindings := v.bindings.push { name := rootName, parent := none } } :=
    h.pushBinding growing
  refine (pushed.modifyBinding inside (fun x m hx hm => ?_) (fun x m _ hm => ?_)
    (fun x k c hx hk => ?_) fun still => absurd growing still).pin inside
  · cases Table.get?_push_self.symm.trans hx
    cases hm
  · cases hm
    exact hn
  · exact (pushed.closed.child (child?_eq_some_iff.2 ⟨x, hx, hk⟩)).1 inside

theorem setRoot (h : Inside grows R i w v) (hb : R.binding b) (hn : v.nodeOf b = some n) :
    Inside grows R i w (v.setRoot i b) := by
  refine settle (h.modifyInstance fun x root _ given => .inr ?_) fun task mem => ?_
  · cases given
    exact ⟨hb, n, hn⟩
  · obtain ⟨root, before, rfl⟩ := List.mem_map.1 mem
    obtain ⟨inst, hi, hroot⟩ := Option.bind_eq_some_iff.1 (Option.mem_toList.1 before)
    exact (h.closed.root hi hroot).1

theorem fill (h : Inside grows R i w v) (growing : grows) {filling : Filling} :
    Action.Ends (Inside grows R i w) (Action.fill i filling) v := by
  have sized : Inside grows R i w (v.sized i) := h.modifyInstance fun _ _ _ had => .inl had
  cases filling with
  | noRoot => exact .pure h _
  | failing cause => exact .throw h cause
  | freshRoot =>
      refine .mk (fun done => ?_) fun failed => ?_
      · obtain ⟨inst, config, n, u, host, -, -, made, -, rfl⟩ := Action.fillBuiltIn_ok done
        obtain ⟨hu, hn, -⟩ := sized.newNode growing made
        exact (hu.withRoot growing hn).setRoot (hu.closed.newBinding (Nat.le_refl _))
          (nodeOf_of_get? get?_withRoot)
      · rcases Action.fillBuiltIn_error failed with rfl | ⟨mode, cause, failed⟩ |
          ⟨mode, n, u, host, made, -, rfl⟩
        · exact h
        · obtain ⟨host, rfl, -⟩ := Action.newNode_error failed
          exact sized.aside
        · obtain ⟨hu, hn, -⟩ := sized.newNode growing made
          refine settle hu.aside fun task mem => ?_
          cases List.mem_singleton.1 mem
          exact hn

end Inside

end Memfs
