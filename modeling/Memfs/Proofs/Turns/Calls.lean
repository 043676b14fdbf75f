import Memfs.Proofs.Turns

/-!
# What each call does to a file

The operations on names are followed one by one. Those on content change neither counts nor
names, an operation that fails changes nothing, and for all calls that are no operations there
is one argument: what they take part in is letting go, and the roots that they make are
directories.
-/

namespace Memfs

open World

variable {w v u : World} {n m d : NodeId} {a b c dir old dirA dirB : BindingId}
  {name k nameA nameB : String} {t : LinkCount} {call : Call} {op : Operation}
  {f : FileId} {flags : RenameFlags}

theorem Operation.after_of_ok (done : op.act w = .ok () v) : w.after (.operate op) = v := by
  have into : w.after (.operate op) = op.act.into w := rfl
  rw [into, Action.into, done]

theorem Operation.after_of_error {e : Error} (failed : op.act w = .error e v) :
    w.after (.operate op) = v := by
  have into : w.after (.operate op) = op.act.into w := rfl
  rw [into, Action.into, failed]

/-! ## Operations on names -/

namespace World

/-- A binding that is made for a name has no node yet and is in no directory. -/
theorem frame_newBinding (fresh : Action.newBinding dir name w = .ok b v) :
    v.nodes = w.nodes ∧ (∀ e k, v.child? e k = w.child? e k) ∧ ∀ c, v.nodeOf c = w.nodeOf c := by
  obtain ⟨host, -, -, rfl⟩ := Action.newBinding_eq_ok.1 fresh
  exact ⟨rfl, fun _ _ => Forest.child?_pushBinding, fun _ => Forest.nodeOf_pushBinding⟩

/-- A binding that a file is opened through gets its node. -/
theorem frame_openedUnnamed {x : Binding} (hx : w.bindings.get? b = some x) (f : FileId)
    (n : NodeId) (shown : String) :
    (∀ e k, (w.openedUnnamed b f n shown).child? e k = w.child? e k) ∧
      ∀ c, (w.openedUnnamed b f n shown).nodeOf c = if c = b then some n else w.nodeOf c := by
  have hx : (w.dropLink n).bindings.get? b = some x := by rw [bindings_dropLink, hx]
  refine ⟨fun e k => ?_, fun c => ?_⟩
  · refine (child?_modifyBinding_of_children_eq hx rfl).trans ?_
    unfold World.child?
    rw [bindings_dropLink]
  · refine (nodeOf_modifyBinding hx).trans ?_
    rw [nodeOf_dropLink]

/-- A new regular file has one link, and the other nodes are as they were. -/
theorem linkCount_of_newNode {home : InstanceId} {from? : Option NodeId} {mode : Mode}
    {device : DeviceNumber} (made : Action.newNode home from? mode device w = .ok m v) :
    v.linkCount n = if n = m then if mode.isDirectory then none else some ⟨1, false⟩
      else w.linkCount n := by
  obtain ⟨rfl, host, ino, kind, time, asked, rfl, -⟩ := Action.newNode_ok made
  have pushed := linkCount_pushNode (w := { w with host }) (n := n) (x := Node.make ino kind
    (Node.inherit (from?.bind w.nodes.get?) mode host.gid).1 host.uid
    (Node.inherit (from?.bind w.nodes.get?) mode host.gid).2 time home)
  refine pushed.trans (ite_congr rfl (fun _ => ?_) fun _ => rfl)
  rw [← NodeKind.isDirectory_of_ofMode asked]
  unfold Node.linkCount Node.make Node.isDirectory
  simp only
  split
  · rfl
  · rfl

/-- The file gets a fresh binding. -/
theorem linked_of_link (s : Sound w []) (done : Action.link old dir name w = .ok b v) :
    ∃ m, w.nodeOf old = some m ∧ w.Linked v b m := by
  obtain ⟨checked, m, d, x, hold, -, hx, allowed, hd, isDir, -, made⟩ := Action.link_ok done
  obtain ⟨free, u, fresh, made⟩ := Action.makeName_ok made
  have vacant := (s.newBinding hd isDir checked free fresh).2
  obtain ⟨same, child, node⟩ := frame_newBinding fresh
  obtain ⟨_, stands, rfl⟩ := Action.linkAt_ok made
  cases hold.symm.trans ((node old).symm.trans stands)
  -- the counts and times of nodes are no concern of the tree
  have place : Vacant ((u.touchWith d m).addLink m) b dir name := vacant.of_bindings rfl
  have negative : w.nodeOf b = none := (node b).symm.trans vacant.negative
  refine ⟨m, hold, negative, fun {p} before => ?_, fun {n t} h => ?_, fun {n c} => ?_⟩
  · obtain ⟨y, hy, -, links, linkable⟩ := linkCount_eq_some_iff.1 before
    cases hx.symm.trans hy
    rwa [← links, ← linkable]
  · have count := linkCount_of_instantiate (linkCount_modifyBinding.symm.trans h)
    rwa [linkCount_addLink, linkCount_touchWith, linkCount_of_nodes same] at count
  · refine (alias_of_tree .pin).trans (alias_of_entry (fun c => ?_) (fun e k => ?_) free negative)
    · rw [place.nodeOf_instantiate, ← node c]
      rfl
    · rw [place.child?_instantiate, ← child e k]
      rfl

/-- The binding that a file is opened through is in no directory. -/
theorem alias_openedUnnamed (s : Sound w []) {parent : Option BindingId} {shown : String}
    (same : u.bindings = w.bindings.push { name, parent }) :
    (u.openedUnnamed w.bindings.nextId f m shown).Alias n c ↔ w.Alias n c := by
  have pushed : u.bindings.get? w.bindings.nextId = some { name, parent } := by
    rw [same]
    exact Table.get?_push_self
  obtain ⟨child, node⟩ := frame_openedUnnamed pushed f m shown
  have entries : ∀ e k, u.child? e k = w.child? e k := fun e k => by
    unfold World.child?
    rw [same]
    show World.child? { w with bindings := _ } e k = _
    exact Forest.child?_pushBinding
  have nodes : ∀ c, u.nodeOf c = w.nodeOf c := fun c => by
    unfold World.nodeOf
    rw [same]
    show World.nodeOf { w with bindings := _ } c = _
    exact Forest.nodeOf_pushBinding
  refine alias_of_unentered (fun e k => (child e k).trans (entries e k))
    (fun c other => (node c).trans ((if_neg other).trans (nodes c))) fun e ⟨k, entry⟩ => ?_
  obtain ⟨x, hx⟩ := Table.has_iff.1 (s.forest.has_of_child? entry)
  cases Table.get?_nextId.symm.trans hx

/-- The new node loses the link that it was made with. -/
theorem opened_of_openUnnamed (s : Sound w []) {mode : Mode} {flags : OpenFlags}
    (done : Action.openUnnamed dir mode flags w = .ok f v) :
    w.Opened v (flags.has .exclusive) := by
  obtain ⟨m, host, home, new, u, shown, -, -, -, -, -, made, outcome⟩ :=
    Action.openUnnamed_ok done
  obtain ⟨rfl, same⟩ : new = w.nodes.nextId ∧
      u.bindings = w.bindings.push { name := "", parent := some dir } := by
    obtain ⟨number, host, ino, kind, time, -, rfl, -⟩ := Action.newNode_ok made
    exact ⟨number, rfl⟩
  have count : ∀ {n}, (u.openedUnnamed w.bindings.nextId f w.nodes.nextId shown).linkCount n
      = if n = w.nodes.nextId then some ⟨0, false⟩ else w.linkCount n := by
    intro n
    refine (linkCount_dropLink (w := u)).trans ?_
    rw [linkCount_of_newNode made, Mode.isDirectory_withType_regular]
    split
    · rfl
    · exact linkCount_of_nodes rfl
  rcases outcome with ⟨exclusive, rfl⟩ | ⟨granted, rfl⟩
  · refine ⟨fun {n} => ?_, alias_openedUnnamed s same⟩
    rw [count, exclusive]
    rfl
  · refine ⟨fun {n} => ?_, alias_openedUnnamed (f := f) s same⟩
    have grant : ∀ x : Node, Node.linkCount { x with linkable := true }
        = x.linkCount.map ({ · with linkable := true }) := by
      intro x
      unfold Node.linkCount Node.isDirectory
      split
      · rfl
      · rfl
    rw [linkCount_modifyNode _ grant, count, granted]
    split
    · rfl
    · rfl

/-! ### Removing and moving -/

/-- What is removed is empty, so no other name goes with it. -/
theorem withdrawn_of_letGo (f : Forest w) (hb : w.child? dir name = some b)
    (stands : w.nodeOf b = some m) (empty : ∀ c, ¬ w.Entered b c)
    (child : ∀ e k, u.child? e k = if e = dir ∧ k = name then none else w.child? e k)
    (node : ∀ c, u.nodeOf c = w.nodeOf c)
    (counts : ∀ n, u.linkCount n
      = if n = m then (w.linkCount n).map .dropLink else w.linkCount n) :
    w.Withdrawn (u.settle [.letGo (.binding b)]) b m where
  taken := ⟨stands, dir, name, hb⟩
  counts h := (counts _).symm.trans (linkCount_of_settle h)
  names := by
    have leaf : ∀ c, ¬ u.Entered b c := by
      rintro c ⟨k, inside⟩
      rw [child] at inside
      split at inside
      · cases inside
      · exact empty c ⟨k, inside⟩
    intro n c
    refine alias_of_removal f hb (fun e k => (child?_letGo_leaf leaf).trans (child e k)) fun c => ?_
    rw [← node c]
    exact nodeOf_letGo_leaf leaf

theorem withdrawn_of_unlink (s : Sound w []) (done : Action.unlink dir name w = .ok () v) :
    ∃ b m, w.Withdrawn v b m := by
  obtain ⟨d, b, m, -, -, hb, stands, file, rfl⟩ := Action.unlink_ok done
  exact ⟨b, m, withdrawn_of_letGo s.forest hb stands
    (fun c => not_entered_of_file s.forest stands file) (fun e k => s.forest.child?_unlinked hb)
    (fun c => s.forest.nodeOf_unlinked hb) fun n => linkCount_unlinked⟩

/-- The links of directories are no file's. -/
theorem withdrawn_of_rmdir (s : Sound w []) (done : Action.rmdir dir name w = .ok () v) :
    ∃ b m, w.Withdrawn v b m := by
  obtain ⟨d, b, m, hd, dirD, hb, stands, isDir, leaf, rfl⟩ := Action.rmdir_ok done
  have f : Forest (w.dropLink m) := s.dropLink.forest
  have hb' : (w.dropLink m).child? dir name = some b := SameTree.dropLink.child?.trans hb
  refine ⟨b, m, withdrawn_of_letGo s.forest hb stands (fun c => not_entered_of_hasChildren leaf)
    (fun e k => ?_) (fun c => ?_) fun n => ?_⟩
  · rw [SameTree.dropLink.child?, f.child?_unlinked hb', SameTree.dropLink.child?]
  · rw [SameTree.dropLink.nodeOf, f.nodeOf_unlinked hb', SameTree.dropLink.nodeOf]
  · rw [linkCount_dropLink, linkCount_unlinked, linkCount_dropLink_directory isDir]
    split
    · next same =>
        rw [same, linkCount_of_directory dirD]
        split
        · rfl
        · rfl
    · rfl

/-- Two names that change places stay names of their nodes. -/
theorem undisturbed_of_exchangeNames (s : Sound w []) {nodeA nodeB : NodeId}
    (kindA : w.isDirectory nodeA = true) (kindB : w.isDirectory nodeB = true)
    (ha : w.child? dirA nameA = some a) (hb : w.child? dirB nameB = some b) (hne : a ≠ b)
    (exchange : flags.has .exchange = true)
    (done : Action.exchangeNames dirA nodeA a dirB nodeB b flags w = .ok () v) :
    w.Undisturbed v := by
  obtain ⟨-, -, m, n, -, -, rfl⟩ := Action.exchangeNames_ok exchange done
  have tree : SameTree w ((w.exchangeLinks nodeA m nodeB n).touchRenamed nodeA a nodeB b) :=
    SameTree.exchangeLinks.trans .touchRenamed
  obtain ⟨child, node⟩ := (s.forest.congr tree).entries_exchangeBindings (tree.child?.trans ha)
    (tree.child?.trans hb) hne
  refine ⟨fun h => ?_, ?_⟩
  · rw [← linkCount_exchangeLinks kindA kindB, ← linkCount_touchRenamed]
    exact linkCount_of_exchangeBindings h
  · intro k c
    refine alias_of_exchange ha hb (fun e j => ?_) (fun c => (node c).trans tree.nodeOf)
      (places_ne ha hb hne)
    rw [child, tree.child?]

/-- What has the name that another one moves to is withdrawn. If it is a directory then its
links go with it, and if nothing is there a directory may change the links of two others. -/
theorem moved_of_moveName (s : Sound w []) {nodeA nodeB source : NodeId}
    (kindA : w.isDirectory nodeA = true) (hB : w.nodeOf dirB = some nodeB)
    (kindB : w.isDirectory nodeB = true) (ha : w.child? dirA nameA = some a)
    (hsource : w.nodeOf a = some source) (checked : checkName nameB = .ok ())
    (differ : ∀ b, w.child? dirB nameB = some b → b ≠ a) (move : flags.has .exchange = false)
    (done : Action.moveName nodeA a source dirB nodeB nameB (w.child? dirB nameB) flags w
      = .ok () v) : w.Undisturbed v ∨ ∃ b m, w.Withdrawn v b m := by
  obtain ⟨-, shifted, -⟩ := s.moveName_shifted hB kindB ha hsource checked differ move done
  have names : ∀ {n c}, v.Alias n c ↔ w.Alias n c ∧ w.child? dirB nameB ≠ some c :=
    shifted.alias s.forest ha fun same => differ a same rfl
  obtain ⟨-, ⟨b, target, hb, stands, kinds, -, rfl⟩ | ⟨b, u, u', free, fresh, hu, -, -, rfl⟩⟩ :=
    s.moveName_cases hsource hB kindB checked move done
  · have kind : w.isDirectory target = w.isDirectory source :=
      (bindsDirectory_of_nodeOf stands).symm.trans kinds
    refine .inr ⟨b, target, ⟨stands, dirB, nameB, hb⟩, fun {n t} h => ?_, fun {n c} => ?_⟩
    · have count := linkCount_of_moveBinding (linkCount_of_settle h)
      rwa [linkCount_touchRenamed, linkCount_replaced kindA kind] at count
    · rw [names, hb]
      simp [eq_comm]
  · obtain ⟨same, -, -⟩ := frame_newBinding fresh
    have kind : ∀ m, u.isDirectory m = w.isDirectory m := fun m => by
      unfold World.isDirectory
      rw [same]
    refine .inl ⟨fun {n t} h => ?_, fun {n c} => ?_⟩
    · have count := linkCount_of_moveBinding (linkCount_of_settle h)
      rw [linkCount_touchRenamed, hu] at count
      split at count
      · rw [linkCount_shiftLink ((kind _).trans kindA) ((kind _).trans kindB)] at count
        exact (linkCount_of_nodes same).symm.trans count
      · exact (linkCount_of_nodes same).symm.trans count
    · rw [names, free]
      simp

theorem moved_of_rename (s : Sound w [])
    (done : Action.rename dirA nameA dirB nameB flags w = .ok () v) :
    w.Undisturbed v ∨ ∃ b m, w.Withdrawn v b m := by
  obtain ⟨-, checked, nodeA, nodeB, a, source, -, kindA, hB, kindB, -, ha, hsource, outcome⟩ :=
    Action.rename_ok done
  rcases outcome with ⟨-, rfl⟩ | ⟨differ, ⟨exchange, b, hb, done⟩ | ⟨move, done⟩⟩
  · exact .inl ⟨id, Iff.rfl⟩
  · exact .inl (undisturbed_of_exchangeNames s kindA kindB ha hb (differ b hb).1.symm exchange done)
  · exact moved_of_moveName s kindA hB kindB ha hsource checked (fun b hb => (differ b hb).1) move
      done

end World

/-! ## Operations on content -/

namespace World.Undisturbed

theorem storeBytes {offset : Nat} {src : Bytes}
    (stored : Action.storeBytes m offset src w = .ok () v) {files : Table OpenFile} :
    w.Undisturbed { v.touch n with files } := by
  have same : v.bindings = w.bindings := by
    obtain ⟨x, content, host, -, -, rfl⟩ := Action.storeBytes_ok stored
    rfl
  exact .of_bindings same (linkCount_touch.trans (linkCount_storeBytes stored))

theorem openFile {flags : OpenFlags}
    (done : Action.openFile b flags w = .ok f v) : w.Undisturbed v := by
  obtain ⟨n, u, -, rfl | ⟨-, cut⟩, -, rfl⟩ := Action.openFile_ok done
  · exact .of_bindings rfl rfl
  · obtain ⟨x, -, rfl⟩ := Action.resizeContent_ok cut
    exact .of_bindings rfl (linkCount_touch.trans linkCount_resized)

end World.Undisturbed

/-! ## Every operation -/

/-- An operation that succeeds. -/
theorem Turn.of_ok (s : Sound w []) (barred : w.Barred) (done : op.act w = .ok () v)
    (hv : v.linkCount n = some t) : Turn w v (.operate op) n t := by
  have forest : Forest v := ((s.operate op).ok done).forest
  have created : ∀ {dir b name} {c : Creation}, c.act dir name w = .ok b v →
      Turn w v (.operate op) n t := fun done => by
      obtain ⟨m, y, x, bound, -, made, unlinkable, gained⟩ := s.gained_next barred done
      exact .of_gained forest bound made unlinkable gained hv
  have withdrawn : (∃ b m, w.Withdrawn v b m) → Turn w v (.operate op) n t :=
    fun ⟨b, m, h⟩ => .of_withdrawn h hv
  have undisturbed : w.Undisturbed v → Turn w v (.operate op) n t := fun h => .of_undisturbed h hv
  cases op with
  | create dir name mode =>
      obtain ⟨b, done⟩ := Action.exists_of_discard_ok done
      exact created (c := .file mode) done
  | mkdir dir name mode =>
      obtain ⟨b, done⟩ := Action.exists_of_discard_ok done
      exact created (c := .directory mode) done
  | mknod dir name mode device =>
      obtain ⟨b, done⟩ := Action.exists_of_discard_ok done
      exact created (c := .node mode device) done
  | symlink dir name target =>
      obtain ⟨b, done⟩ := Action.exists_of_discard_ok done
      exact created (c := .symlink target) done
  | openUnnamed dir mode flags =>
      have succeeds := Operation.succeeds_of_ok done
      obtain ⟨f, done⟩ := Action.exists_of_discard_ok done
      exact .of_opened s (opened_of_openUnnamed s done) ⟨dir, mode, flags, rfl, rfl, rfl, succeeds⟩
        hv
  | link old dir name =>
      have succeeds := Operation.succeeds_of_ok done
      obtain ⟨b, done⟩ := Action.exists_of_discard_ok done
      obtain ⟨m, hold, linked⟩ := linked_of_link s done
      exact .of_linked linked ⟨old, dir, name, rfl, hold, succeeds⟩ hv
  | unlink dir name => exact withdrawn (withdrawn_of_unlink s done)
  | rmdir dir name => exact withdrawn (withdrawn_of_rmdir s done)
  | rename dirA nameA dirB nameB flags => exact (moved_of_rename s done).elim undisturbed withdrawn
  | openFile b flags =>
      obtain ⟨f, done⟩ := Action.exists_of_discard_ok done
      exact undisturbed (.openFile done)
  | readdir dir =>
      obtain ⟨entries, done⟩ := Action.exists_of_discard_ok done
      obtain ⟨m, -, rfl⟩ := Action.readdir_ok done
      exact undisturbed (.of_bindings rfl linkCount_markAccessed)
  | read f len =>
      obtain ⟨bytes, done⟩ := Action.exists_of_discard_ok done
      obtain ⟨m, position, -, rfl⟩ := Action.read_ok done
      exact undisturbed (.of_bindings rfl linkCount_markAccessed)
  | readAt f offset len =>
      obtain ⟨bytes, done⟩ := Action.exists_of_discard_ok done
      obtain ⟨m, -, rfl⟩ := Action.readAt_ok done
      exact undisturbed (.of_bindings rfl linkCount_markAccessed)
  | write f src =>
      obtain ⟨written, done⟩ := Action.exists_of_discard_ok done
      obtain ⟨m, offset, u, position, -, stored, rfl⟩ := Action.write_ok done
      exact undisturbed (.storeBytes stored)
  | writeAt f offset src =>
      obtain ⟨written, done⟩ := Action.exists_of_discard_ok done
      obtain ⟨m, u, -, stored, rfl⟩ := Action.writeAt_ok done
      exact undisturbed (.storeBytes stored)
  | seek f position =>
      rw [← Action.seek_eq_ok.1 done] at hv undisturbed ⊢
      exact undisturbed (.of_bindings rfl rfl)
  | setLength f size =>
      obtain ⟨m, x, -, -, rfl⟩ := Action.setLength_ok done
      exact undisturbed (.of_bindings rfl (linkCount_touch.trans linkCount_resized))

/-! ## Calls that are no operations -/

/-- No file has other links or more names. -/
structure World.Receded (w v : World) : Prop where
  counts : ∀ {n t}, v.linkCount n = some t → w.linkCount n = some t
  names : ∀ {n c t}, v.linkCount n = some t → v.Alias n c → w.Alias n c

namespace World.Receded

theorem refl : w.Receded w := ⟨id, fun _ => id⟩

theorem trans (h : w.Receded v) (h' : v.Receded u) : w.Receded u where
  counts hu := h.counts (h'.counts hu)
  names hu named := h.names (h'.counts hu) (h'.names hu named)

theorem of_spared (h : Spared w v) : w.Receded v :=
  ⟨linkCount_of_spared h, fun _ => alias_of_spared h⟩

theorem of_undisturbed (h : w.Undisturbed v) : w.Receded v := ⟨h.counts, fun _ => h.names.1⟩

/-- A directory that is made is no file. -/
theorem newDirectory {home : InstanceId} {mode : Mode}
    (made : Action.newNode home none (mode.withType Mode.directoryType) .none w = .ok m v) :
    w.Receded v ∧ v.linkCount m = none := by
  have counts : ∀ n, v.linkCount n = if n = m then none else w.linkCount n := fun n => by
    rw [linkCount_of_newNode made, Mode.isDirectory_withType_directory, if_pos rfl]
  have names : ∀ {n c}, v.Alias n c ↔ w.Alias n c := by
    obtain ⟨-, host, ino, kind, time, -, rfl, -⟩ := Action.newNode_ok made
    exact Iff.rfl
  refine ⟨⟨fun {n t} h => ?_, fun _ => names.1⟩, ?_⟩
  · rw [counts] at h
    split at h
    · cases h
    · exact h
  · rw [counts, if_pos rfl]

/-- Its root is no name of a file. -/
theorem withRoot {host : Host} (directory : w.linkCount m = none) :
    w.Receded (w.withRoot host m) where
  counts h := h
  names {n c t} h named := by
    have other : n ≠ m := by
      rintro rfl
      cases directory.symm.trans h
    have pushed := Table.get?_push_self (t := w.bindings)
      (a := { name := rootName, parent := none })
    have entered := (alias_of_tree (.pin (b := w.bindings.nextId))).1 named
    obtain ⟨hn, e, k, hk⟩ := entered
    rw [nodeOf_modifyBinding pushed, Forest.nodeOf_pushBinding] at hn
    rw [child?_modifyBinding_of_children_eq pushed rfl, Forest.child?_pushBinding] at hk
    split at hn
    · exact absurd (Option.some.inj hn).symm other
    · exact ⟨hn, e, k, hk⟩

theorem housekeeping : Housekeeping w.Receded where
  aside h _ _ nodes bindings :=
    h.trans (of_undisturbed (.of_bindings bindings (linkCount_of_nodes nodes)))
  settled h := h.trans (of_spared Spared.refl.settle)
  made made h := h.trans (newDirectory made).1
  rooted made _ h :=
    have directory := newDirectory made
    (h.trans directory.1).trans (withRoot directory.2)

end World.Receded

/-! ## Every call -/

/-- A file that is there after a call is there by one of the five turns. -/
theorem Turn.after (s : Sound w []) (barred : w.Barred) (call : Call)
    (hv : (w.after call).linkCount n = some t) : Turn w (w.after call) call n t := by
  by_cases operation : ∃ op, call = .operate op
  · obtain ⟨op, rfl⟩ := operation
    cases done : op.act w with
    | ok u v =>
        rw [Operation.after_of_ok done] at hv ⊢
        exact .of_ok s barred done hv
    | error e v =>
        rw [Operation.after_of_error done] at hv ⊢
        exact .of_undisturbed (.of_unchanged (op.act_clean s e v done)) hv
  · have other : ∀ op, call ≠ .operate op := fun op same => operation ⟨op, same⟩
    have receded : w.Receded (w.after call) := Receded.housekeeping.after .refl other
      (fun _ _ => .of_undisturbed (.of_bindings rfl rfl))
      fun _ _ => .of_undisturbed (.of_bindings rfl rfl)
    exact .kept (receded.counts hv) (fun c => receded.names hv) fun c was gone =>
      ⟨other, c, was, gone⟩

end Memfs
