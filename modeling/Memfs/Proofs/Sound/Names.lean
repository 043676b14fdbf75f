import Memfs.Proofs.Effects
import Memfs.Proofs.Pages
import Memfs.Proofs.Sound.Moves

/-!
# A world in order: the operations on names

Each operation on names that succeeds leaves a world that is in order. The counts of
links and the timestamps that it moves are of no concern to the names, so the first
part says of each of these changes that it leaves the tree as it was, and the rest
follows the names through the sequence of changes that an operation has made.
-/

namespace Memfs

open World

/-! ## Changes of nodes -/

theorem World.isDirectory_modifyNode {w : World} {n m : NodeId} {g : Node → Node}
    (kind : ∀ node, (g node).kind = node.kind) :
    (w.modifyNode n g).isDirectory m = w.isDirectory m := by
  unfold World.isDirectory World.modifyNode
  simp only [Table.get?_modify]
  split
  · next e =>
      rw [e]
      cases w.nodes.get? n with
      | none => rfl
      | some node => simp only [Option.map_some, Option.any_some, Node.isDirectory, kind]
  · rfl

theorem Action.isDirectory_of_storeTarget {w w' : World} {n m : NodeId} {closed : Bytes}
    (h : Action.storeTarget n closed w = .ok () w') : w'.isDirectory m = w.isDirectory m := by
  obtain ⟨v, bytes, rfl⟩ := Action.storeTarget_ok h
  obtain ⟨node, content, host, -, -, rfl⟩ := Action.storeBytes_ok bytes
  refine (isDirectory_modifyNode ?_).trans (isDirectory_modifyNode ?_)
  · exact fun _ => rfl
  · exact fun _ => rfl

namespace SameTree

variable {w w' w'' : World} {n : NodeId} {b : BindingId}

theorem refl : SameTree w w := ⟨Nat.le_refl _, fun _ => rfl, fun _ => rfl⟩

theorem trans (s : SameTree w w') (t : SameTree w' w'') : SameTree w w'' where
  next := Nat.le_trans s.next t.next
  bindings b := (t.bindings b).trans (s.bindings b)
  directory h := (t.directory (s.nodeOf.trans h)).trans (s.directory h)

theorem onHost {host : Host} : SameTree w { w with host } :=
  ⟨Nat.le_refl _, fun _ => rfl, fun _ => rfl⟩

theorem modifyNode {g : Node → Node} (kind : ∀ node, (g node).kind = node.kind) :
    SameTree w (w.modifyNode n g) where
  next := Nat.le_refl _
  bindings _ := rfl
  directory _ := isDirectory_modifyNode kind

theorem modifyBinding {x : Binding} {g : Binding → Binding} (hx : w.bindings.get? b = some x)
    (hg : (g x).unpinned = x.unpinned) : SameTree w (w.modifyBinding b g) where
  next := by
    unfold World.modifyBinding
    rw [Table.nextId_modify]
  bindings c := by
    rw [get?_modifyBinding hx]
    split
    · next e => rw [e, hx, Option.map_some, Option.map_some, hg]
    · rfl
  directory := fun _ => rfl

theorem now : SameTree w (w.now n).2 := onHost

theorem written {time : Timestamp} : SameTree w (w.modifyNode n (·.written time)) :=
  modifyNode fun _ => rfl

theorem changed {time : Timestamp} : SameTree w (w.modifyNode n (·.changed time)) :=
  modifyNode fun _ => rfl

theorem touch : SameTree w (w.touch n) := now.trans written

theorem touchWith {m : NodeId} : SameTree w (w.touchWith n m) := (now.trans changed).trans written

theorem markChanged {time : Timestamp} : SameTree w (w.markChanged b time) := by
  unfold World.markChanged
  cases w.nodeOf b with
  | none => exact refl
  | some n => exact changed

theorem touchRenamed {dirA dirB : NodeId} {a b : BindingId} :
    SameTree w (w.touchRenamed dirA a dirB b) :=
  (((now.trans written).trans written).trans markChanged).trans markChanged

theorem addLink : SameTree w (w.addLink n) := modifyNode fun _ => rfl

theorem dropLink : SameTree w (w.dropLink n) := by
  rw [dropLink_eq]
  exact onHost.trans (modifyNode fun _ => rfl)

theorem shiftLink {dirA dirB : NodeId} : SameTree w (w.shiftLink dirA dirB) :=
  dropLink.trans addLink

theorem exchangeLinks {dirA nodeA dirB nodeB : NodeId} :
    SameTree w (w.exchangeLinks dirA nodeA dirB nodeB) := by
  unfold World.exchangeLinks
  split
  · split
    · exact shiftLink
    · exact shiftLink
  · exact refl

theorem pin : SameTree w (w.pin b) := by
  unfold World.pin
  cases hx : w.bindings.get? b with
  | none =>
      rw [modifyBinding_of_absent hx]
      exact refl
  | some x => exact modifyBinding hx rfl

theorem unpin : SameTree w (w.unpin b) := by
  unfold World.unpin
  cases hx : w.bindings.get? b with
  | none => exact refl
  | some x =>
      simp only
      split
      · exact onHost
      · exact modifyBinding hx rfl

theorem above (s : SameTree w w') {top : BindingId} : w'.Above top b ↔ w.Above top b := by
  unfold World.Above
  rw [isParent_eq fun _ => s.parentOf]

end SameTree

namespace Sound

variable {w : World} {todo : List Task} {n : NodeId} {b : BindingId}

theorem written (s : Sound w todo) {time : Timestamp} :
    Sound (w.modifyNode n (·.written time)) todo :=
  s.modifyNode (fun _ => rfl) fun _ => rfl

theorem changed (s : Sound w todo) {time : Timestamp} :
    Sound (w.modifyNode n (·.changed time)) todo :=
  s.modifyNode (fun _ => rfl) fun _ => rfl

theorem touch (s : Sound w todo) : Sound (w.touch n) todo := (s.now n).written

theorem touchWith (s : Sound w todo) {m : NodeId} : Sound (w.touchWith n m) todo :=
  (s.now n).changed.written

theorem markChanged (s : Sound w todo) {time : Timestamp} : Sound (w.markChanged b time) todo := by
  unfold World.markChanged
  cases w.nodeOf b with
  | none => exact s
  | some n => exact s.changed

theorem touchRenamed (s : Sound w todo) {dirA dirB : NodeId} {a b : BindingId} :
    Sound (w.touchRenamed dirA a dirB b) todo :=
  (s.now dirA).written.written.markChanged.markChanged

theorem addLink (s : Sound w todo) : Sound (w.addLink n) todo :=
  s.modifyNode (fun _ => rfl) fun _ => rfl

theorem dropLink (s : Sound w todo) : Sound (w.dropLink n) todo := by
  rw [dropLink_eq]
  exact (s.onHost fun _ => net_dropLink).modifyNode (fun _ => rfl) fun _ => rfl

theorem shiftLink (s : Sound w todo) {dirA dirB : NodeId} : Sound (w.shiftLink dirA dirB) todo :=
  s.dropLink.addLink

theorem exchangeLinks (s : Sound w todo) {dirA nodeA dirB nodeB : NodeId} :
    Sound (w.exchangeLinks dirA nodeA dirB nodeB) todo := by
  unfold World.exchangeLinks
  split
  · split
    · exact s.shiftLink
    · exact s.shiftLink
  · exact s

/-! ## Making names -/

/-- The place that is made for a name. -/
theorem newBinding (s : Sound w []) {dir : BindingId} {name : String} {d : NodeId} {v : World}
    (hd : w.nodeOf dir = some d) (hdir : w.isDirectory d = true) (checked : checkName name = .ok ())
    (free : w.child? dir name = none) (h : Action.newBinding dir name w = .ok b v) :
    Sound v [.letGo (.binding b)] ∧ Vacant v b dir name := by
  obtain ⟨host, acquired, rfl, rfl⟩ := Action.newBinding_eq_ok.1 h
  have isDir : w.bindsDirectory dir = true := bindsDirectory_iff.2 ⟨d, hd, hdir⟩
  refine ⟨s.pushBinding acquired fun p e => by cases e; exact isDir, ?_⟩
  exact {
    negative := by
      rw [Forest.nodeOf_pushBinding, World.nodeOf, Table.get?_nextId]
      rfl
    bears := by
      unfold World.nameOf
      rw [Table.get?_push_self]
      rfl
    parent := Forest.parentOf_pushBinding_self (has_of_bindsDirectory isDir)
    checked := checked
    free := by rw [Forest.child?_pushBinding, free] }

theorem newNode (s : Sound w todo) {home : InstanceId} {dir : Option NodeId} {mode : Mode}
    {device : DeviceNumber} {v : World} (h : Action.newNode home dir mode device w = .ok n v) :
    Sound v (.letGo (.node n) :: todo) ∧ v.nodes.has n = true ∧ (∀ c, v.nodeOf c ≠ some n) ∧
      v.bindings = w.bindings := by
  obtain ⟨rfl, host, ino, kind, time, -, rfl, -, net⟩ := Action.newNode_ok h
  refine ⟨s.pushNode net rfl, Table.has_push.2 (.inr rfl), fun c hc => ?_, rfl⟩
  exact s.tended.fresh_node (owned_of_nodeOf hc)

theorem makeAt (s : Sound w [.letGo (.binding b)]) {d : BindingId} {name : String} {dir : NodeId}
    {mode : Mode} {device : DeviceNumber} {w' : World} (v : Vacant w b d name)
    (h : Action.makeAt dir b mode device w = .ok () w') : Sound w' [] := by
  obtain ⟨home, n, mid, -, made, rfl⟩ := Action.makeAt_ok h
  obtain ⟨s, there, alone, same⟩ := s.newNode made
  exact ((s.instantiate (v.of_bindings same) there fun _ => alone).pin b).touch

theorem storeBytes (s : Sound w todo) {offset : Nat} {src : Bytes} {w' : World}
    (h : Action.storeBytes n offset src w = .ok () w') : Sound w' todo := by
  obtain ⟨node, content, host, hn, hwrite, rfl⟩ := Action.storeBytes_ok h
  exact s.recharge hn rfl (PageMap.write_ok hwrite).2

theorem storeTarget (s : Sound w todo) {closed : Bytes} {w' : World}
    (h : Action.storeTarget n closed w = .ok () w') : Sound w' todo := by
  obtain ⟨v, stored, rfl⟩ := Action.storeTarget_ok h
  have resized : ∀ size (node : Node),
      ({ node with content := node.content.setSize size } : Node).content.held
        = node.content.held := fun _ _ => rfl
  exact (s.storeBytes stored).modifyNode (fun _ => rfl) (resized _)

theorem makeSymlinkAt (s : Sound w [.letGo (.binding b)]) {d : BindingId} {name target : String}
    {dir : NodeId} {w' : World} (v : Vacant w b d name)
    (h : Action.makeSymlinkAt dir b target w = .ok () w') : Sound w' [] := by
  obtain ⟨home, n, mid, mid', -, made, stored, rfl⟩ := Action.makeSymlinkAt_ok h
  obtain ⟨s, there, alone, same⟩ := s.newNode made
  obtain ⟨kept, has⟩ := Action.storeTarget_frame stored
  have alone' : ∀ c, mid'.nodeOf c ≠ some n := by
    unfold World.nodeOf at alone ⊢
    rw [kept]
    exact alone
  exact (((s.storeTarget stored).instantiate (v.of_bindings (kept.trans same))
    ((has n).trans there) fun _ => alone').pin b).touch

theorem linkAt (s : Sound w [.letGo (.binding b)]) {old d : BindingId} {name : String}
    {dir : NodeId} {w' : World} (v : Vacant w b d name)
    (file : ∀ n, w.nodeOf old = some n → w.isDirectory n = false)
    (h : Action.linkAt old dir b w = .ok () w') : Sound w' [] := by
  obtain ⟨n, hn, rfl⟩ := Action.linkAt_ok h
  have tree : SameTree w ((w.touchWith dir n).addLink n) := SameTree.touchWith.trans .addLink
  have s : Sound ((w.touchWith dir n).addLink n) [.letGo (.node n), .letGo (.binding b)] :=
    (s.touchWith.addLink (n := n)).mono (fun _ h => List.mem_cons_of_mem _ h) rfl
  have there : ((w.touchWith dir n).addLink n).nodes.has n = true :=
    s.tended.there (owned_of_nodeOf (tree.nodeOf.trans hn))
  refine (s.instantiate (v.of_bindings rfl) there fun isDir => ?_).pin b
  rw [tree.directory hn, file n hn] at isDir
  cases isDir

theorem makeName (s : Sound w []) {dir : BindingId} {name : String} {d : NodeId} {w' : World}
    {make : NodeId → BindingId → Action Unit} (hd : w.nodeOf dir = some d)
    (hdir : w.isDirectory d = true) (checked : checkName name = .ok ())
    (h : Action.makeName dir d name make w = .ok b w')
    (made : ∀ v, Action.newBinding dir name w = .ok b v → Sound v [.letGo (.binding b)] →
      Vacant v b dir name → make d b v = .ok () w' → Sound w' []) : Sound w' [] := by
  obtain ⟨free, v, hb, h⟩ := Action.makeName_ok h
  obtain ⟨s', vacant⟩ := s.newBinding hd hdir checked free hb
  exact made v hb s' vacant h

theorem create (s : Sound w []) {dir : BindingId} {name : String} {mode : Mode} {w' : World}
    (h : Action.create dir name mode w = .ok b w') : Sound w' [] := by
  obtain ⟨checked, d, hd, hdir, h⟩ := Action.create_ok h
  exact s.makeName hd hdir checked h fun _ _ s v h => s.makeAt v h

theorem mkdir (s : Sound w []) {dir : BindingId} {name : String} {mode : Mode} {w' : World}
    (h : Action.mkdir dir name mode w = .ok b w') : Sound w' [] := by
  obtain ⟨checked, d, hd, hdir, h⟩ := Action.mkdir_ok h
  refine s.makeName hd hdir checked h fun _ _ s v h => ?_
  obtain ⟨mid, made, rfl⟩ := Action.makeDirectoryAt_ok h
  exact (s.makeAt v made).addLink

theorem mknod (s : Sound w []) {dir : BindingId} {name : String} {mode : Mode}
    {device : DeviceNumber} {w' : World} (h : Action.mknod dir name mode device w = .ok b w') :
    Sound w' [] := by
  obtain ⟨checked, d, full, given, hd, hdir, -, h⟩ := Action.mknod_ok h
  exact s.makeName hd hdir checked h fun _ _ s v h => s.makeAt v h

theorem symlink (s : Sound w []) {dir : BindingId} {name target : String} {w' : World}
    (h : Action.symlink dir name target w = .ok b w') : Sound w' [] := by
  obtain ⟨checked, d, hd, hdir, h⟩ := Action.symlink_ok h
  exact s.makeName hd hdir checked h fun _ _ s v h => s.makeSymlinkAt v h

theorem link (s : Sound w []) {old dir : BindingId} {name : String} {w' : World}
    (h : Action.link old dir name w = .ok b w') : Sound w' [] := by
  obtain ⟨checked, target, d, node, hold, file, -, -, hd, hdir, -, h⟩ := Action.link_ok h
  refine s.makeName hd hdir checked h fun v hv s' vacant h => s'.linkAt vacant (fun n hn => ?_) h
  obtain ⟨host, -, -, rfl⟩ := Action.newBinding_eq_ok.1 hv
  rw [Forest.nodeOf_pushBinding, hold] at hn
  cases hn
  exact file

/-! ## Removing names -/

theorem unlinked (s : Sound w todo) {d : BindingId} {name : String} {dir : NodeId}
    (h : w.child? d name = some b) : Sound (w.unlinked dir b n) (.letGo (.binding b) :: todo) := by
  have tree : SameTree w ((w.touchWith dir n).dropLink n) := SameTree.touchWith.trans .dropLink
  exact (s.touchWith.dropLink.detach (tree.child?.trans h)).unpin b

theorem unlink (s : Sound w []) {dir : BindingId} {name : String} {w' : World}
    (h : Action.unlink dir name w = .ok () w') : Sound w' [] := by
  obtain ⟨d, b, n, -, -, hb, -, -, rfl⟩ := Action.unlink_ok h
  exact (s.unlinked hb).settle

theorem rmdir (s : Sound w []) {dir : BindingId} {name : String} {w' : World}
    (h : Action.rmdir dir name w = .ok () w') : Sound w' [] := by
  obtain ⟨d, b, n, -, -, hb, -, -, -, rfl⟩ := Action.rmdir_ok h
  exact (s.dropLink.unlinked (SameTree.dropLink.child?.trans hb)).dropLink.settle

end Sound

/-! ## Moving names -/

namespace Forest

variable {w : World} {a b d : BindingId} {n dir : NodeId} {name : String}

theorem child?_unlinked (f : Forest w) (h : w.child? d name = some b) {e : BindingId} {k : String} :
    (w.unlinked dir b n).child? e k = if e = d ∧ k = name then none else w.child? e k := by
  have tree : SameTree w ((w.touchWith dir n).dropLink n) := SameTree.touchWith.trans .dropLink
  unfold World.unlinked
  rw [SameTree.unpin.child?, (f.congr tree).child?_detach (tree.child?.trans h), tree.child?]

theorem nodeOf_unlinked (f : Forest w) (h : w.child? d name = some b) {e : BindingId} :
    (w.unlinked dir b n).nodeOf e = w.nodeOf e := by
  have tree : SameTree w ((w.touchWith dir n).dropLink n) := SameTree.touchWith.trans .dropLink
  unfold World.unlinked
  rw [SameTree.unpin.nodeOf, (f.congr tree).nodeOf_detach (tree.child?.trans h), tree.nodeOf]

theorem bindsDirectory_unlinked (f : Forest w) (h : w.child? d name = some b) {e : BindingId} :
    (w.unlinked dir b n).bindsDirectory e = w.bindsDirectory e := by
  have tree : SameTree w ((w.touchWith dir n).dropLink n) := SameTree.touchWith.trans .dropLink
  unfold World.unlinked
  rw [SameTree.unpin.bindsDirectory, (f.congr tree).bindsDirectory_detach (tree.child?.trans h),
    tree.bindsDirectory]

theorem above_unlinked (f : Forest w) (h : w.child? d name = some b) {top e : BindingId} :
    (w.unlinked dir b n).Above top e ↔ w.Above top e := by
  have tree : SameTree w ((w.touchWith dir n).dropLink n) := SameTree.touchWith.trans .dropLink
  unfold World.unlinked
  rw [SameTree.unpin.above, (f.congr tree).above_detach (tree.child?.trans h), tree.above]

/-- What is no directory is above nothing but itself. -/
theorem not_above_of_file (f : Forest w) (hn : w.nodeOf a = some n) (file : w.isDirectory n = false)
    (hd : w.bindsDirectory d = true) : ¬ w.Above a d := by
  have notDir : w.bindsDirectory a ≠ true := by
    unfold World.bindsDirectory
    simp [hn, file]
  intro h
  rcases Relation.ReflTransGen.cases_head h with rfl | ⟨c, hstep, -⟩
  · exact notDir hd
  · exact notDir (f.above hstep)

/-- The walk that is made for a directory only is enough. -/
theorem not_above_of_apart (f : Forest w) (hn : w.nodeOf a = some n)
    (hd : w.bindsDirectory d = true) (apart : w.isDirectory n = true → w.isBelow d a = false) :
    ¬ w.Above a d := by
  cases kind : w.isDirectory n with
  | true => exact f.not_above_of_isBelow_eq_false (apart kind)
  | false => exact f.not_above_of_file hn kind hd

end Forest

/-- In `v` the place is free, and the rest of the tree is as it was. -/
structure World.Cleared (w v : World) (d : BindingId) (name : String) : Prop where
  binds : ∀ c, v.bindsDirectory c = w.bindsDirectory c
  node : ∀ c, v.nodeOf c = w.nodeOf c
  child : ∀ c k, v.child? c k = if c = d ∧ k = name then none else w.child? c k
  above : ∀ top c, v.Above top c ↔ w.Above top c

section

variable {w v : World} {a b dirA dirB : BindingId} {n nodeA nodeB : NodeId} {nameA nameB : String}

theorem World.Cleared.free (h : w.Cleared v dirB nameB) : v.child? dirB nameB = none := by
  rw [h.child, if_pos ⟨rfl, rfl⟩]

theorem World.Cleared.kept (h : w.Cleared v dirB nameB) (ha : w.child? dirA nameA = some a)
    (places : ¬ (dirA = dirB ∧ nameA = nameB)) : v.child? dirA nameA = some a := by
  rw [h.child, if_neg places, ha]

theorem SameTree.cleared (tree : SameTree w v) (f : Forest v) (hb : v.child? dirB nameB = some b) :
    w.Cleared ((v.unlinked nodeB b n).touchRenamed nodeA a nodeB b) dirB nameB where
  binds c := by
    rw [SameTree.touchRenamed.bindsDirectory, f.bindsDirectory_unlinked hb, tree.bindsDirectory]
  node c := by rw [SameTree.touchRenamed.nodeOf, f.nodeOf_unlinked hb, tree.nodeOf]
  child c k := by rw [SameTree.touchRenamed.child?, f.child?_unlinked hb, tree.child?]
  above top c := by rw [SameTree.touchRenamed.above, f.above_unlinked hb, tree.above]

end

namespace Sound

variable {w w' : World} {a b : BindingId} {dirA dirB : BindingId} {nameA nameB : String}
  {nodeA nodeB source : NodeId} {flags : RenameFlags}

theorem exchangeNames (s : Sound w []) (ha : w.child? dirA nameA = some a)
    (hb : w.child? dirB nameB = some b) (hne : a ≠ b) (exchange : flags.has .exchange = true)
    (h : Action.exchangeNames dirA nodeA a dirB nodeB b flags w = .ok () w') : Sound w' [] := by
  obtain ⟨apartA, apartB, m, n, -, -, rfl⟩ := Action.exchangeNames_ok exchange h
  have tree : SameTree w ((w.exchangeLinks nodeA m nodeB n).touchRenamed nodeA a nodeB b) :=
    SameTree.exchangeLinks.trans .touchRenamed
  exact s.exchangeLinks.touchRenamed.exchangeBindings (tree.child?.trans ha) (tree.child?.trans hb)
    hne (mt tree.above.1 (s.forest.not_above_of_isBelow_eq_false apartA))
    (mt tree.above.1 (s.forest.not_above_of_isBelow_eq_false apartB))

/-- What has the place is taken out of it. -/
theorem replaced (s : Sound w []) (hb : w.child? dirB nameB = some b)
    (nodeA source nodeB target : NodeId) (a : BindingId) :
    Sound ((w.replaced nodeA source nodeB b target).touchRenamed nodeA a nodeB b)
        [.letGo (.binding b)] ∧
      w.Cleared ((w.replaced nodeA source nodeB b target).touchRenamed nodeA a nodeB b)
        dirB nameB := by
  unfold World.replaced
  -- the counts of links go first, and names do not depend on them
  obtain ⟨v, hv, sv, tree⟩ : ∃ v,
      (if w.isDirectory source then (w.dropLink target).dropLink nodeA else w) = v ∧
        Sound v [] ∧ SameTree w v := by
    refine ⟨_, rfl, ?_⟩
    split
    · exact ⟨s.dropLink.dropLink, SameTree.dropLink.trans .dropLink⟩
    · exact ⟨s, .refl⟩
  rw [hv]
  have hb : v.child? dirB nameB = some b := tree.child?.trans hb
  exact ⟨(sv.unlinked hb).touchRenamed, tree.cleared sv.forest hb⟩

/-- The place is taken, and what has it goes. -/
theorem moveOnto (s : Sound w []) (ha : w.child? dirA nameA = some a)
    (hb : w.child? dirB nameB = some b) (hne : b ≠ a) (isDirB : w.bindsDirectory dirB = true)
    (apart : ¬ w.Above a dirB) {target : NodeId} :
    Sound (((w.replaced nodeA source nodeB b target).touchRenamed nodeA a nodeB b).moveBinding a
      dirB nameB) [.letGo (.binding b)] := by
  obtain ⟨out, cleared⟩ := s.replaced hb nodeA source nodeB target a
  exact out.moveBinding (cleared.kept ha (places_ne ha hb hne.symm))
    ((cleared.binds dirB).trans isDirB) (mt (cleared.above a dirB).1 apart)
    (s.forest.checked hb) cleared.free

/-- A binding that was made for a name is no entry and has no node yet. -/
theorem unseen {v u : World} (made : Action.newBinding d name w = .ok b v) (tree : SameTree v u) :
    (∀ c k, u.child? c k = w.child? c k) ∧ (∀ c, u.nodeOf c = w.nodeOf c) ∧
      ∀ c, u.bindsDirectory c = w.bindsDirectory c := by
  obtain ⟨host, -, -, rfl⟩ := Action.newBinding_eq_ok.1 made
  exact ⟨fun c k => tree.child?.trans Forest.child?_pushBinding,
    fun c => tree.nodeOf.trans Forest.nodeOf_pushBinding,
    fun c => tree.bindsDirectory.trans Forest.bindsDirectory_pushBinding⟩

/-- The place is free. A binding was made for it, which is not needed. -/
theorem moveInto (s : Sound w []) {v v' : World} (ha : w.child? dirA nameA = some a)
    (free : w.child? dirB nameB = none) (isDirB : w.bindsDirectory dirB = true)
    (apart : ¬ w.Above a dirB) (checked : checkName nameB = .ok ())
    (made : Action.newBinding dirB nameB w = .ok b v) (sv : Sound v' [.letGo (.binding b)])
    (tree : SameTree v v') : Sound (v'.moveBinding a dirB nameB) [.letGo (.binding b)] := by
  obtain ⟨child, -, binds⟩ := unseen made tree
  obtain ⟨host, -, -, rfl⟩ := Action.newBinding_eq_ok.1 made
  refine sv.moveBinding ((child dirA nameA).trans ha) ((binds dirB).trans isDirB) (fun h => ?_)
    checked ((child dirB nameB).trans free)
  exact apart (s.forest.above_pushBinding (has_of_bindsDirectory isDirB) (tree.above.1 h))

/-- A name that is moved comes to the place of another one, which is empty, or to a place that
is free, for which a binding is made that is not needed. -/
theorem moveName_cases (s : Sound w []) (hsource : w.nodeOf a = some source)
    (hB : w.nodeOf dirB = some nodeB) (kindB : w.isDirectory nodeB = true)
    (checked : checkName nameB = .ok ()) (move : flags.has .exchange = false)
    (h : Action.moveName nodeA a source dirB nodeB nameB (w.child? dirB nameB) flags w
      = .ok () w') : ¬ w.Above a dirB ∧
    ((∃ b n, w.child? dirB nameB = some b ∧ w.nodeOf b = some n ∧
        w.bindsDirectory b = w.isDirectory source ∧ w.hasChildren b = false ∧
        w' = (((w.replaced nodeA source nodeB b n).touchRenamed nodeA a nodeB b).moveBinding a
          dirB nameB).settle [.letGo (.binding b)]) ∨
      ∃ b v u, w.child? dirB nameB = none ∧ Action.newBinding dirB nameB w = .ok b v ∧
        u = (if w.isDirectory source then v.shiftLink nodeA nodeB else v) ∧
        Sound u [.letGo (.binding b)] ∧ SameTree v u ∧
        w' = ((u.touchRenamed nodeA a nodeB b).moveBinding a dirB nameB).settle
          [.letGo (.binding b)]) := by
  obtain ⟨apart, b, v, v', target, replaced, rfl⟩ := Action.moveName_ok move h
  refine ⟨s.forest.not_above_of_apart hsource (bindsDirectory_iff.2 ⟨nodeB, hB, kindB⟩) apart, ?_⟩
  obtain ⟨m, hm, stamped⟩ := Action.replaceAt_ok replaced
  rcases target with ⟨hb, rfl, -, kinds⟩ | ⟨free, made⟩
  · cases hsource.symm.trans hm
    rcases stamped with ⟨n, hn, leaf, outcome⟩ | ⟨negative, -⟩
    · rw [outcome]
      exact .inl ⟨b, n, hb, hn, kinds, leaf, rfl⟩
    · obtain ⟨n, hn⟩ := s.forest.bound hb
      cases negative.symm.trans hn
  · obtain ⟨sv, vacant⟩ := s.newBinding hB kindB checked free made
    rcases stamped with ⟨n, hn, -⟩ | ⟨-, outcome⟩
    · cases vacant.negative.symm.trans hn
    · obtain ⟨node, kind⟩ : v.nodeOf a = w.nodeOf a ∧ v.isDirectory m = w.isDirectory m := by
        obtain ⟨host, -, -, rfl⟩ := Action.newBinding_eq_ok.1 made
        exact ⟨Forest.nodeOf_pushBinding, rfl⟩
      cases hsource.symm.trans (node.symm.trans hm)
      rw [outcome, kind]
      refine .inr ⟨b, v, _, free, made, rfl, ?_, ?_, rfl⟩
      · split
        · exact sv.shiftLink
        · exact sv
      · split
        · exact .shiftLink
        · exact .refl

theorem moveName (s : Sound w []) (ha : w.child? dirA nameA = some a)
    (hsource : w.nodeOf a = some source) (hB : w.nodeOf dirB = some nodeB)
    (kindB : w.isDirectory nodeB = true) (checked : checkName nameB = .ok ())
    (hne : ∀ b, w.child? dirB nameB = some b → b ≠ a) (move : flags.has .exchange = false)
    (h : Action.moveName nodeA a source dirB nodeB nameB (w.child? dirB nameB) flags w
      = .ok () w') : Sound w' [] := by
  have isDirB : w.bindsDirectory dirB = true := bindsDirectory_iff.2 ⟨nodeB, hB, kindB⟩
  obtain ⟨apart, ⟨b, n, hb, -, -, -, rfl⟩ | ⟨b, v, u, free, made, -, su, tree, rfl⟩⟩ :=
    s.moveName_cases hsource hB kindB checked move h
  · exact settleAll (s.moveOnto ha hb (hne b hb) isDirB apart)
  · exact settleAll (s.moveInto ha free isDirB apart checked made su.touchRenamed
      (tree.trans .touchRenamed))

theorem rename (s : Sound w [])
    (h : Action.rename dirA nameA dirB nameB flags w = .ok () w') : Sound w' [] := by
  obtain ⟨-, checked, nodeA, nodeB, a, source, -, -, hB, isDirB, -, ha, hsource, outcome⟩ :=
    Action.rename_ok h
  rcases outcome with ⟨-, rfl⟩ | ⟨differ, ⟨exchange, b, hb, done⟩ | ⟨move, done⟩⟩
  · exact s
  · exact s.exchangeNames ha hb (differ b hb).1.symm exchange done
  · exact s.moveName ha hsource hB isDirB checked (fun b hb => (differ b hb).1) move done

end Sound

end Memfs
