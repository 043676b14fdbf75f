import Memfs.Proofs.Making

/-!
# What an operation that succeeds has done

For each operation on names: the tests that it passed and the world that it ends in,
written as the sequence of changes that were made. Timestamps and counts of links are
part of the sequence, so nothing is said twice about them; who is interested in the
names alone passes over these changes by one lemma each.
-/

namespace Memfs

namespace World

/-- The content of a directory changed at this moment. -/
def touch (w : World) (dir : NodeId) : World :=
  (w.now dir).2.modifyNode dir (·.written (w.now dir).1)

/-- A node changed at this moment, together with the content of a directory. -/
def touchWith (w : World) (dir n : NodeId) : World :=
  ((w.now dir).2.modifyNode n (·.changed (w.now dir).1)).modifyNode dir (·.written (w.now dir).1)

/-- The node of a binding changed at `time`. -/
def markChanged (w : World) (b : BindingId) (time : Timestamp) : World :=
  (w.nodeOf b).elim w (w.modifyNode · (·.changed time))

/-- What a rename changed, changed at this moment. -/
def touchRenamed (w : World) (dirA : NodeId) (a : BindingId) (dirB : NodeId) (b : BindingId) :
    World :=
  ((((w.now dirA).2.modifyNode dirA (·.written (w.now dirA).1)).modifyNode dirB
    (·.written (w.now dirA).1)).markChanged a (w.now dirA).1).markChanged b (w.now dirA).1

/-- A binding is taken out of a directory together with the link that it gave. -/
def unlinked (w : World) (dir : NodeId) (b : BindingId) (n : NodeId) : World :=
  (((w.touchWith dir n).dropLink n).detach b).unpin b

/-- The link that a directory gives goes from the directory that it leaves to the one
that it comes to. -/
def shiftLink (w : World) (dirA dirB : NodeId) : World := (w.dropLink dirA).addLink dirB

/-- The links of two directories after one node of each has come to the other. -/
def exchangeLinks (w : World) (dirA nodeA dirB nodeB : NodeId) : World :=
  if dirA ≠ dirB ∧ w.isDirectory nodeA ≠ w.isDirectory nodeB then
    if w.isDirectory nodeA then w.shiftLink dirA dirB else w.shiftLink dirB dirA
  else w

/-- The names and links before a node moves to where `target` was. -/
def replaced (w : World) (dirA source dirB : NodeId) (b : BindingId) (target : NodeId) : World :=
  (if w.isDirectory source then (w.dropLink target).dropLink dirA else w).unlinked dirB b target

end World

namespace Action

open World

variable {w w' : World} {u : Unit}

/-! ## Making -/

theorem place_eq_ok {dir n : NodeId} {b : BindingId} :
    place dir b n w = .ok u w' ↔ ((w.instantiate b n).pin b).touch dir = w' := by
  simp [place, touch]

theorem makeAt_ok {dir : NodeId} {b : BindingId} {mode : Mode} {device : DeviceNumber}
    (h : makeAt dir b mode device w = .ok u w') : ∃ home n v, w.LivesIn dir home ∧
      newNode home (some dir) mode device w = .ok n v ∧
      w' = ((v.instantiate b n).pin b).touch dir := by
  simp only [makeAt, bind_eq_ok, homeOf_eq_ok, place_eq_ok] at h
  obtain ⟨home, _, ⟨lives, rfl⟩, n, v, made, rfl⟩ := h
  exact ⟨home, n, v, lives, made, rfl⟩

theorem makeDirectoryAt_ok {dir : NodeId} {b : BindingId} {mode : Mode}
    (h : makeDirectoryAt dir b mode w = .ok u w') : ∃ v,
      makeAt dir b (mode.withType Mode.directoryType) .none w = .ok u v ∧ w' = v.addLink dir := by
  simp only [makeDirectoryAt, bind_eq_ok, modify_eq_ok] at h
  obtain ⟨_, v, made, rfl⟩ := h
  exact ⟨v, made, rfl⟩

theorem makeSymlinkAt_ok {dir : NodeId} {b : BindingId} {target : String}
    (h : makeSymlinkAt dir b target w = .ok u w') : ∃ home n v v', w.LivesIn dir home ∧
      newNode home (some dir) symlinkMode .none w = .ok n v ∧
      storeTarget n (target.toUTF8.data.push 0) v = .ok u v' ∧
      w' = ((v'.instantiate b n).pin b).touch dir := by
  simp only [makeSymlinkAt, bind_eq_ok, homeOf_eq_ok, onFailure_eq_ok, place_eq_ok] at h
  obtain ⟨home, _, ⟨lives, rfl⟩, n, v, made, _, v', stored, rfl⟩ := h
  exact ⟨home, n, v, v', lives, made, stored, rfl⟩

theorem storeBytes_ok {n : NodeId} {offset : Nat} {src : Bytes}
    (h : storeBytes n offset src w = .ok u w') : ∃ node content host,
      w.nodes.get? n = some node ∧ node.content.write w.host offset src = (.ok content, host) ∧
      w' = World.modifyNode { w with host } n ({ · with content }) := by
  simp only [storeBytes, bind_eq_ok, node_eq_ok, onHost_eq_ok] at h
  obtain ⟨node, _, ⟨hn, rfl⟩, outcome, _, ⟨hwrite, rfl⟩, h⟩ := h
  cases outcome with
  | error e => exact absurd h throw_eq_ok
  | ok content => exact ⟨node, content, _, hn, Prod.ext hwrite rfl, (modify_eq_ok.1 h).symm⟩

theorem storeTarget_ok {n : NodeId} {closed : Bytes} (h : storeTarget n closed w = .ok u w') :
    ∃ v, storeBytes n 0 closed w = .ok u v ∧ w' = v.modifyNode n fun node =>
      { node with content := node.content.setSize (closed.size - 1) } := by
  simp only [storeTarget, bind_eq_ok, ite_eq_ok, throw_eq_ok, false_and, exists_false, and_false,
    false_or, modify_eq_ok] at h
  obtain ⟨-, _, v, stored, rfl⟩ := h
  exact ⟨v, stored, rfl⟩

/-- Storing a target touches no binding, and no node comes or goes. -/
theorem storeTarget_frame {n : NodeId} {closed : Bytes} (h : storeTarget n closed w = .ok u w') :
    w'.bindings = w.bindings ∧ ∀ m, w'.nodes.has m = w.nodes.has m := by
  obtain ⟨v, stored, rfl⟩ := storeTarget_ok h
  obtain ⟨node, content, host, -, -, rfl⟩ := storeBytes_ok stored
  refine ⟨rfl, fun m => ?_⟩
  unfold World.modifyNode
  rw [Table.has_modify, Table.has_modify]

/-- A new symlink comes with its target, which is written to an empty content. -/
theorem newSymlink_ok {home : InstanceId} {dir : Option NodeId} {n : NodeId} {closed : Bytes}
    {v : World} (made : newNode home dir symlinkMode .none w = .ok n v)
    (stored : storeTarget n closed v = .ok () w') : n = w.nodes.nextId ∧
    ∃ host ino time content,
      w' = { w with
        host
        nodes := w.nodes.push
          { Node.make ino .symlink symlinkMode w.host.uid
              (Node.inherit (dir.bind w.nodes.get?) symlinkMode w.host.gid).2 time home with
            content } } ∧
      ∃ flags before after written,
        PageMap.write { flags } before 0 closed = (.ok written, after) ∧
        content = written.setSize (closed.size - 1) := by
  obtain ⟨rfl, host, ino, kind, time, hkind, rfl, alike, -⟩ := newNode_ok made
  obtain ⟨t, bytes, rfl⟩ := storeTarget_ok stored
  obtain ⟨x, content, host', hx, written, rfl⟩ := storeBytes_ok bytes
  cases Table.get?_push_self.symm.trans hx
  cases hkind
  have file : symlinkMode.isDirectory = false := by decide
  refine ⟨rfl, ?_⟩
  simp only [modifyNode, Table.modify_push, Node.inherit_of_not_directory file, alike.uid,
    alike.gid]
  exact ⟨_, _, _, _, rfl, _, _, _, content, written, rfl⟩

theorem linkAt_ok {old b : BindingId} {dir : NodeId} (h : linkAt old dir b w = .ok u w') :
    ∃ n, w.nodeOf old = some n ∧
      w' = (((w.touchWith dir n).addLink n).instantiate b n).pin b := by
  simp only [linkAt, bind_eq_ok, boundNode_eq_ok, now_eq_ok, modify_eq_ok] at h
  obtain ⟨n, _, ⟨hn, rfl⟩, _, _, ⟨rfl, rfl⟩, rfl⟩ := h
  exact ⟨n, hn, rfl⟩

theorem makeName_ok {dir b : BindingId} {n : NodeId} {name : String}
    {make : NodeId → BindingId → Action Unit} (h : makeName dir n name make w = .ok b w') :
    w.child? dir name = none ∧ ∃ v, newBinding dir name w = .ok b v ∧ make n b v = .ok () w' := by
  simp only [makeName, freshBinding, bind_eq_ok, get_eq_ok, ite_eq_ok, throw_eq_ok, false_and,
    exists_false, and_false, false_or, orLetGo_eq_ok, pure_eq_ok] at h
  obtain ⟨_, v, ⟨_, _, ⟨rfl, rfl⟩, free, made⟩, _, _, done, rfl, rfl⟩ := h
  exact ⟨by simpa using free, v, made, done⟩

/-- The tests before a name is made. -/
theorem create_ok {dir b : BindingId} {name : String} {mode : Mode}
    (h : create dir name mode w = .ok b w') : checkName name = .ok () ∧ ∃ n,
      w.nodeOf dir = some n ∧ w.isDirectory n = true ∧
      makeName dir n name (makeFileAt · · mode) w = .ok b w' := by
  simp only [create, bind_eq_ok, test_eq_ok, directoryOf_eq_ok] at h
  obtain ⟨_, _, ⟨checked, rfl⟩, n, _, ⟨hn, hdir, rfl⟩, h⟩ := h
  exact ⟨checked, n, hn, hdir, h⟩

theorem mkdir_ok {dir b : BindingId} {name : String} {mode : Mode}
    (h : mkdir dir name mode w = .ok b w') : checkName name = .ok () ∧ ∃ n,
      w.nodeOf dir = some n ∧ w.isDirectory n = true ∧
      makeName dir n name (makeDirectoryAt · · mode) w = .ok b w' := by
  simp only [mkdir, bind_eq_ok, test_eq_ok, directoryOf_eq_ok] at h
  obtain ⟨_, _, ⟨checked, rfl⟩, n, _, ⟨hn, hdir, rfl⟩, h⟩ := h
  exact ⟨checked, n, hn, hdir, h⟩

/-- A mode without a type asks for a regular file like one that says so, and neither has a
device number. Whatever else `mknod` makes, it makes no directory. -/
theorem mknod_ok {dir b : BindingId} {name : String} {mode : Mode} {device : DeviceNumber}
    (h : mknod dir name mode device w = .ok b w') : checkName name = .ok () ∧ ∃ n full given,
      w.nodeOf dir = some n ∧ w.isDirectory n = true ∧
      ((mode.fileType = 0 ∨ mode.fileType = Mode.regularType) ∧
          full = mode.withType Mode.regularType ∧ given = .none ∨
        (SpecialKind.ofMode mode).isSome ∧ full = mode ∧ given = device) ∧
      makeName dir n name (makeAt · · full given) w = .ok b w' := by
  simp only [mknod, bind_eq_ok, test_eq_ok, directoryOf_eq_ok, ite_eq_ok, throw_eq_ok, and_false,
    or_false] at h
  obtain ⟨_, _, ⟨checked, rfl⟩, n, _, ⟨hn, hdir, rfl⟩, h⟩ := h
  rcases h with ⟨file, h⟩ | ⟨-, special, h⟩
  · rw [Mode.isRegular, beq_iff_eq] at file
    exact ⟨checked, n, _, _, hn, hdir, .inl ⟨file, rfl, rfl⟩, h⟩
  · exact ⟨checked, n, mode, device, hn, hdir, .inr ⟨special, rfl, rfl⟩, h⟩

theorem symlink_ok {dir b : BindingId} {name target : String}
    (h : symlink dir name target w = .ok b w') : checkName name = .ok () ∧ ∃ n,
      w.nodeOf dir = some n ∧ w.isDirectory n = true ∧
      makeName dir n name (makeSymlinkAt · · target) w = .ok b w' := by
  simp only [symlink, bind_eq_ok, test_eq_ok, directoryOf_eq_ok, ite_eq_ok, throw_eq_ok, false_and,
    exists_false, and_false, false_or] at h
  obtain ⟨_, _, ⟨checked, rfl⟩, -, n, _, ⟨hn, hdir, rfl⟩, h⟩ := h
  exact ⟨checked, n, hn, hdir, h⟩

theorem link_ok {old dir b : BindingId} {name : String} (h : link old dir name w = .ok b w') :
    checkName name = .ok () ∧ ∃ target n node,
      w.nodeOf old = some target ∧ w.isDirectory target = false ∧
      w.nodes.get? target = some node ∧ (node.links ≠ 0 ∨ node.linkable = true) ∧
      w.nodeOf dir = some n ∧ w.isDirectory n = true ∧
      (∃ home, w.LivesIn target home ∧ w.LivesIn n home) ∧
      makeName dir n name (linkAt old · ·) w = .ok b w' := by
  simp only [link, bind_eq_ok, test_eq_ok, boundNode_eq_ok, get_eq_ok, directoryOf_eq_ok,
    homeOf_eq_ok, node_eq_ok, ite_eq_ok, throw_eq_ok, false_and, exists_false, and_false,
    false_or] at h
  obtain ⟨_, _, ⟨checked, rfl⟩, target, _, ⟨ht, rfl⟩, _, _, ⟨rfl, rfl⟩, file, n, _,
    ⟨hn, hdir, rfl⟩, home, _, ⟨there, rfl⟩, other, _, ⟨here, rfl⟩, same, node, _, ⟨hnode, rfl⟩,
    linked, h⟩ := h
  obtain rfl : home = other := by simpa using same
  refine ⟨checked, target, n, node, ht, by simpa using file, hnode, ?_, hn, hdir,
    ⟨home, there, here⟩, h⟩
  simpa [or_iff_not_imp_left] using linked

/-! ## Removing -/

theorem unlinkAt_eq_ok {dir : NodeId} {b : BindingId} : unlinkAt dir b w = .ok u w' ↔
    ∃ n, w.nodeOf b = some n ∧ w.unlinked dir b n = w' := by
  simp only [unlinkAt, bind_eq_ok, boundNode_eq_ok, now_eq_ok, modify_eq_ok]
  constructor
  · rintro ⟨n, _, ⟨hn, rfl⟩, _, _, ⟨rfl, rfl⟩, rfl⟩
    exact ⟨n, hn, rfl⟩
  · rintro ⟨n, hn, rfl⟩
    exact ⟨n, w, ⟨hn, rfl⟩, _, _, ⟨rfl, rfl⟩, rfl⟩

theorem unlink_ok {dir : BindingId} {name : String} (h : unlink dir name w = .ok u w') :
    ∃ d b n, w.nodeOf dir = some d ∧ w.isDirectory d = true ∧ w.child? dir name = some b ∧
      w.nodeOf b = some n ∧ w.isDirectory n = false ∧
      w' = (w.unlinked d b n).settle [.letGo (.binding b)] := by
  simp only [unlink, bind_eq_ok, test_eq_ok, directoryOf_eq_ok, takenBinding_eq_ok, get_eq_ok,
    ite_eq_ok, throw_eq_ok, false_and, exists_false, and_false, false_or, unlinkAt_eq_ok,
    letGo_eq_ok] at h
  obtain ⟨_, _, ⟨-, rfl⟩, d, _, ⟨hd, hdir, rfl⟩, b, _, ⟨hb, rfl⟩, _, _, ⟨rfl, rfl⟩, file, _, _,
    ⟨n, hn, rfl⟩, rfl⟩ := h
  refine ⟨d, b, n, hd, hdir, hb, hn, ?_, rfl⟩
  simpa [bindsDirectory, hn] using file

/-- The removed directory loses both its links, and the directory that it was in the
one that it gave. -/
theorem rmdir_ok {dir : BindingId} {name : String} (h : rmdir dir name w = .ok u w') :
    ∃ d b n, w.nodeOf dir = some d ∧ w.isDirectory d = true ∧ w.child? dir name = some b ∧
      w.nodeOf b = some n ∧ w.isDirectory n = true ∧ w.hasChildren b = false ∧
      w' = (((w.dropLink n).unlinked d b n).dropLink d).settle [.letGo (.binding b)] := by
  simp only [rmdir, rmdirAt, bind_eq_ok, test_eq_ok, directoryOf_eq_ok, takenBinding_eq_ok,
    get_eq_ok, ite_eq_ok, throw_eq_ok, false_and, exists_false, and_false, false_or, or_false,
    boundNode_eq_ok, modify_eq_ok, unlinkAt_eq_ok, letGo_eq_ok] at h
  obtain ⟨-, -, _, _, ⟨-, rfl⟩, d, _, ⟨hd, hdir, rfl⟩, b, _, ⟨hb, rfl⟩, _, _, ⟨rfl, rfl⟩, isDir, _,
    _, ⟨_, _, ⟨rfl, rfl⟩, empty, n, _, ⟨hn, rfl⟩, _, _, rfl, _, _, ⟨m, hm, rfl⟩, rfl⟩, rfl⟩ := h
  rw [nodeOf_dropLink, hn] at hm
  cases hm
  refine ⟨d, b, n, hd, hdir, hb, hn, ?_, by simpa using empty, rfl⟩
  simpa [bindsDirectory, hn] using isDir

/-! ## Moving -/

theorem stampRename_eq_ok {dirA dirB : NodeId} {a b : BindingId} :
    stampRename dirA a dirB b w = .ok u w' ↔ w.touchRenamed dirA a dirB b = w' := by
  simp [stampRename, touchRenamed, markChanged]

theorem exchangeAt_ok {dirA dirB : NodeId} {a b : BindingId}
    (h : exchangeAt dirA a dirB b w = .ok u w') : ∃ nodeA nodeB,
      w.nodeOf a = some nodeA ∧ w.nodeOf b = some nodeB ∧
      w' = (w.exchangeLinks dirA nodeA dirB nodeB).touchRenamed dirA a dirB b := by
  simp only [exchangeAt, bind_eq_ok, boundNode_eq_ok, get_eq_ok, ite_eq_ok, modify_eq_ok,
    stampRename_eq_ok] at h
  obtain ⟨nodeA, _, ⟨ha, rfl⟩, nodeB, _, ⟨hb, rfl⟩, _, _, ⟨rfl, rfl⟩, h⟩ := h
  refine ⟨nodeA, nodeB, ha, hb, ?_⟩
  unfold exchangeLinks
  rcases h with ⟨differ, ⟨isDir, _, _, rfl, rfl⟩ | ⟨isFile, _, _, rfl, rfl⟩⟩ | ⟨alike, rfl⟩
  · rw [if_pos differ, if_pos isDir]
    rfl
  · rw [if_pos differ, if_neg isFile]
    rfl
  · rw [if_neg alike]

/-- A binding that replaces another takes the place of an empty directory or of a
file; one that replaces nothing takes a fresh place. -/
theorem replaceAt_ok {dirA dirB : NodeId} {a b : BindingId}
    (h : replaceAt dirA a dirB b w = .ok u w') : ∃ source, w.nodeOf a = some source ∧
      ((∃ target, w.nodeOf b = some target ∧ w.hasChildren b = false ∧
          w' = (w.replaced dirA source dirB b target).touchRenamed dirA a dirB b) ∨
        (w.nodeOf b = none ∧ w' = World.touchRenamed
          (if w.isDirectory source then w.shiftLink dirA dirB else w) dirA a dirB b)) := by
  simp only [replaceAt, bind_eq_ok, boundNode_eq_ok, get_eq_ok] at h
  obtain ⟨source, _, ⟨ha, rfl⟩, _, _, ⟨rfl, rfl⟩, h⟩ := h
  refine ⟨source, ha, ?_⟩
  cases hb : w.nodeOf b with
  | none =>
      simp only [hb, ite_eq_ok, bind_eq_ok, modify_eq_ok, stampRename_eq_ok] at h
      refine .inr ⟨rfl, ?_⟩
      rcases h with ⟨isDir, _, _, rfl, rfl⟩ | ⟨isFile, rfl⟩
      · rw [if_pos isDir]
        rfl
      · rw [if_neg isFile]
  | some target =>
      simp only [hb, ite_eq_ok, bind_eq_ok, throw_eq_ok, false_and, exists_false, and_false,
        false_or, modify_eq_ok, unlinkAt_eq_ok, stampRename_eq_ok] at h
      obtain ⟨empty, h⟩ := h
      refine .inl ⟨target, rfl, by simpa using empty, ?_⟩
      unfold replaced
      rcases h with ⟨isDir, _, _, rfl, _, _, ⟨n, hn, rfl⟩, rfl⟩ | ⟨isFile, _, _, ⟨n, hn, rfl⟩, rfl⟩
      · rw [nodeOf_dropLink, nodeOf_dropLink, hb] at hn
        cases hn
        rw [if_pos isDir]
      · cases hn
        rw [if_neg isFile]

theorem exchangeNames_ok {dirA dirB a b : BindingId} {nodeA nodeB : NodeId} {flags : RenameFlags}
    (exchange : flags.has .exchange = true)
    (h : exchangeNames dirA nodeA a dirB nodeB b flags w = .ok u w') :
    w.isBelow dirB a = false ∧ w.isBelow dirA b = false ∧ ∃ m n,
      w.nodeOf a = some m ∧ w.nodeOf b = some n ∧
      w' = ((w.exchangeLinks nodeA m nodeB n).touchRenamed nodeA a nodeB b).exchangeBindings a b
    := by
  simp only [exchangeNames, renameAt, bind_eq_ok, get_eq_ok, ite_eq_ok, throw_eq_ok, false_and,
    exists_false, and_false, false_or, exchange, not_true, or_false, true_and, modify_eq_ok] at h
  obtain ⟨_, _, ⟨rfl, rfl⟩, apart, _, v, ⟨-, done⟩, rfl⟩ := h
  rw [Bool.or_eq_true, not_or, Bool.not_eq_true, Bool.not_eq_true] at apart
  obtain ⟨m, n, ha, hb, outcome⟩ := exchangeAt_ok done
  rw [outcome]
  exact ⟨apart.1, apart.2, m, n, ha, hb, rfl⟩

theorem moveName_ok {dirB a : BindingId} {nodeA nodeB source : NodeId} {name : String}
    {target : Option BindingId} {flags : RenameFlags} (move : flags.has .exchange = false)
    (h : moveName nodeA a source dirB nodeB name target flags w = .ok u w') :
    (w.isDirectory source = true → w.isBelow dirB a = false) ∧ ∃ b v v',
      (target = some b ∧ v = w ∧ flags.has .keepTarget = false ∧
          w.bindsDirectory b = w.isDirectory source ∨
        target = none ∧ newBinding dirB name w = .ok b v) ∧
      replaceAt nodeA a nodeB b v = .ok u v' ∧
      w' = (v'.moveBinding a dirB name).settle [.letGo (.binding b)] := by
  simp only [moveName, bind_eq_ok, get_eq_ok, ite_eq_ok, throw_eq_ok, false_and, exists_false,
    and_false, false_or] at h
  obtain ⟨_, _, ⟨rfl, rfl⟩, apart, h⟩ := h
  have apart : w.isDirectory source = true → w.isBelow dirB a = false := by simpa using apart
  have renamed : ∀ {b : BindingId} {v v' : World}, renameAt nodeA a nodeB b flags v = .ok u v' →
      replaceAt nodeA a nodeB b v = .ok u v' := by
    intro b v v' h
    simp only [renameAt, ite_eq_ok, bind_eq_ok, throw_eq_ok, false_and, exists_false, and_false,
      false_or, move, Bool.false_eq_true, not_false_eq_true, true_and] at h
    exact h.2
  cases target with
  | none =>
      simp only [bind_eq_ok, orLetGo_eq_ok, modify_eq_ok] at h
      obtain ⟨b, v, made, _, v', h, rfl⟩ := h
      exact ⟨apart, b, v, v', .inr ⟨rfl, made⟩, renamed h, rfl⟩
  | some b =>
      simp only [ite_eq_ok, bind_eq_ok, throw_eq_ok, false_and, exists_false, and_false, false_or,
        pure_eq_ok, orLetGo_eq_ok, modify_eq_ok] at h
      obtain ⟨free, dirOnFile, fileOnDir, _, _, ⟨rfl, rfl⟩, _, v', h, rfl⟩ := h
      refine ⟨apart, b, w, v', .inl ⟨rfl, rfl, by simpa using free, ?_⟩, renamed h, rfl⟩
      cases hs : w.isDirectory source with
      | true => simpa [hs] using dirOnFile
      | false => simpa [hs] using fileOnDir

/-- A rename does nothing, or lets two names change places, or moves one of them. -/
theorem rename_ok {dirA dirB : BindingId} {nameA nameB : String} {flags : RenameFlags}
    (h : rename dirA nameA dirB nameB flags w = .ok u w') :
    checkName nameA = .ok () ∧ checkName nameB = .ok () ∧ ∃ nodeA nodeB a source,
      w.nodeOf dirA = some nodeA ∧ w.isDirectory nodeA = true ∧
      w.nodeOf dirB = some nodeB ∧ w.isDirectory nodeB = true ∧
      (∃ home, w.LivesIn nodeA home ∧ w.LivesIn nodeB home) ∧
      w.child? dirA nameA = some a ∧ w.nodeOf a = some source ∧
      (((∃ b, w.child? dirB nameB = some b ∧ (b = a ∨ w.nodeOf b = some source)) ∧ w' = w) ∨
        ((∀ b, w.child? dirB nameB = some b → b ≠ a ∧ w.nodeOf b ≠ some source) ∧
          ((flags.has .exchange = true ∧ ∃ b, w.child? dirB nameB = some b ∧
              exchangeNames dirA nodeA a dirB nodeB b flags w = .ok u w') ∨
            (flags.has .exchange = false ∧
              moveName nodeA a source dirB nodeB nameB (w.child? dirB nameB) flags w
                = .ok u w')))) := by
  simp only [rename, bind_eq_ok, ite_eq_ok, test_eq_ok, directoryOf_eq_ok, homeOf_eq_ok,
    takenBinding_eq_ok, boundNode_eq_ok, get_eq_ok, throw_eq_ok, and_false, false_and,
    exists_false, false_or, require_eq_ok, pure_eq_ok] at h
  obtain ⟨_, _, ⟨checkedA, rfl⟩, _, _, ⟨checkedB, rfl⟩, -, nodeA, _, ⟨hnodeA, isDirA, rfl⟩,
    nodeB, _, ⟨hnodeB, isDirB, rfl⟩, home, _, ⟨livesA, rfl⟩, other, _, ⟨livesB, rfl⟩, same, a, _,
    ⟨ha, rfl⟩, _, _, ⟨rfl, rfl⟩, source, _, ⟨hsource, rfl⟩, _, _, ⟨rfl, rfl⟩, h⟩ := h
  obtain rfl : home = other := by simpa using same
  refine ⟨checkedA, checkedB, nodeA, nodeB, a, source, hnodeA, isDirA, hnodeB, isDirB,
    ⟨home, livesA, livesB⟩, ha, hsource, ?_⟩
  rcases h with ⟨same, -, rfl⟩ | ⟨differ, h⟩
  · refine .inl ⟨?_, rfl⟩
    simpa [Option.any_eq_true] using same
  · refine .inr ⟨fun b hb => by simpa [hb] using differ, ?_⟩
    rcases h with ⟨exchange, b, _, ⟨hb, rfl⟩, h⟩ | ⟨move, h⟩
    · exact .inl ⟨exchange, b, hb, h⟩
    · exact .inr ⟨by simpa using move, h⟩

end Action

end Memfs
