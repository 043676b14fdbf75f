import Memfs.Proofs.Links.Names
import Memfs.Proofs.Runs

/-!
# Counters that show what is due: files and callers

Work on content changes no counter. A file that is opened without a name has a node
without a link, and its binding is in no place and stays there.
-/

namespace Memfs

open World

theorem Showing.onFiles {w v : World} {l : NodeId → Int} (h : Showing w v l)
    {files : Table OpenFile} : Showing w { v with files } l :=
  h.step ⟨h.counters.links, h.counters.pinned, h.counters.unpinned, h.counters.quiet⟩
    (.of_tables rfl rfl rfl)

/-- The binding of a file without a name is in no place, with its node as without. -/
theorem World.SameShape.unnamed {w v : World} {host : Host} {dir : BindingId} {flags : OpenFlags}
    {home : InstanceId} {from? : Option NodeId} {mode : Mode} {device : DeviceNumber} {n : NodeId}
    (name : String) (s : Sound w []) (acquired : w.host.acquire .binding = (true, host))
    (isDir : w.bindsDirectory dir = true)
    (made : Action.newNode home from? mode device (w.withUnnamed host dir flags) = .ok n v) :
    SameShape w (v.dropLink n) ∧ SameShape (v.dropLink n)
      ((v.dropLink n).modifyBinding w.bindings.nextId
        fun x => { x with name, node := some n }) := by
  have sound : Sound (w.withUnnamed host dir flags) [] := s.withUnnamed acquired isDir
  have pushed : SameShape w
      { w with host, bindings := w.bindings.push { name := "", parent := some dir } } :=
    .pushBinding s
  have entered : SameShape w (w.withUnnamed host dir flags) :=
    pushed.trans (.of_tables rfl rfl rfl)
  have shape : SameShape w (v.dropLink n) :=
    (entered.trans (.newNode sound made)).trans .dropLink
  obtain ⟨sv, -, -, same⟩ := sound.newNode made
  have hx := Sound.binding_withUnnamed (n := n) same
  have unused : ¬ (v.dropLink n).InUse w.bindings.nextId :=
    not_inUse_of_negative sv.dropLink.forest (mt shape.placed.1 s.fresh_unplaced) (nodeOf_of_get? hx)
  exact ⟨shape, .setNode hx rfl rfl unused⟩

namespace Exact

variable {w w' : World} {n : NodeId} {b : BindingId} {f : FileId}

/-- What the counters and the tree do not depend on. -/
theorem of_tables (x : Exact w) (nodes : w'.nodes = w.nodes) (bindings : w'.bindings = w.bindings)
    (instances : w'.instances = w.instances) (misses : w'.host.misses = w.host.misses) : Exact w' :=
  x.of_shape (.of_tables nodes bindings instances) (x.counters.of_tables
    (fun h => ⟨_, nodes ▸ h, rfl⟩) (fun h => ⟨_, bindings ▸ h, rfl⟩) misses)

theorem note (x : Exact w) {notice : Notice} (h : notice.atZero = false) : Exact (w.note notice) :=
  x.of_tables rfl rfl rfl (Host.Alike.note h).misses

theorem now (x : Exact w) : Exact (w.now n).2 := x.of_tables rfl rfl rfl rfl

theorem modifyNode (x : Exact w) {g : Node → Node} (links : ∀ y, (g y).links = y.links)
    (kind : ∀ y, (g y).kind = y.kind) : Exact (w.modifyNode n g) :=
  x.of_shape (.of_tree (.modifyNode kind) rfl) (x.counters.modifyNode links)

theorem touch (x : Exact w) : Exact (w.touch n) :=
  x.of_showing (Showing.start x).touch fun _ => rfl

/-! ## Content -/

theorem markAccessed (x : Exact w) : Exact (w.markAccessed n) := by
  unfold World.markAccessed
  refine x.now.modifyNode ?_ ?_
  · exact fun _ => rfl
  · exact fun _ => rfl

theorem resized (x : Exact w) {node : Node} {size : Nat} : Exact (w.resized n node size) := by
  have cut : Exact { w with host := (node.content.resize w.host size).2 } :=
    x.of_tables rfl rfl rfl rfl
  unfold World.resized
  refine cut.modifyNode ?_ ?_
  · exact fun _ => rfl
  · exact fun _ => rfl

theorem storeBytes (x : Exact w) {offset : Nat} {src : Bytes}
    (stored : Action.storeBytes n offset src w = .ok () w') : Exact w' :=
  x.of_showing ((Showing.start x).storeBytes stored) fun _ => rfl

theorem onFiles (x : Exact w) {files : Table OpenFile} : Exact { w with files } :=
  x.of_tables rfl rfl rfl rfl

theorem onHeld (x : Exact w) {held : List Ref} : Exact { w with held } :=
  x.of_tables rfl rfl rfl rfl

/-! ## Files -/

theorem openFile (x : Exact w) {flags : OpenFlags} (h : Action.openFile b flags w = .ok f w') :
    Exact w' := by
  obtain ⟨n, v, -, rfl | ⟨-, cut⟩, -, rfl⟩ := Action.openFile_ok h
  · exact x.onFiles
  · obtain ⟨node, -, rfl⟩ := Action.resizeContent_ok cut
    exact x.resized.touch.onFiles

/-- The new node loses the link that it was made with, for it has no name. -/
theorem openUnnamed (x : Exact w) (s : Sound w []) {dir : BindingId} {mode : Mode}
    {flags : OpenFlags} (h : Action.openUnnamed dir mode flags w = .ok f w') : Exact w' := by
  obtain ⟨d, host, home, n, v, name, hd, isDir, -, acquired, rfl, made, outcome⟩ :=
    Action.openUnnamed_ok h
  have isDir : w.bindsDirectory dir = true := bindsDirectory_iff.2 ⟨d, hd, isDir⟩
  have entered : Showing w (w.withUnnamed host dir flags) fun n => w.due n := by
    have pushed : Showing w
        { w with host, bindings := w.bindings.push { name := "", parent := some dir } }
        fun n => w.due n := ⟨x.counters.pushBinding (Host.alike_of_acquire acquired) s.fresh_unplaced,
      .pushBinding s⟩
    exact pushed.onFiles
  have showing := entered.newNode (s.withUnnamed acquired isDir) made
  obtain ⟨-, -, alone, -⟩ := (s.withUnnamed acquired isDir).newNode made
  -- the node has no name, so the link that it was made with is not due
  have none : w.due n = 0 := showing.shape.due.symm.trans (due_of_unbound alone)
  have dropped := showing.dropLink (n := n)
    (by rw [none, if_pos rfl, Mode.isDirectory_withType_regular]; decide)
    (by rw [none, if_pos rfl, Mode.isDirectory_withType_regular]; decide)
  have bound : Showing w ((v.dropLink n).modifyBinding w.bindings.nextId
      fun x => { x with name, node := some n }) fun n => w.due n := by
    refine (dropped.step (dropped.counters.modifyBinding ?_)
      (SameShape.unnamed name s acquired isDir made).2).congr fun m => ?_
    · exact fun _ => rfl
    · rw [Mode.isDirectory_withType_regular]
      simp
  have opened : Exact (v.openedUnnamed w.bindings.nextId w.files.nextId n name) :=
    x.of_showing bound.onFiles fun _ => rfl
  rcases outcome with ⟨-, rfl⟩ | ⟨-, rfl⟩
  · exact opened
  · refine opened.modifyNode ?_ ?_
    · exact fun _ => rfl
    · exact fun _ => rfl

theorem closeFile (x : Exact w) (s : Sound w []) (h : Action.closeFile f w = .ok () w') :
    Exact w' := by
  rw [Action.closeFile, Action.modify_eq_ok] at h
  subst h
  split
  · exact x
  · next file hf =>
      have sound := s.eraseFile hf
      rw [List.append_nil] at sound
      refine x.onFiles.settleAll sound fun task mem => ?_
      rcases List.mem_cons.1 mem with rfl | mem
      · exact .binding
      · obtain ⟨n, -, rfl⟩ := List.mem_map.1 mem
        exact .node

theorem drop (x : Exact w) (s : Sound w []) {ref : Ref} (h : ∀ i, ref ≠ .inst i) :
    Exact (w.drop ref) := by
  refine x.onHeld.settleAll (s.unhold ref) fun task mem => ?_
  cases List.mem_singleton.1 mem
  exact ⟨trivial, fun e => by cases e; exact absurd rfl (h _)⟩

end Exact

end Memfs
