import Memfs.Proofs.Effects
import Memfs.Proofs.Failure

/-!
# What an operation on a file has done

The same for the operations on open files and on the content of nodes. Which node a
file stands for, and whether the file gives the right to work on its content, is looked
up first; what is left is a change of one node's content and timestamps, and of the
file's position.
-/

namespace Memfs

namespace World

/-- The file was opened on the node. -/
def OpenOn (w : World) (f : FileId) (n : NodeId) : Prop :=
  ∃ file, w.files.get? f = some file ∧ file.node = some n

/-- The content of the node is the business of open files. -/
def Plain (w : World) (n : NodeId) : Prop :=
  ∀ x, w.nodes.get? n = some x → x.kind = .regular

/-- The content of a node was read at this moment. -/
def markAccessed (w : World) (n : NodeId) : World :=
  (w.now n).2.modifyNode n (·.accessed (w.now n).1)

/-- The content of a node is cut or extended, and the pages that it loses are given
back. -/
def resized (w : World) (n : NodeId) (node : Node) (size : Nat) : World :=
  World.modifyNode { w with host := (node.content.resize w.host size).2 } n
    ({ · with content := (node.content.resize w.host size).1 })

/-- A new binding and a new file, before there is a node for them. -/
def withUnnamed (w : World) (host : Host) (dir : BindingId) (flags : OpenFlags) : World :=
  { w with
    host
    bindings := w.bindings.push { name := "", parent := some dir }
    files := w.files.push
      { binding := w.bindings.nextId, node := none, flags := flags.union .temporary } }

/-- A node without a link is given to a binding and a file. -/
def openedUnnamed (w : World) (b : BindingId) (f : FileId) (n : NodeId) (name : String) : World :=
  ((w.dropLink n).modifyBinding b fun x => { x with name, node := some n }).modifyFile f
    ({ · with node := some n })

end World

namespace Action

open World

variable {w w' : World} {u : Unit} {n : NodeId} {f : FileId}

/-! ## Content -/

theorem readContent_ok {offset len : Nat} {bytes : Bytes}
    (h : readContent n offset len w = .ok bytes w') : w' = w.markAccessed n := by
  simp only [readContent, bind_eq_ok, node_eq_ok, now_eq_ok, modify_eq_ok, pure_eq_ok] at h
  obtain ⟨_, _, ⟨-, rfl⟩, _, _, ⟨rfl, rfl⟩, _, _, rfl, -, rfl⟩ := h
  rfl

theorem writeContent_ok {offset written : Nat} {src : Bytes}
    (h : writeContent n offset src w = .ok written w') : ∃ v,
      storeBytes n offset src w = .ok () v ∧ w' = v.touch n := by
  simp only [writeContent, bind_eq_ok, node_eq_ok, ite_eq_ok, throw_eq_ok, false_and, exists_false,
    and_false, false_or, get_eq_ok, now_eq_ok, modify_eq_ok, pure_eq_ok] at h
  obtain ⟨_, _, ⟨-, rfl⟩, -, _, _, ⟨rfl, rfl⟩, -, _, v, stored, _, _, ⟨rfl, rfl⟩, _, _, rfl, -,
    rfl⟩ := h
  exact ⟨v, stored, rfl⟩

theorem resizeContent_ok {size : Nat} (h : resizeContent n size w = .ok u w') : ∃ node,
    w.nodes.get? n = some node ∧ w' = (w.resized n node size).touch n := by
  simp only [resizeContent, bind_eq_ok, node_eq_ok, ite_eq_ok, throw_eq_ok, false_and, exists_false,
    and_false, false_or, get_eq_ok, onHost_eq_ok, now_eq_ok, modify_eq_ok] at h
  obtain ⟨node, _, ⟨hn, rfl⟩, _, _, ⟨rfl, rfl⟩, -, _, _, ⟨rfl, rfl⟩, _, _, rfl, _, _, ⟨rfl, rfl⟩,
    rfl⟩ := h
  exact ⟨node, hn, rfl⟩

/-! ## Files -/

theorem file_eq_ok {file : OpenFile} :
    Action.file f w = .ok file w' ↔ w.files.get? f = some file ∧ w = w' := by
  simp only [Action.file, bind_eq_ok, get_eq_ok, require_eq_ok]
  constructor
  · rintro ⟨_, _, ⟨rfl, rfl⟩, hf, rfl⟩
    exact ⟨hf, rfl⟩
  · rintro ⟨hf, rfl⟩
    exact ⟨w, w, ⟨rfl, rfl⟩, hf, rfl⟩

theorem fileNode_eq_ok : fileNode f w = .ok n w' ↔
    w.OpenOn f n ∧ w = w' := by
  simp only [OpenOn, fileNode, bind_eq_ok, file_eq_ok, require_eq_ok]
  constructor
  · rintro ⟨file, _, ⟨hf, rfl⟩, hn, rfl⟩
    exact ⟨⟨file, hf, hn⟩, rfl⟩
  · rintro ⟨⟨file, hf, hn⟩, rfl⟩
    exact ⟨file, w, ⟨hf, rfl⟩, hn, rfl⟩

/-- The way to the content of a file leads to a regular node. -/
theorem contentNode_ok {right : OpenFlags} (h : contentNode f right w = .ok n w') :
    w.OpenOn f n ∧ w.Plain n ∧ w' = w := by
  simp only [contentNode, bind_eq_ok, file_eq_ok, fileNode_eq_ok, node_eq_ok, ite_eq_ok,
    throw_eq_ok, false_and, exists_false, and_false, or_false] at h
  obtain ⟨file, _, ⟨-, rfl⟩, -, m, _, ⟨opened, rfl⟩, node, _, ⟨hnode, rfl⟩, h⟩ := h
  cases kind : node.kind with
  | regular =>
      simp only [kind, pure_eq_ok] at h
      obtain ⟨rfl, rfl⟩ := h
      refine ⟨opened, fun x hx => ?_, rfl⟩
      cases hnode.symm.trans hx
      exact kind
  | directory => simp [kind] at h
  | symlink => simp [kind] at h
  | special k device => simp [kind] at h

/-- Opening cuts the content of a regular node when the flags ask for it, and changes no other
node. -/
theorem openFile_granted {b : BindingId} {flags : OpenFlags} (h : openFile b flags w = .ok f w') :
    ∃ n x v, w.nodeOf b = some n ∧ w.nodes.get? n = some x ∧
      ((x.kind = .regular ∧ flags.has .truncating = true) ∧ resizeContent n 0 w = .ok () v ∨
        ¬ (x.kind = .regular ∧ flags.has .truncating = true) ∧ v = w) ∧
      f = v.files.nextId ∧
      w' = { v with files := v.files.push { binding := b, node := some n, flags } } := by
  simp only [openFile, bind_eq_ok, boundNode_eq_ok, node_eq_ok] at h
  obtain ⟨n, _, ⟨hb, rfl⟩, node, _, ⟨hn, rfl⟩, h⟩ := h
  refine ⟨n, node, ?_⟩
  have whole : ∀ v, enterFile { binding := b, node := some n, flags } v = .ok f w' →
      f = v.files.nextId ∧
      w' = { v with files := v.files.push { binding := b, node := some n, flags } } := by
    intro v h
    obtain ⟨rfl, rfl⟩ := total_eq_ok.1 h
    exact ⟨rfl, rfl⟩
  cases hkind : node.kind with
  | directory =>
      simp only [hkind, ite_eq_ok, bind_eq_ok, throw_eq_ok, false_and, exists_false, and_false,
        false_or] at h
      exact ⟨w, hb, hn, .inr ⟨fun asked => (by cases asked.1), rfl⟩, whole w h.2⟩
  | regular =>
      simp only [hkind, ite_eq_ok, bind_eq_ok, throw_eq_ok, false_and, exists_false, and_false,
        or_false] at h
      rcases h with ⟨cuts, -, _, v, cut, h⟩ | ⟨keeps, h⟩
      · exact ⟨v, hb, hn, .inl ⟨⟨rfl, cuts⟩, cut⟩, whole v h⟩
      · exact ⟨w, hb, hn, .inr ⟨mt And.right keeps, rfl⟩, whole w h⟩
  | symlink =>
      simp only [hkind] at h
      exact ⟨w, hb, hn, .inr ⟨fun asked => (by cases asked.1), rfl⟩, whole w h⟩
  | special kind device =>
      simp only [hkind] at h
      exact ⟨w, hb, hn, .inr ⟨fun asked => (by cases asked.1), rfl⟩, whole w h⟩

/-- Opening cuts the content of a regular node alone. -/
theorem openFile_ok {b : BindingId} {flags : OpenFlags} (h : openFile b flags w = .ok f w') :
    ∃ n v, w.nodeOf b = some n ∧ (v = w ∨ w.Plain n ∧ resizeContent n 0 w = .ok () v) ∧
      f = v.files.nextId ∧
      w' = { v with files := v.files.push { binding := b, node := some n, flags } } := by
  obtain ⟨n, x, v, hb, hn, ⟨⟨regular, -⟩, cut⟩ | ⟨-, rfl⟩, opened⟩ := openFile_granted h
  · refine ⟨n, v, hb, .inr ⟨fun y hy => ?_, cut⟩, opened⟩
    cases hn.symm.trans hy
    exact regular
  · exact ⟨n, v, hb, .inl rfl, opened⟩

/-- The new node may be given a name later unless the flags forbid it; apart from that the two
outcomes are alike. -/
theorem openUnnamed_ok {dir : BindingId} {mode : Mode} {flags : OpenFlags}
    (h : openUnnamed dir mode flags w = .ok f w') : ∃ d host home n v name,
      w.nodeOf dir = some d ∧ w.isDirectory d = true ∧ w.LivesIn d home ∧
      w.host.acquire .binding = (true, host) ∧ f = w.files.nextId ∧
      newNode home (some d) (mode.withType Mode.regularType) .none (w.withUnnamed host dir flags)
        = .ok n v ∧
      (flags.has .exclusive = true ∧ w' = v.openedUnnamed w.bindings.nextId f n name ∨
        flags.has .exclusive = false ∧
          w' = (v.openedUnnamed w.bindings.nextId f n name).modifyNode n
            ({ · with linkable := true })) := by
  simp only [openUnnamed, enterFile, bind_eq_ok, directoryOf_eq_ok, ite_eq_ok, throw_eq_ok,
    false_and, exists_false, and_false, or_false, newBinding_eq_ok, total_eq_ok, onFailure_eq_ok,
    boundNode_eq_ok, modify_eq_ok, pure_eq_ok] at h
  obtain ⟨d, _, ⟨hd, isDir, rfl⟩, -, b, _, ⟨host, acquired, rfl, rfl⟩, _, _, ⟨rfl, rfl⟩, _, u,
    opened, h⟩ := h
  obtain ⟨home, n, v, name, lives, made, bound, rfl⟩ := makeUnnamedAt_ok (f := w.files.nextId)
    Table.get?_push_self rfl Table.get?_push_self rfl opened
  refine ⟨d, host, home, n, v, name, hd, isDir, lives, acquired, ?_⟩
  rcases h with ⟨exclusive, rfl, rfl⟩ | ⟨linkable, m, _, ⟨hm, rfl⟩, _, _, rfl, rfl, rfl⟩
  · exact ⟨rfl, made, .inl ⟨exclusive, rfl⟩⟩
  · cases bound.symm.trans hm
    exact ⟨rfl, made, .inr ⟨by simpa using linkable, rfl⟩⟩

theorem readAt_ok {offset len : Nat} {bytes : Bytes} (h : readAt f offset len w = .ok bytes w') :
    ∃ n, w.OpenOn f n ∧ w' = w.markAccessed n := by
  obtain ⟨n, v, found, done⟩ := bind_eq_ok.1 h
  obtain ⟨opened, -, rfl⟩ := contentNode_ok found
  exact ⟨n, opened, readContent_ok done⟩

theorem writeAt_ok {offset written : Nat} {src : Bytes}
    (h : writeAt f offset src w = .ok written w') :
    ∃ n v, w.OpenOn f n ∧ storeBytes n offset src w = .ok () v ∧ w' = v.touch n := by
  obtain ⟨n, v, found, done⟩ := bind_eq_ok.1 h
  obtain ⟨opened, -, rfl⟩ := contentNode_ok found
  obtain ⟨v, stored, rfl⟩ := writeContent_ok done
  exact ⟨n, v, opened, stored, rfl⟩

theorem setLength_ok {size : Nat} (h : setLength f size w = .ok u w') : ∃ n node,
    w.OpenOn f n ∧ w.nodes.get? n = some node ∧ w' = (w.resized n node size).touch n := by
  obtain ⟨n, v, found, done⟩ := bind_eq_ok.1 h
  obtain ⟨opened, -, rfl⟩ := contentNode_ok found
  obtain ⟨node, hn, rfl⟩ := resizeContent_ok done
  exact ⟨n, node, opened, hn, rfl⟩

theorem seek_eq_ok {position : Nat} : seek f position w = .ok u w' ↔
    w.modifyFile f ({ · with position }) = w' :=
  modify_eq_ok

theorem read_ok {len : Nat} {bytes : Bytes} (h : read f len w = .ok bytes w') : ∃ n position,
    w.OpenOn f n ∧ w' = (w.markAccessed n).modifyFile f ({ · with position }) := by
  simp only [read, bind_eq_ok, seek_eq_ok, pure_eq_ok] at h
  obtain ⟨opened, v, found, bytes, v', done, _, _, rfl, -, rfl⟩ := h
  rw [(reads_file f).ok found] at done
  obtain ⟨n, opened, rfl⟩ := readAt_ok done
  exact ⟨n, _, opened, rfl⟩

theorem write_ok {written : Nat} {src : Bytes} (h : write f src w = .ok written w') :
    ∃ n offset v position, w.OpenOn f n ∧ storeBytes n offset src w = .ok () v ∧
      w' = (v.touch n).modifyFile f ({ · with position }) := by
  have whole : ∀ offset k, (do
      let written ← writeAt f offset src
      seek f (offset + written)
      return written : Action Nat) w = .ok k w' → ∃ n offset v position, w.OpenOn f n ∧
        storeBytes n offset src w = .ok () v ∧
        w' = (v.touch n).modifyFile f ({ · with position }) := by
    intro offset k h
    simp only [bind_eq_ok, seek_eq_ok, pure_eq_ok] at h
    obtain ⟨written, _, done, _, _, rfl, -, rfl⟩ := h
    obtain ⟨n, v, opened, stored, rfl⟩ := writeAt_ok done
    exact ⟨n, offset, v, _, opened, stored, rfl⟩
  obtain ⟨opened, v, found, h⟩ := bind_eq_ok.1 h
  rw [(reads_file f).ok found] at h
  simp only at h
  split at h
  · obtain ⟨n, v, found, h⟩ := bind_eq_ok.1 h
    rw [(reads_fileNode f).ok found] at h
    obtain ⟨node, v, found, h⟩ := bind_eq_ok.1 h
    rw [(reads_node n).ok found] at h
    obtain ⟨offset, v, found, h⟩ := bind_eq_ok.1 h
    obtain ⟨-, rfl⟩ := pure_eq_ok.1 found
    exact whole _ _ h
  · obtain ⟨offset, v, found, h⟩ := bind_eq_ok.1 h
    obtain ⟨-, rfl⟩ := pure_eq_ok.1 found
    exact whole _ _ h

theorem readdir_ok {dir : BindingId} {entries : List Entry} (h : readdir dir w = .ok entries w') :
    ∃ n, w.nodeOf dir = some n ∧ w' = w.markAccessed n := by
  simp only [readdir, bind_eq_ok, boundNode_eq_ok, node_eq_ok, ite_eq_ok, throw_eq_ok, false_and,
    exists_false, and_false, false_or, get_eq_ok, now_eq_ok, modify_eq_ok, pure_eq_ok] at h
  obtain ⟨n, _, ⟨hn, rfl⟩, own, _, ⟨-, rfl⟩, -, _, _, ⟨rfl, rfl⟩, _, _, ⟨rfl, rfl⟩, _, _, rfl, -,
    rfl⟩ := h
  exact ⟨n, hn, rfl⟩

end Action

end Memfs
