import Memfs.Proofs.Effects.Files
import Memfs.Proofs.Sound.Names

/-!
# A world in order: the operations on files

What is done to the content of a node keeps its kind, and charges the host for the
pages that it takes. A file that is opened owns the binding and the node that it was
opened on; one without a name is the only owner of both.
-/

namespace Memfs

namespace Sound

open World

variable {w w' : World} {todo : List Task} {n : NodeId} {f : FileId}

/-! ## Content -/

theorem markAccessed (s : Sound w todo) : Sound (w.markAccessed n) todo :=
  (s.now n).modifyNode (fun _ => rfl) fun _ => rfl

theorem resized (s : Sound w todo) {node : Node} {size : Nat} (hn : w.nodes.get? n = some node) :
    Sound (w.resized n node size) todo :=
  s.recharge hn rfl fun _ => PageMap.net_resize

theorem resizeContent (s : Sound w todo) {size : Nat}
    (h : Action.resizeContent n size w = .ok () w') : Sound w' todo := by
  obtain ⟨node, hn, rfl⟩ := Action.resizeContent_ok h
  exact (s.resized hn).touch

theorem moveTo (s : Sound w todo) {position : Nat} :
    Sound (w.modifyFile f ({ · with position })) todo :=
  s.modifyFile
    (fun x ref hx h => s.tended.there ⟨.file f, x, hx, by
      cases ref with
      | node n => exact h
      | binding b => exact h
      | inst i => exact h⟩)
    (fun _ ref _ h => by
      cases ref with
      | node n => exact h
      | binding b => exact h
      | inst i => exact h)

theorem readAt (s : Sound w todo) {offset len : Nat} {bytes : Bytes}
    (h : Action.readAt f offset len w = .ok bytes w') : Sound w' todo := by
  obtain ⟨n, -, rfl⟩ := Action.readAt_ok h
  exact s.markAccessed

theorem read (s : Sound w todo) {len : Nat} {bytes : Bytes}
    (h : Action.read f len w = .ok bytes w') : Sound w' todo := by
  obtain ⟨n, position, -, rfl⟩ := Action.read_ok h
  exact s.markAccessed.moveTo

theorem writeAt (s : Sound w todo) {offset written : Nat} {src : Bytes}
    (h : Action.writeAt f offset src w = .ok written w') : Sound w' todo := by
  obtain ⟨n, v, -, stored, rfl⟩ := Action.writeAt_ok h
  exact (s.storeBytes stored).touch

theorem write (s : Sound w todo) {written : Nat} {src : Bytes}
    (h : Action.write f src w = .ok written w') : Sound w' todo := by
  obtain ⟨n, offset, v, position, -, stored, rfl⟩ := Action.write_ok h
  exact (s.storeBytes stored).touch.moveTo

theorem setLength (s : Sound w todo) {size : Nat} (h : Action.setLength f size w = .ok () w') :
    Sound w' todo := by
  obtain ⟨n, node, -, hn, rfl⟩ := Action.setLength_ok h
  exact (s.resized hn).touch

theorem readdir (s : Sound w todo) {dir : BindingId} {entries : List Entry}
    (h : Action.readdir dir w = .ok entries w') : Sound w' todo := by
  obtain ⟨n, -, rfl⟩ := Action.readdir_ok h
  exact s.markAccessed

/-! ## Files -/

theorem openFile (s : Sound w []) {b : BindingId} {flags : OpenFlags}
    (h : Action.openFile b flags w = .ok f w') : Sound w' [] := by
  obtain ⟨n, v, hb, cut, -, rfl⟩ := Action.openFile_ok h
  have opened : Sound v [] ∧ v.nodeOf b = some n := by
    rcases cut with rfl | ⟨-, cut⟩
    · exact ⟨s, hb⟩
    · obtain ⟨node, -, rfl⟩ := Action.resizeContent_ok cut
      exact ⟨s.resizeContent cut, hb⟩
  obtain ⟨sv, bound⟩ := opened
  refine sv.pushFile (fun ref h => ?_) (fun _ h => nomatch h) rfl
  cases ref with
  | node m =>
      cases h
      exact sv.tended.there (owned_of_nodeOf bound)
  | binding c =>
      cases h
      obtain ⟨x, hx, -⟩ := nodeOf_eq_some_iff.1 bound
      exact Table.has_of_get? hx
  | inst i => exact h.elim

theorem child?_withUnnamed {host : Host} {dir e : BindingId} {k : String} {flags : OpenFlags} :
    (w.withUnnamed host dir flags).child? e k = w.child? e k := by
  show World.child? { w with host, bindings := w.bindings.push { name := "", parent := some dir } }
    e k = _
  exact Forest.child?_pushBinding

theorem binding_withUnnamed {host : Host} {dir : BindingId} {flags : OpenFlags} {v : World}
    (same : v.bindings = (w.withUnnamed host dir flags).bindings) :
    (v.dropLink n).bindings.get? w.bindings.nextId = some { name := "", parent := some dir } := by
  rw [bindings_dropLink, same]
  exact Table.get?_push_self

/-- The file owns the binding that was made for it. -/
theorem withUnnamed (s : Sound w []) {dir : BindingId} {host : Host} {flags : OpenFlags}
    (acquired : w.host.acquire .binding = (true, host)) (isDir : w.bindsDirectory dir = true) :
    Sound (w.withUnnamed host dir flags) [] := by
  have pushed : Sound
      { w with host, bindings := w.bindings.push { name := "", parent := some dir } }
      [.letGo (.binding w.bindings.nextId)] := s.pushBinding acquired fun p e => by
    cases e
    exact isDir
  refine pushed.pushFile (fun ref h => ?_) (fun ref h => .inl ?_) rfl
  · cases ref with
    | binding c =>
        cases h
        exact Table.has_push.2 (.inr rfl)
    | node m => cases h
    | inst i => exact h.elim
  · cases List.mem_singleton.1 h
    rfl

/-- The node of a file without a name is owned by the file and by its binding, and the
binding by the file. -/
theorem openUnnamed (s : Sound w []) {dir : BindingId} {mode : Mode} {flags : OpenFlags}
    (h : Action.openUnnamed dir mode flags w = .ok f w') : Sound w' [] := by
  obtain ⟨d, host, home, n, v, name, hd, isDir, -, acquired, rfl, made, outcome⟩ :=
    Action.openUnnamed_ok h
  have isDir : w.bindsDirectory dir = true := bindsDirectory_iff.2 ⟨d, hd, isDir⟩
  obtain ⟨sv, there, alone, same⟩ := (s.withUnnamed acquired isDir).newNode made
  have out : ∀ e k, v.child? e k ≠ some w.bindings.nextId := fun e k h => by
    have h : (w.withUnnamed host dir flags).child? e k = some w.bindings.nextId := by
      unfold World.child? at h ⊢
      rwa [same] at h
    exact s.tended.fresh_binding (owned_of_child? (child?_withUnnamed.symm.trans h))
  have hf : v.files.get? w.files.nextId = some
      { binding := w.bindings.nextId, node := none, flags := flags.union .temporary } := by
    obtain ⟨-, _, _, _, _, -, rfl, -⟩ := Action.newNode_ok made
    exact Table.get?_push_self
  have there : (v.dropLink n).nodes.has n = true := by
    rw [dropLink_eq]
    exact Table.has_modify.trans there
  have placed : Sound ((v.dropLink n).modifyBinding w.bindings.nextId
      fun x => { x with name, node := some n }) [] := by
    refine sv.dropLink.setNode (binding_withUnnamed same) rfl rfl rfl (fun e k h => ?_) rfl there (fun _ c hc => ?_)
    · rw [SameTree.dropLink.child?] at h
      exact absurd h (out e k)
    · rw [nodeOf_dropLink] at hc
      exact alone c hc
  have opened : Sound (v.openedUnnamed w.bindings.nextId w.files.nextId n name) [] := by
    refine placed.modifyFile (fun x ref hx h => ?_) (fun x ref hx h => ?_)
    · cases ref with
      | node m =>
          cases h
          exact there
      | binding c => exact placed.tended.there ⟨.file w.files.nextId, x, hx, h⟩
      | inst i => exact h.elim
    · cases ((files_dropLink ▸ hf : (v.dropLink n).files.get? _ = _).symm.trans hx)
      cases ref with
      | node m => cases h
      | binding c => exact h
      | inst i => exact h
  rcases outcome with ⟨-, rfl⟩ | ⟨-, rfl⟩
  · exact opened
  · exact opened.modifyNode (fun _ => rfl) fun _ => rfl

/-- A file ends. -/
theorem closeFile (s : Sound w []) (h : Action.closeFile f w = .ok () w') : Sound w' [] := by
  rw [Action.closeFile, Action.modify_eq_ok] at h
  subst h
  split
  · exact s
  · next file hf => exact (s.eraseFile hf).settle

end Sound

end Memfs
