import Memfs.Proofs.Changes.Mounts
import Memfs.Proofs.Steady.Moves

/-!
# Steady counters: files, callers and all operations

Work on content changes no counter, and a file without a name has its binding in no
place. An operation that fails leaves everything as it was, so with the operations that
succeed all are gone through.
-/

namespace Memfs

open World

variable {w w' v : World} {rs more : List Removed} {most : NodeId → Nat} {n : NodeId}
  {b dir : BindingId} {f : FileId}

namespace Steady

/-- A failure leaves what is in the tables as it was. -/
theorem unchanged (h : Steady w w.due rs) (u : Unchanged w v)
    (next : w.nodes.nextId ≤ v.nodes.nextId) : Steady v v.due rs := by
  have shape : SameShape w v := .of_unchanged u
  refine of_shape ⟨fun root => ?_, fun {i j x y b} => ?_, fun {b x} hx here => ?_,
    fun {n x} hx seated => ?_, fun r mem => ?_⟩ shape
  · exact (shape.upheld h.upheld).roots root
  · rw [u.instances, u.instances]
    exact h.sole
  · rw [u.bindings] at hx
    exact h.pins hx (shape.placed.1 here)
  · rw [u.nodes] at hx
    exact h.links hx (shape.seated.1 seated)
  · refine (h.gone r mem).frame u.next next shape.placed.1
      (fun b hb => u.sameTree.nodeOf.symm.trans hb) (fun _ c => (shape.entered _ c).1) fun x hx => ?_
    rw [u.nodes] at hx
    exact ⟨x, hx, rfl, fun _ => id⟩

/-! ## Content -/

/-- What the counters and the tree do not depend on. -/
theorem aside (h : Steady w w.due rs) (nodes : v.nodes = w.nodes)
    (bindings : v.bindings = w.bindings) (inst : v.instances = w.instances) : Steady v v.due rs :=
  (h.of_tables nodes bindings inst).of_shape (.of_tables nodes bindings inst)

theorem revise (h : Steady w w.due rs) {g : Node → Node} (kind : ∀ x, (g x).kind = x.kind)
    (links : ∀ x, (g x).links = x.links) : Steady (w.modifyNode n g) (w.modifyNode n g).due rs :=
  (h.modifyNode kind links).of_shape (.of_tree (.modifyNode kind) rfl)

theorem touched (h : Steady w w.due rs) : Steady (w.touch n) (w.touch n).due rs :=
  h.touch.of_shape .touch

theorem markAccessed (h : Steady w w.due rs) :
    Steady (w.markAccessed n) (w.markAccessed n).due rs := by
  have stamped : Steady (w.now n).2 (w.now n).2.due rs := h.aside rfl rfl rfl
  unfold World.markAccessed
  refine stamped.revise ?_ ?_
  · exact fun _ => rfl
  · exact fun _ => rfl

theorem resized (h : Steady w w.due rs) {node : Node} {size : Nat} :
    Steady (w.resized n node size) (w.resized n node size).due rs := by
  have cut : Steady { w with host := (node.content.resize w.host size).2 }
      ({ w with host := (node.content.resize w.host size).2 } : World).due rs := h.aside rfl rfl rfl
  unfold World.resized
  refine cut.revise ?_ ?_
  · exact fun _ => rfl
  · exact fun _ => rfl

theorem stored (h : Steady w w.due rs) {offset : Nat} {src : Bytes}
    (stored : Action.storeBytes n offset src w = .ok () v) : Steady v v.due rs := by
  obtain ⟨node, content, host, -, -, rfl⟩ := Action.storeBytes_ok stored
  have charged : Steady { w with host } ({ w with host } : World).due rs := h.aside rfl rfl rfl
  refine charged.revise ?_ ?_
  · exact fun _ => rfl
  · exact fun _ => rfl

/-! ## Files -/

theorem openFile (h : Steady w w.due rs) {flags : OpenFlags}
    (done : Action.openFile b flags w = .ok f w') : Steady w' w'.due rs := by
  obtain ⟨n, v, -, rfl | ⟨-, cut⟩, -, rfl⟩ := Action.openFile_ok done
  · exact h.aside rfl rfl rfl
  · obtain ⟨node, -, rfl⟩ := Action.resizeContent_ok cut
    exact h.resized.touched.aside rfl rfl rfl

/-- The binding of a file without a name is in no place. -/
theorem openUnnamed (h : Steady w w.due rs) (s : Sound w []) {mode : Mode} {flags : OpenFlags}
    (done : Action.openUnnamed dir mode flags w = .ok f w') : Steady w' w'.due rs := by
  obtain ⟨d, host, home, n, v, name, hd, isDir, -, acquired, rfl, made, outcome⟩ :=
    Action.openUnnamed_ok done
  have isDir : w.bindsDirectory dir = true := bindsDirectory_iff.2 ⟨d, hd, isDir⟩
  have sound : Sound (w.withUnnamed host dir flags) [] := s.withUnnamed acquired isDir
  have pushed : Steady (w.withUnnamed host dir flags) w.due rs := (h.pushBinding s).onFiles
  obtain ⟨held, other⟩ := pushed.newNode sound made
  obtain ⟨shape, bound⟩ := SameShape.unnamed name s acquired isDir made
  have out : ¬ (v.dropLink n).Placed w.bindings.nextId := mt shape.placed.1 s.fresh_unplaced
  have lowered : Steady (v.dropLink n) w.due rs := held.dropLink.mono fun _ _ => Nat.sub_le ..
  have opened : Steady (v.openedUnnamed w.bindings.nextId w.files.nextId n name)
      (v.openedUnnamed w.bindings.nextId w.files.nextId n name).due rs := by
    refine ((lowered.adjust out bound fun _ => .inr ⟨rfl, other⟩).of_shape
      (shape.trans bound)).aside ?_ ?_ ?_
    · rfl
    · rfl
    · rfl
  rcases outcome with ⟨-, rfl⟩ | ⟨-, rfl⟩
  · exact opened
  · refine opened.revise ?_ ?_
    · exact fun _ => rfl
    · exact fun _ => rfl

theorem closeFile (h : Steady w w.due rs) (s : Sound w [])
    (done : Action.closeFile f w = .ok () w') : Steady w' w'.due rs := by
  rw [Action.closeFile, Action.modify_eq_ok] at done
  subst done
  split
  · exact h
  · next file hf =>
      have sound := s.eraseFile hf
      rw [List.append_nil] at sound
      refine settleAll (h.aside rfl rfl rfl) sound fun task mem => ?_
      rcases List.mem_cons.1 mem with rfl | mem
      · trivial
      · obtain ⟨n, -, rfl⟩ := List.mem_map.1 mem
        trivial

theorem drop (h : Steady w w.due rs) (s : Sound w []) {ref : Ref} :
    Steady (w.drop ref) (w.drop ref).due rs := by
  have given : Steady { w with held := w.held.erase ref }
      ({ w with held := w.held.erase ref } : World).due rs := h.aside rfl rfl rfl
  refine given.settleAll (s.unhold ref) fun task mem => ?_
  cases List.mem_singleton.1 mem
  trivial

end Steady

/-! ## Operations -/

/-- The directory that the operation removes if it succeeds. -/
def Operation.removed? (w : World) : Operation → Option BindingId
  | rmdir dir name => w.child? dir name
  | rename dirA nameA dirB nameB flags =>
    (w.child? dirB nameB).filter fun b =>
      w.bindsDirectory b && !flags.has .exchange && w.child? dirA nameA != some b
  | _ => none

/-- Names come into directories that were not left alone. What is removed comes to the
list. -/
theorem Steady.operate (h : Steady w w.due rs) (s : Sound w []) {op : Operation}
    (left : ∀ dir ∈ op.target?, ∀ r ∈ rs, r.alone → r.binding ≠ dir)
    (gone : ∀ r ∈ more, op.removed? w = some r.binding ∧ w.nodeOf r.binding = some r.node)
    (done : op.act w = .ok () w') : Steady w' w'.due (more ++ rs) := by
  have none : (∀ r ∈ more, op.removed? w ≠ some r.binding) → more = [] := fun none =>
    List.eq_nil_iff_forall_not_mem.2 fun r mem => none r mem (gone r mem).1
  cases op with
  | rmdir dir name => exact h.rmdir s gone done
  | rename dirA nameA dirB nameB flags =>
      refine h.rename s (left dirB rfl) (fun r mem => ?_) done
      obtain ⟨found, hn⟩ := gone r mem
      obtain ⟨hb, asked⟩ := Option.filter_eq_some_iff.1 found
      simp only [Bool.and_eq_true, Bool.not_eq_true', bne_iff_ne] at asked
      obtain ⟨⟨binds, move⟩, other⟩ := asked
      exact ⟨move, hb, other, hn, (bindsDirectory_of_nodeOf hn).symm.trans binds⟩
  | create dir name mode =>
      obtain ⟨b, done⟩ := Action.exists_of_discard_ok done
      rw [none nofun]
      exact h.create s (left dir rfl) done
  | mkdir dir name mode =>
      obtain ⟨b, done⟩ := Action.exists_of_discard_ok done
      rw [none nofun]
      exact h.mkdir s (left dir rfl) done
  | mknod dir name mode device =>
      obtain ⟨b, done⟩ := Action.exists_of_discard_ok done
      rw [none nofun]
      exact h.mknod s (left dir rfl) done
  | symlink dir name target =>
      obtain ⟨b, done⟩ := Action.exists_of_discard_ok done
      rw [none nofun]
      exact h.symlink s (left dir rfl) done
  | link old dir name =>
      obtain ⟨b, done⟩ := Action.exists_of_discard_ok done
      rw [none nofun]
      exact h.link s (left dir rfl) done
  | unlink dir name =>
      rw [none nofun]
      exact h.unlink s done
  | openUnnamed dir mode flags =>
      obtain ⟨f, done⟩ := Action.exists_of_discard_ok done
      rw [none nofun]
      exact h.openUnnamed s done
  | openFile b flags =>
      obtain ⟨f, done⟩ := Action.exists_of_discard_ok done
      rw [none nofun]
      exact h.openFile done
  | readdir dir =>
      obtain ⟨entries, done⟩ := Action.exists_of_discard_ok done
      obtain ⟨n, -, rfl⟩ := Action.readdir_ok done
      rw [none nofun]
      exact h.markAccessed
  | read f len =>
      obtain ⟨bytes, done⟩ := Action.exists_of_discard_ok done
      obtain ⟨n, _, -, rfl⟩ := Action.read_ok done
      rw [none nofun]
      exact h.markAccessed.aside rfl rfl rfl
  | readAt f offset len =>
      obtain ⟨bytes, done⟩ := Action.exists_of_discard_ok done
      obtain ⟨n, -, rfl⟩ := Action.readAt_ok done
      rw [none nofun]
      exact h.markAccessed
  | write f src =>
      obtain ⟨written, done⟩ := Action.exists_of_discard_ok done
      obtain ⟨n, _, v, _, -, stored, rfl⟩ := Action.write_ok done
      rw [none nofun]
      exact (h.stored stored).touched.aside rfl rfl rfl
  | writeAt f offset src =>
      obtain ⟨written, done⟩ := Action.exists_of_discard_ok done
      obtain ⟨n, v, -, stored, rfl⟩ := Action.writeAt_ok done
      rw [none nofun]
      exact (h.stored stored).touched
  | seek f position =>
      rw [none nofun, ← Action.seek_eq_ok.1 done]
      exact h.aside rfl rfl rfl
  | setLength f size =>
      obtain ⟨n, node, -, -, rfl⟩ := Action.setLength_ok done
      rw [none nofun]
      exact h.resized.touched

/-- A failing operation removes nothing, and may be asked for anything. -/
theorem Steady.refused (h : Steady w w.due rs) (s : Sound w []) {op : Operation} {e : Error}
    (failed : op.act w = .error e w') : Steady w' w'.due rs :=
  h.unchanged (op.act_clean s _ _ failed) ((op.changes s.forest).error failed).nodes_kept.next

end Memfs
