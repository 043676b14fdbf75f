import Memfs.Proofs.Shelf.Files

/-!
# Each operation beside its event

`Agrees` is what is shown of an operation: what is seen of it is what the shelf says,
and the shelf that is left stands for the world that is left. It is shown of every
operation on a handle, and of the two ways to open a file. An operation on what is no
handle fails or moves a position that nobody asks the shelf for.
-/

namespace Memfs

open World Memfs.Action

variable {w v : World} {s : Shelf} {f : FileId} {n : NodeId} {node : Node} {h : FileHandle}
  {offset len size : Nat} {src : Bytes}

/-- An operation is seen as the shelf says, and leads to a world that the shelf stands for. -/
def Agrees {α : Type} (w : World) (f : FileId) (n : NodeId) (x : Action α)
    (shown : α → Nat × ByteString) (out : Reply × Shelf) : Prop :=
  w.observe x f n shown = out.1 ∧ Tracks (x.into w) out.2

/-- Only the outcome of the operation is looked at. -/
theorem Agrees.of_eq {α : Type} {x y : Action α} {shown : α → Nat × ByteString}
    {out : Reply × Shelf} (same : x w = y v) (h : Agrees v f n y shown out) :
    Agrees w f n x shown out := by
  unfold Agrees World.observe Action.into at h ⊢
  rw [same]
  exact h

namespace Tracks

theorem agrees_ok {α : Type} {x : Action α} {a : α} {shown : α → Nat × ByteString}
    (hx : x w = .ok a v) (t : Tracks v s) (hs : s.handles f = some h) (same : h.node = n) :
    Agrees w f n x shown (s.see f n (.ok (shown a).1) (shown a).2, s) := by
  unfold Agrees World.observe Action.into
  rw [hx, ← same]
  exact ⟨t.see_handle hs, t⟩

theorem agrees_error {α : Type} {x : Action α} {e : Error} {shown : α → Nat × ByteString}
    (hx : x w = .error e v) (t : Tracks v s) (hs : s.handles f = some h) :
    Agrees w f h.node x shown (s.see f h.node (.error e), s) := by
  unfold Agrees World.observe Action.into
  rw [hx]
  exact ⟨t.see_handle hs, t⟩

theorem agrees_put {α : Type} {x : Action α} {a : α} {shown : α → Nat × ByteString}
    {moves : Shelf → Shelf} {count : Nat} {string : Except Error ByteString}
    (hs : s.handles f = some h) (done : Puts w s h.node x a moves string)
    (shows : shown a = (count, []))
    (kept : ∀ string, ∃ h', (moves (s.setString h.node string)).handles f = some h' ∧
      h'.node = h.node) :
    Agrees w f h.node x shown (s.putBy f h string count moves) := by
  unfold Shelf.putBy
  cases string with
  | error e =>
      obtain ⟨v, failed, t⟩ := done
      exact agrees_error failed t hs
  | ok string =>
      obtain ⟨v, put, t⟩ := done
      obtain ⟨h', hs', same⟩ := kept string
      have agrees : Agrees w f h.node x shown (_, moves (s.setString h.node string)) :=
        agrees_ok put t hs' same
      rw [shows] at agrees
      exact agrees

theorem handles_moveTo_of_some {position : Nat} (hs : s.handles f = some h) :
    (s.moveTo f position).handles f = some { h with position } := by
  rw [Shelf.handles_moveTo, if_pos rfl, hs]
  rfl

/-! ## Operations on a handle -/

theorem agrees_readAt (t : Tracks w s) (hs : s.handles f = some h) :
    Agrees w f h.node (Action.readAt f offset len) (fun bytes => (bytes.size, bytes.toList))
      (s.readBy f h offset len fun s _ => s) := by
  have done := t.readAt hs offset len
  unfold Shelf.readBy
  cases bytes : s.bytesAt h offset len with
  | error e =>
      rw [bytes] at done
      exact agrees_error done t hs
  | ok bytes' =>
      rw [bytes] at done
      obtain ⟨got, v, read, rfl, t⟩ := done
      exact agrees_ok read t hs rfl

theorem agrees_read (t : Tracks w s) (hs : s.handles f = some h) :
    Agrees w f h.node (Action.read f len) (fun bytes => (bytes.size, bytes.toList))
      (s.readBy f h h.position len fun s bytes => s.moveTo f (h.position + bytes.length)) := by
  obtain ⟨handle, -⟩ := t.found hs
  obtain ⟨file, -, hf, -, -, -, same⟩ := handleOf_eq_some_iff.1 handle
  have position : h.position = file.position := congrArg FileHandle.position same
  have opened : Action.read f len w = (do
      let bytes ← Action.readAt f h.position len
      Action.seek f (h.position + bytes.size)
      return bytes : Action Bytes) w := by
    rw [position]
    exact bind_of_ok (file_eq_ok.2 ⟨hf, rfl⟩)
  have done := t.readAt hs h.position len
  unfold Shelf.readBy
  cases bytes : s.bytesAt h h.position len with
  | error e =>
      rw [bytes] at done
      exact agrees_error (opened.trans (bind_of_error done)) t hs
  | ok bytes' =>
      rw [bytes] at done
      obtain ⟨got, v, read, rfl, t⟩ := done
      have moved := t.moveTo f (h.position + got.size)
      exact agrees_ok (opened.trans (bind_of_ok read)) moved (handles_moveTo_of_some hs) rfl

theorem agrees_writeAt (t : Tracks w s) (hs : s.handles f = some h) :
    Agrees w f h.node (Action.writeAt f offset src) (fun count => (count, []))
      (s.putBy f h (s.overwritten h offset src.toList (w.termsOf f)) src.size id) :=
  agrees_put hs (t.writeAt hs offset) rfl fun _ => ⟨h, hs, rfl⟩

theorem agrees_write (t : Tracks w s) (hs : s.handles f = some h) :
    Agrees w f h.node (Action.write f src) (fun count => (count, []))
      (s.putBy f h (s.overwritten h (s.offsetOf h) src.toList (w.termsOf f)) src.size
        (·.moveTo f (s.offsetOf h + src.size))) := by
  refine agrees_put hs (t.write hs) rfl fun string => ?_
  have kept : (s.setString h.node string).handles f = some h := hs
  exact ⟨_, handles_moveTo_of_some kept, rfl⟩

theorem agrees_seek {position : Nat} (t : Tracks w s) (hs : s.handles f = some h) :
    Agrees w f h.node (Action.seek f position) (fun _ => (0, []))
      ((s.moveTo f position).see f h.node (.ok 0), s.moveTo f position) :=
  agrees_ok (a := ()) (modify_eq_ok.2 rfl) (t.moveTo f position) (handles_moveTo_of_some hs) rfl

theorem agrees_setLength (t : Tracks w s) (hs : s.handles f = some h) :
    Agrees w f h.node (Action.setLength f size) (fun _ => (0, []))
      (s.putBy f h (s.resized h size (w.termsOf f)) 0 id) :=
  agrees_put hs (t.setLength hs) rfl fun _ => ⟨h, hs, rfl⟩

/-! ## What is no handle -/

/-- What fails is not seen by a shelf. -/
theorem failed (t : Tracks w s) (sound : Sound w []) {op : Operation} {e : Error}
    (h : op.act w = .error e v) : Tracks v s := by
  have unchanged := op.act_clean sound e v h
  have changes : Changes op.onFiles w v := (op.changes sound.forest).error h
  exact t.congr changes.nodes_kept.next unchanged.nodes unchanged.files

theorem of_failing (t : Tracks w s) (sound : Sound w []) (op : Operation)
    (failing : ∀ v, op.act w ≠ .ok () v) : Tracks (w.after (.operate op)) s := by
  show Tracks (op.act.into w) s
  unfold Action.into
  cases h : op.act w with
  | ok u v => exact absurd h (failing v)
  | error e v => exact t.failed sound h

/-! ## Opening and closing -/

/-- A file that is no handle is entered. -/
theorem enter_other (t : Tracks w s) {file : OpenFile}
    (other : World.handleOf { w with files := w.files.push file } w.files.nextId = none)
    (there : ∀ n, file.node = some n → w.nodes.has n = true) :
    Tracks { w with files := w.files.push file } s := by
  have entered := t.enter other.symm there
  have absent : s.handles w.files.nextId = none :=
    (t.handles _).trans (handleOf_of_absent Table.get?_nextId)
  rwa [Shelf.setHandle_of_eq absent] at entered

theorem enter_regular (t : Tracks w s) {file : OpenFile} (bound : file.node = some n)
    (hn : w.nodes.get? n = some node) (regular : node.kind = .regular) :
    Tracks { w with files := w.files.push file } (s.setHandle w.files.nextId
      (some { node := n, flags := file.flags, position := file.position })) := by
  have handle : World.handleOf { w with files := w.files.push file } w.files.nextId
      = some { node := n, flags := file.flags, position := file.position } :=
    handleOf_of_get? Table.get?_push_self bound hn regular
  refine t.enter handle.symm fun m hm => ?_
  cases bound.symm.trans hm
  exact Table.has_of_get? hn

theorem closeFile (t : Tracks w s) : Tracks (w.after (.closeFile f)) (s.setHandle f none) := by
  have ends : Ends (Tracks · (s.setHandle f none)) (Action.closeFile f) w := by
    refine .modify ?_
    cases hf : w.files.get? f with
    | none =>
        rw [Shelf.setHandle_of_eq ((t.handles f).trans (handleOf_of_absent hf))]
        exact t
    | some file => exact (t.close f).changes Changes.refl.settle
  exact ends.into

theorem agrees_enter (t : Tracks w s) (b : BindingId) (flags : OpenFlags)
    (hn : w.nodes.get? n = some node) (regular : node.kind = .regular) :
    Agrees w w.files.nextId n (enterFile { binding := b, node := some n, flags })
      (fun _ => (0, [])) (s.enter w.files.nextId n flags) := by
  have entered : Tracks
      { w with files := w.files.push { binding := b, node := some n, flags } }
      (s.enter w.files.nextId n flags).2 := t.enter_regular rfl hn regular
  have there : (s.enter w.files.nextId n flags).2.handles w.files.nextId
      = some { node := n, flags } := by
    show (s.setHandle _ _).handles _ = _
    rw [Shelf.handles_setHandle, if_pos rfl]
  exact agrees_ok (total_eq_ok.2 ⟨rfl, rfl⟩) entered there rfl

/-- A regular file is opened by a name. -/
theorem agrees_openFile (t : Tracks w s) {b : BindingId} {flags : OpenFlags}
    (hb : w.regularOf b = some n) :
    Agrees w w.files.nextId n (Action.openFile b flags) (fun _ => (0, []))
      (s.openBy w.files.nextId n flags) := by
  obtain ⟨bound, node, hn, regular⟩ := regularOf_eq_some_iff.1 hb
  have opened : Action.openFile b flags w = (if flags.has .truncating then do
        unless flags.has .writing do throw .notPermitted
        Action.resizeContent n 0
        enterFile { binding := b, node := some n, flags }
      else enterFile { binding := b, node := some n, flags } : Action FileId) w := by
    refine (bind_of_ok (boundNode_eq_ok.2 ⟨bound, rfl⟩)).trans ?_
    refine (bind_of_ok (node_eq_ok.2 ⟨hn, rfl⟩)).trans ?_
    simp only [regular]
  refine .of_eq opened ?_
  unfold Shelf.openBy
  cases flags.has .truncating with
  | false => exact t.agrees_enter b flags hn regular
  | true =>
      cases flags.has .writing with
      | false => exact ⟨t.see hn regular (.inl Table.get?_nextId), t⟩
      | true =>
          have cut := resizeContent_of_fits hn (Nat.not_lt_zero (w.maxBytes node))
          have empty : (s.strings n).resize 0 = [] :=
            List.length_eq_zero_iff.1 ByteString.length_resize
          have t : Tracks _ (s.setString n []) := empty ▸ t.resized hn regular 0
          have kinds :
              (((w.resized n node 0).touch n).nodes.get? n).map (·.kind) = some .regular := by
            simp only [World.touch, World.resized, World.modifyNode, World.now, Table.get?_modify,
              if_true, hn, Option.map_some, Node.written, regular]
          obtain ⟨x, hx, kind⟩ := Option.map_eq_some_iff.1 kinds
          exact .of_eq (bind_of_ok cut) (t.agrees_enter b flags hx kind)

/-- What is opened and is no regular file is no handle. -/
theorem openFile_other (t : Tracks w s) (sound : Sound w []) {b : BindingId} {flags : OpenFlags}
    (hb : w.regularOf b = none) : Tracks (w.after (.operate (.openFile b flags))) s := by
  show Tracks ((Operation.openFile b flags).act.into w) s
  unfold Action.into
  cases h : (Operation.openFile b flags).act w with
  | error e v => exact t.failed sound h
  | ok u v =>
      obtain ⟨f, h⟩ := exists_of_discard_ok h
      simp only [Action.openFile, bind_eq_ok, boundNode_eq_ok, node_eq_ok] at h
      obtain ⟨n, _, ⟨bound, rfl⟩, node, _, ⟨hn, rfl⟩, h⟩ := h
      have other : node.kind ≠ .regular := fun regular => by
        rw [regularOf_eq_some_iff.2 ⟨bound, node, hn, regular⟩] at hb
        cases hb
      have entered : Tracks
          { w with files := w.files.push { binding := b, node := some n, flags } } s := by
        refine t.enter_other ?_ fun m hm => ?_
        · unfold handleOf
          rw [Table.get?_push_self]
          simp [hn, other]
        · cases hm
          exact Table.has_of_get? hn
      have done : enterFile { binding := b, node := some n, flags } w = .ok f v := by
        cases kind : node.kind with
        | regular => exact absurd kind other
        | directory =>
            simp only [kind, ite_eq_ok, bind_eq_ok, throw_eq_ok, false_and, exists_false,
              and_false, false_or] at h
            exact h.2
        | symlink => simpa only [kind] using h
        | special kind' device => simpa only [kind] using h
      obtain ⟨-, rfl⟩ := total_eq_ok.1 done
      exact entered

/-- A file without a name is given its node. -/
theorem openedUnnamed (t : Tracks w s) {b : BindingId} {name : String} {file : OpenFile}
    (hf : w.files.get? f = some file) (hn : w.nodes.get? n = some node)
    (regular : node.kind = .regular) :
    Tracks (w.openedUnnamed b f n name)
      (s.setHandle f (some { node := n, flags := file.flags, position := file.position })) := by
  have unlinked : Tracks (w.dropLink n) s := t.changes Changes.refl.dropLink
  have bound : Tracks ((w.dropLink n).modifyBinding b fun x => { x with name, node := some n }) s :=
    unlinked.congr (Nat.le_refl _) (fun _ => rfl) fun _ => rfl
  have files : (w.dropLink n).files.get? f = some file := by rw [files_dropLink, hf]
  have dropped : (w.dropLink n).nodes.get? n = some node.dropLink := by
    rw [get?_dropLink, if_pos rfl, hn]
    rfl
  exact bound.bind files dropped regular

/-- A new file without a name is opened. -/
theorem openUnnamed (t : Tracks w s) {dir : BindingId} {mode : Mode} {flags : OpenFlags}
    (h : Action.openUnnamed dir mode flags w = .ok f v) :
    Tracks v
      ((s.setString w.nodes.nextId []).enter f w.nodes.nextId (flags.union .temporary)).2 := by
  obtain ⟨d, host, home, n, u, name, -, -, -, -, rfl, made, done⟩ := openUnnamed_ok h
  have bound : Changes False w
      { w with host, bindings := w.bindings.push { name := "", parent := some dir } } :=
    Changes.refl.onHost.step (.pushBinding nofun)
  have waiting : Tracks (w.withUnnamed host dir flags) s := by
    refine (t.changes bound).enter_other ?_ nofun
    unfold handleOf
    rw [Table.get?_push_self]
    rfl
  have begun : Tracks u s := waiting.changes (Changes.refl.newNode.ok made)
  obtain ⟨rfl, host', ino, kind, time, asked, rest, -⟩ := newNode_ok made
  have regular : kind = .regular :=
    Option.some.inj (asked.symm.trans NodeKind.ofMode_withType_regular)
  have files : u.files.get? w.files.nextId = some
      { binding := w.bindings.nextId, node := none, flags := flags.union .temporary } := by
    rw [rest]
    exact Table.get?_push_self
  have node : ∃ x, u.nodes.get? w.nodes.nextId = some x ∧ x.kind = .regular := by
    rw [rest]
    exact ⟨_, Table.get?_push_self, regular⟩
  obtain ⟨x, hx, regular⟩ := node
  have opened : Tracks (u.openedUnnamed w.bindings.nextId w.files.nextId w.nodes.nextId name)
      (s.enter w.files.nextId w.nodes.nextId (flags.union .temporary)).2 :=
    begun.openedUnnamed files hx regular
  -- The number of the node was free, so its string has been empty all along.
  rw [Shelf.setString_of_eq (t.unborn (Nat.le_refl _))]
  rcases done with ⟨-, rfl⟩ | ⟨-, rfl⟩
  · exact opened
  · refine opened.changes (Changes.refl.step (.modifyNode (fun _ => rfl) fun y hy _ => .inr ?_))
    have dropped : (u.dropLink w.nodes.nextId).nodes.get? w.nodes.nextId = some x.dropLink := by
      rw [get?_dropLink, if_pos rfl, hx]
      rfl
    cases hy.symm.trans dropped
    show x.kind.isDirectory = false
    rw [regular]
    rfl

end Tracks

end Memfs
