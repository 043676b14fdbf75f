import Memfs.Proofs.Changes.Mounts
import Memfs.Proofs.Contents
import Memfs.Proofs.Shelf.Events

/-!
# A shelf stands for a world

`Tracks` is what a world and a shelf have in common between two calls. The content of
each regular node shows its string, and a node that is yet to be made has an empty one,
so making a node is no event. The handles are the same.

Operations that have no business with open files are not looked at one by one. They are
made of changes that keep the table of files, the kinds of the nodes and the content of
the regular ones, and that remove no node that a file stands for; each such change
keeps `Tracks` with the shelf as it is.
-/

namespace Memfs

namespace World

variable {w v : World} {f : FileId} {n : NodeId} {h : FileHandle}

theorem handleOf_eq_some_iff : w.handleOf f = some h ↔ ∃ file node,
    w.files.get? f = some file ∧ file.node = some h.node ∧ w.nodes.get? h.node = some node ∧
      node.kind = .regular ∧
      h = { node := h.node, flags := file.flags, position := file.position } := by
  unfold handleOf
  simp only [Option.bind_eq_bind, Option.bind_eq_some_iff, Option.ite_none_right_eq_some,
    Option.some.injEq]
  constructor
  · rintro ⟨file, hf, n, hn, node, hnode, regular, rfl⟩
    exact ⟨file, node, hf, hn, hnode, regular, rfl⟩
  · rintro ⟨file, node, hf, hn, hnode, regular, same⟩
    exact ⟨file, hf, h.node, hn, node, hnode, regular, same.symm⟩

theorem handleOf_of_get? {file : OpenFile} {node : Node} (hf : w.files.get? f = some file)
    (hn : file.node = some n) (hnode : w.nodes.get? n = some node)
    (regular : node.kind = .regular) :
    w.handleOf f = some { node := n, flags := file.flags, position := file.position } :=
  handleOf_eq_some_iff.2 ⟨file, node, hf, hn, hnode, regular, rfl⟩

theorem handleOf_of_absent (absent : w.files.get? f = none) : w.handleOf f = none := by
  unfold handleOf
  rw [absent]
  rfl

theorem regularOf_eq_some_iff {b : BindingId} : w.regularOf b = some n ↔ w.nodeOf b = some n ∧
    ∃ node, w.nodes.get? n = some node ∧ node.kind = .regular := by
  unfold regularOf
  simp only [Option.bind_eq_bind, Option.bind_eq_some_iff, Option.ite_none_right_eq_some,
    Option.some.injEq]
  constructor
  · rintro ⟨m, hm, node, hnode, regular, rfl⟩
    exact ⟨hm, node, hnode, regular⟩
  · rintro ⟨hn, node, hnode, regular⟩
    exact ⟨n, hn, node, hnode, regular, rfl⟩

/-- A handle depends on the files and on the kinds of nodes only. -/
theorem handleOf_congr (files : v.files.get? f = w.files.get? f)
    (kinds : ∀ {file n}, w.files.get? f = some file → file.node = some n →
      (v.nodes.get? n).map (·.kind) = (w.nodes.get? n).map (·.kind)) :
    w.handleOf f = v.handleOf f := by
  unfold handleOf
  rw [files]
  cases hf : w.files.get? f with
  | none => rfl
  | some file =>
      cases hn : file.node with
      | none => simp [hn]
      | some n =>
          have same := kinds hf hn
          cases here : w.nodes.get? n with
          | none =>
              rw [here, Option.map_none, Option.map_eq_none_iff] at same
              simp [hn, here, same]
          | some node =>
              rw [here, Option.map_some, Option.map_eq_some_iff] at same
              obtain ⟨other, there, kind⟩ := same
              simp [hn, here, there, kind]

end World

open World

/-- A shelf with the content of the regular files of a world, and with their handles. -/
structure Tracks (w : World) (s : Shelf) : Prop where
  shows : ∀ {n node}, w.nodes.get? n = some node → node.kind = .regular →
    node.content.Shows (s.strings n)
  unborn : ∀ {n}, w.nodes.nextId ≤ n → s.strings n = []
  handles : ∀ f, s.handles f = w.handleOf f
  /-- What a file was opened on is there. -/
  there : ∀ {f file n}, w.files.get? f = some file → file.node = some n → w.nodes.has n = true

namespace Tracks

variable {w v : World} {s s' : Shelf} {f : FileId} {n : NodeId} {node : Node} {h : FileHandle}

theorem fresh {clock : Clock} : Tracks (World.fresh clock) {} where
  shows hn := by
    rw [World.fresh, Table.get?_empty] at hn
    cases hn
  unborn _ := rfl
  handles f := (handleOf_of_absent Table.get?_empty).symm
  there hf := by
    rw [World.fresh, Table.get?_empty] at hf
    cases hf

/-! ## Changes that are no business of files -/

/-- The files and the regular nodes are all that counts. -/
theorem congr (t : Tracks w s) (next : w.nodes.nextId ≤ v.nodes.nextId)
    (nodes : ∀ n, v.nodes.get? n = w.nodes.get? n) (files : ∀ f, v.files.get? f = w.files.get? f) :
    Tracks v s where
  shows hn := t.shows (by rwa [← nodes])
  unborn hn := t.unborn (Nat.le_trans next hn)
  handles f := (t.handles f).trans (handleOf_congr (files f) fun _ _ => by rw [nodes])
  there hf hn := by
    rw [Table.has, nodes]
    exact t.there (by rwa [← files]) hn

theorem modifyNode (t : Tracks w s) {g : Node → Node} (kinds : ∀ x, (g x).kind = x.kind)
    (contents : ∀ x, w.nodes.get? n = some x → x.kind = .regular → (g x).content = x.content) :
    Tracks (w.modifyNode n g) s where
  shows := by
    intro m node hm regular
    rcases Table.get?_of_modify hm with ⟨rfl, x, hx, rfl⟩ | ⟨-, hm⟩
    · have kind : x.kind = .regular := (kinds x).symm.trans regular
      rw [contents x hx kind]
      exact t.shows hx kind
    · exact t.shows hm regular
  unborn hn := t.unborn (Table.nextId_modify.symm.trans_le hn)
  handles f := by
    refine (t.handles f).trans (handleOf_congr rfl fun {file m} _ _ => ?_)
    rw [World.modifyNode, Table.get?_modify]
    split
    · next same =>
        rw [same, Option.map_map]
        exact congrArg (Option.map · _) (funext kinds)
    · rfl
  there hf hn := by
    rw [World.modifyNode, Table.has_modify]
    exact t.there hf hn

theorem change (c : Change False w v) (t : Tracks w s) : Tracks v s := by
  cases c with
  | aside nodes _ files _ =>
      exact t.congr (by rw [nodes]) (fun _ => by rw [nodes]) fun _ => by rw [files]
  | @pushNode node _ blank =>
      refine ⟨fun {m x} hm regular => ?_, fun {m} hm => ?_, fun f => ?_, fun {f file m} hf hm => ?_⟩
      · rcases Table.get?_of_push hm with ⟨same, rfl⟩ | ⟨-, hm⟩
        · obtain ⟨flags, blank⟩ := blank (by rw [regular]; nofun)
          rw [blank, same, t.unborn (Nat.le_refl _)]
          exact .empty
        · exact t.shows hm regular
      · refine t.unborn (Nat.le_trans (Nat.le_succ _) ?_)
        exact Table.nextId_push.symm.trans_le hm
      · refine (t.handles f).trans (handleOf_congr rfl fun {file m} hf hm => ?_)
        obtain ⟨x, hx⟩ := Table.has_iff.1 (t.there hf hm)
        rw [hx, Table.get?_push_of_some hx]
      · exact Table.has_push.2 (.inl (t.there hf hm))
  | modifyNode rest =>
      refine t.modifyNode (fun x => by rw [rest x]) fun x _ _ => by rw [rest x]
  | content allowed => exact allowed.elim
  | @evict m node found free =>
      -- A file owns what it was opened on, so that is not what is removed.
      have other : ∀ {f file k}, w.files.get? f = some file → file.node = some k → k ≠ m := by
        rintro f file k hf hk rfl
        exact free ⟨.file f, file, hf, hk⟩
      refine ⟨fun hn => t.shows (Table.get?_of_erase hn), fun hn => ?_, fun f => ?_,
        fun hf hn => Table.has_erase.2 ⟨other hf hn, t.there hf hn⟩⟩
      · exact t.unborn (Table.nextId_erase.symm.trans_le hn)
      · refine (t.handles f).trans (handleOf_congr rfl fun hf hn => ?_)
        rw [World.evict, Table.get?_erase, if_neg (other hf hn)]
  | files allowed => exact allowed.elim
  | pushBinding => exact t.congr (Nat.le_refl _) (fun _ => rfl) fun _ => rfl
  | modifyBinding => exact t.congr (Nat.le_refl _) (fun _ => rfl) fun _ => rfl
  | readdress => exact t.congr (Nat.le_refl _) (fun _ => rfl) fun _ => rfl
  | removeBinding => exact t.congr (Nat.le_refl _) (fun _ => rfl) fun _ => rfl
  | pushInstance => exact t.congr (Nat.le_refl _) (fun _ => rfl) fun _ => rfl
  | modifyInstance => exact t.congr (Nat.le_refl _) (fun _ => rfl) fun _ => rfl
  | setRoot => exact t.congr (Nat.le_refl _) (fun _ => rfl) fun _ => rfl
  | removeInstance => exact t.congr (Nat.le_refl _) (fun _ => rfl) fun _ => rfl

theorem changes (c : Changes False w v) (t : Tracks w s) : Tracks v s :=
  c.keeps (P := (Tracks · s)) (fun change t => t.change change) t

/-! ## Changes that are -/

theorem setString (t : Tracks w s) (found : w.nodes.get? n = some node) {content : PageMap}
    {string : ByteString} (shows : content.Shows string) :
    Tracks (w.modifyNode n ({ · with content })) (s.setString n string) where
  shows := by
    intro m x hm regular
    rw [Shelf.strings_setString]
    rcases Table.get?_of_modify hm with ⟨rfl, y, hy, rfl⟩ | ⟨other, hm⟩
    · cases found.symm.trans hy
      rw [if_pos rfl]
      exact shows
    · rw [if_neg other]
      exact t.shows hm regular
  unborn := by
    intro m hm
    have hm : w.nodes.nextId ≤ m := Table.nextId_modify.symm.trans_le hm
    have other : m ≠ n := Nat.ne_of_gt (Nat.lt_of_lt_of_le (Table.get?_lt found) hm)
    rw [Shelf.strings_setString, if_neg other]
    exact t.unborn hm
  handles f := by
    refine (t.handles f).trans (handleOf_congr rfl fun {file m} _ _ => ?_)
    rw [World.modifyNode, Table.get?_modify]
    split
    · next same =>
        rw [same, found]
        rfl
    · rfl
  there hf hn := by
    rw [World.modifyNode, Table.has_modify]
    exact t.there hf hn

/-- Only the table of files has changed. -/
theorem onFiles (t : Tracks w s) {files : Table OpenFile} (strings : s'.strings = s.strings)
    (handles : ∀ f, s'.handles f = World.handleOf { w with files } f)
    (there : ∀ {f file n}, files.get? f = some file → file.node = some n → w.nodes.has n = true) :
    Tracks { w with files } s' where
  shows hn regular := by
    rw [strings]
    exact t.shows hn regular
  unborn hn := by
    rw [strings]
    exact t.unborn hn
  handles := handles
  there := there

theorem moveTo (t : Tracks w s) (f : FileId) (position : Nat) :
    Tracks (w.modifyFile f ({ · with position })) (s.moveTo f position) := by
  refine t.onFiles rfl (fun g => ?_) fun {g file n} hg hn => ?_
  · rw [Shelf.handles_moveTo]
    by_cases same : g = f
    · subst same
      rw [if_pos rfl, t.handles]
      unfold World.handleOf
      rw [Table.get?_modify, if_pos rfl]
      cases hg : w.files.get? g with
      | none => rfl
      | some file =>
          cases hn : file.node with
          | none => simp [hn]
          | some n =>
              cases hnode : w.nodes.get? n with
              | none => simp [hn, hnode]
              | some node => by_cases regular : node.kind = .regular <;> simp [hn, hnode, regular]
    · rw [if_neg same, t.handles]
      exact handleOf_congr (by rw [Table.get?_modify, if_neg same]) fun _ _ => rfl
  · rcases Table.get?_of_modify hg with ⟨rfl, x, hx, rfl⟩ | ⟨-, hg⟩
    · exact t.there hx hn
    · exact t.there hg hn

/-- A file is entered. The shelf has a handle for it, if it is one. -/
theorem enter (t : Tracks w s) {file : OpenFile} {handle : Option FileHandle}
    (opened : handle = World.handleOf { w with files := w.files.push file } w.files.nextId)
    (there : ∀ n, file.node = some n → w.nodes.has n = true) :
    Tracks { w with files := w.files.push file } (s.setHandle w.files.nextId handle) := by
  refine t.onFiles rfl (fun g => ?_) fun {g x n} hg hn => ?_
  · rw [Shelf.handles_setHandle]
    by_cases same : g = w.files.nextId
    · rw [if_pos same, same]
      exact opened
    · rw [if_neg same, t.handles]
      exact handleOf_congr (Table.get?_push_of_ne same) fun _ _ => rfl
  · rcases Table.get?_of_push hg with ⟨-, rfl⟩ | ⟨-, hg⟩
    · exact there n hn
    · exact t.there hg hn

/-- A file that is there is given a node. -/
theorem bind (t : Tracks w s) {file : OpenFile} (hf : w.files.get? f = some file)
    (hn : w.nodes.get? n = some node) (regular : node.kind = .regular) :
    Tracks (w.modifyFile f ({ · with node := some n })) (s.setHandle f
      (some { node := n, flags := file.flags, position := file.position })) := by
  refine t.onFiles rfl (fun g => ?_) fun {g x m} hg hm => ?_
  · rw [Shelf.handles_setHandle]
    by_cases same : g = f
    · subst same
      rw [if_pos rfl]
      have changed : (w.files.modify g ({ · with node := some n })).get? g
          = some { file with node := some n } := by
        rw [Table.get?_modify, if_pos rfl, hf]
        rfl
      have handle : World.handleOf
          { w with files := w.files.modify g ({ · with node := some n }) } g
          = some { node := n, flags := file.flags, position := file.position } :=
        handleOf_eq_some_iff.2 ⟨_, node, changed, rfl, hn, regular, rfl⟩
      exact handle.symm
    · rw [if_neg same, t.handles]
      exact handleOf_congr (by rw [Table.get?_modify, if_neg same]) fun _ _ => rfl
  · rcases Table.get?_of_modify hg with ⟨rfl, y, -, rfl⟩ | ⟨-, hg⟩
    · cases hm
      exact Table.has_of_get? hn
    · exact t.there hg hm

theorem close (t : Tracks w s) (f : FileId) :
    Tracks { w with files := w.files.erase f } (s.setHandle f none) := by
  refine t.onFiles rfl (fun g => ?_) fun hg hn => t.there (Table.get?_of_erase hg) hn
  rw [Shelf.handles_setHandle]
  by_cases same : g = f
  · rw [if_pos same, handleOf_of_absent]
    rw [Table.get?_erase, if_pos same]
  · rw [if_neg same, t.handles]
    exact handleOf_congr (by rw [Table.get?_erase, if_neg same]) fun _ _ => rfl

/-! ## What is seen -/

/-- What is seen of a content is the same, and so is what is seen of a file that is a
handle or is not there. -/
theorem see (t : Tracks w s) (found : w.nodes.get? n = some node) (regular : node.kind = .regular)
    (file : w.files.get? f = none ∨ ∃ h, s.handles f = some h) {result : Except Error Nat}
    {bytes : ByteString} : w.see f n result bytes = s.see f n result bytes := by
  have size : node.size = (s.strings n).length := (t.shows found regular).size
  have position : ((w.files.get? f).map (·.position)).getD 0
      = ((s.handles f).map (·.position)).getD 0 := by
    rcases file with absent | ⟨h, hs⟩
    · rw [t.handles, handleOf_of_absent absent, absent]
      rfl
    · obtain ⟨file, x, hf, -, -, -, same⟩ := handleOf_eq_some_iff.1 ((t.handles f).symm.trans hs)
      rw [hf, hs, same]
      rfl
  unfold World.see Shelf.see
  rw [position, found]
  exact congrArg (Reply.mk result bytes _) size

theorem see_handle (t : Tracks w s) (hs : s.handles f = some h) {result : Except Error Nat}
    {bytes : ByteString} : w.see f h.node result bytes = s.see f h.node result bytes := by
  obtain ⟨file, node, -, -, hn, regular, -⟩ := handleOf_eq_some_iff.1 ((t.handles f).symm.trans hs)
  exact t.see hn regular (.inr ⟨h, hs⟩)

end Tracks

end Memfs
