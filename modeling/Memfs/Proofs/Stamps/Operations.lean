import Memfs.Proofs.Stamps
import Memfs.Proofs.Turns.Calls

/-!
# The times that an operation moves

`Operation.marks` is the table of them, read off the world before the operation: a creation
marks the directory, a link and a removal mark the node as well, a rename marks both
directories and both nodes, reading marks what is read and writing what is written. The other
operations mark nothing, and neither does one that fails.
-/

namespace Memfs

open World

/-- The marks that the operation leaves when it succeeds. -/
def Operation.marks (w : World) : Operation → Marks
  | create dir _ _ | mkdir dir _ _ | mknod dir _ _ _ | symlink dir _ _ =>
      { written := (w.nodeOf dir).toList }
  | link old dir _ => { written := (w.nodeOf dir).toList, changed := (w.nodeOf old).toList }
  | unlink dir name | rmdir dir name =>
      { written := (w.nodeOf dir).toList
        changed := ((w.child? dir name).bind w.nodeOf).toList }
  | rename dirA nameA dirB nameB _ =>
      let source := (w.child? dirA nameA).bind w.nodeOf
      let target := w.child? dirB nameB
      -- Two names of one node need no move.
      if target.any fun b => some b = w.child? dirA nameA || w.nodeOf b = source then {}
      else
        { written := (w.nodeOf dirB).toList ++ (w.nodeOf dirA).toList
          changed := (target.bind w.nodeOf).toList ++ source.toList }
  | openFile b flags =>
      let kind := ((w.nodeOf b).bind w.nodes.get?).map (·.kind)
      if kind = some .regular ∧ flags.has .truncating = true
      then { written := (w.nodeOf b).toList } else {}
  | write f _ | writeAt f _ _ | setLength f _ =>
      { written := ((w.files.get? f).bind (·.node)).toList }
  | read f _ | readAt f _ _ => { accessed := ((w.files.get? f).bind (·.node)).toList }
  | readdir dir => { accessed := (w.nodeOf dir).toList }
  | openUnnamed _ _ _ | seek _ _ => {}

variable {w v u : World} {marks : Marks} {n m d : NodeId} {b dir : BindingId} {f : FileId}
  {name : String} {op : Operation}

namespace World.Stamped

/-! ## Parts of operations -/

/-- The times of a new node are a reading of the clock. -/
theorem newNode (h : w.Stamped v marks) (fine : w.Fine) {home : InstanceId} {from? : Option NodeId}
    {mode : Mode} {device : DeviceNumber}
    (made : Action.newNode home from? mode device v = .ok n u) : w.Stamped u marks := by
  obtain ⟨clock, instances, x, nodes, first, second, time⟩ := Action.newNode_time made
  have onward : v.host.clock.Onward u.host.clock := clock ▸ .read
  have paced : v.Paced u := .onward onward instances
  have grain : ((v.instances.get? home).map (·.geometry.timeGrain)).getD 1 ≤ 1 := by
    cases found : v.instances.get? home with
    | none => exact Nat.le_refl _
    | some inst => exact h.paced.fine fine _ inst found
  rw [Timestamp.truncate_fine grain] at time
  refine ⟨h.paced.trans paced, ?_, ?_, fun k z newer hz => ?_⟩
  · rw [nodes, Table.nextId_push]
    exact h.next.trans (Nat.le_succ _)
  · obtain ⟨stamp, gave, moved⟩ := h.old
    refine ⟨stamp, gave.imp_right (·.later onward), fun k z known hz => moved k z known ?_⟩
    rw [nodes] at hz
    exact (Table.get?_push_of_ne (Nat.ne_of_lt (known.trans_le h.next))).symm.trans hz
  · rw [nodes] at hz
    rcases Table.get?_of_push hz with ⟨-, rfl⟩ | ⟨-, hz⟩
    · refine ⟨first, second, ?_⟩
      rw [time, clock]
      exact Clock.Gave.read.earlier h.paced.clock
    · obtain ⟨first, second, gave⟩ := h.born k z newer hz
      exact ⟨first, second, gave.later onward⟩

theorem newBinding (h : w.Stamped v marks) (fresh : Action.newBinding dir name v = .ok b u) :
    w.Stamped u marks := by
  obtain ⟨host, acquired, -, rfl⟩ := Action.newBinding_eq_ok.1 fresh
  have paid : v.Paced { v with host } := .acquire acquired
  exact h.frame (paid.trans (.same rfl rfl)) rfl

theorem storeBytes (h : w.Stamped v marks) {offset : Nat} {src : Bytes}
    (stored : Action.storeBytes n offset src v = .ok () u) : w.Stamped u marks := by
  obtain ⟨x, content, host, -, written, rfl⟩ := Action.storeBytes_ok stored
  have still : v.host.Still (x.content.write v.host offset src).2 := .write
  rw [written] at still
  have paid : w.Stamped { v with host } marks := h.aside still.toOnward rfl rfl
  exact paid.modifyNode fun _ => ⟨rfl, rfl, rfl⟩

theorem storeTarget (h : w.Stamped v marks) {closed : Bytes}
    (stored : Action.storeTarget n closed v = .ok () u) : w.Stamped u marks := by
  obtain ⟨t, bytes, rfl⟩ := Action.storeTarget_ok stored
  exact (h.storeBytes bytes).modifyNode fun _ => ⟨rfl, rfl, rfl⟩

theorem resized (h : w.Stamped v marks) {x : Node} {size : Nat} :
    w.Stamped (v.resized n x size) marks := by
  have paid : w.Stamped { v with host := (x.content.resize v.host size).2 } marks :=
    h.aside Host.Still.resize.toOnward rfl rfl
  exact paid.modifyNode fun _ => ⟨rfl, rfl, rfl⟩

theorem onFiles (h : w.Stamped v marks) {files : Table OpenFile} :
    w.Stamped { v with files } marks :=
  h.frame (.same rfl rfl) rfl

theorem makeAt (h : w.Stamped u {}) (fine : w.Fine) (known : m < w.nodes.nextId) {mode : Mode}
    {device : DeviceNumber} (done : Action.makeAt m b mode device u = .ok () v) :
    w.Stamped v { written := [m] } := by
  obtain ⟨home, n, t, -, made, rfl⟩ := Action.makeAt_ok done
  have placed : w.Stamped ((t.instantiate b n).pin b) {} :=
    (h.newNode fine made).instantiate.modifyBinding
  exact placed.touch fine known

theorem makeSymlinkAt (h : w.Stamped u {}) (fine : w.Fine) (known : m < w.nodes.nextId)
    {target : String} (done : Action.makeSymlinkAt m b target u = .ok () v) :
    w.Stamped v { written := [m] } := by
  obtain ⟨home, n, t, t', -, made, stored, rfl⟩ := Action.makeSymlinkAt_ok done
  have placed : w.Stamped ((t'.instantiate b n).pin b) {} :=
    ((h.newNode fine made).storeTarget stored).instantiate.modifyBinding
  exact placed.touch fine known

/-! ## Operations on names -/

variable (s : Sound w []) (fine : w.Fine)

include s fine

theorem creation {c : Creation} (done : c.act dir name w = .ok b v) :
    w.Stamped v { written := (w.nodeOf dir).toList } := by
  cases c with
  | file mode =>
      obtain ⟨-, m, bound, -, done⟩ := Action.create_ok done
      obtain ⟨-, u, fresh, made⟩ := Action.makeName_ok done
      rw [bound]
      exact (refl.newBinding fresh).makeAt fine (s.known_of_nodeOf bound) made
  | directory mode =>
      obtain ⟨-, m, bound, -, done⟩ := Action.mkdir_ok done
      obtain ⟨-, u, fresh, made⟩ := Action.makeName_ok done
      obtain ⟨t, bare, rfl⟩ := Action.makeDirectoryAt_ok made
      rw [bound]
      exact ((refl.newBinding fresh).makeAt fine (s.known_of_nodeOf bound) bare).addLink
  | node mode device =>
      obtain ⟨-, m, _, _, bound, -, -, done⟩ := Action.mknod_ok done
      obtain ⟨-, u, fresh, made⟩ := Action.makeName_ok done
      rw [bound]
      exact (refl.newBinding fresh).makeAt fine (s.known_of_nodeOf bound) made
  | symlink target =>
      obtain ⟨-, m, bound, -, done⟩ := Action.symlink_ok done
      obtain ⟨-, u, fresh, made⟩ := Action.makeName_ok done
      rw [bound]
      exact (refl.newBinding fresh).makeSymlinkAt fine (s.known_of_nodeOf bound) made

theorem link {old : BindingId} (done : Action.link old dir name w = .ok b v) :
    w.Stamped v { written := (w.nodeOf dir).toList, changed := (w.nodeOf old).toList } := by
  obtain ⟨-, n, d, x, hn, -, -, -, hd, -, -, done⟩ := Action.link_ok done
  obtain ⟨-, u, fresh, made⟩ := Action.makeName_ok done
  obtain ⟨m, hm, rfl⟩ := Action.linkAt_ok made
  rw [(frame_newBinding fresh).2.2, hn] at hm
  cases hm
  rw [hd, hn]
  exact ((refl.newBinding fresh).touchWith fine (s.known_of_nodeOf hd)
    (s.known_of_nodeOf hn)).addLink.instantiate.modifyBinding

theorem unlink (done : Action.unlink dir name w = .ok () v) :
    w.Stamped v
      { written := (w.nodeOf dir).toList
        changed := ((w.child? dir name).bind w.nodeOf).toList } := by
  obtain ⟨d, b, n, hd, -, hb, hn, -, rfl⟩ := Action.unlink_ok done
  rw [hd, hb, Option.bind_some, hn]
  exact (refl.unlinked fine (s.known_of_nodeOf hd) (s.known_of_nodeOf hn)).settle

theorem rmdir (done : Action.rmdir dir name w = .ok () v) :
    w.Stamped v
      { written := (w.nodeOf dir).toList
        changed := ((w.child? dir name).bind w.nodeOf).toList } := by
  obtain ⟨d, b, n, hd, -, hb, hn, -, -, rfl⟩ := Action.rmdir_ok done
  rw [hd, hb, Option.bind_some, hn]
  exact (refl.dropLink.unlinked fine (s.known_of_nodeOf hd) (s.known_of_nodeOf hn)).dropLink.settle

/-! ## Renames -/

variable {dirA dirB a : BindingId} {nameA nameB : String} {nodeA nodeB source target : NodeId}
  {flags : RenameFlags}

/-- The end of every rename that moves something. -/
theorem renamed (h : w.Stamped v marks) (hA : w.nodeOf dirA = some nodeA)
    (hB : w.nodeOf dirB = some nodeB) (node : ∀ c, v.nodeOf c = w.nodeOf c)
    (within : marks.Within
      { written := [nodeB, nodeA], changed := (w.nodeOf b).toList ++ (w.nodeOf a).toList }) :
    w.Stamped (v.touchRenamed nodeA a nodeB b)
      { written := [nodeB, nodeA], changed := (w.nodeOf b).toList ++ (w.nodeOf a).toList } := by
  rw [← node b, ← node a] at within ⊢
  exact h.touchRenamed within fine (s.known_of_nodeOf hA) (s.known_of_nodeOf hB)
    fun c n bound => s.known_of_nodeOf ((node c).symm.trans bound)

theorem exchangeNames (hA : w.nodeOf dirA = some nodeA) (hB : w.nodeOf dirB = some nodeB)
    (exchange : flags.has .exchange = true)
    (done : Action.exchangeNames dirA nodeA a dirB nodeB b flags w = .ok () v) :
    w.Stamped v
      { written := [nodeB, nodeA], changed := (w.nodeOf b).toList ++ (w.nodeOf a).toList } := by
  obtain ⟨-, -, n, m, -, -, rfl⟩ := Action.exchangeNames_ok exchange done
  have shifted : w.Stamped (w.exchangeLinks nodeA n nodeB m) {} := by
    unfold World.exchangeLinks
    split
    · split
      · exact refl.shiftLink
      · exact refl.shiftLink
    · exact refl
  exact (shifted.renamed s fine hA hB (fun c => SameTree.exchangeLinks.nodeOf)
    ⟨nofun, nofun, nofun⟩).exchangeBindings

/-- The node that gives way is marked by its removal first, and by the rename again. -/
theorem replaced (hA : w.nodeOf dirA = some nodeA) (hB : w.nodeOf dirB = some nodeB)
    (hb : w.child? dirB nameB = some b) (hn : w.nodeOf b = some target) :
    w.Stamped ((w.replaced nodeA source nodeB b target).touchRenamed nodeA a nodeB b)
      { written := [nodeB, nodeA], changed := (w.nodeOf b).toList ++ (w.nodeOf a).toList } := by
  have less : w.Stamped
      (if w.isDirectory source then (w.dropLink target).dropLink nodeA else w) {} := by
    split
    · exact refl.dropLink.dropLink
    · exact refl
  have removed : w.Stamped (w.replaced nodeA source nodeB b target) _ :=
    less.unlinked fine (s.known_of_nodeOf hB) (s.known_of_nodeOf hn)
  refine removed.renamed s fine hA hB (fun c => ?_) ⟨nofun, by simp, by simp [hn]⟩
  have node := (s.replaced hb nodeA source nodeB target a).2.node c
  rwa [SameTree.touchRenamed.nodeOf] at node

theorem moveName (hA : w.nodeOf dirA = some nodeA) (hB : w.nodeOf dirB = some nodeB)
    (kindB : w.isDirectory nodeB = true) (hsource : w.nodeOf a = some source)
    (checked : checkName nameB = .ok ()) (move : flags.has .exchange = false)
    (done : Action.moveName nodeA a source dirB nodeB nameB (w.child? dirB nameB) flags w
      = .ok () v) :
    w.Stamped v
      { written := [nodeB, nodeA]
        changed := ((w.child? dirB nameB).bind w.nodeOf).toList ++ (w.nodeOf a).toList } := by
  obtain ⟨-, ⟨b, n, hb, hn, -, -, rfl⟩ | ⟨b, u, t, free, fresh, ht, -, tree, rfl⟩⟩ :=
    s.moveName_cases hsource hB kindB checked move done
  · rw [hb]
    exact (replaced s fine hA hB hb hn).moveBinding.settle
  · obtain ⟨-, -, node⟩ := frame_newBinding fresh
    have vacant : w.nodeOf b = none := by
      obtain ⟨host, -, rfl, -⟩ := Action.newBinding_eq_ok.1 fresh
      unfold World.nodeOf
      rw [Table.get?_nextId]
      rfl
    have entered : w.Stamped t {} := by
      rw [ht]
      split
      · exact (refl.newBinding fresh).shiftLink
      · exact refl.newBinding fresh
    rw [free, Option.bind_none, ← vacant]
    exact (entered.renamed s fine hA hB (fun c => tree.nodeOf.trans (node c))
      ⟨nofun, nofun, nofun⟩).moveBinding.settle

theorem rename (done : Action.rename dirA nameA dirB nameB flags w = .ok () v) :
    w.Stamped v ((Operation.rename dirA nameA dirB nameB flags).marks w) := by
  obtain ⟨-, checked, nodeA, nodeB, a, source, hA, -, hB, kindB, -, ha, hsource, outcome⟩ :=
    Action.rename_ok done
  simp only [Operation.marks, hA, hB, ha, Option.bind_some, hsource]
  obtain ⟨⟨b, hb, same⟩, rfl⟩ | ⟨differ, moved⟩ := outcome
  · rw [hb, if_pos]
    · exact refl
    · simpa using same
  · rw [if_neg]
    · rw [← hsource]
      obtain ⟨exchange, b, hb, done⟩ | ⟨move, done⟩ := moved
      · rw [hb]
        exact exchangeNames s fine hA hB exchange done
      · exact moveName s fine hA hB kindB hsource checked move done
    · cases hb : w.child? dirB nameB with
      | none => simp
      | some b => simpa using differ b hb

/-! ## Content and files -/

variable {m : NodeId}

theorem openFile {flags : OpenFlags} (done : Action.openFile b flags w = .ok f v) :
    w.Stamped v ((Operation.openFile b flags).marks w) := by
  obtain ⟨n, x, u, hn, hx, outcome, -, rfl⟩ := Action.openFile_granted done
  simp only [Operation.marks, hn, Option.bind_some, hx, Option.map_some, Option.some_inj]
  obtain ⟨truncating, cut⟩ | ⟨other, rfl⟩ := outcome
  · rw [if_pos truncating]
    obtain ⟨y, -, rfl⟩ := Action.resizeContent_ok cut
    exact (refl.resized.touch fine (s.known_of_nodeOf hn)).onFiles
  · rw [if_neg other]
    exact refl.onFiles

omit s in
theorem openUnnamed {mode : Mode} {flags : OpenFlags}
    (done : Action.openUnnamed dir mode flags w = .ok f v) : w.Stamped v {} := by
  obtain ⟨d, host, home, n, u, name, -, -, -, acquired, -, made, outcome⟩ :=
    Action.openUnnamed_ok done
  have paid : w.Paced { w with host } := .acquire acquired
  have entered : w.Stamped (w.withUnnamed host dir flags) {} :=
    refl.frame (paid.trans (.same rfl rfl)) rfl
  have opened : w.Stamped (u.openedUnnamed w.bindings.nextId f n name) {} :=
    (entered.newNode fine made).dropLink.modifyBinding.onFiles
  rcases outcome with ⟨-, rfl⟩ | ⟨-, rfl⟩
  · exact opened
  · exact opened.modifyNode fun _ => ⟨rfl, rfl, rfl⟩

/-! ### On the node of a file -/

omit fine in
/-- A file keeps its node. -/
theorem known_of_openOn (opened : w.OpenOn f n) : n < w.nodes.nextId := by
  obtain ⟨x, hx, hn⟩ := opened
  have owned : w.Owned (.node n) := ⟨.file f, x, hx, hn⟩
  obtain ⟨y, hy⟩ := Table.has_iff.1 (s.tended.there owned)
  exact Table.get?_lt hy

theorem touched (opened : w.OpenOn f n) (h : w.Stamped v {}) :
    w.Stamped (v.touch n) { written := ((w.files.get? f).bind (·.node)).toList } := by
  have known := known_of_openOn s opened
  obtain ⟨x, hx, hn⟩ := opened
  rw [hx, Option.bind_some, hn]
  exact h.touch fine known

theorem accessed (opened : w.OpenOn f n) :
    w.Stamped (w.markAccessed n) { accessed := ((w.files.get? f).bind (·.node)).toList } := by
  have known := known_of_openOn s opened
  obtain ⟨x, hx, hn⟩ := opened
  rw [hx, Option.bind_some, hn]
  exact refl.markAccessed fine known

end World.Stamped

/-! ## All operations -/

variable (s : Sound w []) (fine : w.Fine)

include s

include fine in
/-- An operation that succeeds moves the times that the table says, and no others. -/
theorem Operation.stamped (done : op.act w = .ok () v) : w.Stamped v (op.marks w) := by
  cases op with
  | create dir name mode =>
      obtain ⟨b, done⟩ := Action.exists_of_discard_ok done
      exact Stamped.creation s fine (c := .file mode) done
  | mkdir dir name mode =>
      obtain ⟨b, done⟩ := Action.exists_of_discard_ok done
      exact Stamped.creation s fine (c := .directory mode) done
  | mknod dir name mode device =>
      obtain ⟨b, done⟩ := Action.exists_of_discard_ok done
      exact Stamped.creation s fine (c := .node mode device) done
  | symlink dir name target =>
      obtain ⟨b, done⟩ := Action.exists_of_discard_ok done
      exact Stamped.creation s fine (c := .symlink target) done
  | openUnnamed dir mode flags =>
      obtain ⟨f, done⟩ := Action.exists_of_discard_ok done
      exact Stamped.openUnnamed fine done
  | link old dir name =>
      obtain ⟨b, done⟩ := Action.exists_of_discard_ok done
      exact Stamped.link s fine done
  | unlink dir name => exact Stamped.unlink s fine done
  | rmdir dir name => exact Stamped.rmdir s fine done
  | rename dirA nameA dirB nameB flags => exact Stamped.rename s fine done
  | openFile b flags =>
      obtain ⟨f, done⟩ := Action.exists_of_discard_ok done
      exact Stamped.openFile s fine done
  | readdir dir =>
      obtain ⟨entries, done⟩ := Action.exists_of_discard_ok done
      obtain ⟨n, hn, rfl⟩ := Action.readdir_ok done
      simp only [Operation.marks, hn]
      exact Stamped.refl.markAccessed fine (s.known_of_nodeOf hn)
  | read f len =>
      obtain ⟨bytes, done⟩ := Action.exists_of_discard_ok done
      obtain ⟨n, position, opened, rfl⟩ := Action.read_ok done
      exact (Stamped.accessed s fine opened).onFiles
  | readAt f offset len =>
      obtain ⟨bytes, done⟩ := Action.exists_of_discard_ok done
      obtain ⟨n, opened, rfl⟩ := Action.readAt_ok done
      exact Stamped.accessed s fine opened
  | write f src =>
      obtain ⟨written, done⟩ := Action.exists_of_discard_ok done
      obtain ⟨n, offset, u, position, opened, stored, rfl⟩ := Action.write_ok done
      exact (Stamped.touched s fine opened (Stamped.refl.storeBytes stored)).onFiles
  | writeAt f offset src =>
      obtain ⟨written, done⟩ := Action.exists_of_discard_ok done
      obtain ⟨n, u, opened, stored, rfl⟩ := Action.writeAt_ok done
      exact Stamped.touched s fine opened (Stamped.refl.storeBytes stored)
  | seek f position =>
      rw [← Action.seek_eq_ok.1 done]
      exact Stamped.refl.onFiles
  | setLength f size =>
      obtain ⟨n, x, opened, -, rfl⟩ := Action.setLength_ok done
      exact Stamped.touched s fine opened Stamped.refl.resized

/-- One that fails moves none. -/
theorem Operation.unstamped {e : Error} (failed : op.act w = .error e v) : w.Stamped v {} := by
  have same : Unchanged w v := op.act_clean s e v failed
  have later : w.nodes.nextId ≤ v.nodes.nextId := ((op.changes s.forest).error failed).nodes_kept.next
  refine ⟨(Paced.quiet.operate .refl op).error failed, later, ?_, fun n x newer hx => ?_⟩
  · exact ⟨default, .inl rfl, fun n y _ hy => ⟨y, (same.nodes n).symm.trans hy, .none .refl⟩⟩
  · exact absurd (Table.get?_lt ((same.nodes n).symm.trans hx)) (Nat.not_lt.2 newer)

end Memfs
