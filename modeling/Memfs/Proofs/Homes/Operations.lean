import Memfs.Proofs.Homes.Steps

/-!
# Operations stay inside

An operation that succeeds looks up what it works on from its arguments: the node of a
binding, an entry of a directory, the node of a file. None of these steps leads out of
the realm of the instance that the arguments belong to, so the operation changes nothing
outside of it.

Nor can an operation that succeeds be given arguments of two instances. The two
operations on two directories compare the homes of their nodes beforehand. Where they find
no home, as where a node is to be made, the instance is gone and the operation fails.
-/

namespace Memfs

open World

/-! ## Operations -/

namespace Operation

/-- The bindings that the operation is given. -/
def bindings : Operation → List BindingId
  | create dir _ _ | mkdir dir _ _ | mknod dir _ _ _ | symlink dir _ _ | openUnnamed dir _ _
  | unlink dir _ | rmdir dir _ | readdir dir => [dir]
  | openFile b _ => [b]
  | link old dir _ => [old, dir]
  | rename dirA _ dirB _ _ => [dirA, dirB]
  | read _ _ | readAt _ _ _ | write _ _ | writeAt _ _ _ | seek _ _ | setLength _ _ => []

/-- The files that the operation is given. -/
def files : Operation → List FileId
  | read f _ | readAt f _ _ | write f _ | writeAt f _ _ | seek f _ | setLength f _ => [f]
  | create _ _ _ | mkdir _ _ _ | mknod _ _ _ _ | symlink _ _ _ | openUnnamed _ _ _ | link _ _ _
  | unlink _ _ | rmdir _ _ | rename _ _ _ _ _ | openFile _ _ | readdir _ => []

/-- What the operation is given belongs to the instance. -/
def Within (op : Operation) (w : World) (i : InstanceId) : Prop :=
  (∀ b ∈ op.bindings, w.bindingHome b = some i) ∧ ∀ f ∈ op.files, w.fileHome f = some i

/-- Does the operation make a name or a node? -/
def grows : Operation → Prop
  | create _ _ _ | mkdir _ _ _ | mknod _ _ _ _ | symlink _ _ _ | openUnnamed _ _ _ | link _ _ _
  | rename _ _ _ _ _ => True
  | unlink _ _ | rmdir _ _ | openFile _ _ | readdir _ | read _ _ | readAt _ _ _ | write _ _
  | writeAt _ _ _ | seek _ _ | setLength _ _ => False

end Operation

namespace Inside

variable {i : InstanceId} {w v : World} {n : NodeId} {b dir old dirA dirB : BindingId} {f : FileId}
  {name nameA nameB : String} {mode : Mode} {flags : RenameFlags}

theorem openOn_realm (home : w.fileHome f = some i) (opened : w.OpenOn f n) :
    (w.realm i).node n := by
  obtain ⟨x, hx, hn⟩ := opened
  obtain ⟨y, m, hy, hm, home⟩ := fileHome_eq_some_iff.1 home
  cases hx.symm.trans hy
  cases hn.symm.trans hm
  exact .inr home

theorem mkdir (closed : Closed (w.realm i) i w) (home : w.bindingHome dir = some i)
    (done : Action.mkdir dir name mode w = .ok b v) : Inside True (w.realm i) i w v := by
  obtain ⟨-, n, hn, -, made⟩ := Action.mkdir_ok done
  have hd : (w.realm i).node n := closed.bound (.inr home) hn
  refine (refl closed).makeName trivial (fun hu hx hb made => ?_) made
  obtain ⟨t, made', rfl⟩ := Action.makeDirectoryAt_ok made
  exact (hu.makeAt trivial hx hb (.inr home) hd made').addLink hd

theorem link (closed : Closed (w.realm i) i w) (homeOld : w.bindingHome old = some i)
    (home : w.bindingHome dir = some i) (done : Action.link old dir name w = .ok b v) :
    Inside True (w.realm i) i w v := by
  obtain ⟨-, target, n, -, ht, -, -, -, hn, -, -, made⟩ := Action.link_ok done
  have hd : (w.realm i).node n := closed.bound (.inr home) hn
  refine (refl closed).makeName trivial (fun hu hx hb made => ?_) made
  obtain ⟨m, hm, rfl⟩ := Action.linkAt_ok made
  have hm := hu.closed.bound (.inr homeOld) hm
  exact (((hu.touchWith hd hm).addLink hm).instantiate trivial hx hb (.inr home) hm).pin hb

theorem rename (closed : Closed (w.realm i) i w) (s : Sound w [])
    (homeA : w.bindingHome dirA = some i) (homeB : w.bindingHome dirB = some i)
    (done : Action.rename dirA nameA dirB nameB flags w = .ok () v) :
    Inside True (w.realm i) i w v := by
  obtain ⟨-, checked, nodeA, nodeB, a, source, hA, -, hB, kindB, -, ha, hsource, outcome⟩ :=
    Action.rename_ok done
  have insideA : (w.realm i).node nodeA := closed.bound (.inr homeA) hA
  have insideB : (w.realm i).node nodeB := closed.bound (.inr homeB) hB
  have inside : (w.realm i).binding a := (closed.child ha).1 (.inr homeA)
  have start : Inside True (w.realm i) i w w := refl closed
  rcases outcome with ⟨-, rfl⟩ | ⟨-, ⟨exchange, b, hb, done⟩ | ⟨move, done⟩⟩
  · exact start
  · obtain ⟨-, -, m, m', -, -, rfl⟩ := Action.exchangeNames_ok exchange done
    have insideT : (w.realm i).binding b := (closed.child hb).1 (.inr homeB)
    refine ((start.exchangeLinks insideA insideB).touchRenamed insideA inside insideB
      insideT).exchangeBindings trivial inside insideT fun d parent => ?_
    have same : SameTree w ((w.exchangeLinks nodeA m nodeB m').touchRenamed nodeA a nodeB b) :=
      .trans .exchangeLinks .touchRenamed
    rw [same.parentOf, same.parentOf, (s.forest.entry ha).2, (s.forest.entry hb).2] at parent
    rcases parent with parent | parent
    · cases parent
      exact .inr homeA
    · cases parent
      exact .inr homeB
  · have moved : ∀ {t b}, (w.realm i).binding b → Inside True (w.realm i) i w t →
        Inside True (w.realm i) i w (((t.touchRenamed nodeA a nodeB b).moveBinding a dirB
          nameB).settle [.letGo (.binding b)]) := fun insideT ht =>
      ((ht.touchRenamed insideA inside insideB insideT).moveBinding trivial inside
        (.inr homeB)).letGo_binding insideT
    obtain ⟨-, ⟨b, n, hb, hn, -, -, rfl⟩ | ⟨b, u, t, -, fresh, ht, -, -, rfl⟩⟩ :=
      s.moveName_cases hsource hB kindB checked move done
    · have insideT : (w.realm i).binding b := (closed.child hb).1 (.inr homeB)
      exact moved insideT (start.replaced insideA insideB insideT (closed.bound insideT hn))
    · obtain ⟨hu, insideT⟩ : Inside True (w.realm i) i w u ∧ (w.realm i).binding b := by
        obtain ⟨host, -, rfl, rfl⟩ := Action.newBinding_eq_ok.1 fresh
        exact ⟨start.pushBinding trivial, closed.newBinding (Nat.le_refl _)⟩
      refine moved insideT ?_
      rw [ht]
      split
      · exact hu.shiftLink insideA insideB
      · exact hu

theorem openUnnamed (closed : Closed (w.realm i) i w) (home : w.bindingHome dir = some i)
    {flags : OpenFlags} (done : Action.openUnnamed dir mode flags w = .ok f v) :
    Inside True (w.realm i) i w v := by
  obtain ⟨d, host, home', n, u, shown, hd, -, lives, -, rfl, made, outcome⟩ :=
    Action.openUnnamed_ok done
  have insideD : (w.realm i).node d := closed.bound (.inr home) hd
  have start : Inside True (w.realm i) i w w := refl closed
  cases start.home_of_livesIn insideD lives
  have insideB : (w.realm i).binding w.bindings.nextId := closed.newBinding (Nat.le_refl _)
  have made' : Inside True (w.realm i) i w
      { w with host, bindings := w.bindings.push { name := "", parent := some dir } } :=
    start.pushBinding trivial
  have begun : Inside True (w.realm i) i w (w.withUnnamed host dir flags) :=
    made'.pushFile insideB fun _ h => nomatch h
  obtain ⟨hu, insideN, bindings, files⟩ := begun.newNode trivial made
  have hx : u.bindings.get? w.bindings.nextId = some { name := "", parent := some dir } := by
    rw [bindings]
    exact Table.get?_push_self
  have hf : u.files.get? w.files.nextId = some
      { binding := w.bindings.nextId, node := none, flags := flags.union .temporary } := by
    rw [files]
    exact Table.get?_push_self
  have opened : Inside True (w.realm i) i w (u.openedUnnamed _ _ n shown) :=
    hu.openedUnnamed trivial hx hf rfl insideB (closed.newFile (Nat.le_refl _)) insideN
  rcases outcome with ⟨-, rfl⟩ | ⟨-, rfl⟩
  · exact opened
  · exact opened.modifyNode insideN fun _ => rfl

end Inside

/-- An operation that succeeds stays inside of the instance that its arguments belong to. -/
theorem Operation.inside {w v : World} {i : InstanceId} {u : Unit} (h : Homed w) (s : Sound w [])
    (op : Operation) (within : op.Within w i) (done : op.act w = .ok u v) :
    Inside op.grows (w.realm i) i w v := by
  have closed := h.closed s i
  have start : ∀ {p}, Inside p (w.realm i) i w w := .refl closed
  have binding : ∀ {b}, b ∈ op.bindings → (w.realm i).binding b := fun mem => .inr (within.1 _ mem)
  have file : ∀ {f}, f ∈ op.files → (w.realm i).file f := fun mem => .inr (within.2 _ mem)
  have opened : ∀ {f n}, f ∈ op.files → w.OpenOn f n → (w.realm i).node n := fun mem =>
    Inside.openOn_realm (within.2 _ mem)
  cases op with
  | create dir name mode =>
      obtain ⟨b, done⟩ := Action.exists_of_discard_ok done
      obtain ⟨-, n, hn, -, made⟩ := Action.create_ok done
      have hdir := binding List.mem_cons_self
      exact start.makeName trivial (fun hu hx hb made =>
        hu.makeAt trivial hx hb hdir (closed.bound hdir hn) made) made
  | mkdir dir name mode =>
      obtain ⟨b, done⟩ := Action.exists_of_discard_ok done
      exact Inside.mkdir closed (within.1 dir List.mem_cons_self) done
  | mknod dir name mode device =>
      obtain ⟨b, done⟩ := Action.exists_of_discard_ok done
      obtain ⟨-, n, _, _, hn, -, -, made⟩ := Action.mknod_ok done
      have hdir := binding List.mem_cons_self
      exact start.makeName trivial (fun hu hx hb made =>
        hu.makeAt trivial hx hb hdir (closed.bound hdir hn) made) made
  | symlink dir name target =>
      obtain ⟨b, done⟩ := Action.exists_of_discard_ok done
      obtain ⟨-, n, hn, -, made⟩ := Action.symlink_ok done
      have hdir := binding List.mem_cons_self
      exact start.makeName trivial (fun hu hx hb made =>
        hu.makeSymlinkAt trivial hx hb hdir (closed.bound hdir hn) made) made
  | openUnnamed dir mode flags =>
      obtain ⟨f, done⟩ := Action.exists_of_discard_ok done
      exact Inside.openUnnamed closed (within.1 dir List.mem_cons_self) done
  | link old dir name =>
      obtain ⟨b, done⟩ := Action.exists_of_discard_ok done
      exact Inside.link closed (within.1 old List.mem_cons_self)
        (within.1 dir (List.mem_cons_of_mem _ List.mem_cons_self)) done
  | unlink dir name =>
      obtain ⟨d, b, n, hd, -, hb, hn, -, rfl⟩ := Action.unlink_ok done
      have hdir := binding List.mem_cons_self
      have inside := (closed.child hb).1 hdir
      exact (start.unlinked (closed.bound hdir hd) inside (closed.bound inside hn)).letGo_binding
        inside
  | rmdir dir name =>
      obtain ⟨d, b, n, hd, -, hb, hn, -, -, rfl⟩ := Action.rmdir_ok done
      have hdir := binding List.mem_cons_self
      have inside := (closed.child hb).1 hdir
      have insideD := closed.bound hdir hd
      have insideN := closed.bound inside hn
      exact (((start.dropLink insideN).unlinked insideD inside insideN).dropLink
        insideD).letGo_binding inside
  | rename dirA nameA dirB nameB flags =>
      exact Inside.rename closed s (within.1 dirA List.mem_cons_self)
        (within.1 dirB (List.mem_cons_of_mem _ List.mem_cons_self)) done
  | openFile b flags =>
      obtain ⟨f, done⟩ := Action.exists_of_discard_ok done
      obtain ⟨n, v', hn, same | ⟨-, cut⟩, -, rfl⟩ := Action.openFile_ok done
      · rw [same]
        exact start.pushFile (binding List.mem_cons_self) fun m hm => hm ▸ hn
      · have insideB := binding List.mem_cons_self
        obtain ⟨node, -, rfl⟩ := Action.resizeContent_ok cut
        have insideN := closed.bound insideB hn
        exact ((start.resized insideN).touch insideN).pushFile insideB fun m hm => hm ▸ hn
  | readdir dir =>
      obtain ⟨entries, done⟩ := Action.exists_of_discard_ok done
      obtain ⟨n, hn, rfl⟩ := Action.readdir_ok done
      exact start.markAccessed (closed.bound (binding List.mem_cons_self) hn)
  | read f len =>
      obtain ⟨bytes, done⟩ := Action.exists_of_discard_ok done
      obtain ⟨n, position, on, rfl⟩ := Action.read_ok done
      exact (start.markAccessed (opened List.mem_cons_self on)).moveTo (file List.mem_cons_self)
  | readAt f offset len =>
      obtain ⟨bytes, done⟩ := Action.exists_of_discard_ok done
      obtain ⟨n, on, rfl⟩ := Action.readAt_ok done
      exact start.markAccessed (opened List.mem_cons_self on)
  | write f src =>
      obtain ⟨written, done⟩ := Action.exists_of_discard_ok done
      obtain ⟨n, offset, v', position, on, stored, rfl⟩ := Action.write_ok done
      have insideN := opened List.mem_cons_self on
      exact ((start.storeBytes insideN stored).1.touch insideN).moveTo (file List.mem_cons_self)
  | writeAt f offset src =>
      obtain ⟨written, done⟩ := Action.exists_of_discard_ok done
      obtain ⟨n, v', on, stored, rfl⟩ := Action.writeAt_ok done
      have insideN := opened List.mem_cons_self on
      exact (start.storeBytes insideN stored).1.touch insideN
  | seek f position =>
      rw [← Action.seek_eq_ok.1 done]
      exact start.moveTo (file List.mem_cons_self)
  | setLength f size =>
      obtain ⟨n, node, on, hn, rfl⟩ := Action.setLength_ok done
      have insideN := opened List.mem_cons_self on
      exact (start.resized insideN).touch insideN

/-! ## What the arguments have in common -/

section

variable {w v : World} {i : InstanceId} {n : NodeId} {b dir : BindingId} {f : FileId}

theorem World.nodeHome_of_livesIn (lives : w.LivesIn n i) : w.nodeHome n = some i := by
  obtain ⟨x, hx, home, -⟩ := lives
  exact nodeHome_eq_some_iff.2 ⟨x, hx, home⟩

theorem World.bindingHome_of_livesIn (hn : w.nodeOf b = some n) (lives : w.LivesIn n i) :
    w.bindingHome b = some i :=
  (bindingHome_of_nodeOf hn).trans (nodeHome_of_livesIn lives)

theorem Sound.exists_fileHome (s : Sound w []) (opened : w.OpenOn f n) :
    ∃ i, w.fileHome f = some i := by
  obtain ⟨x, hx, hn⟩ := opened
  have owner : w.Owner (.node n) (.file f) := ⟨x, hx, hn⟩
  obtain ⟨node, found⟩ := Table.has_iff.1 (s.tended.there ⟨_, owner⟩)
  exact ⟨node.home, fileHome_eq_some_iff.2 ⟨x, n, hx, hn, nodeHome_of_get? found⟩⟩

/-- What makes a node in a directory finds the instance of the directory. -/
theorem Action.livesIn_of_makeName {name : String} {make : NodeId → BindingId → Action Unit}
    (lives : ∀ {b : BindingId} {u : World}, make n b u = .ok () v → ∃ i, u.LivesIn n i)
    (done : Action.makeName dir n name make w = .ok b v) : ∃ i, w.LivesIn n i := by
  obtain ⟨-, u, fresh, made⟩ := Action.makeName_ok done
  obtain ⟨host, -, rfl, rfl⟩ := Action.newBinding_eq_ok.1 fresh
  obtain ⟨i, there⟩ := lives made
  exact ⟨i, there⟩

namespace Operation

theorem within_binding {op : Operation} (bindings : op.bindings = [b]) (files : op.files = [])
    (home : w.bindingHome b = some i) : op.Within w i := by
  unfold Within
  rw [bindings, files]
  exact ⟨List.forall_mem_singleton.2 home, List.forall_mem_nil _⟩

theorem within_file {op : Operation} (bindings : op.bindings = []) (files : op.files = [f])
    (home : w.fileHome f = some i) : op.Within w i := by
  unfold Within
  rw [bindings, files]
  exact ⟨List.forall_mem_nil _, List.forall_mem_singleton.2 home⟩

theorem within_pair {op : Operation} {c : BindingId} (bindings : op.bindings = [b, c])
    (files : op.files = []) (homeB : w.bindingHome b = some i) (homeC : w.bindingHome c = some i) :
    op.Within w i := by
  unfold Within
  rw [bindings, files]
  exact ⟨List.forall_mem_cons.2 ⟨homeB, List.forall_mem_singleton.2 homeC⟩, List.forall_mem_nil _⟩

/-- An operation that succeeds is given what belongs to one instance, and the instance is
there if something is made. Only to move the position of a file asks for nothing. -/
theorem exists_within {u : Unit} (s : Sound w []) (op : Operation) (done : op.act w = .ok u v) :
    (∃ f position, op = seek f position) ∨
      ∃ i, op.Within w i ∧ (op.grows → w.instances.has i = true) := by
  have home : ∀ {op : Operation} {b n}, op.bindings = [b] → op.files = [] → w.nodeOf b = some n →
      ¬ op.grows → ∃ i, op.Within w i ∧ (op.grows → w.instances.has i = true) := by
    intro op b n bindings files hn still
    obtain ⟨i, home⟩ := s.exists_bindingHome hn
    exact ⟨i, within_binding bindings files home, fun growing => absurd growing still⟩
  have fileHome : ∀ {op : Operation} {f n}, op.bindings = [] → op.files = [f] → w.OpenOn f n →
      ¬ op.grows → ∃ i, op.Within w i ∧ (op.grows → w.instances.has i = true) := by
    intro op f n bindings files opened still
    obtain ⟨i, home⟩ := s.exists_fileHome opened
    exact ⟨i, within_file bindings files home, fun growing => absurd growing still⟩
  have making : ∀ {op : Operation} {dir n}, op.bindings = [dir] → op.files = [] →
      w.nodeOf dir = some n → (∃ i, w.LivesIn n i) →
        ∃ i, op.Within w i ∧ (op.grows → w.instances.has i = true) := by
    rintro op dir n bindings files hn ⟨i, lives⟩
    refine ⟨i, within_binding bindings files (bindingHome_of_livesIn hn lives), fun _ => ?_⟩
    obtain ⟨_, -, -, there⟩ := lives
    exact there
  have made : ∀ {n mode device b} {v' t : World}, Action.makeAt n b mode device v' = .ok () t →
      ∃ i, v'.LivesIn n i := by
    intro n mode device b v' t made
    obtain ⟨i, _, _, lives, -⟩ := Action.makeAt_ok made
    exact ⟨i, lives⟩
  cases op with
  | create dir name mode =>
      obtain ⟨b, done⟩ := Action.exists_of_discard_ok done
      obtain ⟨-, n, hn, -, done⟩ := Action.create_ok done
      exact .inr (making rfl rfl hn (Action.livesIn_of_makeName made done))
  | mkdir dir name mode =>
      obtain ⟨b, done⟩ := Action.exists_of_discard_ok done
      obtain ⟨-, n, hn, -, done⟩ := Action.mkdir_ok done
      refine .inr (making rfl rfl hn (Action.livesIn_of_makeName (fun made' => ?_) done))
      obtain ⟨t, made', -⟩ := Action.makeDirectoryAt_ok made'
      exact made made'
  | mknod dir name mode device =>
      obtain ⟨b, done⟩ := Action.exists_of_discard_ok done
      obtain ⟨-, n, _, _, hn, -, -, done⟩ := Action.mknod_ok done
      exact .inr (making rfl rfl hn (Action.livesIn_of_makeName made done))
  | symlink dir name target =>
      obtain ⟨b, done⟩ := Action.exists_of_discard_ok done
      obtain ⟨-, n, hn, -, done⟩ := Action.symlink_ok done
      refine .inr (making rfl rfl hn (Action.livesIn_of_makeName (fun made' => ?_) done))
      obtain ⟨i, _, _, _, lives, -⟩ := Action.makeSymlinkAt_ok made'
      exact ⟨i, lives⟩
  | openUnnamed dir mode flags =>
      obtain ⟨f, done⟩ := Action.exists_of_discard_ok done
      obtain ⟨d, _, i, _, _, _, hd, -, lives, -⟩ := Action.openUnnamed_ok done
      exact .inr (making rfl rfl hd ⟨i, lives⟩)
  | link old dir name =>
      obtain ⟨b, done⟩ := Action.exists_of_discard_ok done
      obtain ⟨-, target, n, -, ht, -, -, -, hn, -, ⟨i, there, here⟩, -⟩ := Action.link_ok done
      obtain ⟨_, -, -, mounted⟩ := id here
      exact .inr ⟨i, within_pair rfl rfl (bindingHome_of_livesIn ht there)
        (bindingHome_of_livesIn hn here), fun _ => mounted⟩
  | unlink dir name =>
      obtain ⟨d, _, _, hd, -⟩ := Action.unlink_ok done
      exact .inr (home rfl rfl hd id)
  | rmdir dir name =>
      obtain ⟨d, _, _, hd, -⟩ := Action.rmdir_ok done
      exact .inr (home rfl rfl hd id)
  | rename dirA nameA dirB nameB flags =>
      obtain ⟨-, -, nodeA, nodeB, _, _, hA, -, hB, -, ⟨i, livesA, livesB⟩, -⟩ :=
        Action.rename_ok done
      obtain ⟨_, -, -, mounted⟩ := id livesA
      exact .inr ⟨i, within_pair rfl rfl (bindingHome_of_livesIn hA livesA)
        (bindingHome_of_livesIn hB livesB), fun _ => mounted⟩
  | openFile b flags =>
      obtain ⟨f, done⟩ := Action.exists_of_discard_ok done
      obtain ⟨n, _, hn, -⟩ := Action.openFile_ok done
      exact .inr (home rfl rfl hn id)
  | readdir dir =>
      obtain ⟨entries, done⟩ := Action.exists_of_discard_ok done
      obtain ⟨n, hn, -⟩ := Action.readdir_ok done
      exact .inr (home rfl rfl hn id)
  | read f len =>
      obtain ⟨bytes, done⟩ := Action.exists_of_discard_ok done
      obtain ⟨n, _, opened, -⟩ := Action.read_ok done
      exact .inr (fileHome rfl rfl opened id)
  | readAt f offset len =>
      obtain ⟨bytes, done⟩ := Action.exists_of_discard_ok done
      obtain ⟨n, opened, -⟩ := Action.readAt_ok done
      exact .inr (fileHome rfl rfl opened id)
  | write f src =>
      obtain ⟨written, done⟩ := Action.exists_of_discard_ok done
      obtain ⟨n, _, _, _, opened, -⟩ := Action.write_ok done
      exact .inr (fileHome rfl rfl opened id)
  | writeAt f offset src =>
      obtain ⟨written, done⟩ := Action.exists_of_discard_ok done
      obtain ⟨n, _, opened, -⟩ := Action.writeAt_ok done
      exact .inr (fileHome rfl rfl opened id)
  | seek f position => exact .inl ⟨f, position, rfl⟩
  | setLength f size =>
      obtain ⟨n, _, opened, -⟩ := Action.setLength_ok done
      exact .inr (fileHome rfl rfl opened id)

end Operation

end

end Memfs
