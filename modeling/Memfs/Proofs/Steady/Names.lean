import Memfs.Proofs.Steady.Settling

/-!
# Steady counters: the operations on names

Each operation that succeeds is followed through its changes as for `Exact`, but the
links due are compared at the end for the directories in place alone. No room in the
counters is asked for, and names may come into directories that are in no tree, unless a
directory was removed that is to be left alone.

The directories that an operation removes itself are added to the list.
-/

namespace Memfs

open World

variable {w w' v : World} {rs more : List Removed} {r : Removed} {most : NodeId → Nat}
  {a b dir old dirA dirB : BindingId} {n m d nodeA nodeB source : NodeId}
  {name nameA nameB : String} {mode : Mode} {flags : RenameFlags}

namespace Steady

/-- The node of a directory that is asked for a name is not that of one left alone. -/
theorem node_apart (h : Steady w most rs) (hd : w.nodeOf dir = some d)
    (apart : ∀ r ∈ rs, r.alone → r.binding ≠ dir) : ∀ r ∈ rs, r.alone → r.node ≠ d := by
  rintro r mem alone rfl
  exact apart r mem alone ((h.gone r mem).only dir hd).symm

/-- What is no directory was not removed as one. -/
theorem file_apart (h : Steady w most rs) (s : Sound w todo) (hn : w.nodeOf b = some n)
    (file : w.isDirectory n = false) : ∀ r ∈ rs, r.node ≠ n := by
  rintro r mem rfl
  have there : w.nodes.has r.node = true := s.tended.there (owned_of_nodeOf hn)
  obtain ⟨x, hx⟩ := Table.has_iff.1 there
  have isDir := ((h.gone r mem).spent x hx).1
  unfold World.isDirectory at file
  rw [hx] at file
  exact absurd (file.symm.trans isDir) Bool.false_ne_true

theorem letGo_binding (h : Steady w w.due rs) (s : Sound w [.letGo (.binding b)]) :
    Steady (w.settle [.letGo (.binding b)]) (w.settle [.letGo (.binding b)]).due rs :=
  h.settleAll s fun task mem => by
    cases List.mem_singleton.1 mem
    trivial

end Steady

/-! ## Making names -/

/-- A fresh binding waits for its node and for its place in a directory that may be asked
for a name. -/
structure Ready (w : World) (b dir : BindingId) (d : NodeId) (name : String) (rs : List Removed) :
    Prop where
  steady : Steady w w.due rs
  sound : Sound w [.letGo (.binding b)]
  vacant : Vacant w b dir name
  node : w.nodeOf dir = some d
  unpinned : ∀ x, w.bindings.get? b = some x → x.pins = 0
  apart : ∀ r ∈ rs, r.binding ≠ b ∧ (r.alone → r.binding ≠ dir)

namespace Ready

/-- Nodes have changed since, but no binding. -/
theorem place (h : Ready w b dir d name rs) {todo : List Task} (hv : Steady v most rs)
    (s : Sound v todo) (same : v.bindings = w.bindings)
    (fits : v.isDirectory n = true → ∀ x, v.nodes.get? n = some x → x.links.toNat ≤ most n)
    (apart : ∀ r ∈ rs, r.node ≠ n) :
    Steady ((v.instantiate b n).pin b) most rs ∧ ∀ m, ((v.instantiate b n).pin b).due m
      = v.due m + ((if m = n then if v.isDirectory n then 2 else 1 else 0)
        + if m = d then if v.isDirectory n then 1 else 0 else 0) := by
  refine hv.place s.forest (h.vacant.of_bindings same) ?_ (fun x hx => h.unpinned x (same ▸ hx))
    fits fun r mem => ⟨(h.apart r mem).1, apart r mem, (h.apart r mem).2⟩
  have hd := h.node
  unfold World.nodeOf at hd ⊢
  rwa [same]

/-- A new directory has two links, and gives one to the directory that it is in. -/
theorem makeAt {device : DeviceNumber} (h : Ready w b dir d name rs)
    (made : Action.makeAt d b mode device w = .ok () w') : ∃ n,
      Steady w' (fun m => w.due m + if m = n then if mode.isDirectory then 2 else 0 else 0) rs ∧
      ∀ m, w'.due m = w.due m + ((if m = n then if mode.isDirectory then 2 else 1 else 0)
        + if m = d then if mode.isDirectory then 1 else 0 else 0) := by
  obtain ⟨home, n, v, -, node, rfl⟩ := Action.makeAt_ok made
  obtain ⟨hv, fresh⟩ := h.steady.newNode h.sound node
  obtain ⟨sv, -, -, same⟩ := h.sound.newNode node
  have kind := Action.isDirectory_of_newNode node
  have shape : SameShape w v := .newNode h.sound node
  have hv : Steady v
      (fun m => w.due m + if m = n then if mode.isDirectory then 2 else 0 else 0) rs :=
    hv.mono fun _ _ => Nat.le_add_right ..
  have fits : v.isDirectory n = true → ∀ x, v.nodes.get? n = some x →
      x.links.toNat ≤ w.due n + if n = n then if mode.isDirectory then 2 else 0 else 0 := by
    intro isDir x hx
    rw [if_pos rfl, ← kind, isDir, if_pos rfl]
    exact (Action.links_of_newNode node hx).trans (Nat.le_add_left ..)
  obtain ⟨placed, due⟩ := h.place hv sv same fits fresh
  rw [kind] at due
  have touched : SameShape ((v.instantiate b n).pin b) (((v.instantiate b n).pin b).touch d) :=
    .touch
  refine ⟨n, placed.touch, fun m => ?_⟩
  rw [touched.due, due, shape.due]

theorem makeSymlinkAt {target : String} (h : Ready w b dir d name rs)
    (made : Action.makeSymlinkAt d b target w = .ok () w') : Steady w' w'.due rs := by
  obtain ⟨home, n, v, v', -, node, stored, rfl⟩ := Action.makeSymlinkAt_ok made
  obtain ⟨hv, fresh⟩ := h.steady.newNode h.sound node
  obtain ⟨sv, -, -, same⟩ := h.sound.newNode node
  obtain ⟨kept, -⟩ := Action.storeTarget_frame stored
  have file : v'.isDirectory n = false :=
    (Action.isDirectory_of_storeTarget stored).trans (Action.isDirectory_of_newNode node)
  have shape : SameShape w v' := (SameShape.newNode h.sound node).trans (.storeTarget stored)
  obtain ⟨placed, due⟩ := h.place (hv.storeTarget stored) (sv.storeTarget stored) (kept.trans same)
    (fun isDir => absurd (file.symm.trans isDir) Bool.false_ne_true) fresh
  have touched : SameShape ((v'.instantiate b n).pin b) (((v'.instantiate b n).pin b).touch d) :=
    .touch
  refine placed.touch.mono fun m _ => ?_
  rw [touched.due, due, shape.due]
  exact Nat.le_add_right ..

theorem linkAt (h : Ready w b dir d name rs) (hold : w.nodeOf old = some n)
    (file : w.isDirectory n = false) (made : Action.linkAt old d b w = .ok () w') :
    Steady w' w'.due rs := by
  obtain ⟨m, hm, rfl⟩ := Action.linkAt_ok made
  cases hold.symm.trans hm
  have tree : SameTree w ((w.touchWith d n).addLink n) := SameTree.touchWith.trans .addLink
  have shape : SameShape w ((w.touchWith d n).addLink n) := .of_tree tree rfl
  have other := h.steady.file_apart h.sound hold file
  obtain ⟨placed, due⟩ := h.place (h.steady.touchWith.addLink fun r mem _ => other r mem)
    h.sound.touchWith.addLink rfl
    (fun isDir => absurd ((file.symm.trans (tree.directory hold).symm).trans isDir)
      Bool.false_ne_true) other
  refine placed.mono fun m _ => ?_
  rw [due, shape.due, tree.directory hold, file]
  simp

end Ready

namespace Steady

/-- The place for a name is made, and then what comes to it. -/
theorem makeName (h : Steady w w.due rs) (s : Sound w []) {make : NodeId → BindingId → Action Unit}
    (hd : w.nodeOf dir = some d) (hdir : w.isDirectory d = true) (checked : checkName name = .ok ())
    (apart : ∀ r ∈ rs, r.alone → r.binding ≠ dir)
    (done : Action.makeName dir d name make w = .ok b w')
    (made : ∀ v, Action.newBinding dir name w = .ok b v → Ready v b dir d name rs →
      make d b v = .ok () w' → Steady w' w'.due rs) : Steady w' w'.due rs := by
  obtain ⟨free, v, hb, done⟩ := Action.makeName_ok done
  obtain ⟨sv, vacant⟩ := s.newBinding hd hdir checked free hb
  refine made v hb ?_ done
  obtain ⟨host, -, rfl, rfl⟩ := Action.newBinding_eq_ok.1 hb
  exact {
    steady := (h.pushBinding s).of_shape (.pushBinding s)
    sound := sv
    vacant := vacant
    node := Forest.nodeOf_pushBinding.trans hd
    unpinned := fun x hx => by
      simp only [Table.get?_push_self] at hx
      cases hx
      rfl
    apart := fun r mem => ⟨Nat.ne_of_lt (h.gone r mem).known.1, apart r mem⟩ }

/-- What is made is no directory. -/
theorem makeFile (h : Steady w w.due rs) (s : Sound w []) {device : DeviceNumber}
    (hd : w.nodeOf dir = some d) (hdir : w.isDirectory d = true) (checked : checkName name = .ok ())
    (apart : ∀ r ∈ rs, r.alone → r.binding ≠ dir) (file : mode.isDirectory = false)
    (done : Action.makeName dir d name (Action.makeAt · · mode device) w = .ok b w') :
    Steady w' w'.due rs := by
  refine h.makeName s hd hdir checked apart done fun v _ ready made => ?_
  obtain ⟨n, steady, due⟩ := ready.makeAt made
  refine steady.mono fun m _ => ?_
  simp [due, file]

theorem create (h : Steady w w.due rs) (s : Sound w [])
    (apart : ∀ r ∈ rs, r.alone → r.binding ≠ dir)
    (done : Action.create dir name mode w = .ok b w') : Steady w' w'.due rs := by
  obtain ⟨checked, d, hd, hdir, done⟩ := Action.create_ok done
  exact h.makeFile s hd hdir checked apart Mode.isDirectory_withType_regular done

theorem mknod (h : Steady w w.due rs) (s : Sound w [])
    (apart : ∀ r ∈ rs, r.alone → r.binding ≠ dir) {device : DeviceNumber}
    (done : Action.mknod dir name mode device w = .ok b w') : Steady w' w'.due rs := by
  obtain ⟨checked, d, full, given, hd, hdir, kind, done⟩ := Action.mknod_ok done
  refine h.makeFile s hd hdir checked apart ?_ done
  rcases kind with ⟨-, rfl, -⟩ | ⟨special, rfl, -⟩
  · exact Mode.isDirectory_withType_regular
  · exact Mode.isDirectory_of_special special

theorem mkdir (h : Steady w w.due rs) (s : Sound w [])
    (apart : ∀ r ∈ rs, r.alone → r.binding ≠ dir)
    (done : Action.mkdir dir name mode w = .ok b w') : Steady w' w'.due rs := by
  obtain ⟨checked, d, hd, hdir, done⟩ := Action.mkdir_ok done
  refine h.makeName s hd hdir checked apart done fun v _ ready made => ?_
  obtain ⟨u, node, rfl⟩ := Action.makeDirectoryAt_ok made
  obtain ⟨n, steady, due⟩ := ready.makeAt node
  have linked : SameShape u (u.addLink d) := .addLink
  have other := ready.steady.node_apart ready.node fun r mem => (ready.apart r mem).2
  refine (steady.addLink other).mono fun m _ => ?_
  simp [linked.due, due, Mode.isDirectory_withType_directory, Nat.add_assoc]

theorem symlink (h : Steady w w.due rs) (s : Sound w [])
    (apart : ∀ r ∈ rs, r.alone → r.binding ≠ dir) {target : String}
    (done : Action.symlink dir name target w = .ok b w') : Steady w' w'.due rs := by
  obtain ⟨checked, d, hd, hdir, done⟩ := Action.symlink_ok done
  exact h.makeName s hd hdir checked apart done fun _ _ ready made => ready.makeSymlinkAt made

theorem link (h : Steady w w.due rs) (s : Sound w [])
    (apart : ∀ r ∈ rs, r.alone → r.binding ≠ dir)
    (done : Action.link old dir name w = .ok b w') : Steady w' w'.due rs := by
  obtain ⟨checked, target, d, node, hold, file, -, -, hd, hdir, -, done⟩ := Action.link_ok done
  refine h.makeName s hd hdir checked apart done fun v fresh ready made => ?_
  obtain ⟨host, -, -, rfl⟩ := Action.newBinding_eq_ok.1 fresh
  exact ready.linkAt (Forest.nodeOf_pushBinding.trans hold) file made

/-! ## Removing names -/

/-- A binding is taken out, with a link of its node. If that was the last link of an empty
directory, the directory is gone. -/
theorem unlinked (h : Steady w most rs) (s : Sound w todo) (hb : w.child? dir name = some b)
    (hn : w.nodeOf b = some n) (gone : ∀ r ∈ more, r.binding = b ∧ r.node = n ∧
      w.isDirectory n = true ∧ (∀ c, ¬ w.Entered b c) ∧ most n ≤ 1) :
    Steady (w.unlinked d b n) (fun m => most m - if m = n then 1 else 0) (more ++ rs) ∧
      ∀ m, (w.unlinked d b n).due m + (w.own b m + w.given b dir m) = w.due m := by
  have tree : SameTree w ((w.touchWith d n).dropLink n) := SameTree.touchWith.trans .dropLink
  have shape : SameShape w ((w.touchWith d n).dropLink n) := SameShape.touchWith.trans .dropLink
  have lowered := h.touchWith (n := d) (m := n) |>.dropLink (n := n)
  have entry := tree.child?.trans hb
  obtain ⟨out, due⟩ := lowered.takeOut (s.forest.congr tree) entry
  refine ⟨out.bury fun r mem => ?_, fun m => ?_⟩
  · obtain ⟨rfl, rfl, isDir, empty, last⟩ := gone r mem
    refine lowered.gone_of_takeOut (s.touchWith.dropLink) entry (tree.nodeOf.trans hn)
      ((tree.directory hn).trans isDir) (fun c inside => empty c ((shape.entered _ c).1 inside)) ?_
    rw [if_pos rfl]
    exact Nat.sub_eq_zero_of_le last
  · rw [← shape.due, ← shape.own (.inl (placed_of_entered ⟨name, hb⟩)), ← shape.given ⟨name, hb⟩]
    exact due m

theorem unlink (h : Steady w w.due rs) (s : Sound w [])
    (done : Action.unlink dir name w = .ok () w') : Steady w' w'.due rs := by
  obtain ⟨d, b, n, hd, -, hb, hn, file, rfl⟩ := Action.unlink_ok done
  obtain ⟨out, due⟩ := h.unlinked (d := d) s hb hn (List.forall_mem_nil _)
  refine letGo_binding (out.mono fun m _ => ?_) (s.unlinked hb)
  have due := due m
  have notDir : w.bindsDirectory b = false := (bindsDirectory_of_nodeOf hn).trans file
  rw [own_of_nodeOf hn, given_of_nodeOf hd, file, notDir] at due
  simp only [Bool.false_eq_true, if_false, ite_self] at due
  split
  · next e =>
      rw [if_pos e] at due
      omega
  · next e =>
      rw [if_neg e] at due
      omega

/-- Nothing is due to an empty directory but the two links of its own. -/
theorem due_of_empty (s : Sound w todo) (entered : w.Entered dir b) (hn : w.nodeOf b = some n)
    (isDir : w.isDirectory n = true) (empty : ∀ c, ¬ w.Entered b c) : w.due n = 2 := by
  rw [due_directory s.forest (placed_of_entered entered) hn isDir]
  have none : w.directoriesIn b = [] :=
    List.eq_nil_iff_forall_not_mem.2 fun c mem => empty c (mem_directoriesIn.1 mem).1
  rw [none, List.length_nil]

/-- The directory that is removed has only the two links of its own. -/
theorem rmdir (h : Steady w w.due rs) (s : Sound w [])
    (gone : ∀ r ∈ more, w.child? dir name = some r.binding ∧ w.nodeOf r.binding = some r.node)
    (done : Action.rmdir dir name w = .ok () w') : Steady w' w'.due (more ++ rs) := by
  obtain ⟨d, b, n, hd, -, hb, hn, isDir, leaf, rfl⟩ := Action.rmdir_ok done
  have tree : SameTree w (w.dropLink n) := .dropLink
  have shape : SameShape w (w.dropLink n) := .dropLink
  have entered : w.Entered dir b := ⟨name, hb⟩
  have empty : ∀ c, ¬ w.Entered b c := fun c => not_entered_of_hasChildren leaf
  have two := due_of_empty s entered hn isDir empty
  have entry := tree.child?.trans hb
  have lowered := h.dropLink (n := n)
  have spent : ∀ r ∈ more, r.binding = b ∧ r.node = n ∧ (w.dropLink n).isDirectory n = true ∧
      (∀ c, ¬ (w.dropLink n).Entered b c) ∧ w.due n - (if n = n then 1 else 0) ≤ 1 := by
    intro r mem
    obtain ⟨hb₁, hn₁⟩ := gone r mem
    cases hb.symm.trans hb₁
    refine ⟨rfl, Option.some.inj (hn₁.symm.trans hn), (tree.directory hn).trans isDir,
      fun c inside => empty c ((shape.entered _ c).1 inside), ?_⟩
    rw [two, if_pos rfl]
  obtain ⟨out, due⟩ := lowered.unlinked (d := d) s.dropLink entry (tree.nodeOf.trans hn) spent
  have last := out.dropLink (n := d)
  have s' : Sound (((w.dropLink n).unlinked d b n).dropLink d) [.letGo (.binding b)] :=
    (s.dropLink.unlinked entry).dropLink
  have lowered : SameShape ((w.dropLink n).unlinked d b n)
      (((w.dropLink n).unlinked d b n).dropLink d) := .dropLink
  refine letGo_binding (last.mono fun m _ => ?_) s'
  have due := due m
  rw [shape.own (.inl (placed_of_entered entered)), shape.given entered, own_of_nodeOf hn,
    given_of_nodeOf hd, bindsDirectory_of_nodeOf hn, isDir, shape.due] at due
  rw [lowered.due]
  simp only [if_true] at due
  by_cases e : m = n
  · rw [if_pos e] at due
    rw [if_pos e]
    omega
  · rw [if_neg e] at due
    rw [if_neg e]
    omega

end Steady

end Memfs
