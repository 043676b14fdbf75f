import Memfs.Proofs.Configured
import Memfs.Proofs.Crowding
import Memfs.Proofs.Links.Mounts

/-!
# Counts of links and pins

What the counters show, told from the trees alone: a directory has two links and one for
each directory in it, another node one for each of its names, and a node that has lost
its place has none. A binding is pinned once while it is in a tree, and no counter was
ever to be lowered below nothing.

This is so as long as names come into directories that are in a tree. A directory that
was removed may still be held, and a name made there would count for its node although
no path leads to it.

It is so, too, as long as there are fewer bindings than 2³² − 1. A counter of links has 32
bits, and a root can have a link from every other binding besides its own two. So with
2³² − 1 bindings it can come round to zero, which is what happens to a crowded root.
-/

namespace Memfs

open World

variable {w : World} {b c d : BindingId} {n : NodeId}

namespace World

/-! ## What is in a tree -/

theorem mem_below : c ∈ w.below d ↔ w.Entered d c := by
  unfold below Entered
  simp only [child?_eq_some_iff]
  cases hx : w.bindings.get? d with
  | none => simp
  | some x =>
      simp only [Option.map_some, Option.getD_some, Binding.mem_below]
      constructor
      · rintro ⟨name, h⟩
        exact ⟨name, x, rfl, h⟩
      · rintro ⟨name, _, ⟨⟩, h⟩
        exact ⟨name, h⟩

/-- Two names in a directory lead to two bindings, for each of them bears its name. -/
theorem nodup_below (f : Forest w) : (w.below d).Nodup := by
  unfold below
  cases hx : w.bindings.get? d with
  | none => exact List.nodup_nil
  | some x =>
      show (x.children.toList.map (·.2)).Nodup
      rw [List.nodup_iff_pairwise_ne, List.pairwise_map]
      refine x.children.distinct_keys_toList.imp_of_mem fun {p q} hp hq apart same => apart ?_
      have named : ∀ {entry : String × BindingId}, entry ∈ x.children.toList →
          w.nameOf entry.2 = entry.1 := fun {entry} mem =>
        (f.entry ((child?_of_get? hx).trans
          (Std.TreeMap.mem_toList_iff_getElem?_eq_some.1 mem))).1
      rw [← named hp, ← named hq, same]
      exact Std.ReflCmp.compare_self

theorem InTree.placed {i : InstanceId} (h : w.InTree i b) : w.Placed b := by
  obtain ⟨inst, -, hi, -⟩ := id h
  rcases h.cases_top hi with root | ⟨d, -, entered⟩
  · exact .inl ⟨i, inst, hi, root⟩
  · exact .inr ⟨d, entered⟩

theorem inTree_iff_placed (f : Forest w) (u : w.Upheld []) : (∃ i, w.InTree i b) ↔ w.Placed b := by
  constructor
  · rintro ⟨i, inside⟩
    exact inside.placed
  · induction b using f.grounded.induction with
    | _ b ih =>
        rintro (⟨i, inst, hi, hroot⟩ | ⟨d, name, entry⟩)
        · exact ⟨i, inst, b, hi, hroot, .refl⟩
        · have placed : w.Placed d := (u.entered ⟨name, entry⟩).resolve_right List.not_mem_nil
          obtain ⟨i, above⟩ := ih d (f.entry entry).2 placed
          exact ⟨i, above.child ⟨name, entry⟩⟩

/-- The directories that are directly in a directory. -/
def directoriesIn (w : World) (d : BindingId) : List BindingId :=
  (w.below d).filter w.bindsDirectory

open Classical in
/-- The bindings in a tree that stand for a node. -/
noncomputable def names (w : World) (n : NodeId) : Finset BindingId :=
  w.bindings.ids.filter fun b => (∃ i, w.InTree i b) ∧ w.nodeOf b = some n

/-! ## Links that are due -/

theorem mem_directoriesIn : c ∈ w.directoriesIn d ↔ w.Entered d c ∧ w.bindsDirectory c = true := by
  unfold directoriesIn
  rw [List.mem_filter, mem_below]

theorem nodup_directoriesIn (f : Forest w) : (w.directoriesIn d).Nodup := (nodup_below f).filter _

theorem directoriesIn_subset (f : Forest w) : (w.directoriesIn d).toFinset ⊆ w.bindings.ids := by
  intro c mem
  obtain ⟨name, entry⟩ := (mem_directoriesIn.1 (List.mem_toFinset.1 mem)).1
  exact Table.mem_ids.2 (f.has_of_child? entry)

theorem mem_names (f : Forest w) (u : w.Upheld []) :
    b ∈ w.names n ↔ w.Placed b ∧ w.nodeOf b = some n := by
  classical
  unfold names
  rw [Finset.mem_filter, inTree_iff_placed f u, Table.mem_ids, and_iff_right_iff_imp]
  rintro ⟨-, hn⟩
  obtain ⟨x, hx, -⟩ := nodeOf_eq_some_iff.1 hn
  exact Table.has_of_get? hx

theorem given_eq_one : w.given b d n = 1 ↔ w.bindsDirectory b = true ∧ w.nodeOf d = some n := by
  unfold given
  split
  · next h => exact iff_of_true rfl h
  · next h => exact iff_of_false Nat.zero_ne_one h

/-- One link from each binding of a set. -/
theorem sum_members {s : Finset BindingId} (there : s ⊆ w.bindings.ids) :
    ∑ c ∈ Finset.range w.bindings.nextId, (if c ∈ s then 1 else 0) = s.card := by
  have bounded : s ⊆ Finset.range w.bindings.nextId := there.trans (Finset.filter_subset ..)
  rw [Finset.sum_ite_mem, Finset.inter_eq_right.2 bounded, Finset.card_eq_sum_ones]

theorem due_directory (f : Forest w) (placed : w.Placed b) (hn : w.nodeOf b = some n)
    (isDir : w.isDirectory n = true) : w.due n = 2 + (w.directoriesIn b).length := by
  have share : ∀ c, w.share n c
      = (if c = b then 2 else 0) + if c ∈ (w.directoriesIn b).toFinset then 1 else 0 := by
    intro c
    classical
    refine congrArg₂ (· + ·) ?_ (if_congr ?_ rfl rfl)
    · by_cases e : c = b
      · rw [e, if_pos placed, own_of_nodeOf hn, if_pos rfl, if_pos isDir, if_pos rfl]
      · have other : w.own c n = 0 := if_neg fun hc => e (f.once hc hn isDir)
        rw [other, ite_self, if_neg e]
    · simp only [List.mem_toFinset, mem_directoriesIn, given_eq_one]
      constructor
      · rintro ⟨d, entered, binds, hd⟩
        rw [f.once hd hn isDir] at entered
        exact ⟨entered, binds⟩
      · rintro ⟨entered, binds⟩
        exact ⟨b, entered, binds, hn⟩
  obtain ⟨x, hx, -⟩ := nodeOf_eq_some_iff.1 hn
  unfold due
  rw [Finset.sum_congr rfl fun c _ => share c, Finset.sum_add_distrib, Finset.sum_ite_eq',
    if_pos (Finset.mem_range.2 (Table.get?_lt hx)), sum_members (directoriesIn_subset f),
    List.toFinset_card_of_nodup (nodup_directoriesIn f)]

theorem due_file (f : Forest w) (u : w.Upheld []) (file : w.isDirectory n = false) :
    w.due n = (w.names n).card := by
  have share : ∀ c, w.share n c = if c ∈ w.names n then 1 else 0 := by
    intro c
    have given : ¬ ∃ d, w.Entered d c ∧ w.given c d n = 1 := by
      rintro ⟨d, entered, one⟩
      exact not_entered_of_file f (given_eq_one.1 one).2 file entered
    classical
    unfold World.share own
    rw [if_neg given, file, Nat.add_zero, if_neg Bool.false_ne_true, ← ite_and]
    exact if_congr (mem_names f u).symm rfl rfl
  unfold due
  rw [Finset.sum_congr rfl fun c _ => share c]
  classical
  exact sum_members (Finset.filter_subset ..)

/-- A node that nothing in a tree stands for has no link due to it. -/
theorem due_removed (u : w.Upheld []) (out : ∀ b, w.Placed b → w.nodeOf b ≠ some n) :
    w.due n = 0 := by
  refine Finset.sum_eq_zero fun c _ => ?_
  have given : ¬ ∃ d, w.Entered d c ∧ w.given c d n = 1 := by
    rintro ⟨d, entered, one⟩
    have placed : w.Placed d := (u.entered entered).resolve_right List.not_mem_nil
    exact out d placed (given_eq_one.1 one).2
  by_cases placed : w.Placed c
  · have own : w.own c n = 0 := if_neg (out c placed)
    unfold share
    rw [if_neg given, own, ite_self, Nat.add_zero]
  · exact share_of_not_placed placed

/-! ## Room in the counters -/

/-- No directory is among the directories in it. -/
theorem length_directoriesIn_lt (f : Forest w) (there : w.bindings.has d = true) :
    (w.directoriesIn d).length < w.bindings.ids.card := by
  have apart : d ∉ (w.directoriesIn d).toFinset := by
    intro mem
    obtain ⟨name, entry⟩ := (mem_directoriesIn.1 (List.mem_toFinset.1 mem)).1
    exact f.not_above_self (.single (f.entry entry).2)
  have le : (insert d (w.directoriesIn d).toFinset).card ≤ w.bindings.ids.card :=
    Finset.card_le_card
      (Finset.insert_subset (Table.mem_ids.2 there) (directoriesIn_subset f))
  rwa [Finset.card_insert_of_notMem apart, List.toFinset_card_of_nodup (nodup_directoriesIn f)]
    at le

/-- A root with all other bindings in it, every one a directory, has one link more than
there are bindings. So the bindings have to be fewer by one than the counts. -/
theorem due_lt (f : Forest w) (u : w.Upheld []) (few : w.bindings.ids.card < 2 ^ 32 - 1) :
    w.due n < 2 ^ 32 := by
  cases kind : w.isDirectory n with
  | false =>
      have le : (w.names n).card ≤ w.bindings.ids.card := by
        classical
        exact Finset.card_le_card (Finset.filter_subset ..)
      rw [due_file f u kind]
      omega
  | true =>
      by_cases bound : ∃ b, w.Placed b ∧ w.nodeOf b = some n
      · obtain ⟨b, placed, hn⟩ := bound
        obtain ⟨x, hx, -⟩ := nodeOf_eq_some_iff.1 hn
        have lt := length_directoriesIn_lt f (Table.has_of_get? hx)
        rw [due_directory f placed hn kind]
        omega
      · rw [due_removed u fun b placed hn => bound ⟨b, placed, hn⟩]
        decide

end World

/-! ## Calls -/

/-- The directory that a name is to come into. -/
def Operation.target? : Operation → Option BindingId
  | create dir _ _ | mkdir dir _ _ | mknod dir _ _ _ | symlink dir _ _ | link _ dir _ => some dir
  | rename _ _ dirB _ _ => some dirB
  | _ => none

/-- Names come into directories in a tree, and no instance is torn down. Instances are
made by mounting the built-in type. -/
def Call.Enabled (w : World) : Call → Prop
  | .operate op => ∀ dir ∈ op.target?, ∃ i, w.InTree i dir
  | .register type => type = builtInType
  | .drop (.inst _) | .deactivate _ => False
  | .newContext _ | .applyParameter _ _ | .makeTree _ | .takeInstance _ | .dropContext _
  | .attachToContext _ _ _ => False
  | _ => True

/-- Every call is enabled where it is made, and there are fewer bindings than `bound` all the
way. -/
def World.Admits (bound : Nat) (w : World) : List Call → Prop
  | [] => w.bindings.ids.card < bound
  | call :: rest =>
    w.bindings.ids.card < bound ∧ call.Enabled w ∧ (w.after call).Admits bound rest

namespace Exact

theorem fresh {clock : Clock} : Exact (World.fresh clock) where
  counters := {
    links := fun h => by simp [World.fresh] at h
    pinned := fun h => by simp [World.fresh] at h
    unpinned := fun h => by simp [World.fresh] at h
    quiet := rfl }
  upheld := {
    entered := fun ⟨_, h⟩ => by simp [child?, World.fresh] at h
    roots := fun ⟨_, _, h, _⟩ => by simp [World.fresh] at h }

theorem operate (x : Exact w) (s : Sound w []) (few : w.bindings.ids.card < 2 ^ 32 - 1)
    {op : Operation} (target : ∀ dir ∈ op.target?, ∃ i, w.InTree i dir) : Action.Ends Exact op.act w := by
  refine ⟨fun {_ w'} done => ?_, fun failed => x.unchanged (op.act_clean s _ _ failed)⟩
  have room : ∀ n, w.due n < 2 ^ 32 := fun _ => due_lt s.forest x.upheld few
  have placed : ∀ dir ∈ op.target?, w.Placed dir := fun dir mem =>
    (inTree_iff_placed s.forest x.upheld).1 (target dir mem)
  cases op with
  | create dir name mode =>
      obtain ⟨b, done⟩ := Action.exists_of_discard_ok done
      exact x.create s (placed dir rfl) done
  | mkdir dir name mode =>
      obtain ⟨b, done⟩ := Action.exists_of_discard_ok done
      exact x.mkdir s (placed dir rfl) done
  | mknod dir name mode device =>
      obtain ⟨b, done⟩ := Action.exists_of_discard_ok done
      exact x.mknod s (placed dir rfl) done
  | symlink dir name target =>
      obtain ⟨b, done⟩ := Action.exists_of_discard_ok done
      exact x.symlink s (placed dir rfl) done
  | openUnnamed dir mode flags =>
      obtain ⟨f, done⟩ := Action.exists_of_discard_ok done
      exact x.openUnnamed s done
  | link old dir name =>
      obtain ⟨b, done⟩ := Action.exists_of_discard_ok done
      exact x.link s (placed dir rfl) done
  | unlink dir name => exact x.unlink s room done
  | rmdir dir name => exact x.rmdir s room done
  | rename dirA nameA dirB nameB flags => exact x.rename s room (placed dirB rfl) done
  | openFile b flags =>
      obtain ⟨f, done⟩ := Action.exists_of_discard_ok done
      exact x.openFile done
  | readdir dir =>
      obtain ⟨entries, done⟩ := Action.exists_of_discard_ok done
      obtain ⟨n, -, rfl⟩ := Action.readdir_ok done
      exact x.markAccessed
  | read f len =>
      obtain ⟨bytes, done⟩ := Action.exists_of_discard_ok done
      obtain ⟨n, _, -, rfl⟩ := Action.read_ok done
      exact x.markAccessed.onFiles
  | readAt f offset len =>
      obtain ⟨bytes, done⟩ := Action.exists_of_discard_ok done
      obtain ⟨n, -, rfl⟩ := Action.readAt_ok done
      exact x.markAccessed
  | write f src =>
      obtain ⟨written, done⟩ := Action.exists_of_discard_ok done
      obtain ⟨n, _, v, _, -, stored, rfl⟩ := Action.write_ok done
      exact (x.storeBytes stored).touch.onFiles
  | writeAt f offset src =>
      obtain ⟨written, done⟩ := Action.exists_of_discard_ok done
      obtain ⟨n, v, -, stored, rfl⟩ := Action.writeAt_ok done
      exact (x.storeBytes stored).touch
  | seek f position =>
      rw [← Action.seek_eq_ok.1 done]
      exact x.onFiles
  | setLength f size =>
      obtain ⟨n, node, -, -, rfl⟩ := Action.setLength_ok done
      exact x.resized.touch

theorem after (x : Exact w) (s : Sound w []) (c : Configured w)
    (few : w.bindings.ids.card < 2 ^ 32 - 1) {call : Call} (enabled : call.Enabled w) :
    Exact (w.after call) := by
  cases call with
  | operate op => exact (x.operate s few enabled).into
  | closeFile f =>
      exact (Action.Ends.mk (P := Exact) (fun h => x.closeFile s h)
        (fun h => absurd h Action.modify_eq_error)).into
  | hold ref =>
      unfold World.after
      simp only
      split
      · exact x.onHeld
      · exact x
  | drop ref =>
      refine x.drop s fun i e => ?_
      subst e
      exact enabled
  | register type => exact (configuring.register x fun x => x.of_tables rfl rfl rfl rfl).into
  | unregister name => exact (configuring.unregister x fun x => x.of_tables rfl rfl rfl rfl).into
  | mount name options => exact (x.mount s c.types).into
  | attachToInstance i sort device => exact (configuring.attachToInstance x).into
  | setBudget kind budget => exact x.of_tables rfl rfl rfl rfl
  | setCredentials uid gid => exact x.of_tables rfl rfl rfl rfl
  | setClock clock => exact x.of_tables rfl rfl rfl rfl
  | resetIno ino => exact x.of_tables rfl rfl rfl rfl
  | newContext type => exact enabled.elim
  | applyParameter c param => exact enabled.elim
  | makeTree c => exact enabled.elim
  | takeInstance c => exact enabled.elim
  | dropContext c => exact enabled.elim
  | attachToContext c sort device => exact enabled.elim
  | deactivate i => exact enabled.elim

end Exact

/-! ## The counts -/

theorem Call.Enabled.builtIn {call : Call} (enabled : call.Enabled w) : call.BuiltIn := by
  cases call with
  | register type => exact enabled
  | newContext type => exact enabled.elim
  | _ => trivial

theorem Exact.run {calls : List Call} (x : Exact w) (s : Sound w []) (c : Configured w)
    (admitted : w.Admits (2 ^ 32 - 1) calls) :
    Exact (w.run calls) ∧ (w.run calls).bindings.ids.card < 2 ^ 32 - 1 := by
  induction calls generalizing w with
  | nil => exact ⟨x, admitted⟩
  | cons call rest ih =>
      obtain ⟨few, enabled, admitted⟩ := admitted
      rw [run_cons]
      exact ih (x.after s c few enabled) (s.after call) (c.after enabled.builtIn) admitted

/-- The counters show what is in the trees. -/
structure Counts (w : World) : Prop where
  directory : ∀ {i b n node}, w.InTree i b → w.nodeOf b = some n → w.isDirectory n = true →
    w.nodes.get? n = some node → node.links.toNat = 2 + (w.directoriesIn b).length
  file : ∀ {n node}, w.isDirectory n = false → w.nodes.get? n = some node →
    node.links.toNat = (w.names n).card
  removed : ∀ {n node}, (∀ i b, w.InTree i b → w.nodeOf b ≠ some n) →
    w.nodes.get? n = some node → node.links = 0
  pinned : ∀ {i b}, w.InTree i b → ∃ x, w.bindings.get? b = some x ∧ x.pins = 1
  unpinned : ∀ {b x}, (∀ i, ¬ w.InTree i b) → w.bindings.get? b = some x → x.pins = 0
  /-- No counter was found at zero when it was to be lowered. -/
  quiet : ∀ notice ∈ w.host.journal, notice.atZero = false

theorem Exact.counts (x : Exact w) (s : Sound w []) (few : w.bindings.ids.card < 2 ^ 32 - 1) :
    Counts w := by
  have shown : ∀ {n node}, w.nodes.get? n = some node → node.links.toNat = w.due n := by
    intro n node hn
    have links := x.counters.links hn
    have lt := due_lt (n := n) s.forest x.upheld few
    omega
  have placed : ∀ {i b}, w.InTree i b → w.Placed b := fun h =>
    (inTree_iff_placed s.forest x.upheld).1 ⟨_, h⟩
  have inTree : ∀ {b}, w.Placed b → ∃ i, w.InTree i b :=
    (inTree_iff_placed s.forest x.upheld).2
  exact {
    directory := fun h hb isDir hn => (shown hn).trans (due_directory s.forest (placed h) hb isDir)
    file := fun kind hn => (shown hn).trans (due_file s.forest x.upheld kind)
    removed := fun {n node} out hn => by
      have none : w.due n = 0 := due_removed x.upheld fun b h => by
        obtain ⟨i, h⟩ := inTree h
        exact out i b h
      exact UInt32.toNat_inj.1 ((shown hn).trans none)
    pinned := fun h => by
      obtain ⟨y, hy⟩ := Table.has_iff.1 (s.tended.there (owned_of_placed (placed h)))
      exact ⟨y, hy, x.counters.pinned hy (placed h)⟩
    unpinned := fun out hb => x.counters.unpinned hb fun h => by
      obtain ⟨i, h⟩ := inTree h
      exact out i h
    quiet := by
      simpa using Array.countP_eq_zero.1 x.counters.quiet }

/-- Whatever is made, moved and removed in mounted trees, and whatever fails. -/
theorem counts_run (clock : Clock) {calls : List Call}
    (admitted : (World.fresh clock).Admits (2 ^ 32 - 1) calls) :
    Counts ((World.fresh clock).run calls) := by
  obtain ⟨x, few⟩ := Exact.fresh.run Sound.fresh .fresh admitted
  exact x.counts (Sound.fresh.run calls) few

/-- A file in a directory has a second name, in the root. -/
theorem counts_run_linked :
    let calls : List Call := [.register builtInType, .mount "tagfs" "",
      .operate (.mkdir 0 "d" ⟨0o755⟩), .operate (.create 1 "a" ⟨0o644⟩), .operate (.link 2 0 "b")]
    let w := World.fresh (.steady 0 0 1)
    w.Admits (2 ^ 32 - 1) calls ∧ Counts (w.run calls) ∧
      (w.run calls).nodes.slots.toList.map (·.map (·.links)) = [some 3, some 2, some 2] := by
  intro calls w
  let mounted := (w.after (.register builtInType)).after (.mount "tagfs" "")
  let made := mounted.after (.operate (.mkdir 0 "d" ⟨0o755⟩))
  have root : ∀ {v : World}, (v.instances.get? 0).bind (·.root) = some 0 → v.InTree 0 0 := by
    intro v h
    obtain ⟨inst, hi, hroot⟩ := Option.bind_eq_some_iff.1 h
    exact ⟨inst, 0, hi, hroot, .refl⟩
  have inMade : made.InTree 0 1 := by
    have entry : made.child? 0 "d" = some 1 := by decide +kernel
    obtain ⟨inst, top, hi, hroot, reached⟩ := root (v := made) (by decide +kernel)
    exact ⟨inst, top, hi, hroot, reached.tail ⟨"d", entry⟩⟩
  have admitted : w.Admits (2 ^ 32 - 1) calls := by
    refine ⟨by decide +kernel, rfl, by decide +kernel, trivial, ?_⟩
    refine ⟨by decide +kernel, fun dir mem => ?_, ?_⟩
    · cases Option.some.inj mem
      exact ⟨0, root (by decide +kernel)⟩
    refine ⟨by decide +kernel, fun dir mem => ?_, ?_⟩
    · cases Option.some.inj mem
      exact ⟨0, inMade⟩
    refine ⟨by decide +kernel, fun dir mem => ?_, ?_⟩
    · cases Option.some.inj mem
      exact ⟨0, root (by decide +kernel)⟩
    show Finset.card _ < _
    decide +kernel
  exact ⟨admitted, counts_run (.steady 0 0 1) admitted, by decide +kernel⟩

/-! ## Where the counters come round -/

namespace Crowded

/-- Directories that fit in, after those that are there. -/
theorem admits {bound : Nat} (m : Nat) : ∀ {k : Nat} {w : World}, Crowded k w → Sound w [] →
    w.Barred → k + m + 1 < bound → k + m ≤ 2 ^ 32 →
      let calls := (List.range' k m).map fun k => Call.operate (.mkdir 0 k.repr ⟨0o755⟩)
      w.Admits bound calls ∧ Crowded (k + m) (w.run calls) := by
  induction m with
  | zero =>
      intro k w h s barred fits small
      exact ⟨Nat.lt_of_le_of_lt h.few fits, h⟩
  | succ m ih =>
      intro k w h s barred fits small
      have next := h.step s barred (by omega)
      have barred := (World.after_changes s.forest (.operate (.mkdir 0 k.repr ⟨0o755⟩))).keeps
        (P := World.Barred) (fun c h => h.change c) barred
      obtain ⟨admitted, reached⟩ := ih next (s.after _) barred (by omega) (by omega)
      rw [Nat.add_right_comm, Nat.add_assoc] at reached
      refine ⟨⟨Nat.lt_of_le_of_lt h.few (by omega), fun dir mem => ?_, admitted⟩, reached⟩
      cases Option.some.inj mem
      exact ⟨0, h.inTree⟩

theorem run (bound m : Nat) (fits : m + 1 < bound) (small : m ≤ 2 ^ 32) :
    let w := World.fresh (.steady 0 0 1)
    w.Admits bound (crowding m) ∧ Crowded m (w.run (crowding m)) := by
  intro w
  have bare : w.bindings.ids.card = 0 := by decide +kernel
  have typed : (w.after (.register builtInType)).bindings.ids.card = 0 := by decide +kernel
  have s : Sound (w.run [.register builtInType, .mount "tagfs" ""]) [] := Sound.fresh.run _
  obtain ⟨admitted, reached⟩ :=
    mounted.admits m s (.run _ _) (by omega : 0 + m + 1 < bound) (by omega)
  rw [crowding, List.range_eq_range']
  rw [Nat.zero_add] at reached
  exact ⟨⟨by omega, rfl, by omega, trivial, admitted⟩, reached⟩

theorem not_counts {k : Nat} (h : Crowded k w) (round : UInt32.ofNat (2 + k) = 0) :
    ¬ Counts w := by
  intro counts
  obtain ⟨x, hx, links⟩ := Option.map_eq_some_iff.1 h.links
  have shown := counts.directory h.inTree h.bound h.isDir hx
  rw [links, round, UInt32.toNat_zero] at shown
  omega

end Crowded

/-- With one binding more the counters fail. A root in which there are all directories but two
that a counter can tell apart has no link left. -/
theorem counts_overflow :
    let calls := crowding (2 ^ 32 - 2)
    let w := World.fresh (.steady 0 0 1)
    w.Admits (2 ^ 32) calls ∧
      ((w.run calls).nodes.get? 0).map (·.links) = some 0 ∧ ¬ Counts (w.run calls) := by
  intro calls w
  obtain ⟨admitted, reached⟩ := Crowded.run (2 ^ 32) (2 ^ 32 - 2) (by decide) (by decide)
  have round : UInt32.ofNat (2 + (2 ^ 32 - 2)) = 0 := by decide
  exact ⟨admitted, round ▸ reached.links, reached.not_counts round⟩

end Memfs
