import Memfs.Proofs.Revivals

/-!
# Owners and groups

A new node belongs to the user who makes it. Its group is the user's too, but in a directory
that passes its group on it is the group of the directory, and then a new directory passes the
group on in its turn. `Node.Inherits` says so of one node, for all five operations that make
one, and since nothing changes the owner, the group or the mode of a node that was made, it
goes on to hold.

So the group goes down a tree from the directory that has it, whoever makes the nodes. The
invariant of such a run, `Heirs`, needs no record of who was made where: bindings and nodes
are given rising numbers, so what came into being during the run is known by its number.
-/

namespace Memfs

open World

variable {w v u : World} {d dir b c : BindingId} {m n : NodeId} {name : String} {x y : Node}
  {asked : Mode} {g : UInt32} {call : Call} {op : Operation}

/-! ## What a directory passes on -/

/-- It is one of the permissions. -/
theorem Mode.passesGroup_eq {mode : Mode} :
    mode.passesGroup = (mode.permissions &&& setGroup != 0) := by
  rw [permissions, UInt16.and_assoc, show permissionMask &&& setGroup = setGroup by decide]
  rfl

theorem Mode.passesGroup_withType {mode : Mode} {type : UInt16} :
    (mode.withType type).passesGroup = mode.passesGroup := by
  rw [passesGroup_eq, passesGroup_eq, permissions_withType]

theorem Mode.passesGroup_addSetGroup {mode : Mode} : mode.addSetGroup.passesGroup = true := by
  have absorbed : mode.addSetGroup.bits &&& setGroup = setGroup := by
    rw [addSetGroup, ← UInt16.toBitVec_inj]
    ext i hi
    simp only [UInt16.toBitVec_and, UInt16.toBitVec_or, BitVec.getElem_and, BitVec.getElem_or]
    cases setGroup.toBitVec[i] with
    | false => exact Bool.and_false _
    | true => rw [Bool.or_true, Bool.and_true]
  rw [passesGroup, absorbed]
  decide

/-- The owner, the group and the set-group bit of a node that was asked for on a host, in a
directory. -/
structure Node.Inherits (dir : Node) (host : Host) (asked : Mode) (x : Node) : Prop where
  uid : x.uid = host.uid
  gid : x.gid = if dir.mode.passesGroup then dir.gid else host.gid
  passes : x.mode.passesGroup
    = (asked.passesGroup || (dir.mode.passesGroup && x.isDirectory))

namespace Node

theorem passesGroup_inherit {dir : Node} {mode : Mode} {gid : UInt32} :
    (inherit (some dir) mode gid).1.passesGroup
      = (mode.passesGroup || (dir.mode.passesGroup && mode.isDirectory)) := by
  simp only [inherit]
  cases dir.mode.passesGroup with
  | false => simp
  | true =>
      cases mode.isDirectory with
      | false => simp
      | true => simp [Mode.passesGroup_addSetGroup]

theorem DrawnIn.inherits {host : Host} {mode : Mode} {device : DeviceNumber}
    (h : y.DrawnIn host mode device x) : y.Inherits host mode x := by
  obtain ⟨ino, kind, time, home, content, drawn, rfl⟩ := h
  refine ⟨rfl, ?_, ?_⟩
  · change (inherit (some y) mode host.gid).2 = _
    simp only [inherit]
    split
    · rfl
    · rfl
  · change (inherit (some y) mode host.gid).1.passesGroup = _
    rw [passesGroup_inherit, ← NodeKind.isDirectory_of_ofMode drawn]
    rfl

/-- Nothing that happens to the node later changes it. -/
theorem Inherits.akin {host : Host} {x' : Node} (h : y.Inherits host asked x) (akin : x.Akin x') :
    y.Inherits host asked x' where
  uid := akin.uid.trans h.uid
  gid := akin.gid.trans h.gid
  passes := by rw [akin.mode, h.passes, isDirectory, isDirectory, akin.kind]

end Node

/-! ## Operations that make a node -/

/-- The directory in which the operation makes a node, and the mode that it asks for. -/
def Operation.making? : Operation → Option (BindingId × Mode)
  | create dir _ mode | mkdir dir _ mode | mknod dir _ mode _ | openUnnamed dir mode _ =>
      some (dir, mode)
  | symlink dir _ _ => some (dir, Action.symlinkMode)
  | link _ _ _ | unlink _ _ | rmdir _ _ | rename _ _ _ _ _ | openFile _ _ | readdir _ | read _ _
  | readAt _ _ _ | write _ _ | writeAt _ _ _ | seek _ _ | setLength _ _ => none

/-- One node more, made in the directory, and a new binding for it. -/
structure World.Bears (w v : World) (dir : BindingId) (asked : Mode) : Prop where
  born : ∃ m y x, w.nodeOf dir = some m ∧ w.nodes.get? m = some y ∧ y.isDirectory = true ∧
    v.nodes.get? w.nodes.nextId = some x ∧ y.Inherits w.host asked x
  /-- No other node has come. -/
  only : ∀ n, v.nodes.has n = true → w.nodes.has n = true ∨ n = w.nodes.nextId
  bound : ∀ c n, v.nodeOf c = some n →
    w.nodeOf c = some n ∨ w.bindings.get? c = none ∧ n = w.nodes.nextId

namespace Sound

theorem bears_of_creation (s : Sound w []) (barred : w.Barred) {creation : Creation}
    (done : creation.act dir name w = .ok b v) (same : asked.permissions = creation.permissions) :
    w.Bears v dir asked := by
  obtain ⟨m, y, x, bound, hy, isDir, -, drawn, gained⟩ := s.drawn_by barred done
  refine ⟨⟨m, y, x, bound, hy, isDir, gained.node, ?_⟩, fun n there => ?_, fun c n hc => ?_⟩
  · obtain ⟨uid, gid, passes⟩ := drawn.inherits
    refine ⟨uid, gid, passes.trans ?_⟩
    rw [Mode.passesGroup_eq, Creation.permissions_mode, ← same, ← Mode.passesGroup_eq]
  · by_contra absent
    obtain ⟨old, new⟩ := not_or.1 absent
    by_cases here : n = m
    · rw [here, Table.has_of_get? hy] at old
      exact old rfl
    · rw [Table.has, gained.nodes n new here] at there
      exact old there
  · rw [gained.nodeOf] at hc
    split at hc
    · next new => exact .inr ⟨new ▸ gained.unborn.1, (Option.some.inj hc).symm⟩
    · exact .inl hc

/-- The binding that a file without a name is opened through is new too. -/
theorem bears_of_openUnnamed {flags : OpenFlags} {f : FileId}
    (done : Action.openUnnamed dir asked flags w = .ok f v) : w.Bears v dir asked := by
  obtain ⟨m, host, home, n, u, shown, bound, isDir, -, acquired, -, made, outcome⟩ :=
    Action.openUnnamed_ok done
  obtain ⟨y, hy, directory⟩ := (Option.any_eq_true _ _).1 isDir
  obtain ⟨number, host', x, drawn, whole⟩ := Action.newNode_drawn made hy
  obtain rfl : n = w.nodes.nextId := number
  have inherits := (drawn.alike (Host.alike_of_acquire acquired)).inherits
  have drawnNodes : u.nodes = w.nodes.push x := by rw [whole]; rfl
  have drawnBindings : u.bindings = w.bindings.push { name := "", parent := some dir } := by
    rw [whole]
    rfl
  -- The node loses its link, and may be given the right to another one.
  obtain ⟨x', akin, nodes⟩ : ∃ x', x.Akin x' ∧ ∀ k, v.nodes.get? k
      = if k = w.nodes.nextId then some x' else w.nodes.get? k := by
    have unlinked : ∀ k, (u.openedUnnamed w.bindings.nextId f w.nodes.nextId shown).nodes.get? k
        = if k = w.nodes.nextId then some x.dropLink else w.nodes.get? k := by
      intro k
      refine get?_dropLink.trans ?_
      rw [drawnNodes, Table.get?_push_self]
      exact ite_congr rfl (fun _ => rfl) fun other => Table.get?_push_of_ne other
    rcases outcome with ⟨-, rfl⟩ | ⟨-, rfl⟩
    · exact ⟨x.dropLink, ⟨rfl, rfl, rfl, rfl, rfl, rfl⟩, unlinked⟩
    · refine ⟨{ x.dropLink with linkable := true }, ⟨rfl, rfl, rfl, rfl, rfl, rfl⟩, fun k => ?_⟩
      refine (Table.get?_modify ..).trans ?_
      rw [unlinked, unlinked, if_pos rfl]
      exact ite_congr rfl (fun _ => rfl) fun other => if_neg other
  have stands : ∀ c, v.nodeOf c
      = if c = w.bindings.nextId then some w.nodes.nextId else w.nodeOf c := by
    intro c
    have pushed : u.nodeOf c = w.nodeOf c := by
      unfold World.nodeOf
      rw [drawnBindings]
      show World.nodeOf { w with bindings := _ } c = _
      exact Forest.nodeOf_pushBinding
    have found : u.bindings.get? w.bindings.nextId = some { name := "", parent := some dir } := by
      rw [drawnBindings]
      exact Table.get?_push_self
    have opened := (frame_openedUnnamed found f w.nodes.nextId shown).2 c
    rw [pushed] at opened
    rcases outcome with ⟨-, rfl⟩ | ⟨-, rfl⟩
    · exact opened
    · exact opened
  refine ⟨⟨m, y, x', bound, hy, directory, ?_, ?_⟩, fun n there => ?_, fun c n hc => ?_⟩
  · rw [nodes, if_pos rfl]
  · obtain ⟨uid, gid, passes⟩ := inherits.akin akin
    exact ⟨uid, gid, by rwa [Mode.passesGroup_withType] at passes⟩
  · rw [Table.has, nodes] at there
    split at there
    · next new => exact .inr new
    · exact .inl there
  · rw [stands] at hc
    split at hc
    · next new => exact .inr ⟨new ▸ Table.get?_nextId, (Option.some.inj hc).symm⟩
    · exact .inl hc

theorem bears (s : Sound w []) (barred : w.Barred) (making : op.making? = some (dir, asked))
    (done : op.act w = .ok () v) : w.Bears v dir asked := by
  cases op with
  | create d name mode =>
      cases making
      obtain ⟨b, done⟩ := Action.exists_of_discard_ok done
      have done : (Creation.file asked).act dir name w = .ok b v := done
      exact s.bears_of_creation barred done rfl
  | mkdir d name mode =>
      cases making
      obtain ⟨b, done⟩ := Action.exists_of_discard_ok done
      have done : (Creation.directory asked).act dir name w = .ok b v := done
      exact s.bears_of_creation barred done rfl
  | mknod d name mode device =>
      cases making
      obtain ⟨b, done⟩ := Action.exists_of_discard_ok done
      have done : (Creation.node asked device).act dir name w = .ok b v := done
      exact s.bears_of_creation barred done rfl
  | symlink d name target =>
      cases making
      obtain ⟨b, done⟩ := Action.exists_of_discard_ok done
      have done : (Creation.symlink target).act dir name w = .ok b v := done
      have same : Action.symlinkMode.permissions = (Creation.symlink target).permissions := by
        change Action.symlinkMode.permissions = 0o777
        decide
      exact s.bears_of_creation barred done same
  | openUnnamed d mode flags =>
      cases making
      obtain ⟨f, done⟩ := Action.exists_of_discard_ok done
      exact bears_of_openUnnamed done
  | link | unlink | rmdir | rename | openFile | readdir | read | readAt | write | writeAt | seek
  | setLength => cases making

end Sound

/-! ## Runs below a directory -/

/-- A call of a run below `d` that began in `base`. Nodes are made in the directory, or in
directories that have come since. -/
inductive Call.Below (base : World) (d : BindingId) : Call → Prop
  | make {op : Operation} {dir : BindingId} {asked : Mode}
      (making : op.making? = some (dir, asked))
      (place : dir = d ∨ base.bindings.get? dir = none) : Below base d (.operate op)
  | setCredentials {uid gid : UInt32} : Below base d (.setCredentials uid gid)
  | hold {ref : Ref} : Below base d (.hold ref)
  | drop {ref : Ref} : Below base d (.drop ref)
  | closeFile {f : FileId} : Below base d (.closeFile f)

/-- The node has the group, and passes it on if it is a directory. -/
def Node.Heir (g : UInt32) (x : Node) : Prop :=
  x.gid = g ∧ (x.isDirectory = true → x.mode.passesGroup = true)

/-- What is made in a directory that passes its group on is an heir of it. -/
theorem Node.Inherits.heir {host : Host} (h : y.Inherits host asked x)
    (passes : y.mode.passesGroup = true) : x.Heir y.gid := by
  refine ⟨?_, fun isDir => ?_⟩
  · rw [h.gid, if_pos passes]
  · rw [h.passes, passes, isDir, Bool.true_and, Bool.or_true]

theorem Node.Heir.akin {x' : Node} (h : x.Heir g) (akin : x.Akin x') : x'.Heir g := by
  refine ⟨akin.gid.trans h.1, fun isDir => ?_⟩
  rw [akin.mode]
  refine h.2 ?_
  rwa [Node.isDirectory, ← akin.kind]

namespace World

/-- The nodes that have come are heirs and belong to the caller, and stand behind bindings that
have come. -/
structure HandsOn (g : UInt32) (w v : World) : Prop where
  born : ∀ n x, w.nodes.nextId ≤ n → v.nodes.get? n = some x → x.uid = w.host.uid ∧ x.Heir g
  bound : ∀ c n, v.nodeOf c = some n →
    w.nodeOf c = some n ∨ w.bindings.nextId ≤ c ∧ w.nodes.nextId ≤ n

/-- The same of a whole run, whose callers are not remembered. -/
structure Heirs (g : UInt32) (base v : World) : Prop where
  changes : Changes True base v
  born : ∀ n x, base.nodes.nextId ≤ n → v.nodes.get? n = some x → x.Heir g
  bound : ∀ c n, v.nodeOf c = some n →
    base.nodeOf c = some n ∨ base.bindings.nextId ≤ c ∧ base.nodes.nextId ≤ n

namespace HandsOn

/-- Nothing has come. -/
theorem of_less (nodes : ∀ n, v.nodes.has n = true → w.nodes.has n = true)
    (bound : ∀ c n, v.nodeOf c = some n → w.nodeOf c = some n) : HandsOn g w v where
  born n x newer hx := by
    obtain ⟨y, hy⟩ := Table.has_iff.1 (nodes n (Table.has_of_get? hx))
    exact absurd (Table.get?_lt hy) (Nat.not_lt.2 newer)
  bound c n hc := .inl (bound c n hc)

/-- Objects are let go of, and before that no node and no binding has changed. -/
theorem settle {tasks : List Task} (nodes : v.nodes = w.nodes) (bindings : v.bindings = w.bindings) :
    HandsOn g w (v.settle tasks) := by
  have spared : Spared v (v.settle tasks) := Spared.refl.settle
  refine of_less (fun n there => ?_) fun c n hc => ?_
  · obtain ⟨x, hx⟩ := Table.has_iff.1 there
    exact Table.has_of_get? (nodes ▸ spared.nodes hx)
  · have old := spared.nodeOf hc
    unfold nodeOf at old ⊢
    rwa [bindings] at old

theorem closeFile {f : FileId} : Action.Ends (HandsOn g w) (Action.closeFile f) w := by
  refine .modify ?_
  cases w.files.get? f with
  | none => exact of_less (fun _ => id) fun _ _ => id
  | some file => exact settle rfl rfl

theorem of_unchanged (h : Unchanged w v) : HandsOn g w v := by
  refine of_less (fun n there => ?_) fun c n hc => ?_
  · rwa [Table.has, h.nodes] at there
  · unfold nodeOf at hc ⊢
    rwa [h.bindings] at hc

theorem of_bears (h : w.Bears v dir asked) (c : Changes True w v)
    (directory : ∀ m y, w.nodeOf dir = some m → w.nodes.get? m = some y → y.isDirectory = true →
      y.gid = g ∧ y.mode.passesGroup = true) : HandsOn g w v := by
  obtain ⟨m, y, x, bound, hy, isDir, hx, inherits⟩ := h.born
  obtain ⟨rfl, passes⟩ := directory m y bound hy isDir
  refine ⟨fun n z newer hz => ?_, fun b n hb => ?_⟩
  · rcases h.only n (Table.has_of_get? hz) with old | rfl
    · obtain ⟨z', hz'⟩ := Table.has_iff.1 old
      exact absurd (Table.get?_lt hz') (Nat.not_lt.2 newer)
    · cases hx.symm.trans hz
      exact ⟨inherits.uid, inherits.heir passes⟩
  · refine (h.bound b n hb).imp_right fun ⟨absent, same⟩ => ⟨?_, Nat.le_of_eq same.symm⟩
    -- The binding is there now and was not before, so its number is a new one.
    obtain ⟨z, hz, -⟩ := nodeOf_eq_some_iff.1 hb
    refine (c.bindings_kept.there b (Table.has_of_get? hz)).resolve_left fun old => ?_
    rw [Table.has, absent] at old
    cases old

end HandsOn

namespace Heirs

theorem refl : Heirs g w w where
  changes := .refl
  born _ _ newer hx := absurd (Table.get?_lt hx) (Nat.not_lt.2 newer)
  bound _ _ := .inl

theorem trans (h : Heirs g w v) (step : HandsOn g v u) (c : Changes True v u) : Heirs g w u where
  changes := c.keeps (P := Changes True w) (fun change c => c.step change) h.changes
  born n x newer hx := by
    rcases Nat.lt_or_ge n v.nodes.nextId with known | new
    · obtain ⟨y, hy, akin⟩ := c.node_kept known hx
      exact (h.born n y newer hy).akin akin
    · exact (step.born n x new hx).2
  bound b n hb := by
    rcases step.bound b n hb with old | ⟨newB, newN⟩
    · exact h.bound b n old
    · exact .inr ⟨h.changes.bindings_kept.next.trans newB, h.changes.nodes_kept.next.trans newN⟩

/-- The directory itself, and those that have come since, pass the group on. -/
theorem directory (h : Heirs g w v) (bound : w.nodeOf d = some m) (hy : w.nodes.get? m = some y)
    (group : y.gid = g) (passes : y.mode.passesGroup = true)
    (place : dir = d ∨ w.bindings.get? dir = none) {z : Node} (stands : v.nodeOf dir = some n)
    (hz : v.nodes.get? n = some z) (isDir : z.isDirectory = true) :
    z.gid = g ∧ z.mode.passesGroup = true := by
  rcases h.bound dir n stands with old | ⟨newB, newN⟩
  · rcases place with rfl | absent
    · cases bound.symm.trans old
      obtain ⟨z', hz', akin⟩ := h.changes.node_kept (Table.get?_lt hy) hz
      cases hy.symm.trans hz'
      exact ⟨akin.gid.trans group, akin.mode ▸ passes⟩
    · rw [nodeOf, absent] at old
      cases old
  · obtain ⟨group, passes⟩ := h.born n z newN hz
    exact ⟨group, passes isDir⟩

end Heirs

end World

section Run

variable (bound : w.nodeOf d = some m) (hy : w.nodes.get? m = some y)
  (passes : y.mode.passesGroup = true)

include bound hy passes

theorem Call.Below.handsOn (below : call.Below w d) (h : Heirs y.gid w v) (o : Ordered v) :
    HandsOn y.gid v (v.after call) := by
  cases below with
  | @make op dir asked making place =>
      have c : Changes True v (v.after (.operate op)) :=
        (after_changes o.sound.forest _).mono fun _ => trivial
      cases done : op.act v with
      | ok u v' =>
          rw [Operation.after_of_ok done] at c ⊢
          exact .of_bears (o.sound.bears o.barred making done) c fun n z stands hz isDir =>
            h.directory bound hy rfl passes place stands hz isDir
      | error e v' =>
          rw [Operation.after_of_error done]
          exact .of_unchanged (op.act_clean o.sound e v' done)
  | setCredentials => exact .of_less (fun _ => id) fun _ _ => id
  | @hold ref =>
      unfold World.after
      simp only
      split
      · exact .of_less (fun _ => id) fun _ _ => id
      · exact .of_less (fun _ => id) fun _ _ => id
  | drop => exact .settle rfl rfl
  | closeFile => exact HandsOn.closeFile.into

theorem World.heirs_run (o : Ordered w) {calls : List Call}
    (below : ∀ call ∈ calls, call.Below w d) : Heirs y.gid w (w.run calls) := by
  induction calls using List.reverseRecOn with
  | nil => exact .refl
  | append_singleton calls call ih =>
      obtain ⟨past, last⟩ := List.forall_mem_append.1 below
      have h := ih past
      have o' : Ordered (w.run calls) := run_induction (fun _ _ o => o.after) calls o
      rw [run_concat]
      have step := (last call List.mem_cons_self).handsOn bound hy passes h o'
      exact h.trans step ((after_changes o'.sound.forest call).mono fun _ => trivial)

end Run

/-! ## After any run -/

/-- What a node is made as, it is after any calls. -/
theorem World.akin_run (s : Sound w []) {calls : List Call} (hx : w.nodes.get? n = some x)
    {z : Node} (hz : (w.run calls).nodes.get? n = some z) : x.Akin z := by
  obtain ⟨x', hx', akin⟩ := (run_changes s calls).node_kept (Table.get?_lt hx) hz
  cases hx.symm.trans hx'
  exact akin

/-- In whatever state: whoever makes the nodes, all that is made in a directory that passes its
group on, and below it, has this group and passes it on, and belongs to the user who made it.
And any operation that makes a node makes one, which belongs to the caller but for what its
directory passes on. -/
theorem group_handed_down (clock : Clock) (earlier : List Call) :
    let w := (World.fresh clock).run earlier
    (∀ d m y, w.nodeOf d = some m → w.nodes.get? m = some y → y.mode.passesGroup = true →
      ∀ before call later, (∀ c ∈ before ++ call :: later, c.Below w d) →
      ∀ n x, (w.run before).nodes.has n = false →
        (w.run (before ++ [call])).nodes.has n = true →
        (w.run (before ++ call :: later)).nodes.get? n = some x →
        x.uid = (w.run before).host.uid ∧ x.gid = y.gid ∧
          (x.isDirectory = true → x.mode.passesGroup = true)) ∧
    (∀ (op : Operation) dir asked v, op.making? = some (dir, asked) → op.act w = .ok () v →
      w.Bears v dir asked ∧ ∀ later n x z, v.nodes.get? n = some x →
        (v.run later).nodes.get? n = some z → x.Akin z) := by
  intro w
  have o : Ordered w := .run clock earlier
  refine ⟨fun d m y bound hy passes before call later below n x absent made hx => ?_,
    fun op dir asked v making done => ⟨o.sound.bears o.barred making done,
      fun later n x z hx hz => ?_⟩⟩
  · obtain ⟨past, now, -⟩ := List.forall_mem_append.1 below |>.imp id List.forall_mem_cons.1
    have o' : Ordered (w.run before) := run_induction (fun _ _ o => o.after) before o
    have h := heirs_run bound hy passes o past
    have step := now.handsOn bound hy passes h o'
    have split : w.run (before ++ call :: later) = ((w.run before).after call).run later := by
      unfold World.run
      rw [List.foldl_append]
      rfl
    rw [run_concat] at made
    rw [split] at hx
    obtain ⟨z, hz⟩ := Table.has_iff.1 made
    have newer : (w.run before).nodes.nextId ≤ n := by
      by_contra known
      obtain ⟨z', hz', -⟩ := (after_changes o'.sound.forest call).node_kept (Nat.lt_of_not_le known)
        hz
      rw [Table.has_of_get? hz'] at absent
      cases absent
    have akin := akin_run (o'.sound.after call) hz hx
    obtain ⟨uid, heir⟩ := step.born n z newer hz
    obtain ⟨group, passed⟩ := heir.akin akin
    exact ⟨akin.uid.trans uid, group, passed⟩
  · have s : Sound v [] := (o.sound.operate op).ok done
    exact akin_run s hx hz

/-- A directory with the group of its maker, and two more users below it. -/
theorem group_handed_down_twice :
    let earlier : List Call := [.register builtInType, .mount "tagfs" "", .setCredentials 5 7,
      .operate (.mkdir 0 "d" ⟨0o2775⟩)]
    let before : List Call := [.setCredentials 1 1, .operate (.mkdir 1 "e" ⟨0o755⟩),
      .setCredentials 2 2]
    let call : Call := .operate (.create 2 "f" ⟨0o644⟩)
    let later : List Call := [.setCredentials 3 3]
    let w := (World.fresh (.steady 0 0 1)).run earlier
    (∃ y, w.nodes.get? 1 = some y ∧ y.gid = 7 ∧ y.mode.passesGroup = true) ∧
      (∀ c ∈ before ++ call :: later, c.Below w 1) ∧
      ∃ x, (w.run (before ++ call :: later)).nodes.get? 3 = some x ∧ x.uid = 2 ∧ x.gid = 7 := by
  intro earlier before call later w
  have directory : (w.nodes.get? 1).map (fun y => (y.gid, y.mode.passesGroup)) = some (7, true) ∧
      w.nodeOf 1 = some 1 ∧ w.bindings.get? 2 = none := by decide +kernel
  obtain ⟨known, bound, new⟩ := directory
  have inside : (Operation.mkdir 1 "e" ⟨0o755⟩).making? = some (1, ⟨0o755⟩) := rfl
  have deeper : (Operation.create 2 "f" ⟨0o644⟩).making? = some (2, ⟨0o644⟩) := rfl
  have below : ∀ c ∈ before ++ call :: later, c.Below w 1 := by
    simp only [before, call, later, List.cons_append, List.nil_append, List.forall_mem_cons]
    exact ⟨.setCredentials, .make inside (.inl rfl), .setCredentials, .make deeper (.inr new),
      .setCredentials, List.forall_mem_nil _⟩
  obtain ⟨y, hy, same⟩ := Option.map_eq_some_iff.1 known
  obtain ⟨group, passes⟩ := Prod.ext_iff.1 same
  have made : (w.run before).nodes.has 3 = false ∧ (w.run (before ++ [call])).nodes.has 3 = true ∧
      (w.run (before ++ call :: later)).nodes.has 3 = true ∧ (w.run before).host.uid = 2 := by
    decide +kernel
  obtain ⟨absent, there, still, uid⟩ := made
  obtain ⟨x, hx⟩ := Table.has_iff.1 still
  have owned := (group_handed_down (.steady 0 0 1) earlier).1 1 1 y bound hy passes before call
    later below 3 x absent there hx
  exact ⟨⟨y, hy, group, passes⟩, below, x, hx, owned.1.trans uid, owned.2.1.trans group⟩

end Memfs
