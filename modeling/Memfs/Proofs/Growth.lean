import Memfs.Proofs.Homes.Runs

/-!
# No growth without the instance

A node knows its instance by number only, and whoever is to make a name or a node looks for
the instance first. So nothing grows once the instance is gone: what passes the checks that
come before fails for want of a device, or for want of memory where a binding is made
before the instance is looked for.

An instance goes with its last owner, not with its teardown. A caller who owns it still, or
a context that does, keeps it there, and then its directories take new names as before.
-/

namespace Memfs

open World

variable {w v : World} {i : InstanceId} {n : NodeId} {b dir : BindingId} {name : String}

/-! ## The checks that come first -/

/-- The operation is one that makes a name or a node, and nothing stands against it before the
instance is looked for. -/
def Operation.Passes (w : World) : Operation → Prop
  | create dir name _ | mkdir dir name _ =>
      checkName name = .ok () ∧ w.bindsDirectory dir = true ∧ w.child? dir name = none
  | mknod dir name mode _ =>
      checkName name = .ok () ∧ w.bindsDirectory dir = true ∧ w.child? dir name = none ∧
        (mode.fileType = 0 ∨ mode.isRegular ∨ (SpecialKind.ofMode mode).isSome)
  | symlink dir name target =>
      checkName name = .ok () ∧ target.toList.contains '\x00' = false ∧
        w.bindsDirectory dir = true ∧ w.child? dir name = none
  | openUnnamed dir _ flags => w.bindsDirectory dir = true ∧ flags.has .writing = true
  | link old dir name =>
      checkName name = .ok () ∧ w.bindsDirectory old = false ∧ w.bindsDirectory dir = true
  | rename dirA nameA dirB nameB flags =>
      checkName nameA = .ok () ∧ checkName nameB = .ok () ∧
        (flags.has .keepTarget && flags.has .exchange) = false ∧
        w.bindsDirectory dirA = true ∧ w.bindsDirectory dirB = true
  | unlink _ _ | rmdir _ _ | openFile _ _ | readdir _ | read _ _ | readAt _ _ _ | write _ _
  | writeAt _ _ _ | seek _ _ | setLength _ _ => False

/-- What the operation answers when the instance is gone. Two operations look for it before
they make a binding. -/
def Operation.lack (w : World) : Operation → Error
  | link _ _ _ | rename _ _ _ _ _ => .noDevice
  | _ => if (w.host.acquire .binding).1 then .noDevice else .outOfMemory

/-! ## Looking for an instance that is gone -/

namespace Action

/-- The operation fails, and for this cause. -/
def Refused {α : Type} (cause : Error) (x : Action α) (w : World) : Prop :=
  ∃ v, x w = .error cause v

namespace Refused

variable {α β : Type} {cause : Error} {x : Action α} {k : α → Action β}

theorem bind (h : Refused cause x w) : Refused cause (x >>= k) w := by
  obtain ⟨v, failed⟩ := h
  exact ⟨v, bind_of_error failed⟩

/-- A part that succeeds leaves the failure to the rest. -/
theorem after {a : α} (done : x w = .ok a v) (h : Refused cause (k a) v) :
    Refused cause (x >>= k) w := by
  obtain ⟨u, failed⟩ := h
  exact ⟨u, (bind_of_ok done).trans failed⟩

theorem onFailure (h : Refused cause x w) {undo : Error → World → World} :
    Refused cause (x.onFailure undo) w := by
  obtain ⟨v, failed⟩ := h
  exact ⟨_, onFailure_eq_error.2 ⟨v, failed, rfl⟩⟩

end Refused

theorem homeOf_refused (home : w.nodeHome n = some i) (gone : w.instances.has i = false) :
    Refused .noDevice (homeOf n) w := by
  obtain ⟨x, hx, rfl⟩ := nodeHome_eq_some_iff.1 home
  refine .after (node_eq_ok.2 ⟨hx, rfl⟩) (.after (get_eq_ok.2 ⟨rfl, rfl⟩) ?_)
  rw [gone]
  exact ⟨w, throw_eq_error.2 ⟨rfl, rfl⟩⟩

/-- A binding is made before the instance is looked for, unless memory for it is refused. -/
theorem newBinding_refused {α : Type} {x : Action BindingId} {k : BindingId → Action α}
    (same : x w = newBinding dir name w)
    (rest : ∀ {b host bindings}, Refused .noDevice (k b) { w with host, bindings }) :
    Refused (if (w.host.acquire .binding).1 then .noDevice else .outOfMemory) (x >>= k) w := by
  cases acquired : w.host.acquire .binding with
  | mk granted host =>
      cases granted with
      | true => exact .after (same.trans (newBinding_eq_ok.2 ⟨host, acquired, rfl, rfl⟩)) rest
      | false =>
          exact .bind ⟨_, same.trans (newBinding_eq_error.2 ⟨host, acquired, rfl, rfl⟩)⟩

theorem makeName_refused {make : NodeId → BindingId → Action Unit} (free : w.child? dir name = none)
    (made : ∀ {b host bindings}, Refused .noDevice (make n b) { w with host, bindings }) :
    Refused (if (w.host.acquire .binding).1 then .noDevice else .outOfMemory)
      (makeName dir n name make) w := by
  have fresh : freshBinding dir name w = newBinding dir name w := by
    unfold freshBinding
    rw [bind_of_ok (get_eq_ok.2 ⟨rfl, rfl⟩), free]
    rfl
  exact newBinding_refused fresh (.bind made.onFailure)

theorem openUnnamed_refused {mode : Mode} {flags : OpenFlags} (writing : flags.has .writing = true)
    (found : directoryOf dir w = .ok n w) (home : w.nodeHome n = some i)
    (gone : w.instances.has i = false) :
    Refused (if (w.host.acquire .binding).1 then .noDevice else .outOfMemory)
      (openUnnamed dir mode flags) w := by
  unfold openUnnamed
  refine .after found ?_
  rw [writing]
  refine newBinding_refused rfl (.after (total_eq_ok.2 ⟨rfl, rfl⟩) (.bind (.onFailure (.bind ?_))))
  exact homeOf_refused home gone

end Action

/-- An operation on what belongs to an instance that is gone makes nothing. -/
theorem Operation.refused_of_gone {op : Operation} (passes : op.Passes w) (within : op.Within w i)
    (gone : w.instances.has i = false) : Action.Refused (op.lack w) op.act w := by
  have directory : ∀ {d}, w.bindsDirectory d = true → w.bindingHome d = some i →
      ∃ n, Action.directoryOf d w = .ok n w ∧ w.nodeHome n = some i := by
    intro d isDir home
    obtain ⟨n, hn, kind⟩ := bindsDirectory_iff.1 isDir
    exact ⟨n, Action.directoryOf_eq_ok.2 ⟨hn, kind, rfl⟩,
      (bindingHome_of_nodeOf hn).symm.trans home⟩
  have named : ∀ {name}, checkName name = .ok () →
      Action.test (fun _ => checkName name) w = .ok () w :=
    fun valid => Action.test_eq_ok.2 ⟨valid, rfl⟩
  cases op with
  | create dir name mode =>
      obtain ⟨valid, isDir, free⟩ := passes
      obtain ⟨n, found, home⟩ := directory isDir (within.1 dir List.mem_cons_self)
      refine .bind (.after (named valid) (.after found (Action.makeName_refused free ?_)))
      exact .bind (Action.homeOf_refused home gone)
  | mkdir dir name mode =>
      obtain ⟨valid, isDir, free⟩ := passes
      obtain ⟨n, found, home⟩ := directory isDir (within.1 dir List.mem_cons_self)
      refine .bind (.after (named valid) (.after found (Action.makeName_refused free ?_)))
      exact .bind (.bind (Action.homeOf_refused home gone))
  | mknod dir name mode device =>
      obtain ⟨valid, isDir, free, type⟩ := passes
      obtain ⟨n, found, home⟩ := directory isDir (within.1 dir List.mem_cons_self)
      refine .bind (.after (named valid) (.after found ?_))
      split
      · exact Action.makeName_refused free (.bind (Action.homeOf_refused home gone))
      · next irregular =>
          rw [if_pos (or_assoc.2 type |>.resolve_left irregular)]
          exact Action.makeName_refused free (.bind (Action.homeOf_refused home gone))
  | symlink dir name target =>
      obtain ⟨valid, closed, isDir, free⟩ := passes
      obtain ⟨n, found, home⟩ := directory isDir (within.1 dir List.mem_cons_self)
      refine .bind (.after (named valid) ?_)
      rw [closed]
      refine .after found (Action.makeName_refused free ?_)
      exact .bind (Action.homeOf_refused home gone)
  | openUnnamed dir mode flags =>
      obtain ⟨isDir, writing⟩ := passes
      obtain ⟨n, found, home⟩ := directory isDir (within.1 dir List.mem_cons_self)
      exact .bind (Action.openUnnamed_refused writing found home gone)
  | link old dir name =>
      obtain ⟨valid, plain, isDir⟩ := passes
      obtain ⟨t, ht, homeT⟩ := bindingHome_eq_some_iff.1 (within.1 old List.mem_cons_self)
      obtain ⟨n, found, -⟩ := directory isDir
        (within.1 dir (List.mem_cons_of_mem _ List.mem_cons_self))
      have plain : w.isDirectory t = false := by
        unfold World.bindsDirectory at plain
        rwa [ht] at plain
      refine .bind (.after (named valid) (.after (Action.boundNode_eq_ok.2 ⟨ht, rfl⟩) ?_))
      refine .after (Action.get_eq_ok.2 ⟨rfl, rfl⟩) ?_
      rw [plain]
      exact .after found (.bind (Action.homeOf_refused homeT gone))
  | rename dirA nameA dirB nameB flags =>
      obtain ⟨validA, validB, allowed, isDirA, isDirB⟩ := passes
      obtain ⟨nodeA, foundA, homeA⟩ := directory isDirA (within.1 dirA List.mem_cons_self)
      obtain ⟨nodeB, foundB, -⟩ := directory isDirB
        (within.1 dirB (List.mem_cons_of_mem _ List.mem_cons_self))
      refine .after (named validA) (.after (named validB) ?_)
      rw [allowed]
      exact .after foundA (.after foundB (.bind (Action.homeOf_refused homeA gone)))
  | unlink _ _ | rmdir _ _ | openFile _ _ | readdir _ | read _ _ | readAt _ _ _ | write _ _
  | writeAt _ _ _ | seek _ _ | setLength _ _ => exact passes.elim

/-! ## After any run -/

/-- Nothing grows in the instance any more. -/
structure Fallow (i : InstanceId) (w : World) : Prop where
  /-- What passes the checks that come first fails, and changes nothing. -/
  refused : ∀ {op : Operation}, op.Passes w → op.Within w i →
    ∃ v, op.act w = .error (op.lack w) v ∧ Unchanged w v
  /-- Whatever is called, no node, no binding and no entry is added. -/
  fewer : ∀ calls : List Call, Fewer i w (w.run calls)

theorem Homed.fallow (h : Homed w) (s : Sound w []) (known : i < w.instances.nextId)
    (gone : w.instances.has i = false) : Fallow i w where
  refused {op} passes within := by
    obtain ⟨v, failed⟩ := op.refused_of_gone passes within gone
    exact ⟨v, failed, op.act_clean s _ _ failed⟩
  fewer calls := World.fewer_run h s calls known gone

/-- Once nobody owns an instance, nothing grows in it, whatever was called before. -/
theorem no_growth_run (clock : Clock) {calls later : List Call} {i : InstanceId}
    (mounted : ((World.fresh clock).run calls).instances.has i = true)
    (left : ¬ (((World.fresh clock).run calls).run later).Owned (.inst i)) :
    Fallow i (((World.fresh clock).run calls).run later) := by
  have s : Sound ((World.fresh clock).run calls) [] := Sound.fresh.run calls
  have h : Homed ((World.fresh clock).run calls) := World.homed_run .fresh Sound.fresh calls
  generalize (World.fresh clock).run calls = u at *
  have s' : Sound (u.run later) [] := s.run later
  refine (World.homed_run h s later).fallow s' ?_ ?_
  · obtain ⟨x, hx⟩ := Table.has_iff.1 mounted
    exact Nat.lt_of_lt_of_le (Table.get?_lt hx) (World.run_changes s later).instances_kept.next
  · rw [← Bool.not_eq_true]
    intro there
    have known : (u.run later).Has (.inst i) := there
    exact (s'.tended.owned known).elim left nofun

/-- A caller holds the root of an instance that is torn down and let go of. -/
theorem no_growth_run_held :
    let calls : List Call := [.register builtInType, .mount "tagfs" "", .hold (.binding 0)]
    let later : List Call := [.deactivate 0, .drop (.inst 0)]
    let op : Operation := .create 0 "f" ⟨0o644⟩
    let further : List Call := [.operate op, .mount "tagfs" ""]
    let w := ((World.fresh (.steady 0 0 1)).run calls).run later
    ((World.fresh (.steady 0 0 1)).run calls).instances.has 0 = true ∧ ¬ w.Owned (.inst 0) ∧
      op.Passes w ∧ op.Within w 0 ∧ (∃ v, op.act w = .error .noDevice v ∧ Unchanged w v) ∧
      Fewer 0 w (w.run further) := by
  intro calls later op further w
  have mounted : ((World.fresh (.steady 0 0 1)).run calls).instances.has 0 = true := by
    decide +kernel
  have left : ¬ w.Owned (.inst 0) := mt owns_iff.2 (by decide +kernel)
  have passes : op.Passes w := ⟨by decide, by decide +kernel, by decide +kernel⟩
  have within : op.Within w 0 := ⟨List.forall_mem_singleton.2 (by decide +kernel), nofun⟩
  have lack : op.lack w = .noDevice := by decide +kernel
  have fallow : Fallow 0 w := no_growth_run (.steady 0 0 1) mounted left
  obtain ⟨v, failed, same⟩ := fallow.refused passes within
  rw [lack] at failed
  exact ⟨mounted, left, passes, within, ⟨v, failed, same⟩, fallow.fewer further⟩

/-- The caller of a mount owns the instance, and makes a name after the teardown. -/
theorem teardown_not_fallow :
    ¬ ∀ (calls : List Call) (i : InstanceId) (op : Operation),
      ((World.fresh (.steady 0 0 1)).run calls).instances.has i = true →
      op.Passes (((World.fresh (.steady 0 0 1)).run calls).after (.deactivate i)) →
      op.Within (((World.fresh (.steady 0 0 1)).run calls).after (.deactivate i)) i →
        ∃ v, op.act (((World.fresh (.steady 0 0 1)).run calls).after (.deactivate i))
          = .error .noDevice v := by
  intro claim
  let calls : List Call := [.register builtInType, .mount "tagfs" "", .hold (.binding 0)]
  let op : Operation := .create 0 "f" ⟨0o644⟩
  obtain ⟨v, failed⟩ := claim calls 0 op (by decide +kernel)
    ⟨by decide, by decide +kernel, by decide +kernel⟩
    ⟨List.forall_mem_singleton.2 (by decide +kernel), nofun⟩
  have succeeds :
      (match op.act (((World.fresh (.steady 0 0 1)).run calls).after (.deactivate 0)) with
      | .ok _ _ => true
      | .error _ _ => false) = true := by decide +kernel
  rw [failed] at succeeds
  cases succeeds

end Memfs
