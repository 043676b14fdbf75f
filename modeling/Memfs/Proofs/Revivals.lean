import Memfs.Proofs.Turns.Calls

/-!
# Files that have lost their names

A file whose last name was removed stays without one, as long as the removal is what its
count of links shows. There is one way up from no link: a file that was opened without a name
may be given one, once, unless the flags forbid it. `Chronicle` is what a history tells of a
file: that it is linkable says that it was opened so and never linked, and its links are no
more than its names, if none of them was lost but by an operation.

The last condition is needed. A name in a directory that was removed goes with the directory,
and so do all names of a tree with the tree, and the count shows them still.
-/

namespace Memfs

open World

variable {w v : World} {n : NodeId} {b c : BindingId} {s t : LinkCount} {call : Call}
  {calls later : List Call} {P : World → Call → Prop}

/-! ## Histories -/

/-- The links of a file go from none to some. -/
def Call.Revives (w : World) (n : NodeId) (call : Call) : Prop :=
  ∃ x y, w.nodes.get? n = some x ∧ x.isDirectory = false ∧ x.links = 0 ∧
    (w.after call).nodes.get? n = some y ∧ y.links ≠ 0

/-- The call is an operation that takes the last name of a file away. -/
def Call.Unnames (w : World) (n : NodeId) (call : Call) : Prop :=
  (∃ op, call = .operate op) ∧ w.isDirectory n = false ∧ (w.aliases n).Nonempty ∧
    (w.after call).aliases n = ∅

namespace World

/-- Somewhere on the way there is such a call. -/
def Sometime (P : World → Call → Prop) : World → List Call → Prop
  | _, [] => False
  | w, call :: rest => P w call ∨ (w.after call).Sometime P rest

theorem run_concat : w.run (calls ++ [call]) = (w.run calls).after call := by
  unfold run
  rw [List.foldl_append]
  rfl

theorem sometime_concat :
    w.Sometime P (calls ++ [call]) ↔ w.Sometime P calls ∨ P (w.run calls) call := by
  induction calls generalizing w with
  | nil => simp [Sometime, run]
  | cons first rest ih =>
      rw [List.cons_append, Sometime, ih, run_cons, Sometime, or_assoc]

/-- The node has no name and no links, and nobody can give it another name. -/
structure Nameless (w : World) (n : NodeId) : Prop where
  unnamed : w.aliases n = ∅
  spent : ∀ x, w.nodes.get? n = some x → x.links = 0
  refused : ∀ old dir name, w.nodeOf old = some n → ∃ e v, Action.link old dir name w = .error e v

end World

/-- The state of a run: what the steps rely on. -/
structure Ordered (w : World) : Prop where
  sound : Sound w []
  barred : w.Barred

namespace Ordered

theorem after (o : Ordered w) : Ordered (w.after call) where
  sound := o.sound.after call
  barred := (after_changes o.sound.forest call).keeps (P := Barred) (fun c h => h.change c) o.barred

theorem run (clock : Clock) (calls : List Call) : Ordered ((World.fresh clock).run calls) :=
  ⟨Sound.fresh.run calls, .run clock calls⟩

theorem turn (o : Ordered w) (hv : (w.after call).linkCount n = some t) :
    Turn w (w.after call) call n t :=
  .after o.sound o.barred call hv

/-- A number that was given to a file is given to no directory. -/
theorem file_kept (o : Ordered w) (known : n < w.nodes.nextId)
    (file : w.isDirectory n = false) : (w.after call).isDirectory n = false := by
  unfold World.isDirectory at file ⊢
  cases hy : (w.after call).nodes.get? n with
  | none => rfl
  | some y =>
      obtain ⟨x, hx, akin⟩ := (after_changes o.sound.forest call).node_kept known hy
      rw [hx, Option.any_some, Node.isDirectory] at file
      rw [Option.any_some, Node.isDirectory, akin.kind, file]

end Ordered

theorem World.linkCount_of_get? {x : Node} (hx : w.nodes.get? n = some x)
    (file : w.isDirectory n = false) : w.linkCount n = some ⟨x.links, x.linkable⟩ := by
  rw [World.isDirectory, hx] at file
  exact linkCount_eq_some_iff.2 ⟨x, hx, file, rfl, rfl⟩

/-- Both counts are those of a file. -/
theorem Call.revives_iff (o : Ordered w) : call.Revives w n ↔ ∃ s t, w.linkCount n = some s ∧
    s.links = 0 ∧ (w.after call).linkCount n = some t ∧ t.links ≠ 0 := by
  constructor
  · rintro ⟨x, y, hx, file, none, hy, some⟩
    have before : w.isDirectory n = false := by
      rw [World.isDirectory, hx]
      exact file
    exact ⟨_, _, linkCount_of_get? hx before, none,
      linkCount_of_get? hy (o.file_kept (Table.get?_lt hx) before), some⟩
  · rintro ⟨s, t, before, none, after, some⟩
    obtain ⟨x, hx, file, links, -⟩ := linkCount_eq_some_iff.1 before
    obtain ⟨y, hy, -, links', -⟩ := linkCount_eq_some_iff.1 after
    exact ⟨x, y, hx, file, links.trans none, hy, links' ▸ some⟩

/-- The links of a file come up from none by a link, and only if it is linkable. -/
theorem Call.Revives.linked (o : Ordered w) (revived : call.Revives w n) :
    ∃ s, w.linkCount n = some s ∧ s.links = 0 ∧ s.linkable = true ∧ call.Links w n ∧
      (w.after call).linkCount n = some s.addLink := by
  obtain ⟨s, t, before, none, after, some⟩ := (Call.revives_iff o).1 revived
  have known := lt_of_linkCount before
  cases o.turn after with
  | kept same =>
      cases before.symm.trans same
      exact absurd none some
  | linked same asked allowed more =>
      cases before.symm.trans same
      exact ⟨s, before, none, allowed.resolve_left fun links => links none, asked, more ▸ after⟩
  | unlinked same less =>
      cases before.symm.trans same
      rw [less, LinkCount.dropLink, if_pos none] at some
      exact absurd rfl some
  | born unborn => exact absurd known (Nat.not_lt.2 unborn)
  | unnamed unborn => exact absurd known (Nat.not_lt.2 unborn)

/-- A file that is linked is there. -/
theorem Call.Links.known (sound : Sound w []) (h : call.Links w n) : n < w.nodes.nextId := by
  obtain ⟨old, -, -, -, hold, -⟩ := h
  exact sound.known_of_nodeOf hold

/-- A file that is linked has a new name. -/
theorem Call.Links.gains (sound : Sound w []) (h : call.Links w n) :
    ∃ b, ¬ w.Alias n b ∧ (w.after call).Alias n b := by
  obtain ⟨old, dir, name, rfl, hold, succeeds⟩ := h
  obtain ⟨b, done⟩ := Action.exists_of_discard_ok (Operation.act_of_succeeds succeeds)
  obtain ⟨m, stands, linked⟩ := linked_of_link sound done
  cases hold.symm.trans stands
  refine ⟨b, fun taken => ?_, linked.names.2 (.inl ⟨rfl, rfl⟩)⟩
  cases linked.negative.symm.trans taken.1

/-! ## What a history tells -/

/-- What is true of the file `n` after the calls. -/
structure Chronicle (start : World) (calls : List Call) (n : NodeId) : Prop where
  unborn : (start.run calls).nodes.nextId ≤ n → ¬ start.Sometime (fun w c => c.Links w n) calls
  linkable : ∀ {s}, (start.run calls).linkCount n = some s → s.linkable = true →
    s.links = 0 ∧ (∀ c, ¬ (start.run calls).Alias n c) ∧
      start.Sometime (fun w c => c.MakesUnnamed w n false) calls ∧
      ¬ start.Sometime (fun w c => c.Links w n) calls
  named : ¬ start.Sometime (fun w c => c.Loses w n) calls →
    ∀ {s}, (start.run calls).linkCount n = some s →
      s.links.toNat ≤ ((start.run calls).aliases n).card

namespace Chronicle

variable {start : World}

/-- The right to be given a name is not given later, and goes with the first link. -/
theorem step_linkable (o : Ordered (start.run calls)) (h : Chronicle start calls n)
    (hv : ((start.run calls).after call).linkCount n = some t) (linkable : t.linkable = true) :
    t.links = 0 ∧ (∀ c, ¬ ((start.run calls).after call).Alias n c) ∧
      start.Sometime (fun w c => c.MakesUnnamed w n false) (calls ++ [call]) ∧
      ¬ start.Sometime (fun w c => c.Links w n) (calls ++ [call]) := by
  rw [sometime_concat, sometime_concat, not_or]
  cases o.turn hv with
  | kept before old lost =>
      obtain ⟨none, unnamed, made, unlinked⟩ := h.linkable before linkable
      refine ⟨none, fun c named => unnamed c (old c named), .inl made, unlinked, fun asked => ?_⟩
      obtain ⟨b, fresh, named⟩ := asked.gains o.sound
      exact fresh (old b named)
  | linked before asked allowed more fresh names =>
      rw [more] at linkable
      obtain ⟨was, some⟩ := LinkCount.addLink_linkable linkable
      exact absurd (h.linkable before was).1 some
  | unlinked before less taken names =>
      rw [less] at linkable
      exact absurd taken ((h.linkable before linkable).2.1 _)
  | born unborn one named =>
      rw [one] at linkable
      cases linkable
  | @unnamed exclusive unborn made none names =>
      rw [none] at linkable ⊢
      have may : exclusive = false := by simpa using linkable
      exact ⟨rfl, names, .inr (may ▸ made), h.unborn unborn, fun asked =>
        absurd (asked.known o.sound) (Nat.not_lt.2 unborn)⟩

/-- A link comes with a name, and does not stay when the name goes by an operation. -/
theorem step_named (o : Ordered (start.run calls)) (h : Chronicle start calls n)
    (kept : ¬ start.Sometime (fun w c => c.Loses w n) (calls ++ [call]))
    (hv : ((start.run calls).after call).linkCount n = some t) :
    t.links.toNat ≤ (((start.run calls).after call).aliases n).card := by
  rw [sometime_concat, not_or] at kept
  obtain ⟨past, now⟩ := kept
  have named : ∀ {p}, (start.run calls).linkCount n = some p →
      p.links.toNat ≤ ((start.run calls).aliases n).card := fun hp => h.named past hp
  generalize start.run calls = w at *
  cases o.turn hv with
  | kept before old lost =>
      have same : (w.after call).aliases n = w.aliases n := by
        ext c
        rw [mem_aliases, mem_aliases]
        exact ⟨old c, fun was => Classical.byContradiction fun gone => now (lost c was gone)⟩
      rw [same]
      exact named before
  | @linked s b before asked allowed more fresh names =>
      have one : (w.after call).aliases n = insert b (w.aliases n) := by
        ext c
        rw [Finset.mem_insert, mem_aliases, mem_aliases, names]
      rw [one, Finset.card_insert_of_notMem (mt mem_aliases.1 fresh), more]
      exact LinkCount.toNat_addLink_le.trans (Nat.succ_le_succ (named before))
  | @unlinked s b before less taken names =>
      have one : (w.after call).aliases n = (w.aliases n).erase b := by
        ext c
        rw [Finset.mem_erase, mem_aliases, mem_aliases, names, and_comm]
      rw [one, Finset.card_erase_of_mem (mem_aliases.2 taken), less, LinkCount.toNat_dropLink]
      exact Nat.sub_le_sub_right (named before) 1
  | born unborn one named =>
      rw [one]
      exact Finset.card_pos.2 ⟨_, mem_aliases.2 named⟩
  | unnamed unborn made none names =>
      rw [none]
      exact Nat.zero_le _

theorem step (o : Ordered (start.run calls)) (h : Chronicle start calls n) :
    Chronicle start (calls ++ [call]) n where
  unborn later := by
    rw [run_concat] at later
    have unborn := (after_changes o.sound.forest call).nodes_kept.next.trans later
    rw [sometime_concat, not_or]
    exact ⟨h.unborn unborn, fun asked => absurd (asked.known o.sound) (Nat.not_lt.2 unborn)⟩
  linkable {t} hv linkable := by
    rw [run_concat] at hv ⊢
    exact h.step_linkable o hv linkable
  named kept {t} hv := by
    rw [run_concat] at hv ⊢
    exact h.step_named o kept hv

theorem run (clock : Clock) (calls : List Call) (n : NodeId) :
    Chronicle (World.fresh clock) calls n := by
  induction calls using List.reverseRecOn with
  | nil =>
      have none : ∀ {s}, (World.fresh clock).linkCount n ≠ some s := by
        intro s h
        obtain ⟨x, hx, -⟩ := linkCount_eq_some_iff.1 h
        rw [World.fresh, Table.get?_empty] at hx
        cases hx
      exact ⟨fun _ => id, fun h => absurd h none, fun _ _ h => absurd h none⟩
  | append_singleton calls call ih => exact ih.step (.run clock calls)

end Chronicle

/-! ## What stays -/

/-- The file is there, or was, and is not linkable. -/
structure World.Unlinkable (w : World) (n : NodeId) : Prop where
  known : n < w.nodes.nextId
  never : ∀ {s}, w.linkCount n = some s → s.linkable = false

namespace World.Unlinkable

theorem after (h : w.Unlinkable n) (o : Ordered w) : (w.after call).Unlinkable n where
  known := h.known.trans_le (after_changes o.sound.forest call).nodes_kept.next
  never {t} hv := by
    cases o.turn hv with
    | kept before => exact h.never before
    | linked before asked allowed more =>
        rw [more, LinkCount.addLink, h.never before]
        rfl
    | @unlinked s b before less =>
        rw [less]
        exact h.never (s := s) before
    | born unborn => exact absurd h.known (Nat.not_lt.2 unborn)
    | unnamed unborn => exact absurd h.known (Nat.not_lt.2 unborn)

/-- From no link there is no way up. -/
theorem not_revives (h : w.Unlinkable n) (o : Ordered w) : ¬ call.Revives w n := by
  intro revived
  obtain ⟨s, before, -, linkable, -⟩ := revived.linked o
  cases linkable.symm.trans (h.never before)

theorem not_sometime_revives (h : w.Unlinkable n) (o : Ordered w) :
    ¬ w.Sometime (fun w c => c.Revives w n) later := by
  induction later generalizing w with
  | nil => exact id
  | cons call rest ih => exact not_or.2 ⟨h.not_revives o, ih (h.after o) o.after⟩

end World.Unlinkable

/-- Besides, the file has no name and no links, and so will have none. -/
structure World.Buried (w : World) (n : NodeId) : Prop extends w.Unlinkable n where
  file : w.isDirectory n = false
  spent : ∀ {s}, w.linkCount n = some s → s.links = 0
  unnamed : ∀ c, ¬ w.Alias n c

namespace World.Buried

/-- It is not linked, and so nothing happens to it but that it goes. -/
theorem still (h : w.Buried n) (o : Ordered w) (hv : (w.after call).linkCount n = some t) :
    t.links = 0 ∧ ∀ c, ¬ (w.after call).Alias n c := by
  cases o.turn hv with
  | kept before old => exact ⟨h.spent before, fun c named => h.unnamed c (old c named)⟩
  | linked before asked allowed =>
      exact absurd allowed (LinkCount.not_allowed (h.spent before) (h.never before))
  | unlinked before less taken => exact absurd taken (h.unnamed _)
  | born unborn => exact absurd h.known (Nat.not_lt.2 unborn)
  | unnamed unborn => exact absurd h.known (Nat.not_lt.2 unborn)

theorem after (h : w.Buried n) (o : Ordered w) : (w.after call).Buried n where
  toUnlinkable := h.toUnlinkable.after o
  file := o.file_kept h.known h.file
  spent hv := (h.still o hv).1
  unnamed c named := by
    -- what has a name is there
    have s : Sound (w.after call) [] := o.after.sound
    obtain ⟨y, hy⟩ := Table.has_iff.1 (s.tended.there (owned_of_nodeOf named.1))
    exact (h.still o (linkCount_of_get? hy (o.file_kept h.known h.file))).2 c named

theorem run (h : w.Buried n) (o : Ordered w) : (w.run later).Buried n := by
  induction later generalizing w with
  | nil => exact h
  | cons call rest ih =>
      rw [run_cons]
      exact ih (h.after o) o.after

theorem nameless (h : w.Buried n) : w.Nameless n where
  unnamed := aliases_eq_empty.2 h.unnamed
  spent x hx := h.spent (linkCount_of_get? hx h.file)
  refused old dir name hold := by
    cases done : Action.link old dir name w with
    | error e v => exact ⟨e, v, rfl⟩
    | ok b v =>
        obtain ⟨-, m, -, x, stands, -, hx, allowed, -⟩ := Action.link_ok done
        cases hold.symm.trans stands
        have count := linkCount_of_get? hx h.file
        exact absurd allowed (LinkCount.not_allowed (h.spent count) (h.never count))

end World.Buried

/-! ## What puts a file beyond reach -/

namespace Chronicle

variable {start : World}

/-- A file gets its first link by being linked, and only if it was opened for that. -/
theorem of_revives (o : Ordered (start.run calls)) (h : Chronicle start calls n)
    (revived : call.Revives (start.run calls) n) :
    call.Links (start.run calls) n ∧
      start.Sometime (fun w c => c.MakesUnnamed w n false) calls ∧
      ¬ start.Sometime (fun w c => c.Links w n) calls ∧
      ((start.run calls).after call).Unlinkable n := by
  obtain ⟨s, before, none, linkable, asked, after⟩ := revived.linked o
  obtain ⟨-, -, made, unlinked⟩ := h.linkable before linkable
  refine ⟨asked, made, unlinked, lt_of_linkCount after, fun {p} hp => ?_⟩
  cases after.symm.trans hp
  rw [LinkCount.addLink, none]
  simp

/-- The last name goes with the last link. -/
theorem buried_of_unnames (o : Ordered (start.run calls)) (h : Chronicle start calls n)
    (unnames : call.Unnames (start.run calls) n)
    (kept : ¬ start.Sometime (fun w c => c.Loses w n) calls) :
    ((start.run calls).after call).Buried n := by
  obtain ⟨⟨op, rfl⟩, file, ⟨b, mem⟩, empty⟩ := unnames
  have named := mem_aliases.1 mem
  have known := o.sound.known_of_nodeOf named.1
  have gone := aliases_eq_empty.1 empty
  have past : ¬ start.Sometime (fun w c => c.Loses w n) (calls ++ [.operate op]) := by
    rw [sometime_concat, not_or]
    exact ⟨kept, fun loses => loses.1 op rfl⟩
  have links : ∀ {t}, ((start.run calls).after (.operate op)).linkCount n = some t →
      t.links.toNat ≤ 0 := fun hv => by
    have le := h.step_named o past hv
    rwa [empty] at le
  have unlinkable : (start.run calls).Unlinkable n := by
    refine ⟨known, fun {s} before => ?_⟩
    cases linkable : s.linkable with
    | false => rfl
    | true => exact absurd named ((h.linkable before linkable).2.1 b)
  exact ⟨unlinkable.after o, o.file_kept known file,
    fun hv => UInt32.toNat_inj.1 (Nat.le_zero.1 (links hv)), gone⟩

end Chronicle

/-- A file that is opened exclusively is out of reach from the beginning. -/
theorem Ordered.buried_of_exclusive (o : Ordered w) (made : call.MakesUnnamed w n true) :
    (w.after call).Buried n := by
  obtain ⟨dir, mode, flags, rfl, exclusive, rfl, succeeds⟩ := made
  obtain ⟨f, done⟩ := Action.exists_of_discard_ok (Operation.act_of_succeeds succeeds)
  have opened := opened_of_openUnnamed o.sound done
  rw [exclusive] at opened
  have count := opened.counts.trans (if_pos rfl)
  refine ⟨⟨lt_of_linkCount count, fun hv => ?_⟩, isDirectory_of_linkCount count, fun hv => ?_,
    fun c named => ?_⟩
  · cases count.symm.trans hv
    rfl
  · cases count.symm.trans hv
    rfl
  · exact absurd (o.sound.known_of_nodeOf (opened.names.1 named).1) (Nat.lt_irrefl _)

/-! ## After any run -/

/-- In every run: the links of a file go from none to some by a link, at most once, and only if
the file was opened without a name, not exclusively, and was never linked before. A file that
was opened exclusively is never given a name. And one that loses its last name by an operation
is never given another, if no name of it was lost in another way before. -/
theorem revival_run (clock : Clock) (before : List Call) (call : Call) (n : NodeId) :
    let start := World.fresh clock
    let w := start.run before
    (call.Revives w n → call.Links w n ∧
      start.Sometime (fun w c => c.MakesUnnamed w n false) before ∧
      ¬ start.Sometime (fun w c => c.Links w n) before ∧
      ∀ later, ¬ (w.after call).Sometime (fun w c => c.Revives w n) later) ∧
    (call.MakesUnnamed w n true → ∀ later, ((w.after call).run later).Nameless n) ∧
    (call.Unnames w n → ¬ start.Sometime (fun w c => c.Loses w n) before →
      ∀ later, ((w.after call).run later).Nameless n) := by
  intro start w
  have o : Ordered w := .run clock before
  have told : Chronicle start before n := .run clock before n
  refine ⟨fun revived => ?_, fun made later => ?_, fun unnames kept later => ?_⟩
  · obtain ⟨asked, made, unlinked, never⟩ := told.of_revives o revived
    exact ⟨asked, made, unlinked, fun later => never.not_sometime_revives o.after⟩
  · exact ((o.buried_of_exclusive made).run o.after).nameless
  · exact ((told.buried_of_unnames o unnames kept).run o.after).nameless

/-- A file is opened without a name, is linked and is unlinked again while it is open. Another
one is opened exclusively. -/
theorem revival_run_unlinked :
    let start := World.fresh (.steady 0 0 1)
    let mounted : List Call := [.register builtInType, .mount "tagfs" ""]
    let opened := mounted ++ [.operate (.openUnnamed 0 ⟨0o600⟩ .writing)]
    let link : Call := .operate (.link 1 0 "a")
    let unlink : Call := .operate (.unlink 0 "a")
    let exclude : Call := .operate (.openUnnamed 0 ⟨0o600⟩ (OpenFlags.writing.union .exclusive))
    link.Revives (start.run opened) 1 ∧ unlink.Unnames (start.run (opened ++ [link])) 1 ∧
      ¬ start.Sometime (fun w c => c.Loses w 1) (opened ++ [link]) ∧
      exclude.MakesUnnamed (start.run mounted) 1 true ∧
      (∀ later, ¬ ((start.run opened).after link).Sometime (fun w c => c.Revives w 1) later) ∧
      (∀ later, (((start.run (opened ++ [link])).after unlink).run later).Nameless 1) ∧
      ∀ later, (((start.run mounted).after exclude).run later).Nameless 1 := by
  intro start mounted opened link unlink exclude
  have revives : link.Revives (start.run opened) 1 :=
    (Call.revives_iff (.run _ _)).2 ⟨⟨0, true⟩, ⟨1, false⟩, by decide +kernel, rfl,
      by decide +kernel, by decide⟩
  have unnames : unlink.Unnames (start.run (opened ++ [link])) 1 :=
    ⟨⟨_, rfl⟩, by decide +kernel, ⟨2, by decide +kernel⟩, by decide +kernel⟩
  have kept : ¬ start.Sometime (fun w c => c.Loses w 1) (opened ++ [link]) := by
    rintro (⟨-, c, was, -⟩ | ⟨-, c, was, -⟩ | ⟨other, -⟩ | ⟨other, -⟩ | none)
    · exact aliases_eq_empty.1 (by decide +kernel) c was
    · exact aliases_eq_empty.1 (by decide +kernel) c was
    · exact other _ rfl
    · exact other _ rfl
    · exact none
  have made : exclude.MakesUnnamed (start.run mounted) 1 true :=
    ⟨0, ⟨0o600⟩, _, rfl, by decide, by decide +kernel, by decide +kernel⟩
  exact ⟨revives, unnames, kept, made,
    ((revival_run (.steady 0 0 1) opened link 1).1 revives).2.2.2,
    (revival_run (.steady 0 0 1) (opened ++ [link]) unlink 1).2.2 unnames kept,
    (revival_run (.steady 0 0 1) mounted exclude 1).2.1 made⟩

/-- A file has a second name in a directory that was removed. The directory goes, and with it
the name but not its link. So the file, which then loses its first name, can be linked again. -/
theorem unlinked_not_nameless :
    ¬ ∀ (before later : List Call) (call : Call) (n : NodeId),
      call.Unnames ((World.fresh (.steady 0 0 1)).run before) n →
      ((((World.fresh (.steady 0 0 1)).run before).after call).run later).Nameless n := by
  intro claim
  let before : List Call := [.register builtInType, .mount "tagfs" "",
    .operate (.mkdir 0 "d" ⟨0o755⟩), .hold (.binding 1), .operate (.rmdir 0 "d"),
    .operate (.create 0 "f" ⟨0o644⟩), .hold (.binding 2), .operate (.link 2 1 "g"),
    .drop (.binding 1)]
  let unlink : Call := .operate (.unlink 0 "f")
  let w := ((World.fresh (.steady 0 0 1)).run before).after unlink
  have nameless : w.Nameless 2 := claim before [] unlink 2
    ⟨⟨_, rfl⟩, by decide +kernel, ⟨2, by decide +kernel⟩, by decide +kernel⟩
  obtain ⟨e, v, refused⟩ := nameless.refused 2 0 "h" (by decide +kernel)
  have accepted : (match Action.link 2 0 "h" w with
      | .ok _ _ => true
      | .error _ _ => false) = true := by decide +kernel
  rw [refused] at accepted
  cases accepted

end Memfs
