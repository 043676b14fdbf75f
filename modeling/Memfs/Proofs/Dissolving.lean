import Memfs.Proofs.Steady.Mounts

/-!
# Taking a tree apart

A teardown dissolves the root of a tree, and a directory that is dissolved leaves the work
of dissolving, unpinning and letting go of what was in it. `Dissolving` says what is so in
the middle of this work: a binding of the tree that has a pin is still to be unpinned or
is still in a directory, and a directory that has entries is still to be dissolved or is
still in a directory. When no work is left, there is no directory with entries, for there
would have to be one above it.

A binding that goes while there are entries in it would hand them to nobody who unpins
them. So it matters that the work on a binding begins with dissolving it: `Primed` says
that a binding is dissolved before it is let go of.
-/

namespace Memfs

open World

variable {u v : World} {tree filled filled' : BindingId → Prop} {todo tasks : List Task}
  {a b c d : BindingId} {n : NodeId} {x : Binding}

/-- The work is on the tree and on nodes. -/
def Task.On (tree : BindingId → Prop) : Task → Prop
  | .letGo (.node _) => True
  | .letGo (.binding b) | .dissolve b | .unpin b => tree b
  | .letGo (.inst _) | .dispose _ => False

/-- No binding is let go of while there are entries in it. -/
def Primed (filled : BindingId → Prop) : List Task → Prop
  | [] => True
  | .dissolve b :: rest => Primed (fun c => filled c ∧ c ≠ b) rest
  | .letGo (.binding b) :: rest => ¬ filled b ∧ Primed filled rest
  | _ :: rest => Primed filled rest

namespace Primed

theorem mono (h : Primed filled todo) (fewer : ∀ b, filled' b → filled b) :
    Primed filled' todo := by
  induction todo generalizing filled filled' with
  | nil => trivial
  | cons task rest ih =>
      cases task with
      | dissolve b => exact ih h fun c hc => ⟨fewer c hc.1, hc.2⟩
      | unpin b => exact ih h fewer
      | dispose data => exact ih h fewer
      | letGo ref =>
          cases ref with
          | node n => exact ih h fewer
          | inst i => exact ih h fewer
          | binding b => exact ⟨mt (fewer b) h.1, ih h.2 fewer⟩

theorem append (h : Primed filled tasks) (rest : Primed filled todo) :
    Primed filled (tasks ++ todo) := by
  induction tasks generalizing filled with
  | nil => exact rest
  | cons task tail ih =>
      cases task with
      | dissolve b => exact ih h (rest.mono fun _ => And.left)
      | unpin b => exact ih h rest
      | dispose data => exact ih h rest
      | letGo ref =>
          cases ref with
          | node n => exact ih h rest
          | inst i => exact ih h rest
          | binding b => exact ⟨h.1, ih h.2 rest⟩

/-- Letting go of one object more or less makes no difference to the rest. -/
theorem tail {ref : Ref} (h : Primed filled (.letGo ref :: todo)) : Primed filled todo := by
  cases ref with
  | node n => exact h
  | inst i => exact h
  | binding b => exact h.2

/-- What is in a directory is taken apart in the right order. -/
theorem below (bs : List BindingId) : Primed filled
    (bs.flatMap fun c => [.dissolve c, .unpin c, .letGo (.binding c)]) := by
  induction bs generalizing filled with
  | nil => trivial
  | cons c rest ih => exact ⟨fun h => h.2 rfl, ih⟩

end Primed

/-- The tree is taken apart. -/
structure Dissolving (u : World) (tree : BindingId → Prop) (v : World) (todo : List Task) :
    Prop where
  sound : Sound v todo
  spared : Spared u v
  on : ∀ task ∈ todo, task.On tree
  outside : ∀ b, ¬ tree b → v.bindings.get? b = u.bindings.get? b
  pinned : ∀ {b x}, tree b → v.bindings.get? b = some x →
    x.pins = 0 ∨ x.pins = 1 ∧ (.unpin b ∈ todo ∨ ∃ d, v.Entered d b)
  filled : ∀ {b c}, tree b → v.Entered b c → .dissolve b ∈ todo ∨ ∃ d, v.Entered d b
  primed : Primed (fun b => ∃ c, v.Entered b c) todo

namespace World

/-- One pin at most is taken off. -/
theorem pins_unpin (hx : (v.unpin b).bindings.get? b = some x) :
    ∃ y, v.bindings.get? b = some y ∧ (y.pins = 0 ∨ y.pins = 1 → x.pins = 0) := by
  unfold World.unpin at hx
  cases hy : v.bindings.get? b with
  | none =>
      rw [hy] at hx
      cases hy.symm.trans hx
  | some y =>
      refine ⟨y, rfl, fun pins => ?_⟩
      rw [hy] at hx
      simp only at hx
      split at hx
      · next zero =>
          cases hy.symm.trans hx
          exact zero
      · next pinned =>
          rw [World.modifyBinding, Table.get?_modify, if_pos rfl, hy] at hx
          cases hx
          show y.pins - 1 = 0
          rw [pins.resolve_left pinned]
          rfl

end World

namespace Dissolving

/-- Work that unpins another binding or none is not what the pin waits for. -/
theorem still_pinned {task : Task} (h : Dissolving u tree v (task :: todo))
    (other : task ≠ .unpin b) (inside : tree b) (hx : v.bindings.get? b = some x) :
    x.pins = 0 ∨ x.pins = 1 ∧ (.unpin b ∈ todo ∨ ∃ d, v.Entered d b) := by
  refine (h.pinned inside hx).imp id fun ⟨one, why⟩ => ⟨one, why.imp (fun mem => ?_) id⟩
  exact (List.mem_cons.1 mem).resolve_left fun same => other same.symm

theorem still_filled {task : Task} (h : Dissolving u tree v (task :: todo))
    (other : task ≠ .dissolve b) (inside : tree b) (entered : v.Entered b c) :
    .dissolve b ∈ todo ∨ ∃ d, v.Entered d b := by
  refine (h.filled inside entered).imp (fun mem => ?_) id
  exact (List.mem_cons.1 mem).resolve_left fun same => other same.symm

theorem still_on {task : Task} (h : Dissolving u tree v (task :: todo)) :
    ∀ task ∈ todo, task.On tree :=
  fun task mem => h.on task (List.mem_cons_of_mem _ mem)

/-- The pin is off, and nothing else has changed. -/
theorem stepUnpin (h : Dissolving u tree v (.unpin b :: todo)) :
    Dissolving u tree (v.unpin b) todo := by
  obtain ⟨-, -, others⟩ := v.unpin_frame b
  have inside : tree b := h.on _ List.mem_cons_self
  have entered : ∀ d c, (v.unpin b).Entered d c ↔ v.Entered d c := fun d c =>
    entered_of_child? fun _ _ => SameTree.unpin.child?
  refine ⟨Sound.settling.unpinned h.sound, h.spared.unpin, h.still_on, fun c out => ?_,
    fun {c x} inTree hx => ?_, fun {d c} inTree inside => ?_, ?_⟩
  · have hne : c ≠ b := fun e => out (e ▸ inside)
    exact (others c hne).trans (h.outside c out)
  · by_cases e : c = b
    · subst e
      obtain ⟨y, hy, off⟩ := pins_unpin hx
      exact .inl (off ((h.pinned inTree hy).imp id And.left))
    · rw [others c e] at hx
      have same := h.still_pinned (fun same => e (Task.unpin.inj same).symm) inTree hx
      exact same.imp id fun ⟨one, why⟩ =>
        ⟨one, why.imp id fun ⟨d, inside⟩ => ⟨d, (entered d c).2 inside⟩⟩
  · exact (h.still_filled nofun inTree ((entered d c).1 inside)).imp id
      fun ⟨a, inside⟩ => ⟨a, (entered a d).2 inside⟩
  · have primed : Primed (fun d => ∃ c, v.Entered d c) todo := h.primed
    exact primed.mono fun d ⟨c, inside⟩ => ⟨c, (entered d c).1 inside⟩

/-- A directory is emptied, and the work on what was in it is listed. -/
theorem stepDissolve (down : ∀ {d c}, tree d → u.Entered d c → tree c)
    (hx : v.bindings.get? b = some x) (h : Dissolving u tree v (.dissolve b :: todo)) :
    Dissolving u tree (v.modifyBinding b ({ · with children := ∅ })) (x.dissolution ++ todo) := by
  have inside : tree b := h.on _ List.mem_cons_self
  have below : ∀ {c}, v.Entered b c ↔ c ∈ x.below := fun {c} => by
    unfold World.Entered
    simp only [child?_of_get? hx, Binding.mem_below]
  have tasks : ∀ {c}, c ∈ x.below → .dissolve c ∈ x.dissolution ∧ .unpin c ∈ x.dissolution :=
    fun mem => ⟨Binding.mem_dissolution.2 ⟨_, mem, .inl rfl⟩,
      Binding.mem_dissolution.2 ⟨_, mem, .inr (.inl rfl)⟩⟩
  -- what was in a directory is in it still, or the work on it was just listed
  have moved : ∀ {c}, (∃ d, v.Entered d c) → c ∈ x.below ∨
      ∃ d, (v.modifyBinding b ({ · with children := ∅ })).Entered d c := by
    rintro c ⟨d, entered⟩
    by_cases e : d = b
    · exact .inl (below.1 (e ▸ entered))
    · exact .inr ⟨d, (entered_dissolve hx).2 ⟨e, entered⟩⟩
  refine ⟨Sound.settling.dissolved hx h.sound, h.spared.dissolve, fun task mem => ?_,
    fun c out => ?_, fun {c y} inTree hy => ?_, fun {d c} inTree entered => ?_, ?_⟩
  · rcases List.mem_append.1 mem with mem | mem
    · obtain ⟨c, hc, same⟩ := Binding.mem_dissolution.1 mem
      have inTree : tree c := down inside (h.spared.entered (below.2 hc))
      rcases same with rfl | rfl | rfl
      · exact inTree
      · exact inTree
      · exact inTree
    · exact h.on task (List.mem_cons_of_mem _ mem)
  · have hne : c ≠ b := fun e => out (e ▸ inside)
    exact ((get?_modifyBinding hx).trans (if_neg hne)).trans (h.outside c out)
  · obtain ⟨z, hz, pins⟩ := pins_dissolve hx hy
    rw [pins]
    refine (h.still_pinned nofun inTree hz).imp id fun ⟨one, why⟩ => ⟨one, ?_⟩
    rcases why with mem | entered
    · exact .inl (List.mem_append_right _ mem)
    · exact (moved entered).imp (fun mem => List.mem_append_left _ (tasks mem).2) id
  · obtain ⟨hne, entered⟩ := (entered_dissolve hx).1 entered
    rcases h.still_filled (fun same => hne (Task.dissolve.inj same).symm) inTree entered with
      mem | entered
    · exact .inl (List.mem_append_right _ mem)
    · exact (moved entered).imp (fun mem => List.mem_append_left _ (tasks mem).1) id
  · have primed : Primed (fun d => (∃ c, v.Entered d c) ∧ d ≠ b) todo := h.primed
    refine Primed.append (.below _) (primed.mono fun d ⟨c, entered⟩ => ?_)
    obtain ⟨hne, entered⟩ := (entered_dissolve hx).1 entered
    exact ⟨⟨c, entered⟩, hne⟩

/-- There is nothing to dissolve. -/
theorem stepAbsent (hx : v.bindings.get? b = none)
    (h : Dissolving u tree v (.dissolve b :: todo)) : Dissolving u tree v todo := by
  have none : ∀ {d c}, v.Entered d c → d ≠ b := by
    rintro d c ⟨k, entry⟩ rfl
    obtain ⟨y, hy, -⟩ := child?_eq_some_iff.1 entry
    cases hx.symm.trans hy
  have primed : Primed (fun d => (∃ c, v.Entered d c) ∧ d ≠ b) todo := h.primed
  exact ⟨Sound.settling.absent hx h.sound, h.spared, h.still_on, h.outside, h.still_pinned nofun,
    fun inTree entered => h.still_filled
      (fun same => none entered (Task.dissolve.inj same).symm) inTree entered,
    primed.mono fun d ⟨c, entered⟩ => ⟨⟨c, entered⟩, none entered⟩⟩

/-- A binding that goes has no entries any more, so it hands on its node only. -/
theorem stepRemove (hx : v.bindings.get? b = some x) (free : ¬ v.Owned (.binding b))
    (h : Dissolving u tree v (.letGo (.binding b) :: todo)) :
    Dissolving u tree (v.removeBinding b) (x.owned ++ todo) := by
  have inside : tree b := h.on _ List.mem_cons_self
  have empty : ∀ c, ¬ v.Entered b c := fun c entered => h.primed.1 ⟨c, entered⟩
  have owned : x.owned = x.node.toList.map fun n => .letGo (.node n) := by
    have none : x.below = [] := List.eq_nil_iff_forall_not_mem.2 fun c mem => by
      obtain ⟨k, hk⟩ := Binding.mem_below.1 mem
      exact empty c ⟨k, child?_eq_some_iff.2 ⟨x, hx, hk⟩⟩
    unfold Binding.owned
    rw [none, List.map_nil, List.append_nil]
  have entered : ∀ {d c}, v.Entered d c → (v.removeBinding b).Entered d c := fun {d c} inside => by
    have hne : d ≠ b := fun e => empty c (e ▸ inside)
    exact entered_removeBinding.2 ⟨hne, inside⟩
  have before : ∀ {d c}, (v.removeBinding b).Entered d c → v.Entered d c :=
    Spared.refl.removeBinding.entered
  refine ⟨h.sound.removeBinding hx free, h.spared.removeBinding, fun task mem => ?_,
    fun c out => ?_, fun {c y} inTree hy => ?_, fun {d c} inTree inside => ?_, ?_⟩
  · rcases List.mem_append.1 mem with mem | mem
    · rw [owned] at mem
      obtain ⟨n, -, rfl⟩ := List.mem_map.1 mem
      trivial
    · exact h.on task (List.mem_cons_of_mem _ mem)
  · have hne : c ≠ b := fun e => out (e ▸ inside)
    exact ((Table.get?_erase ..).trans (if_neg hne)).trans (h.outside c out)
  · exact (h.still_pinned nofun inTree (Table.get?_of_erase hy)).imp id fun ⟨one, why⟩ =>
      ⟨one, why.imp (List.mem_append_right _) fun ⟨d, inside⟩ => ⟨d, entered inside⟩⟩
  · exact (h.still_filled nofun inTree (before inside)).imp (List.mem_append_right _)
      fun ⟨a, inside⟩ => ⟨a, entered inside⟩
  · refine Primed.append ?_ (h.primed.tail.mono fun d ⟨c, inside⟩ => ⟨c, before inside⟩)
    rw [owned]
    cases x.node with
    | none => trivial
    | some n => trivial

theorem settling (down : ∀ {d c}, tree d → u.Entered d c → tree c) :
    Settling (Dissolving u tree) where
  disposed h := (h.on _ List.mem_cons_self).elim
  unpinned h := h.stepUnpin
  dissolved hx h := h.stepDissolve down hx
  absent hx h := h.stepAbsent hx
  kept owned h := ⟨h.sound.drop owned, h.spared, h.still_on, h.outside, h.still_pinned nofun,
    h.still_filled nofun, h.primed.tail⟩
  evicted hn free h := ⟨h.sound.evict hn free, h.spared.evict, h.still_on, h.outside,
    h.still_pinned nofun, h.still_filled nofun, h.primed.tail⟩
  removedBinding hx free h := h.stepRemove hx free
  removedInstance _ _ h := (h.on _ List.mem_cons_self).elim

/-- The root is dissolved, unpinned and let go of. -/
theorem start {inst : Instance} (s : Sound u inst.uprooting)
    (top : ∀ b, inst.root = some b → tree b)
    (once : ∀ {b x}, tree b → u.bindings.get? b = some x → x.pins = 1)
    (reached : ∀ {b}, tree b → inst.root = some b ∨ ∃ d, u.Entered d b) :
    Dissolving u tree u inst.uprooting where
  sound := s
  spared := .refl
  on task mem := by
    obtain ⟨b, hb, same⟩ := Instance.mem_uprooting.1 mem
    have inside : tree b := top b hb
    rcases same with rfl | rfl | rfl
    · exact inside
    · exact inside
    · exact inside
  outside _ _ := rfl
  pinned inside hx := by
    refine .inr ⟨once inside hx, (reached inside).imp (fun root => ?_) id⟩
    exact Instance.mem_uprooting.2 ⟨_, root, .inr (.inl rfl)⟩
  filled inside _ := by
    refine (reached inside).imp (fun root => ?_) id
    exact Instance.mem_uprooting.2 ⟨_, root, .inl rfl⟩
  primed := .below inst.root.toList

section

variable (h : Dissolving u tree v []) (up : ∀ {d b}, tree b → u.Entered d b → tree d)
include h up

/-- There is no work left, so the topmost directory with entries would be in another one. -/
theorem empty (inside : tree b) : ¬ v.Entered b c := by
  induction b using h.sound.forest.grounded.induction generalizing c with
  | _ b ih =>
      intro entered
      obtain ⟨d, name, entry⟩ := (h.filled inside entered).resolve_left List.not_mem_nil
      have above : u.Entered d b := h.spared.entered ⟨name, entry⟩
      exact ih d (h.sound.forest.entry entry).2 (up inside above) ⟨name, entry⟩

theorem unpinned (inside : tree b) (hx : v.bindings.get? b = some x) : x.pins = 0 := by
  rcases h.pinned inside hx with zero | ⟨-, mem | ⟨d, entered⟩⟩
  · exact zero
  · cases mem
  · exact absurd entered (h.empty up (up inside (h.spared.entered entered)))

end

end Dissolving

end Memfs
