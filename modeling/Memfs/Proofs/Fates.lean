import Memfs.Proofs.Watched

/-!
# What becomes of the instances of a context

Until the context is gone, an instance that was made for it is kept by it, was handed
out, was torn down once, or was displaced by a later one. Each dealing with the context
preserves this, and so does its end, where nothing is kept any more.
-/

namespace Memfs

open World

/-! ## What becomes of an instance -/

/-- What became of an instance that was made for a context, if `made` is the instance that
the context has. -/
inductive Fate (t : Watched) (made : Option InstanceId) (i : InstanceId) : Prop
  | kept (here : made = some i) (stands : t.world.standing i = true) (untorn : t.torn.count i = 0)
    (unhanded : i ∉ t.handed) (undisplaced : i ∉ t.displaced)
  | handed (away : made ≠ some i) (mem : i ∈ t.handed) (held : .inst i ∈ t.world.held)
    (stands : t.world.standing i = true) (untorn : t.torn.count i = 0)
    (undisplaced : i ∉ t.displaced)
  | torn (away : made ≠ some i) (once : t.torn.count i = 1) (fallen : t.world.standing i = false)
    (unhanded : i ∉ t.handed) (undisplaced : i ∉ t.displaced)
  | displaced (away : made ≠ some i) (mem : i ∈ t.displaced) (untorn : t.torn.count i = 0)
    (unhanded : i ∉ t.handed)

/-- The context is there and has the instance `made`, and each instance from `first` on has
a fate. The record speaks of no other instances. -/
structure Followed (first : InstanceId) (c : ContextId) (made : Option InstanceId)
    (t : Watched) : Prop where
  begins : first ≤ t.world.instances.nextId
  context : ∃ x, t.world.contexts.get? c = some x ∧ x.made = made
  fate : ∀ i, first ≤ i → i < t.world.instances.nextId → Fate t made i
  known : ∀ i, i ∈ t.torn ∨ i ∈ t.handed ∨ i ∈ t.displaced ∨ made = some i →
    first ≤ i ∧ i < t.world.instances.nextId

theorem Watched.count_torn {t t' : Watched} {k : InstanceId} (torn : t'.torn = t.torn ++ [k])
    (i : InstanceId) : t'.torn.count i = t.torn.count i + if k = i then 1 else 0 := by
  rw [torn, List.count_append, List.count_singleton]
  simp only [beq_iff_eq]

/-- A step that is about other instances. -/
theorem Fate.next {t t' : Watched} {made made' : Option InstanceId} {i : InstanceId}
    (f : Fate t made i) (aloof : t.world.Aloof i t'.world)
    (here : made = some i → t.world.standing i = true → made' = some i ∧
      t'.world.standing i = true)
    (away : made' = some i → made = some i) (torn : t'.torn.count i = t.torn.count i)
    (handed : i ∈ t'.handed ↔ i ∈ t.handed) (displaced : i ∈ t'.displaced ↔ i ∈ t.displaced) :
    Fate t' made' i := by
  cases f with
  | kept h stands untorn unhanded undisplaced =>
      obtain ⟨h, stands⟩ := here h stands
      exact .kept h stands (torn.trans untorn) (mt handed.1 unhanded) (mt displaced.1 undisplaced)
  | handed h mem held stands untorn undisplaced =>
      exact .handed (mt away h) (handed.2 mem) (aloof.held held)
        ((aloof.stays held).trans stands) (torn.trans untorn) (mt displaced.1 undisplaced)
  | torn h once fallen unhanded undisplaced =>
      refine .torn (mt away h) (torn.trans once) ?_ (mt handed.1 unhanded)
        (mt displaced.1 undisplaced)
      exact Bool.eq_false_iff.2 fun stands => Bool.eq_false_iff.1 fallen (aloof.falls stands)
  | displaced h mem untorn unhanded =>
      exact .displaced (mt away h) (displaced.2 mem) (torn.trans untorn) (mt handed.1 unhanded)

namespace Followed

variable {t : Watched} {c : ContextId} {first : InstanceId} {made : Option InstanceId}
  {fill : InstanceId → Action Unit}

theorem unknown (f : Followed first c made t) : t.world.instances.nextId ∉ t.torn ∧
    t.world.instances.nextId ∉ t.handed ∧ t.world.instances.nextId ∉ t.displaced ∧
      made ≠ some t.world.instances.nextId := by
  have none := fun h => Nat.lt_irrefl _ (f.known t.world.instances.nextId h).2
  exact ⟨fun h => none (.inl h), fun h => none (.inr (.inl h)),
    fun h => none (.inr (.inr (.inl h))), fun h => none (.inr (.inr (.inr h)))⟩

theorem made_eq (f : Followed first c made t) {x : Context}
    (hc : t.world.contexts.get? c = some x) : x.made = made := by
  obtain ⟨y, hy, e⟩ := f.context
  cases hc.symm.trans hy
  exact e

/-- The instance that the context has was kept and nothing else. -/
theorem keeps {i : InstanceId} (f : Followed first c (some i) t) :
    t.world.standing i = true ∧ t.torn.count i = 0 ∧ i ∉ t.handed ∧ i ∉ t.displaced := by
  obtain ⟨lo, hi⟩ := f.known i (.inr (.inr (.inr rfl)))
  cases f.fate i lo hi with
  | kept _ stands untorn unhanded undisplaced => exact ⟨stands, untorn, unhanded, undisplaced⟩
  | handed away => exact absurd rfl away
  | torn away => exact absurd rfl away
  | displaced away => exact absurd rfl away

theorem next_filled {w v : World} {x : Context}
    (filled : World.Filled w.instances.nextId (w.begun c x) v) :
    v.instances.nextId = w.instances.nextId + 1 :=
  filled.next.trans (Table.nextId_modify.trans Table.nextId_push)

/-- An instance that was there before the last one was made is not touched by that. -/
theorem aloof_filled {w v : World} {x : Context} {i : InstanceId}
    (filled : World.Filled w.instances.nextId (w.begun c x) v) (old : i < w.instances.nextId) :
    w.Aloof i v :=
  (World.Aloof.begun old).trans (.filled filled (Nat.ne_of_lt old))

theorem standing_filled {w v : World} {x : Context} {i : InstanceId}
    (filled : World.Filled w.instances.nextId (w.begun c x) v) (old : i < w.instances.nextId) :
    v.standing i = w.standing i := by
  have hne : i ≠ w.instances.nextId := Nat.ne_of_lt old
  refine (standing_congr (filled.others i hne)).trans (standing_congr ?_)
  exact (Table.get?_modify ..).trans ((if_neg hne).trans (Table.get?_push_of_ne hne))

/-- The instance that was made last could not be filled. -/
theorem giveUp (f : Followed first c made t) {x : Context} (hc : t.world.contexts.get? c = some x)
    {v : World} (filled : World.Filled t.world.instances.nextId (t.world.begun c x) v)
    {notice : Notice} {t' : Watched}
    (world : t'.world = ((v.note notice).deactivate t.world.instances.nextId).settle
      [.letGo (.inst t.world.instances.nextId)])
    (torn : t'.torn = t.torn ++ [t.world.instances.nextId]) (handed : t'.handed = t.handed)
    (displaced : t'.displaced = t.displaced) : Followed first c made t' := by
  obtain ⟨untorn, unhanded, undisplaced, unmade⟩ := f.unknown
  have hmade : x.made = made := f.made_eq hc
  have spared : Spared v t'.world := by
    rw [world]
    exact Spared.refl.onHost.deactivate.settle
  have next : t'.world.instances.nextId = t.world.instances.nextId + 1 :=
    spared.next.2.trans (next_filled filled)
  have hv : v.contexts.get? c = some { x with data := none } :=
    (filled.contexts c).trans (contexts_begun hc)
  refine ⟨next ▸ Nat.le_succ_of_le f.begins, ⟨{ x with data := none }, ?_, hmade⟩,
    fun i lo hi => ?_, fun i h => ?_⟩
  · rw [spared.contexts]
    exact hv
  · rcases Nat.lt_succ_iff_lt_or_eq.1 (hi.trans_eq next) with old | rfl
    · have hne : i ≠ t.world.instances.nextId := Nat.ne_of_lt old
      have still : ∀ {u : World}, u.Owned (.inst i) →
          (((u.deactivate t.world.instances.nextId).settle
            [.letGo (.inst t.world.instances.nextId)]).standing i) = u.standing i := by
        intro u owned
        have owned' : (u.deactivate t.world.instances.nextId).Owned (.inst i) :=
          (owned_inst_congr Spared.refl.deactivate.held Spared.refl.deactivate.contexts).2 owned
        exact standing_congr ((instances_settle_of_owned owned').trans
          (instances_deactivate_of_owned owned hne))
      refine (f.fate i lo old).next ?_ (fun here stands => ⟨here, ?_⟩) id ?_ (handed ▸ Iff.rfl)
        (displaced ▸ Iff.rfl)
      · rw [world]
        have noted : v.Aloof i (v.note notice) := .of_tables rfl rfl
        exact ((aloof_filled filled old).trans noted).trans
          ((World.Aloof.deactivate hne).trans .settle)
      · -- the context owns it
        have owned : (v.note notice).Owned (.inst i) :=
          ⟨.context c, _, hv, hmade.trans here⟩
        rw [world, still owned]
        exact (standing_filled filled old).trans stands
      · rw [Watched.count_torn torn, if_neg hne.symm, Nat.add_zero]
    · refine .torn unmade ?_ ?_ (handed ▸ unhanded) (displaced ▸ undisplaced)
      · rw [Watched.count_torn torn, List.count_eq_zero.2 untorn, if_pos rfl]
      · refine Bool.eq_false_iff.2 fun stands => ?_
        rw [world] at stands
        exact (standing_of_deactivate (standing_settle stands)).1 rfl
  · rw [next]
    rw [torn, handed, displaced, List.mem_append, List.mem_singleton] at h
    rcases h with (mem | rfl) | rest
    · have known := f.known i (.inl mem)
      exact ⟨known.1, Nat.lt_succ_of_lt known.2⟩
    · exact ⟨f.begins, Nat.lt_succ_self _⟩
    · have known := f.known i (.inr rest)
      exact ⟨known.1, Nat.lt_succ_of_lt known.2⟩

/-- The context has the instance, which it keeps from being let go of. -/
theorem finished {v : World} {x y : Context} {i : InstanceId} (hv : v.contexts.get? c = some y)
    (stands : v.standing i = true) :
    (∃ z, (v.finished c x i).contexts.get? c = some z ∧ z.made = some i) ∧
      (v.finished c x i).standing i = true ∧
        (v.finished c x i).instances.nextId = v.instances.nextId := by
  obtain ⟨host, same⟩ : ∃ host, v.finished c x i = { v.made c x i with host } := by
    unfold World.finished
    simp only
    split
    · exact ⟨_, rfl⟩
    · exact ⟨_, rfl⟩
  rw [same]
  obtain ⟨root, hroot⟩ : ∃ root, root = (v.instances.get? i).bind (·.root) := ⟨_, rfl⟩
  have moved : (v.modifyContext c ({ · with root, made := some i })).contexts.get? c
      = some { y with root, made := some i } := by
    refine (Table.get?_modify ..).trans ?_
    rw [if_pos rfl, hv]
    rfl
  have owned : (v.modifyContext c ({ · with root, made := some i })).Owned (.inst i) :=
    ⟨.context c, _, moved, rfl⟩
  unfold World.made
  rw [← hroot]
  refine ⟨⟨_, (congrArg (·.get? c) contexts_settle).trans moved, rfl⟩, ?_, ?_⟩
  · exact (standing_congr (instances_settle_of_owned owned)).trans stands
  · exact (Spared.refl.settle : Spared (v.modifyContext c ({ · with root, made := some i })) _).next.2

/-- The instance that was made last was filled and comes to the context. -/
theorem moveIn (f : Followed first c made t) {x : Context} (hc : t.world.contexts.get? c = some x)
    {v : World} (filled : World.Filled t.world.instances.nextId (t.world.begun c x) v) {t' : Watched}
    (world : t'.world = v.finished c x t.world.instances.nextId) (torn : t'.torn = t.torn)
    (handed : t'.handed = t.handed) (displaced : t'.displaced = t.displaced ++ made.toList) :
    Followed first c (some t.world.instances.nextId) t' := by
  obtain ⟨untorn, unhanded, undisplaced, unmade⟩ := f.unknown
  have hv : v.contexts.get? c = some { x with data := none } :=
    (filled.contexts c).trans (contexts_begun hc)
  obtain ⟨context, stands, next⟩ := finished (x := x) hv filled.standing
  rw [← world, next_filled filled] at next
  rw [← world] at context stands
  have mem_displaced : ∀ i, i ∈ t'.displaced ↔ i ∈ t.displaced ∨ made = some i := fun i => by
    rw [displaced, List.mem_append, Option.mem_toList]
  refine ⟨next ▸ Nat.le_succ_of_le f.begins, context, fun i lo hi => ?_, fun i h => ?_⟩
  · rcases Nat.lt_succ_iff_lt_or_eq.1 (hi.trans_eq next) with old | rfl
    · have other : some t.world.instances.nextId ≠ some i := fun e =>
        Nat.ne_of_lt old (Option.some.inj e).symm
      have aloof : t.world.Aloof i t'.world := by
        rw [world]
        exact (aloof_filled filled old).trans .finished
      by_cases here : made = some i
      · -- the context had it, and it was displaced
        subst here
        obtain ⟨-, untorn, unhanded, -⟩ := f.keeps
        exact .displaced other ((mem_displaced i).2 (.inr rfl)) (torn ▸ untorn) (handed ▸ unhanded)
      · refine (f.fate i lo old).next aloof (fun h => absurd h here) (fun h => absurd h other)
          (torn ▸ rfl) (handed ▸ Iff.rfl) ?_
        rw [mem_displaced, or_iff_left here]
    · refine .kept rfl stands (torn ▸ List.count_eq_zero.2 untorn) (handed ▸ unhanded) ?_
      exact fun mem => ((mem_displaced _).1 mem).elim undisplaced unmade
  · rw [next]
    rw [torn, handed, mem_displaced] at h
    rcases h with h | h | (h | h) | h
    · exact (f.known i (.inl h)).imp_right Nat.lt_succ_of_lt
    · exact (f.known i (.inr (.inl h))).imp_right Nat.lt_succ_of_lt
    · exact (f.known i (.inr (.inr (.inl h)))).imp_right Nat.lt_succ_of_lt
    · exact (f.known i (.inr (.inr (.inr h)))).imp_right Nat.lt_succ_of_lt
    · cases h
      exact ⟨f.begins, Nat.lt_succ_self _⟩

theorem tree (f : Followed first c made t) (fills : Action.Fills fill) :
    ∃ made, Followed first c made (t.tree c fill) := by
  obtain ⟨x, hc, hmade⟩ := f.context
  have ends := fills.ends_begun (w := t.world) (c := c) (x := x)
  unfold Watched.tree
  rw [hc]
  simp only
  split
  · exact ⟨made, f⟩
  · cases hfill : fill t.world.instances.nextId (t.world.begun c x) with
    | error e v =>
        have filled := ends.error hfill
        exact ⟨made, f.giveUp hc filled rfl (congrArg (t.torn ++ ·) (if_pos filled.standing)) rfl rfl⟩
    | ok u v => exact ⟨_, f.moveIn hc (ends.ok hfill) rfl rfl rfl (by rw [hmade])⟩

theorem take (f : Followed first c made t) : Followed first c none (t.take c) := by
  obtain ⟨x, hc, hmade⟩ := f.context
  obtain ⟨left, hleft⟩ : ∃ left, left = t.world.modifyContext c ({ · with root := none, made := none }) :=
    ⟨_, rfl⟩
  have taken : t.world.takeInstance c = (made, (made.elim left fun i => left.hold (.inst i)).settle
      (x.root.toList.map fun b => .letGo (.binding b))) := by
    unfold World.takeInstance
    rw [hc, hleft, ← hmade]
  have aloof : ∀ i, t.world.Aloof i (t.take c).world := fun i => .takeInstance
  have world : (t.take c).world = (made.elim left fun i => left.hold (.inst i)).settle
      (x.root.toList.map fun b => .letGo (.binding b)) := congrArg (·.2) taken
  have handed : (t.take c).handed = t.handed ++ made.toList := by
    unfold Watched.take
    rw [taken]
  have mem_handed : ∀ i, i ∈ (t.take c).handed ↔ i ∈ t.handed ∨ made = some i := fun i => by
    rw [handed, List.mem_append, Option.mem_toList]
  have spared : Spared (made.elim left fun i => left.hold (.inst i)) (t.take c).world := by
    rw [world]
    exact Spared.refl.settle
  have frame : (made.elim left fun i => left.hold (.inst i)).contexts = left.contexts ∧
      (made.elim left fun i => left.hold (.inst i)).instances = t.world.instances := by
    rw [hleft]
    cases made with
    | none => exact ⟨rfl, rfl⟩
    | some i => exact ⟨rfl, rfl⟩
  have next : (t.take c).world.instances.nextId = t.world.instances.nextId := by
    rw [spared.next.2, frame.2]
  refine ⟨next ▸ f.begins, ⟨{ x with root := none, made := none }, ?_, rfl⟩, fun i lo hi => ?_,
    fun i h => ?_⟩
  · rw [spared.contexts, frame.1, hleft]
    refine (Table.get?_modify ..).trans ?_
    rw [if_pos rfl, hc]
    rfl
  · by_cases here : made = some i
    · subst here
      obtain ⟨stands, untorn, -, undisplaced⟩ := f.keeps
      have held : Ref.inst i ∈ (left.hold (.inst i)).held := List.mem_cons_self
      refine .handed nofun ((mem_handed i).2 (.inr rfl)) (spared.held ▸ held) ?_ untorn undisplaced
      rw [world]
      refine (standing_congr ((instances_settle_of_owned (owned_of_held held)).trans ?_)).trans
        stands
      exact congrArg (·.get? i) frame.2
    · refine (f.fate i lo (hi.trans_eq next)).next (aloof i) (fun h => absurd h here) nofun rfl ?_
        Iff.rfl
      rw [mem_handed, or_iff_left here]
  · rw [next]
    rw [mem_handed] at h
    rcases h with h | (h | h) | h | h
    · exact f.known i (.inl h)
    · exact f.known i (.inr (.inl h))
    · exact f.known i (.inr (.inr (.inr h)))
    · exact f.known i (.inr (.inr (.inl h)))
    · cases h

end Followed

/-- Each instance from `first` on has a fate, and no context has it. The record speaks of no
other instances. -/
structure Ended (first : InstanceId) (t : Watched) : Prop where
  fate : ∀ i, first ≤ i → i < t.world.instances.nextId → Fate t none i
  known : ∀ i, i ∈ t.torn → i < t.world.instances.nextId

namespace Followed

variable {t t' : Watched} {c : ContextId} {first i : InstanceId} {made : Option InstanceId}

theorem ended (f : Followed first c none t) (aloof : ∀ i, t.world.Aloof i t'.world)
    (next : t'.world.instances.nextId = t.world.instances.nextId) (torn : t'.torn = t.torn)
    (handed : t'.handed = t.handed) (displaced : t'.displaced = t.displaced) : Ended first t' where
  fate i lo hi := (f.fate i lo (hi.trans_eq next)).next (aloof i) nofun nofun (torn ▸ rfl)
    (handed ▸ Iff.rfl) (displaced ▸ Iff.rfl)
  known i mem := (f.known i (.inl (torn ▸ mem))).2.trans_eq next.symm

/-- The instance that the context has is torn down. -/
theorem ended_torn (f : Followed first c (some i) t) (aloof : ∀ j, j ≠ i → t.world.Aloof j t'.world)
    (fallen : t'.world.standing i = false)
    (next : t'.world.instances.nextId = t.world.instances.nextId) (torn : t'.torn = t.torn ++ [i])
    (handed : t'.handed = t.handed) (displaced : t'.displaced = t.displaced) : Ended first t' := by
  refine ⟨fun j lo hi => ?_, fun j mem => ?_⟩
  · by_cases here : j = i
    · subst here
      obtain ⟨-, untorn, unhanded, undisplaced⟩ := f.keeps
      refine .torn nofun ?_ fallen (handed ▸ unhanded) (displaced ▸ undisplaced)
      rw [Watched.count_torn torn, untorn, if_pos rfl]
    · have other : some i ≠ some j := fun e => here (Option.some.inj e).symm
      refine (f.fate j lo (hi.trans_eq next)).next (aloof j here) (fun h => absurd h other) nofun ?_
        (handed ▸ Iff.rfl) (displaced ▸ Iff.rfl)
      rw [Watched.count_torn torn, if_neg fun e => here e.symm, Nat.add_zero]
  · rw [next]
    rw [torn, List.mem_append, List.mem_singleton] at mem
    rcases mem with mem | rfl
    · exact (f.known j (.inl mem)).2
    · exact (f.known j (.inr (.inr (.inr rfl)))).2

theorem world_freeData {w : World} {x : Context} (hc : w.contexts.get? c = some x) :
    ∃ y, (w.freeData c).contexts.get? c = some y ∧ y.made = x.made ∧
      (w.freeData c).instances.nextId = w.instances.nextId ∧
        ∀ i, x.made = some i → (w.freeData c).standing i = w.standing i := by
  unfold World.freeData
  rw [hc]
  simp only
  split
  · cases hdata : x.data with
    | none => exact ⟨x, hc, rfl, rfl, fun _ _ => rfl⟩
    | some data =>
        obtain ⟨v, hv⟩ : ∃ v, v = (w.note .configUnused).modifyContext c
            ({ · with data := none }) := ⟨_, rfl⟩
        have emptied : v.contexts.get? c = some { x with data := none } := by
          rw [hv]
          refine (Table.get?_modify ..).trans ?_
          rw [if_pos rfl]
          exact congrArg _ hc
        have spared : Spared v (v.settle [.dispose data]) := Spared.refl.settle
        simp only [← hv]
        refine ⟨{ x with data := none }, (congrArg (·.get? c) spared.contexts).trans emptied, rfl,
          spared.next.2.trans (by rw [hv]; rfl), fun i here => ?_⟩
        have owned : v.Owned (.inst i) := ⟨.context c, _, emptied, here⟩
        exact (standing_congr (instances_settle_of_owned owned)).trans
          (standing_congr (by rw [hv]; rfl))
  · exact ⟨x, hc, rfl, rfl, fun _ _ => rfl⟩

/-- The context gives its data back and keeps its instance. -/
theorem freeData (f : Followed first c made t) : Followed first c made (t.on (·.freeData c)) := by
  obtain ⟨x, hc, hmade⟩ := f.context
  obtain ⟨y, hy, same, next, kept⟩ := world_freeData hc
  rw [hmade] at same kept
  refine ⟨next.symm ▸ f.begins, ⟨y, hy, same⟩, fun i lo hi => ?_, fun i h => ?_⟩
  · exact (f.fate i lo (hi.trans_eq next)).next .freeData
      (fun here stands => ⟨here, (kept i here).trans stands⟩) id rfl Iff.rfl Iff.rfl
  · exact (f.known i h).imp_right fun lt => lt.trans_eq next.symm

theorem drop (f : Followed first c made t) : Ended first (t.drop c) := by
  have freed := f.freeData
  unfold Watched.drop
  obtain ⟨x, hc, hmade⟩ := freed.context
  generalize t.on (·.freeData c) = t at *
  simp only [hc]
  have erased : ∀ {w : World} {i}, w.Aloof i (World.settle { w with contexts := w.contexts.erase c }
      ((w.contexts.get? c).toList.flatMap fun context => (context.data.toList.map Task.dispose)
        ++ context.root.toList.map fun b => .letGo (.binding b))) := fun {w i} => by
    refine World.Aloof.trans ?_ .settle
    exact .of_tables rfl rfl
  have next_erased : ∀ {w : World} {tasks}, (World.settle { w with contexts := w.contexts.erase c }
      tasks).instances.nextId = w.instances.nextId := fun {w tasks} =>
    (Spared.refl.settle : Spared { w with contexts := w.contexts.erase c } _).next.2
  cases made with
  | none =>
      rw [hmade]
      exact freed.ended (fun i => erased) next_erased rfl rfl rfl
  | some i =>
      rw [hmade]
      simp only
      obtain ⟨w, hw⟩ : ∃ w, w = (t.world.modifyContext c ({ · with root := none })).settle
          (x.root.toList.map fun b => .letGo (.binding b)) := ⟨_, rfl⟩
      have unrooted : (t.world.modifyContext c ({ · with root := none })).contexts.get? c
          = some { x with root := none } := by
        refine (Table.get?_modify ..).trans ?_
        rw [if_pos rfl, hc]
        rfl
      have stands : w.standing i = true := by
        have owned : (t.world.modifyContext c ({ · with root := none })).Owned (.inst i) :=
          ⟨.context c, _, unrooted, hmade⟩
        rw [hw]
        exact (standing_congr (instances_settle_of_owned owned)).trans freed.keeps.1
      have left : ∀ {j} {u : World}, u.Aloof j ((u.modifyContext c ({ · with made := none })).settle
          [.letGo (.inst i)]) := fun {j u} => by
        refine World.Aloof.trans ?_ .settle
        exact .of_tables rfl rfl
      have begun : ∀ {j}, t.world.Aloof j w := fun {j} => by
        rw [hw]
        refine World.Aloof.trans ?_ .settle
        exact .of_tables rfl rfl
      simp only [Watched.on, Watched.deactivate, ← hw]
      refine freed.ended_torn (fun j hne => ?_) (Bool.eq_false_iff.2 fun again => ?_) ?_
        (congrArg (t.torn ++ ·) (if_pos stands)) rfl rfl
      · exact ((begun.trans (.deactivate hne)).trans left).trans erased
      · exact (standing_of_deactivate (left.falls (erased.falls again))).1 rfl
      · refine next_erased.trans ?_
        have settled : Spared ((w.deactivate i).modifyContext c ({ · with made := none }))
            (World.settle _ [.letGo (.inst i)]) := Spared.refl.settle
        have torn : Spared w (w.deactivate i) := Spared.refl.deactivate
        have root : Spared (t.world.modifyContext c ({ · with root := none })) w := by
          rw [hw]
          exact Spared.refl.settle
        exact settled.next.2.trans (torn.next.2.trans root.next.2)

end Followed

/-! ## All dealings with a context -/

/-- The filling is one that there may be. -/
def Dealing.Fills : Dealing → Prop
  | tree fill => Action.Fills fill
  | take => True

/-- A filling that succeeds gives the instance a root. -/
def Dealing.Roots : Dealing → Prop
  | tree fill => ∀ {i u w v}, fill i w = .ok u v → ((v.instances.get? i).bind (·.root)).isSome
  | take => True

namespace Followed

variable {t : Watched} {c : ContextId} {first : InstanceId} {made : Option InstanceId}
  {dealings : List Dealing}

/-- At first there is nothing to tell. -/
theorem start {w : World} {x : Context} (hc : w.contexts.get? c = some x)
    (unmade : x.made = none) : Followed w.instances.nextId c none ⟨w, [], [], []⟩ where
  begins := Nat.le_refl _
  context := ⟨x, hc, unmade⟩
  fate i lo hi := absurd lo (Nat.not_le_of_lt hi)
  known i h := by
    rcases h with h | h | h | h
    · exact nomatch h
    · exact nomatch h
    · exact nomatch h
    · exact nomatch h

theorem deals (f : Followed first c made t) (fills : ∀ dealing ∈ dealings, dealing.Fills) :
    ∃ made, Followed first c made (t.deals c dealings) := by
  induction dealings generalizing t made with
  | nil => exact ⟨made, f⟩
  | cons dealing rest ih =>
      have later := fun d mem => fills d (List.mem_cons_of_mem _ mem)
      have now := fills dealing List.mem_cons_self
      cases dealing with
      | tree fill =>
          obtain ⟨made, f⟩ := f.tree now
          exact ih f later
      | take => exact ih f.take later

end Followed

/-- The context has a root for the instance that it has, and none was displaced. -/
def Watched.Orderly (c : ContextId) (t : Watched) : Prop :=
  t.displaced = [] ∧
    ∀ x, t.world.contexts.get? c = some x → x.made.isSome → x.root.isSome

namespace Watched.Orderly

variable {t : Watched} {c : ContextId} {dealings : List Dealing}

theorem tree {fill : InstanceId → Action Unit} (o : t.Orderly c) (fills : Action.Fills fill)
    (roots : (Dealing.tree fill).Roots) : (t.tree c fill).Orderly c := by
  unfold Watched.tree
  cases hc : t.world.contexts.get? c with
  | none => exact o
  | some x =>
      simp only
      split
      · exact o
      · next rootless =>
          have unmade : x.made = none := by
            cases hmade : x.made with
            | none => rfl
            | some i => exact absurd (o.2 x hc (by rw [hmade]; rfl)) rootless
          have ends := fills.ends_begun (w := t.world) (c := c) (x := x)
          cases hfill : fill t.world.instances.nextId (t.world.begun c x) with
          | error e v =>
              refine ⟨o.1, fun y hy some => ?_⟩
              have spared : Spared v ((((t.on fun _ => v.note (.fillFailed x.type.name e)).deactivate
                  t.world.instances.nextId).on (·.settle [.letGo (.inst t.world.instances.nextId)]))
                    ).world := Spared.refl.onHost.deactivate.settle
              rw [spared.contexts, (ends.error hfill).contexts, contexts_begun hc] at hy
              cases hy
              rw [unmade] at some
              cases some
          | ok u v =>
              refine ⟨?_, fun y hy _ => ?_⟩
              · show t.displaced ++ x.made.toList = []
                rw [unmade, o.1]
                rfl
              · have same : (v.finished c x t.world.instances.nextId).contexts
                    = (v.made c x t.world.instances.nextId).contexts := by
                  unfold World.finished
                  simp only
                  split
                  · rfl
                  · rfl
                rw [same, World.made, contexts_settle] at hy
                have moved := (Table.get?_modify ..).symm.trans hy
                rw [if_pos rfl] at moved
                obtain ⟨z, -, rfl⟩ := Option.map_eq_some_iff.1 moved
                exact roots hfill

theorem take (o : t.Orderly c) : (t.take c).Orderly c := by
  refine ⟨o.1, fun y hy some => ?_⟩
  unfold Watched.take World.takeInstance at hy
  cases hc : t.world.contexts.get? c with
  | none =>
      rw [hc] at hy
      cases hc.symm.trans hy
  | some x =>
      rw [hc] at hy
      simp only [contexts_settle] at hy
      have taken : (x.made.elim (t.world.modifyContext c ({ · with root := none, made := none }))
          fun i => (t.world.modifyContext c ({ · with root := none, made := none })).hold
            (.inst i)).contexts = t.world.contexts.modify c ({ · with root := none, made := none }) := by
        cases x.made with
        | none => rfl
        | some i => rfl
      rw [taken, Table.get?_modify, if_pos rfl] at hy
      obtain ⟨z, -, rfl⟩ := Option.map_eq_some_iff.1 hy
      cases some

theorem deals (o : t.Orderly c) (fills : ∀ dealing ∈ dealings, dealing.Fills)
    (roots : ∀ dealing ∈ dealings, dealing.Roots) : (t.deals c dealings).Orderly c := by
  induction dealings generalizing t with
  | nil => exact o
  | cons dealing rest ih =>
      refine ih ?_ (fun d mem => fills d (List.mem_cons_of_mem _ mem))
        (fun d mem => roots d (List.mem_cons_of_mem _ mem))
      have filled := fills dealing List.mem_cons_self
      have rooted := roots dealing List.mem_cons_self
      cases dealing with
      | tree fill => exact o.tree filled rooted
      | take => exact o.take

end Watched.Orderly

namespace Watched

variable {t : Watched} {c : ContextId} {i : InstanceId}

theorem displaced_drop : (t.drop c).displaced = t.displaced := by
  unfold drop
  simp only
  split
  · rfl
  · split
    · rfl
    · rfl

/-- No teardown of the instance was run, or one was and the instance does not stand. -/
def AtMostOnce (t : Watched) (i : InstanceId) : Prop :=
  t.torn.count i = 0 ∨ t.torn.count i = 1 ∧ t.world.standing i = false

theorem count_deactivate {j : InstanceId} : (t.deactivate j).torn.count i
    = t.torn.count i + if j = i ∧ t.world.standing j = true then 1 else 0 := by
  refine List.count_append.trans (congrArg (t.torn.count i + ·) ?_)
  cases t.world.standing j with
  | false =>
      rw [if_neg Bool.false_ne_true, if_neg fun h => Bool.false_ne_true h.2]
      exact List.count_nil
  | true =>
      refine List.count_singleton.trans ?_
      simp only [beq_iff_eq, and_true]

theorem AtMostOnce.deactivate {j : InstanceId} (h : t.AtMostOnce i) :
    (t.deactivate j).AtMostOnce i ∧
      (t.torn.count i = 1 → (t.deactivate j).torn.count i = 1) := by
  have falls : t.world.standing i = false → (t.deactivate j).world.standing i = false :=
    fun h => Bool.eq_false_iff.2 fun stands =>
      Bool.eq_false_iff.1 h (standing_of_deactivate stands).2
  rw [AtMostOnce, count_deactivate]
  rcases h with none | ⟨once, fallen⟩
  · refine ⟨?_, fun h => absurd (none.symm.trans h) nofun⟩
    split
    · next h =>
        obtain ⟨rfl, -⟩ := h
        refine .inr ⟨congrArg (· + 1) none, Bool.eq_false_iff.2 fun stands => ?_⟩
        exact (standing_of_deactivate stands).1 rfl
    · exact .inl none
  · rw [if_neg fun (h : j = i ∧ _) => Bool.eq_false_iff.1 fallen (h.1 ▸ h.2)]
    exact ⟨.inr ⟨once, falls fallen⟩, id⟩

theorem AtMostOnce.deactivates {further : List InstanceId} (h : t.AtMostOnce i) :
    (t.deactivates further).AtMostOnce i ∧
      (t.torn.count i = 1 → (t.deactivates further).torn.count i = 1) := by
  induction further generalizing t with
  | nil => exact ⟨h, id⟩
  | cons j rest ih =>
      obtain ⟨step, once⟩ := h.deactivate (j := j)
      obtain ⟨steps, onces⟩ := ih step
      exact ⟨steps, fun h => onces (once h)⟩

theorem world_deactivates {further : List InstanceId} :
    (t.deactivates further).world = further.foldl World.deactivate t.world := by
  induction further generalizing t with
  | nil => rfl
  | cons j rest ih => exact ih

end Watched

namespace Ended

variable {t : Watched} {first i : InstanceId}

/-- An instance that was not displaced stands with its new owner, or was torn down once. -/
theorem handed_or_torn (e : Ended first t) (lo : first ≤ i) (hi : i < t.world.instances.nextId) :
    (i ∉ t.displaced ↔
      (i ∈ t.handed ∧ t.world.standing i = true ∧ t.torn.count i = 0) ∨
        (i ∉ t.handed ∧ t.world.standing i = false ∧ t.torn.count i = 1)) ∧
      (i ∈ t.displaced → i ∉ t.handed ∧ t.torn.count i = 0) := by
  cases e.fate i lo hi with
  | kept here => cases here
  | handed _ mem _ stands untorn undisplaced =>
      exact ⟨iff_of_true undisplaced (.inl ⟨mem, stands, untorn⟩), fun h => absurd h undisplaced⟩
  | torn _ once fallen unhanded undisplaced =>
      exact ⟨iff_of_true undisplaced (.inr ⟨unhanded, fallen, once⟩), fun h => absurd h undisplaced⟩
  | displaced _ mem untorn unhanded =>
      refine ⟨iff_of_false (fun h => h mem) ?_, fun _ => ⟨unhanded, untorn⟩⟩
      rintro (⟨handed, -⟩ | ⟨-, -, once⟩)
      · exact unhanded handed
      · cases untorn.symm.trans once

theorem atMostOnce (e : Ended first t) (lo : first ≤ i) : t.AtMostOnce i := by
  by_cases hi : i < t.world.instances.nextId
  · cases e.fate i lo hi with
    | kept _ _ untorn => exact .inl untorn
    | handed _ _ _ _ untorn => exact .inl untorn
    | torn _ once fallen => exact .inr ⟨once, fallen⟩
    | displaced _ _ untorn => exact .inl untorn
  · exact .inl (List.count_eq_zero.2 fun mem => hi (e.known i mem))

end Ended

/-- A context without an instance is dealt with in any way, then dropped. What is done to
the world is what the program does. Of the instances that were made for the context, those
that were not displaced by a later one were handed out and stand, or their teardown was run
exactly once; a displaced one was neither handed out nor torn down. None is displaced if
every filling that succeeds gives a root. And whatever is torn down afterwards, no teardown
is run a second time. -/
theorem torn_once {w : World} {c : ContextId} {x : Context} {dealings : List Dealing} {t : Watched}
    (hc : w.contexts.get? c = some x) (unmade : x.made = none)
    (fills : ∀ dealing ∈ dealings, dealing.Fills)
    (ht : t = (Watched.deals c ⟨w, [], [], []⟩ dealings).drop c) :
    t.world = (dealings.foldl (World.deal c) w).dropContext c ∧
    (∀ i, w.instances.nextId ≤ i → i < t.world.instances.nextId →
      (i ∉ t.displaced ↔
        (i ∈ t.handed ∧ t.world.standing i = true ∧ t.torn.count i = 0) ∨
          (i ∉ t.handed ∧ t.world.standing i = false ∧ t.torn.count i = 1)) ∧
        (i ∈ t.displaced → i ∉ t.handed ∧ t.torn.count i = 0)) ∧
    ((∀ dealing ∈ dealings, dealing.Roots) → t.displaced = []) ∧
    (∀ i further, w.instances.nextId ≤ i →
      (t.deactivates further).world = further.foldl World.deactivate t.world ∧
        (t.deactivates further).torn.count i ≤ 1 ∧
          (t.torn.count i = 1 → (t.deactivates further).torn.count i = 1)) := by
  obtain ⟨made, followed⟩ := (Followed.start hc unmade).deals fills
  have ended := followed.drop
  rw [← ht] at ended
  refine ⟨?_, fun i lo hi => ended.handed_or_torn lo hi, fun roots => ?_, fun i further lo => ?_⟩
  · rw [ht, Watched.world_drop, Watched.world_deals]
  · have orderly : Watched.Orderly c ⟨w, [], [], []⟩ := by
      refine ⟨rfl, fun y hy some => ?_⟩
      cases hc.symm.trans hy
      rw [unmade] at some
      cases some
    rw [ht, Watched.displaced_drop]
    exact (orderly.deals fills roots).1
  · obtain ⟨final, once⟩ : (t.deactivates further).AtMostOnce i ∧ _ :=
      (ended.atMostOnce lo).deactivates
    refine ⟨Watched.world_deactivates, ?_, once⟩
    rcases final with none | ⟨one, -⟩
    · omega
    · omega

/-- A type whose instances are filled with nothing. -/
def rootlessType : FilesystemType where
  name := "rootless"
  ops := some ⟨.sourceOnly, .noRoot, false⟩

/-- The first instance is handed out, the second cannot be filled, and nobody takes the
third. No request tears one of them down a second time. -/
theorem torn_once_rootless :
    let w := (World.fresh (.steady 0 0 1)).run [.newContext rootlessType]
    let dealings := [.tree (Action.fill · .noRoot), .take,
      .tree (Action.fill · (.failing .backingStore)), .tree (Action.fill · .noRoot)]
    let t := (Watched.deals 0 ⟨w, [], [], []⟩ dealings).drop 0
    t.handed = [0] ∧ t.torn = [1, 2] ∧ t.displaced = [] ∧
      t.world = (dealings.foldl (World.deal 0) w).dropContext 0 ∧
        t.world.standing 0 = true ∧ t.world.standing 2 = false ∧
          ∀ further, (t.deactivates further).torn.count 2 = 1 := by
  intro w dealings t
  have handed : t.handed = [0] := by decide +kernel
  have torn : t.torn = [1, 2] := by decide +kernel
  have displaced : t.displaced = [] := by decide +kernel
  have fills : ∀ dealing ∈ dealings, Dealing.Fills dealing := by
    refine List.forall_mem_cons.2 ⟨Action.fills .noRoot, List.forall_mem_cons.2 ⟨trivial, ?_⟩⟩
    exact List.forall_mem_cons.2 ⟨Action.fills (.failing .backingStore),
      List.forall_mem_cons.2 ⟨Action.fills .noRoot, List.forall_mem_nil _⟩⟩
  have found : w.contexts.get? 0 = some { type := rootlessType } := rfl
  obtain ⟨world, fate, -, later⟩ := torn_once (t := t) found rfl fills rfl
  have made : w.instances.nextId = 0 ∧ t.world.instances.nextId = 3 := by decide +kernel
  have undisplaced : ∀ i, i ∉ t.displaced := fun i => displaced ▸ List.not_mem_nil
  refine ⟨handed, torn, displaced, world, ?_, ?_, fun further => ?_⟩
  · rcases (fate 0 (by omega) (by omega)).1.1 (undisplaced 0) with ⟨-, stands, -⟩ | ⟨unhanded, -⟩
    · exact stands
    · exact absurd (handed ▸ List.mem_cons_self) unhanded
  · rcases (fate 2 (by omega) (by omega)).1.1 (undisplaced 2) with ⟨mem, -⟩ | ⟨-, fallen, -⟩
    · rw [handed] at mem
      exact absurd mem (by decide)
    · exact fallen
  · exact (later 2 further (by omega)).2.2 (by rw [torn]; decide)

/-- An instance that is filled with nothing stays with its context, and the next request
for a tree makes another one in its place. It is gone then, and was never torn down: two
instances were made, nobody was handed one, and one teardown began. -/
theorem displaced_not_torn :
    let w := (World.fresh (.steady 0 0 1)).run
      [.newContext rootlessType, .makeTree 0, .makeTree 0, .dropContext 0]
    w.instances.nextId = 2 ∧ w.instances.has 0 = false ∧ w.instances.has 1 = false ∧ w.held = [] ∧
      w.host.journal.count (.deactivating "rootless") = 1 := by
  decide +kernel

end Memfs
