import Memfs.Proofs.Custody.Keepers

/-!
# Where each configuration is

In every state that callers can bring about with the built-in type, each configuration
that was allocated and not given back is kept by one context or by one instance, and
each of these keeps one at most.

Configurations are values and have no names, so a `Custody` keeps a record beside the
world: where each of them is, in the order in which they were allocated. The record
follows the world. A configuration that left its context is with the instance that was
made meanwhile, if that keeps one, and it is nowhere any more if not; what is nowhere
stays there. That the record is true after every step is the theorem, and so is that the
ledger counts what the record has not put nowhere: a configuration that was given back
twice, or never, would show as a difference.
-/

namespace Memfs

open World

/-- Where a configuration is after a step from `w` to `v`. -/
def Place.next (w v : World) : Place → Place
  | context c =>
    if v.keeps (context c) then context c
    else if v.keeps (inst w.instances.nextId) then inst w.instances.nextId
    else nowhere
  | inst i => if v.keeps (inst i) then inst i else nowhere
  | nowhere => nowhere

/-- A world, and where the configurations are that were allocated on the way to it. -/
structure Custody where
  world : World
  places : List Place

namespace Custody

def fresh (clock : Clock) : Custody := ⟨World.fresh clock, []⟩

def after (t : Custody) (step : Request) : Custody :=
  let allotted := if t.world.allots step then [.context t.world.contexts.nextId] else []
  ⟨t.world.follow step, (t.places ++ allotted).map (Place.next t.world (t.world.follow step))⟩

def run (t : Custody) (steps : List Request) : Custody := steps.foldl after t

end Custody

variable {w v : World} {c : ContextId} {i : InstanceId} {places : List Place}

/-! ## The record -/

/-- Each keeper keeps one configuration of the record, and each configuration of the record
that was not given back is kept where the record says. -/
def Custodial (w : World) (places : List Place) : Prop :=
  ∀ place, place ≠ .nowhere → places.count place = if w.keeps place then 1 else 0

namespace Place

variable {place : Place}

theorem next_context : (context c).next w v = if v.keeps (context c) then context c
    else if v.keeps (inst w.instances.nextId) then inst w.instances.nextId else nowhere := rfl

theorem next_inst : (inst i).next w v = if v.keeps (inst i) then inst i else nowhere := rfl

/-- No context comes to a configuration of the record. -/
theorem next_eq_context_iff :
    place.next w v = context c ↔ place = context c ∧ v.keeps (context c) = true := by
  cases place with
  | nowhere => exact ⟨nofun, fun h => nomatch h.1⟩
  | inst i =>
      rw [next_inst]
      split
      · exact ⟨nofun, fun h => nomatch h.1⟩
      · exact ⟨nofun, fun h => nomatch h.1⟩
  | context d =>
      rw [next_context]
      constructor
      · intro h
        split at h
        · next kept => exact ⟨h, context.inj h ▸ kept⟩
        · split at h
          · cases h
          · cases h
      · rintro ⟨e, kept⟩
        rw [context.inj e, if_pos kept]

/-- An instance has the configuration that it had, or it is the next one and has that of a
context. -/
theorem next_eq_inst_iff : place.next w v = inst i ↔ v.keeps (inst i) = true ∧
    (place = inst i ∨ i = w.instances.nextId ∧
      ∃ c, place = context c ∧ v.keeps (context c) = false) := by
  cases place with
  | nowhere =>
      refine ⟨nofun, ?_⟩
      rintro ⟨-, e | ⟨-, c, e, -⟩⟩
      · cases e
      · cases e
  | inst j =>
      rw [next_inst]
      constructor
      · intro h
        split at h
        · next kept => exact ⟨inst.inj h ▸ kept, .inl h⟩
        · cases h
      · rintro ⟨kept, e | ⟨-, c, e, -⟩⟩
        · rw [inst.inj e, if_pos kept]
        · cases e
  | context d =>
      rw [next_context]
      constructor
      · intro h
        split at h
        · cases h
        · next lost =>
            split at h
            · next kept =>
                cases h
                exact ⟨kept, .inr ⟨rfl, d, rfl, Bool.eq_false_iff.2 lost⟩⟩
            · cases h
      · rintro ⟨kept, e | ⟨rfl, c, e, lost⟩⟩
        · cases e
        · rw [context.inj e, if_neg (Bool.eq_false_iff.1 lost), if_pos kept]

/-- Where the record puts a configuration, one is kept. -/
theorem keeps_next (h : place.next w v ≠ nowhere) : v.keeps (place.next w v) = true := by
  cases e : place.next w v with
  | context c => exact (next_eq_context_iff.1 e).2
  | inst i => exact (next_eq_inst_iff.1 e).1
  | nowhere => exact absurd e h

end Place

namespace Custodial

theorem keeps (h : Custodial w places) {place : Place} (mem : place ∈ places)
    (there : place ≠ .nowhere) : w.keeps place = true := by
  by_contra lost
  have none := h place there
  rw [if_neg lost] at none
  exact List.count_eq_zero.1 none mem

/-- The next places of the record are counted by where they come from. -/
theorem count_next (h : Custodial w places) {place source : Place} (from? : source ≠ .nowhere)
    (kept : w.keeps source = true)
    (only : ∀ p, p ∈ places → (p.next w v = place ↔ p = source)) :
    (places.map (Place.next w v)).count place = 1 := by
  have same : places.countP (fun p => p.next w v == place) = places.count source :=
    List.countP_congr fun p mem => by
      rw [beq_iff_eq, beq_iff_eq]
      exact only p mem
  rw [List.count, List.countP_map]
  refine same.trans ((h source from?).trans (if_pos kept))

/-- A step that moves at most one configuration keeps the record true. -/
theorem moves (h : Custodial w places) (m : Moves c w v) :
    Custodial v (places.map (Place.next w v)) := by
  intro place there
  cases kept : v.keeps place with
  | false =>
      refine List.count_eq_zero.2 fun mem => ?_
      obtain ⟨p, -, rfl⟩ := List.mem_map.1 mem
      exact Bool.false_ne_true (kept.symm.trans (Place.keeps_next there))
  | true =>
      cases place with
      | nowhere => exact absurd rfl there
      | context d =>
          have before : w.keeps (.context d) = true := by
            by_cases e : d = c
            · subst e
              exact m.here kept
            · exact (m.others d e).symm.trans kept
          exact h.count_next there before fun p _ =>
            Place.next_eq_context_iff.trans (and_iff_left kept)
      | inst i =>
          rcases m.instances i kept with before | ⟨rfl, before, lost⟩
          · refine h.count_next there before fun p mem =>
              Place.next_eq_inst_iff.trans ((and_iff_right kept).trans (or_iff_left ?_))
            rintro ⟨rfl, -⟩
            exact Nat.lt_irrefl _ (lt_of_keeps_inst before)
          · -- it came from the one context that lost it
            refine h.count_next Place.noConfusion before fun p mem =>
              Place.next_eq_inst_iff.trans ((and_iff_right kept).trans ?_)
            constructor
            · rintro (rfl | ⟨-, d, rfl, gone⟩)
              · exact absurd (lt_of_keeps_inst (h.keeps mem there)) (Nat.lt_irrefl _)
              · by_contra other
                have hne : d ≠ c := fun same => other (congrArg Place.context same)
                have still := (m.others d hne).trans (h.keeps mem Place.noConfusion)
                cases gone.symm.trans still
            · rintro rfl
              exact .inr ⟨rfl, c, rfl, lost⟩

/-- A context is opened. -/
theorem opened (h : Custodial w places) :
    Custodial w.opened (places ++ [.context w.contexts.nextId]) := by
  intro place there
  rw [List.count_append, h place there]
  by_cases e : place = .context w.contexts.nextId
  · subst e
    have before : w.keeps (.context w.contexts.nextId) = false := Bool.eq_false_iff.2 fun h =>
      Nat.lt_irrefl _ (lt_of_keeps_context h)
    have after : w.opened.keeps (.context w.contexts.nextId) = true :=
      keeps_context_iff.2 ⟨_, _, Table.get?_push_self, rfl⟩
    rw [before, after, List.count_singleton_self]
    rfl
  · have same : w.opened.keeps place = w.keeps place := by
      cases place with
      | nowhere => rfl
      | inst i => rfl
      | context c =>
          exact keeps_context_congr (Table.get?_push_of_ne fun same => e (congrArg _ same))
    rw [same, List.count_eq_zero.2 (fun mem => e (List.mem_singleton.1 mem)), Nat.add_zero]

/-- What was not given back is kept by contexts and instances. -/
theorem countP_eq (contexts instances : Nat)
    (bound : ∀ place ∈ places, match place with
      | .context c => c < contexts
      | .inst i => i < instances
      | .nowhere => True) :
    places.countP (· ≠ .nowhere) = (∑ c ∈ Finset.range contexts, places.count (.context c))
      + ∑ i ∈ Finset.range instances, places.count (.inst i) := by
  induction places with
  | nil => simp
  | cons place rest ih =>
      have later := ih fun p mem => bound p (List.mem_cons_of_mem _ mem)
      have here := bound place List.mem_cons_self
      simp only [List.countP_cons, List.count_cons, Finset.sum_add_distrib, later, beq_iff_eq]
      cases place with
      | context c => simp [Finset.sum_ite_eq, show c < contexts from here]; omega
      | inst i => simp [Finset.sum_ite_eq, show i < instances from here]; omega
      | nowhere => simp

/-- The ledger counts what was not given back. -/
theorem net_eq (h : Custodial w places) (s : Sound w []) :
    w.host.net .config = places.countP (· ≠ .nowhere) := by
  have configs : ∀ data : Option PrivateData,
      PrivateData.configs data = if (data.bind (·.config?)).isSome then 1 else 0 := fun data => by
    unfold PrivateData.configs
    cases data.bind (·.config?) with
    | none => rfl
    | some config => rfl
  have context : ∀ c, (w.contexts.get? c).elim 0 (PrivateData.configs ·.data)
      = places.count (.context c) := fun c => by
    rw [h _ Place.noConfusion, keeps_context]
    cases w.contexts.get? c with
    | none => rfl
    | some x => exact configs x.data
  have inst : ∀ i, (w.instances.get? i).elim 0 (PrivateData.configs ·.data)
      = places.count (.inst i) := fun i => by
    rw [h _ Place.noConfusion, keeps_inst]
    cases w.instances.get? i with
    | none => rfl
    | some x => exact configs x.data
  rw [countP_eq w.contexts.nextId w.instances.nextId fun place mem => ?_, s.charged.configs,
    Table.sum_eq_sum_range, Table.sum_eq_sum_range, Finset.sum_congr rfl fun c _ => context c,
    Finset.sum_congr rfl fun i _ => inst i]
  · rw [waitingConfigs_nil, Nat.add_comm]
    simp [Int.add_comm]
  · cases place with
    | context c => exact lt_of_keeps_context (h.keeps mem Place.noConfusion)
    | inst i => exact lt_of_keeps_inst (h.keeps mem Place.noConfusion)
    | nowhere => trivial

end Custodial

/-! ## Runs -/

/-- The world is in order and the record is true. -/
structure Custody.Kept (t : Custody) : Prop where
  sound : Sound t.world []
  configured : Configured t.world
  custodial : Custodial t.world t.places

namespace Custody.Kept

variable {t : Custody} {step : Request} {steps : List Request}

theorem fresh {clock : Clock} : (Custody.fresh clock).Kept where
  sound := .fresh
  configured := .fresh
  custodial place there := by
    have none : (World.fresh clock).keeps place = false := by
      cases place with
      | nowhere => rfl
      | context c =>
          rw [keeps_context, show (World.fresh clock).contexts.get? c = none from Table.get?_empty]
          rfl
      | inst i =>
          rw [keeps_inst, show (World.fresh clock).instances.get? i = none from Table.get?_empty]
          rfl
    show [].count place = if (World.fresh clock).keeps place then 1 else 0
    rw [none]
    rfl

theorem after (k : t.Kept) (builtIn : step.BuiltIn) : (t.after step).Kept where
  sound := k.sound.follow step
  configured := k.configured.follow builtIn
  custodial := by
    unfold Custody.after
    simp only
    cases allotted : t.world.allots step with
    | false =>
        simp only [Bool.false_eq_true, if_false, List.append_nil]
        rcases Stays.or_moves k.configured builtIn allotted with stays | ⟨c, -, moves⟩
        · exact k.custodial.moves (stays.moves (c := 0))
        · exact k.custodial.moves moves
    | true => exact k.custodial.opened.moves (Moves.follow_opened k.configured builtIn allotted)

theorem run (k : t.Kept) (builtIn : ∀ step ∈ steps, step.BuiltIn) : (t.run steps).Kept := by
  induction steps generalizing t with
  | nil => exact k
  | cons step rest ih =>
      exact ih (k.after (builtIn step List.mem_cons_self)) fun other mem =>
        builtIn other (List.mem_cons_of_mem _ mem)

end Custody.Kept

namespace Custody

variable {t : Custody} {steps : List Request}

theorem world_run : (t.run steps).world = steps.foldl World.follow t.world := by
  induction steps generalizing t with
  | nil => rfl
  | cons step rest ih => exact ih

/-- A configuration keeps its number in the record. -/
theorem places_after {step : Request} {n : Nat} {place : Place} (h : t.places[n]? = some place) :
    (t.after step).places[n]? = some (place.next t.world (t.after step).world) := by
  have lt : n < t.places.length := (List.getElem?_eq_some_iff.1 h).1
  unfold after
  rw [List.getElem?_map, List.getElem?_append_left lt, h]
  rfl

/-- What was given back is not given back again. -/
theorem nowhere_after {step : Request} {n : Nat} (h : t.places[n]? = some .nowhere) :
    (t.after step).places[n]? = some .nowhere := places_after h

/-- The configuration of a context is where it was until the tree is asked for. -/
theorem Kept.unasked {n : Nat} (k : t.Kept) (builtIn : ∀ step ∈ steps, step.BuiltIn)
    (unasked : ∀ step ∈ steps, step ≠ .call (.makeTree c) ∧ step ≠ .call (.dropContext c))
    (here : t.places[n]? = some (.context c)) :
    (t.run steps).places[n]? = some (.context c) ∧
      (t.run steps).world.keeps (.context c) = true := by
  induction steps generalizing t with
  | nil =>
      exact ⟨here, k.custodial.keeps (List.mem_of_getElem? here) Place.noConfusion⟩
  | cons step rest ih =>
      have kept := k.custodial.keeps (List.mem_of_getElem? here) Place.noConfusion
      obtain ⟨unmade, lasting⟩ := unasked step List.mem_cons_self
      have still : (t.after step).world.keeps (.context c) = true :=
        keeps_context_follow k.configured (builtIn step List.mem_cons_self) kept unmade
          lasting
      refine ih (k.after (builtIn step List.mem_cons_self))
        (fun other mem => builtIn other (List.mem_cons_of_mem _ mem))
        (fun other mem => unasked other (List.mem_cons_of_mem _ mem)) ?_
      rw [places_after here, Place.next_context, if_pos still]

/-- A context that is begun has the newest configuration of the record. -/
theorem places_newContext (granted : (t.world.host.acquire .config).1 = true) :
    (t.after (.call (.newContext builtInType))).places[t.places.length]?
      = some (.context t.world.contexts.nextId) := by
  have opened : t.world.follow (.call (.newContext builtInType)) = t.world.opened := by
    show (Action.newContext builtInType).into t.world = _
    unfold Action.into
    rw [newContext_builtIn, if_pos granted]
  have allotted : t.world.allots (.call (.newContext builtInType)) = true := granted
  have kept : t.world.opened.keeps (.context t.world.contexts.nextId) = true :=
    keeps_context_iff.2 ⟨_, _, Table.get?_push_self, rfl⟩
  unfold after
  simp only
  rw [allotted, opened, if_pos rfl, List.getElem?_map, List.getElem?_concat_length, Option.map_some,
    Place.next_context, if_pos kept]

end Custody

end Memfs
