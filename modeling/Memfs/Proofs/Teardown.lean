import Memfs.Proofs.Bystanders
import Memfs.Proofs.Runs

/-!
# One teardown, and one filling

An instance stands until its teardown begins. The teardown of a type is run for an
instance that stands and for no other, and nothing that is done to one instance makes
another one stand. Filling leaves the instance standing, whether it succeeds or not.
-/

namespace Memfs

open World

variable {w v : World} {c : ContextId} {i j : InstanceId} {tasks : List Task}

/-! ## One teardown -/

namespace World

/-- The instance is there, and its teardown has not begun. -/
def standing (w : World) (i : InstanceId) : Bool := (w.instances.get? i).any (!·.dying)

theorem standing_iff :
    w.standing i = true ↔ ∃ x, w.instances.get? i = some x ∧ x.dying = false := by
  unfold standing
  rw [Option.any_eq_true]
  simp only [Bool.not_eq_true']

theorem standing_congr (h : v.instances.get? i = w.instances.get? i) :
    v.standing i = w.standing i := by
  unfold standing
  rw [h]

/-- The teardown of the type is run for an instance that stands. -/
theorem deactivate_of_standing {x : Instance} (hi : w.instances.get? i = some x)
    (stands : x.dying = false) :
    w.deactivate i = ((w.modifyInstance i ({ · with dying := true })).note
      (.deactivating x.type.name)).tearDown i := by
  unfold deactivate
  rw [hi]
  simp only [stands, Bool.false_eq_true, if_false]

/-- For any other instance nothing is done. -/
theorem deactivate_of_not_standing (h : w.standing i = false) : w.deactivate i = w := by
  unfold deactivate
  cases hi : w.instances.get? i with
  | none => rfl
  | some x =>
      have dying : x.dying = true := by simpa [standing, hi] using h
      simp only [dying, if_true]

/-- The instances in `v` were in `w`. But for `i`, whose teardown may be under way, they
are as they were. -/
structure Lessened (i : InstanceId) (w v : World) : Prop where
  same : ∀ {j x}, j ≠ i → v.instances.get? j = some x → w.instances.get? j = some x
  flag : ∀ {x}, v.instances.get? i = some x → ∃ y, w.instances.get? i = some y ∧
    x.dying = y.dying

namespace Lessened

theorem refl : Lessened i w w := ⟨fun _ => id, fun h => ⟨_, h, rfl⟩⟩

theorem onHost (h : Lessened i w v) {host : Host} : Lessened i w { v with host } :=
  ⟨h.same, h.flag⟩

theorem settle (h : Lessened i w v) : Lessened i w (v.settle tasks) :=
  ⟨fun hne hx => h.same hne (mountsKept_settle.instances _ _ hx),
    fun hx => h.flag (mountsKept_settle.instances _ _ hx)⟩

theorem modify (h : Lessened i w v) {g : Instance → Instance} (flag : ∀ x, (g x).dying = x.dying) :
    Lessened i w (v.modifyInstance i g) where
  same hne hx := by
    rw [World.modifyInstance, Table.get?_modify, if_neg hne] at hx
    exact h.same hne hx
  flag hx := by
    rw [World.modifyInstance, Table.get?_modify, if_pos rfl] at hx
    obtain ⟨y, hy, rfl⟩ := Option.map_eq_some_iff.1 hx
    obtain ⟨z, hz, e⟩ := h.flag hy
    exact ⟨z, hz, (flag y).trans e⟩

theorem ending : Ending i (Lessened i w) where
  noted _ h := h.onHost
  stripped h := by
    refine settle (h.modify ?_)
    exact fun _ => rfl
  dissolved _ h := by
    refine settle (h.modify ?_)
    exact fun _ => rfl

end Lessened

/-- After a request to tear an instance down it does not stand, and no other instance
stands that did not. -/
theorem standing_of_deactivate (h : (w.deactivate i).standing j = true) :
    j ≠ i ∧ w.standing j = true := by
  cases stands : w.standing i with
  | false =>
      rw [deactivate_of_not_standing stands] at h
      refine ⟨?_, h⟩
      rintro rfl
      cases stands.symm.trans h
  | true =>
      obtain ⟨x, hi, alive⟩ := standing_iff.1 stands
      obtain ⟨y, hy, upright⟩ := standing_iff.1 h
      rw [deactivate_of_standing hi alive] at hy
      have torn : Lessened i ((w.modifyInstance i ({ · with dying := true })).note
          (.deactivating x.type.name)) (((w.modifyInstance i ({ · with dying := true })).note
            (.deactivating x.type.name)).tearDown i) :=
        Lessened.ending.tearDown .refl
      have marked : ∀ k, ((w.modifyInstance i ({ · with dying := true })).note
          (.deactivating x.type.name)).instances.get? k
            = if k = i then (w.instances.get? i).map ({ · with dying := true })
              else w.instances.get? k := fun k => Table.get?_modify ..
      have hne : j ≠ i := by
        rintro rfl
        obtain ⟨z, hz, e⟩ := torn.flag hy
        rw [marked, if_pos rfl, hi] at hz
        cases hz
        cases upright.symm.trans e
      refine ⟨hne, standing_iff.2 ⟨y, ?_, upright⟩⟩
      have before := torn.same hne hy
      rwa [marked, if_neg hne] at before

/-- A teardown leaves every other instance that somebody owns. -/
theorem instances_deactivate_of_owned (h : w.Owned (.inst j)) (hne : j ≠ i) :
    (w.deactivate i).instances.get? j = w.instances.get? j := by
  have kept : (w.deactivate i).Owned (.inst j) ∧
      (w.deactivate i).instances.get? j = w.instances.get? j := by
    refine deactivate_induction
      (P := fun v => v.Owned (.inst j) ∧ v.instances.get? j = w.instances.get? j)
      (fun h => ⟨(owned_inst_congr rfl rfl).2 h.1, h.2⟩) (fun {v g} h => ?_) (fun {v tasks} h => ?_)
      ⟨h, rfl⟩
    · have same : (v.modifyInstance i g).Owned (.inst j) ↔ v.Owned (.inst j) :=
        owned_inst_congr rfl rfl
      refine ⟨same.2 h.1, ?_⟩
      exact (Table.get?_modify ..).trans ((if_neg hne).trans h.2)
    · have spared : Spared v (v.settle tasks) := Spared.refl.settle
      exact ⟨(owned_inst_congr spared.held spared.contexts).2 h.1,
        (instances_settle_of_owned h.1).trans h.2⟩
  exact kept.2

theorem standing_settle (h : (w.settle tasks).standing i = true) : w.standing i = true := by
  obtain ⟨x, hx, upright⟩ := standing_iff.1 h
  exact standing_iff.2 ⟨x, mountsKept_settle.instances _ _ hx, upright⟩

end World

/-! ## Filling an instance -/

/-- What filling an instance may change: the instance itself, which stands afterwards,
and whatever is neither an instance nor a context. Who held something goes on to. -/
structure World.Filled (i : InstanceId) (w v : World) : Prop where
  contexts : ∀ c, v.contexts.get? c = w.contexts.get? c
  others : ∀ j, j ≠ i → v.instances.get? j = w.instances.get? j
  standing : v.standing i = true
  held : ∀ ref ∈ w.held, ref ∈ v.held
  next : v.instances.nextId = w.instances.nextId

/-- A way to fill an instance that stands and has no root. It may succeed or fail, and
when it succeeds it need not have given the instance a root. -/
structure Action.Fills (fill : InstanceId → Action Unit) : Prop where
  ends : ∀ {w : World} {i x}, w.instances.get? i = some x → x.root = none → x.dying = false →
    Action.Ends (World.Filled i w) (fill i) w

/-- An instance that was just made is filled. -/
theorem Action.Fills.ends_begun {fill : InstanceId → Action Unit} {x : Context}
    (fills : Action.Fills fill) : Action.Ends (World.Filled w.instances.nextId (w.begun c x))
      (fill w.instances.nextId) (w.begun c x) :=
  fills.ends instances_begun rfl rfl

namespace World.Filled

theorem refl (stands : w.standing i = true) : Filled i w w :=
  ⟨fun _ => rfl, fun _ _ => rfl, stands, fun _ => id, rfl⟩

theorem onHost (h : Filled i w v) {host : Host} : Filled i w { v with host } :=
  ⟨h.contexts, h.others, h.standing, h.held, h.next⟩

theorem onNodes (h : Filled i w v) {host : Host} {nodes : Table Node} :
    Filled i w { v with host, nodes } :=
  ⟨h.contexts, h.others, h.standing, h.held, h.next⟩

theorem modify (h : Filled i w v) {g : Instance → Instance} (flag : ∀ x, (g x).dying = x.dying) :
    Filled i w (v.modifyInstance i g) where
  contexts := h.contexts
  others j hne := (Table.get?_modify ..).trans ((if_neg hne).trans (h.others j hne))
  standing := by
    obtain ⟨x, hx, upright⟩ := standing_iff.1 h.standing
    exact standing_iff.2 ⟨g x, (Table.get?_modify ..).trans (by rw [if_pos rfl, hx]; rfl),
      (flag x).trans upright⟩
  held := h.held
  next := Table.nextId_modify.trans h.next

/-- Letting go of a node is no matter of instances. -/
theorem letGo_node (h : Filled i w v) {n : NodeId} : Filled i w (v.settle [.letGo (.node n)]) := by
  have step : Settling fun u todo => Filled i w u ∧
      ∀ task ∈ todo, task = .letGo (.node n) := {
    disposed := fun h => nomatch h.2 _ List.mem_cons_self
    unpinned := fun h => nomatch h.2 _ List.mem_cons_self
    dissolved := fun _ h => nomatch h.2 _ List.mem_cons_self
    absent := fun _ h => nomatch h.2 _ List.mem_cons_self
    kept := fun _ h => ⟨h.1, fun task mem => h.2 task (List.mem_cons_of_mem _ mem)⟩
    evicted := fun _ _ h => ⟨h.1.onNodes, fun task mem => h.2 task (List.mem_cons_of_mem _ mem)⟩
    removedBinding := fun _ _ h => nomatch h.2 _ List.mem_cons_self
    removedInstance := fun _ _ h => nomatch h.2 _ List.mem_cons_self }
  exact (step.settle_all ⟨h, fun task mem => List.mem_singleton.1 mem⟩).1

end World.Filled

/-- The fillings that there are, each of them. -/
theorem Action.fills (filling : Filling) : Action.Fills (Action.fill · filling) where
  ends {w i x} hi rootless alive := by
    have start : Filled i w w := .refl (standing_iff.2 ⟨x, hi, alive⟩)
    cases filling with
    | noRoot => exact .pure start _
    | failing cause => exact .throw start cause
    | freshRoot =>
        have sized : Filled i w (w.sized i) := start.modify fun _ => rfl
        constructor
        · intro u w' done
          obtain ⟨_, config, n, v, host, -, -, made, -, rfl⟩ := fillBuiltIn_ok done
          obtain ⟨-, _, _, _, _, -, rfl, -⟩ := newNode_ok made
          rw [setRoot_of_none]
          · refine World.Filled.modify ?_ fun _ => rfl
            exact ⟨sized.contexts, sized.others, sized.standing, sized.held, sized.next⟩
          · show ((w.instances.modify i _).get? i).bind _ = none
            rw [Table.get?_modify, if_pos rfl, hi]
            exact rootless
        · intro e w' failed
          rcases fillBuiltIn_error failed with rfl | ⟨mode, cause, refused⟩ |
            ⟨mode, n, v, host, made, -, rfl⟩
          · exact start
          · obtain ⟨host, rfl, -⟩ := newNode_error refused
            exact sized.onHost
          · obtain ⟨-, _, _, _, _, -, rfl, -⟩ := newNode_ok made
            exact World.Filled.letGo_node (World.Filled.onNodes sized)

end Memfs
