import Memfs.Proofs.Teardown

/-!
# The instances of one context

A context is asked for its tree as often as its user likes, the instance that it made is
handed out or not, and in the end the context goes. Each instance that was made on the
way has either been handed out by then, and stands, or its teardown was run exactly
once. There is one exception. A filling that succeeds without giving the instance a root
leaves the instance with the context, and the next request for a tree puts another one
in its place: the instance that is displaced is let go of, and its teardown was never
run.

A world does not tell how often a teardown was run in it. `Watched` keeps a record
beside the world and does to the world what the program does; the record grows where
the program tears down an instance that stands, which is the only place where a teardown
is run.
-/

namespace Memfs

open World

/-! ## Any way of filling -/

namespace Action

/-- Makes the instance of a context and fills it in any way. -/
def makeInstanceBy (c : ContextId) (fill : InstanceId → Action Unit) : Action Unit := do
  let before ← context c
  let i ← total (·.newInstance before.type before.source before.flags)
  modify fun w =>
    (w.modifyContext c ({ · with data := none })).modifyInstance i ({ · with data := before.data })
  (fill i).onFailure fun e w =>
    ((w.note (.fillFailed before.type.name e)).deactivate i).settle [.letGo (.inst i)]
  modify fun w =>
    let root := (w.instances.get? i).bind (·.root)
    (w.modifyContext c ({ · with root, made := some i })).settle
      ((before.root.toList.map fun b => .letGo (.binding b))
        ++ before.made.toList.map fun i => .letGo (.inst i))

/-- Asks a context for its tree, where the instance is filled in any way. -/
def makeTreeBy (c : ContextId) (fill : InstanceId → Action Unit) : Action Unit := do
  let before ← context c
  if before.root.isSome then throw .busy
  makeInstanceBy c fill
  if (← context c).root.isNone then
    note (.noRoot before.type.name)
    throw .invalidArgument

variable {w v : World} {c : ContextId} {x : Context} {fill : InstanceId → Action Unit}

/-- The instance is given up if it cannot be filled, and comes to the context else. -/
theorem makeInstanceBy_eq (hc : w.contexts.get? c = some x) :
    makeInstanceBy c fill w = match fill w.instances.nextId (w.begun c x) with
      | .ok _ v => .ok () (v.made c x w.instances.nextId)
      | .error e v => .error e (v.givenUp w.instances.nextId x.type e) := by
  unfold makeInstanceBy
  have begun : (modify fun v => (v.modifyContext c ({ · with data := none })).modifyInstance
      w.instances.nextId ({ · with data := x.data }) : Action Unit)
        (w.newInstance x.type x.source x.flags).2 = .ok () (w.begun c x) := rfl
  rw [bind_of_ok (context_of_get? hc), bind_of_ok (total_eq_ok.2 ⟨rfl, rfl⟩)]
  simp only [World.newInstance] at begun ⊢
  rw [bind_of_ok begun]
  cases h : fill w.instances.nextId (w.begun c x) with
  | ok u v => rw [bind_of_ok (onFailure_eq_ok.2 h)]; rfl
  | error e v => rw [bind_of_error (onFailure_eq_error.2 ⟨v, h, rfl⟩)]; rfl

/-- The program is the case of a type's own way of filling. -/
theorem makeTree_eq_makeTreeBy {ops : ContextOps} (hc : w.contexts.get? c = some x)
    (hops : x.type.ops = some ops) : makeTree c w = makeTreeBy c (Action.fill · ops.filling) w := by
  unfold makeTree makeTreeBy
  rw [bind_of_ok (context_of_get? hc), bind_of_ok (context_of_get? hc)]
  cases x.root with
  | some root => rfl
  | none =>
      rw [hops]
      rfl

end Action

/-! ## The record -/

/-- What is done with a context between its beginning and its end. -/
inductive Dealing where
  /-- It is asked for its tree. -/
  | tree (fill : InstanceId → Action Unit)
  /-- Its instance is handed out, if it has one. -/
  | take

/-- A world, and what became of instances on the way to it. -/
structure Watched where
  world : World
  /-- The instances whose teardown was run, as often as it was. -/
  torn : List InstanceId := []
  /-- The instances that were handed out. -/
  handed : List InstanceId := []
  /-- The instances that another one took the place of in a context. -/
  displaced : List InstanceId := []

/-- What the program does. -/
def World.deal (c : ContextId) (w : World) : Dealing → World
  | .tree fill => (Action.makeTreeBy c fill).into w
  | .take => (w.takeInstance c).2

namespace World

/-- The context has its instance. A complaint is made if that has no root. -/
def finished (w : World) (c : ContextId) (before : Context) (i : InstanceId) : World :=
  let w := w.made c before i
  if (w.contexts.get? c).any (·.root.isNone) then w.note (.noRoot before.type.name) else w

end World

namespace Watched

/-- Something is done that tears no instance down. -/
def on (t : Watched) (f : World → World) : Watched := { t with world := f t.world }

/-- The teardown of an instance is run, if it stands. -/
def deactivate (t : Watched) (i : InstanceId) : Watched :=
  { t with
    world := t.world.deactivate i
    torn := t.torn ++ if t.world.standing i then [i] else [] }

def tree (c : ContextId) (fill : InstanceId → Action Unit) (t : Watched) : Watched :=
  match t.world.contexts.get? c with
  | none => t
  | some before =>
    if before.root.isSome then t
    else
      let i := t.world.instances.nextId
      match fill i (t.world.begun c before) with
      | .error e v =>
        ((t.on fun _ => v.note (.fillFailed before.type.name e)).deactivate i).on
          (·.settle [.letGo (.inst i)])
      | .ok _ v =>
        { t with
          world := v.finished c before i
          displaced := t.displaced ++ before.made.toList }

def take (c : ContextId) (t : Watched) : Watched :=
  { t with
    world := (t.world.takeInstance c).2
    handed := t.handed ++ (t.world.takeInstance c).1.toList }

def deal (c : ContextId) (t : Watched) : Dealing → Watched
  | .tree fill => t.tree c fill
  | .take => t.take c

def deals (c : ContextId) (t : Watched) (dealings : List Dealing) : Watched :=
  dealings.foldl (deal c) t

/-- The context ends. -/
def drop (c : ContextId) (t : Watched) : Watched :=
  let t := t.on (·.freeData c)
  match t.world.contexts.get? c with
  | none => t
  | some context =>
    let t := match context.made with
      | none => t
      | some i =>
        let root := context.root.toList.map fun b => Task.letGo (.binding b)
        let t := (t.on fun w => (w.modifyContext c ({ · with root := none })).settle root).deactivate i
        t.on fun w => (w.modifyContext c ({ · with made := none })).settle [.letGo (.inst i)]
    t.on fun w =>
      let left := (w.contexts.get? c).toList.flatMap fun context =>
        (context.data.toList.map Task.dispose)
          ++ context.root.toList.map fun b => .letGo (.binding b)
      { w with contexts := w.contexts.erase c }.settle left

/-- Further requests to tear instances down. -/
def deactivates (t : Watched) (further : List InstanceId) : Watched := further.foldl deactivate t

variable {t : Watched} {c : ContextId} {fill : InstanceId → Action Unit}

/-! ## The record does not change what is done -/

theorem world_tree : (t.tree c fill).world = (Action.makeTreeBy c fill).into t.world := by
  unfold tree
  cases hc : t.world.contexts.get? c with
  | none =>
      unfold Action.into Action.makeTreeBy
      rw [Action.bind_of_error (Action.context_of_absent hc)]
  | some before =>
      unfold Action.into Action.makeTreeBy
      rw [Action.bind_of_ok (Action.context_of_get? hc)]
      cases hroot : before.root with
      | some root =>
          simp only [hroot, Option.isSome_some, if_true]
          rw [Action.bind_of_error (Action.throw_eq_error.2 ⟨rfl, rfl⟩)]
      | none =>
          simp only [hroot, Option.isSome_none, Bool.false_eq_true, if_false]
          cases filled : fill t.world.instances.nextId (t.world.begun c before) with
          | error e v =>
              have failed : Action.makeInstanceBy c fill t.world = _ := Action.makeInstanceBy_eq hc
              rw [filled] at failed
              rw [Action.bind_of_error failed]
              rfl
          | ok u v =>
              have made : Action.makeInstanceBy c fill t.world = _ := Action.makeInstanceBy_eq hc
              rw [filled] at made
              rw [Action.bind_of_ok made]
              simp only [finished]
              generalize v.made c before t.world.instances.nextId = w
              cases hy : w.contexts.get? c with
              | none =>
                  rw [Action.bind_of_error (Action.context_of_absent hy)]
                  rfl
              | some y =>
                  rw [Action.bind_of_ok (Action.context_of_get? hy)]
                  cases rooted : y.root with
                  | none =>
                      simp only [Option.any_some, rooted]
                      rfl
                  | some root =>
                      simp only [Option.any_some, rooted]
                      rfl

theorem world_drop : (t.drop c).world = t.world.dropContext c := by
  unfold drop World.dropContext on
  simp only
  cases hc : (t.world.freeData c).contexts.get? c with
  | none => rfl
  | some context =>
      cases hmade : context.made with
      | none => simp only [hmade]
      | some i =>
          simp only [hmade]
          rfl

theorem world_deals {dealings : List Dealing} :
    (t.deals c dealings).world = dealings.foldl (World.deal c) t.world := by
  induction dealings generalizing t with
  | nil => rfl
  | cons dealing rest ih =>
      refine ih.trans (congrArg (rest.foldl (World.deal c)) ?_)
      cases dealing with
      | tree fill => exact world_tree
      | take => rfl

end Watched

/-! ## What a step leaves alone -/

/-- What is done between `w` and `v` is not about the instance. It stands in `v` only if it
stood in `w`, and it goes on standing if a caller holds it. -/
structure World.Aloof (i : InstanceId) (w v : World) : Prop where
  held : .inst i ∈ w.held → .inst i ∈ v.held
  stays : .inst i ∈ w.held → v.standing i = w.standing i
  falls : v.standing i = true → w.standing i = true

namespace World.Aloof

variable {w v u : World} {i j : InstanceId} {c : ContextId} {x : Context} {tasks : List Task}

theorem of_tables (held : v.held = w.held) (instances : v.instances = w.instances) :
    Aloof i w v := by
  have same : v.standing i = w.standing i := standing_congr (by rw [instances])
  exact ⟨fun h => held ▸ h, fun _ => same, fun h => same ▸ h⟩

theorem trans (a : Aloof i w v) (b : Aloof i v u) : Aloof i w u where
  held h := b.held (a.held h)
  stays h := (b.stays (a.held h)).trans (a.stays h)
  falls h := a.falls (b.falls h)

theorem settle : Aloof i w (w.settle tasks) where
  held h := by
    rw [(Spared.refl.settle : Spared w (w.settle tasks)).held]
    exact h
  stays h := standing_congr (instances_settle_of_owned (owned_of_held h))
  falls := standing_settle

theorem deactivate (hne : i ≠ j) : Aloof i w (w.deactivate j) where
  held h := by
    rw [(Spared.refl.deactivate : Spared w (w.deactivate j)).held]
    exact h
  stays h := standing_congr (instances_deactivate_of_owned (owned_of_held h) hne)
  falls h := (standing_of_deactivate h).2

theorem begun (known : i < w.instances.nextId) : Aloof i w (w.begun c x) := by
  have hne : i ≠ w.instances.nextId := Nat.ne_of_lt known
  have same : (w.begun c x).standing i = w.standing i := by
    refine standing_congr ((Table.get?_modify ..).trans ((if_neg hne).trans ?_))
    exact Table.get?_push_of_ne hne
  exact ⟨id, fun _ => same, fun h => same ▸ h⟩

theorem filled (f : Filled j w v) (hne : i ≠ j) : Aloof i w v := by
  have same : v.standing i = w.standing i := standing_congr (f.others i hne)
  exact ⟨f.held _, fun _ => same, fun h => same ▸ h⟩

theorem finished : Aloof i w (w.finished c x j) := by
  have made : Aloof i w (w.made c x j) := by
    refine Aloof.trans ?_ settle
    exact of_tables rfl rfl
  unfold World.finished
  simp only
  split
  · exact made.trans (of_tables rfl rfl)
  · exact made

theorem takeInstance : Aloof i w (w.takeInstance c).2 := by
  unfold World.takeInstance
  cases w.contexts.get? c with
  | none => exact of_tables rfl rfl
  | some x =>
      refine Aloof.trans ?_ settle
      cases x.made with
      | none => exact of_tables rfl rfl
      | some j => exact ⟨List.mem_cons_of_mem _, fun _ => rfl, id⟩

theorem freeData : Aloof i w (w.freeData c) := by
  unfold World.freeData
  cases w.contexts.get? c with
  | none => exact of_tables rfl rfl
  | some x =>
      simp only
      split
      · cases x.data with
        | none => exact of_tables rfl rfl
        | some data =>
            refine Aloof.trans ?_ settle
            exact of_tables rfl rfl
      · exact of_tables rfl rfl

end World.Aloof

end Memfs
