import Memfs.Proofs.Changes.Mounts
import Memfs.Proofs.Homes.Operations

/-!
# Homes along a run

Every call keeps objects where they belong. An operation stays inside of one instance, a
mount makes one that was not there before, and all other calls at most take objects away.

An instance that is gone gains nothing either. Whoever would make a name or a node for it
looks for the instance first, and its number is not given out again.
-/

namespace Memfs

open World

variable {w v : World} {todo todo' : List Task} {grows : Prop} {i j : InstanceId} {c : ContextId}
  {b : BindingId} {tasks : List Task}

/-! ## What an operation inside of an instance leaves -/

namespace Inside

theorem bindingHome_inside (h : Inside grows (w.realm i) i w v) (inside : (w.realm i).binding b)
    (home : v.bindingHome b = some j) : j = i := by
  obtain ⟨n, hn, home⟩ := bindingHome_eq_some_iff.1 home
  obtain ⟨x, hx, rfl⟩ := nodeHome_eq_some_iff.1 home
  exact h.closed.home (h.closed.bound inside hn) hx

/-- What belongs to another instance is out of reach. -/
theorem untouched (h : Inside grows (w.realm i) i w v) (other : j ≠ i) : Untouched j w v where
  inst := h.instances other
  nodes home := h.nodes fun inside => by
    rcases home with home | home
    · obtain ⟨x, hx, -⟩ := nodeHome_eq_some_iff.1 home
      have home' := (realm_node (Table.has_of_get? hx)).1 inside
      exact other (Option.some.inj (home.symm.trans home'))
    · obtain ⟨x, hx, rfl⟩ := nodeHome_eq_some_iff.1 home
      exact other (h.closed.home inside hx)
  bindings home := h.bindings fun inside => by
    rcases home with home | home
    · obtain ⟨n, hn, -⟩ := bindingHome_eq_some_iff.1 home
      obtain ⟨x, hx, -⟩ := nodeOf_eq_some_iff.1 hn
      have home' := (realm_binding (Table.has_of_get? hx)).1 inside
      exact other (Option.some.inj (home.symm.trans home'))
    · exact other (h.bindingHome_inside inside home)
  files home := h.files fun inside => by
    rcases home with home | home
    · obtain ⟨x, _, hx, -⟩ := fileHome_eq_some_iff.1 home
      have home' := (realm_file (Table.has_of_get? hx)).1 inside
      exact other (Option.some.inj (home.symm.trans home'))
    · obtain ⟨x, n, hx, hn, home⟩ := fileHome_eq_some_iff.1 home
      obtain ⟨insideB, bound⟩ := h.closed.file inside hx
      refine other (h.bindingHome_inside insideB ?_)
      exact (bindingHome_of_nodeOf (bound n hn)).trans home

theorem nodeOf_outside (h : Inside grows (w.realm i) i w v) (out : ¬ (w.realm i).binding b) :
    v.nodeOf b = w.nodeOf b :=
  nodeOf_congr (h.bindings out)

theorem bindingHome_outside (h : Inside grows (w.realm i) i w v) (s : Sound w todo)
    (out : ¬ (w.realm i).binding b) : v.bindingHome b = w.bindingHome b := by
  refine bindingHome_congr (h.bindings out) fun n hn => h.nodes fun inside => out (.inr ?_)
  have there : w.nodes.has n = true := s.tended.there (owned_of_nodeOf hn)
  exact (bindingHome_of_nodeOf hn).trans ((realm_node there).1 inside)

/-- Inside of the instance everything belongs to it, and outside nothing has changed. -/
theorem homed (h : Inside grows (w.realm i) i w v) (before : Homed w) (s : Sound w todo) :
    Homed v where
  child {d name c k j} entry homeD homeC := by
    by_cases inside : (w.realm i).binding d
    · have insideC := (h.closed.child entry).1 inside
      exact (h.bindingHome_inside inside homeD).trans (h.bindingHome_inside insideC homeC).symm
    · have outC := mt (h.closed.child entry).2 inside
      rw [child?_congr (h.bindings inside)] at entry
      rw [h.bindingHome_outside s inside] at homeD
      rw [h.bindingHome_outside s outC] at homeC
      exact before.child entry homeD homeC
  root {k inst root} hk hroot _ := by
    by_cases same : k = i
    · subst same
      obtain ⟨inside, n, hn⟩ := h.closed.root hk hroot
      exact ⟨n, hn, fun j home =>
        h.bindingHome_inside inside ((bindingHome_of_nodeOf hn).trans home)⟩
    · rw [h.instances same] at hk
      have home := before.bindingHome_root s hk hroot
      have owner : w.Owner (.binding root) (.inst k) := ⟨inst, hk, hroot⟩
      have out : ¬ (w.realm i).binding root := fun inside => by
        have home' := (realm_binding (s.tended.there ⟨_, owner⟩)).1 inside
        exact same (Option.some.inj (home.symm.trans home'))
      obtain ⟨n, hn, -⟩ := bindingHome_eq_some_iff.1 home
      have hn := (h.nodeOf_outside out).trans hn
      refine ⟨n, hn, fun j homeN => ?_⟩
      rw [← bindingHome_of_nodeOf hn, h.bindingHome_outside s out, home] at homeN
      exact (Option.some.inj homeN).symm
  file {f x n} hf hn _ := by
    by_cases inside : (w.realm i).file f
    · exact (h.closed.file inside hf).2 n hn
    · rw [h.files inside] at hf
      have bound := before.nodeOf_file s hf hn
      refine (h.nodeOf_outside fun insideB => inside (.inr ?_)).trans bound
      have owner : w.Owner (.binding x.binding) (.file f) := ⟨x, hf, rfl⟩
      have home := (realm_binding (s.tended.there ⟨_, owner⟩)).1 insideB
      exact fileHome_eq_some_iff.2 ⟨x, n, hf, hn, (bindingHome_of_nodeOf bound).symm.trans home⟩

end Inside

/-! ## What every call keeps -/

/-- Objects are still where they belong, and instances that were gone have not grown. -/
structure Abides (w v : World) : Prop where
  homed : Homed v
  next : w.instances.nextId ≤ v.instances.nextId
  fewer : ∀ {i}, i < w.instances.nextId → w.instances.has i = false → Fewer i w v

namespace Abides

variable {u : World} {k : InstanceId}

theorem refl (h : Homed w) : Abides w w := ⟨h, Nat.le_refl _, fun _ _ => .refl⟩

/-- The trees, nodes and files are the same, and each root was the root before. -/
theorem aside (h : Abides w v) {host : Host} {instances : Table Instance} {contexts : Table Context}
    {held : List Ref} {types : List FilesystemType} {puts : List (String × Nat)}
    (next : v.instances.nextId ≤ instances.nextId)
    (roots : ∀ {i x b}, instances.get? i = some x → x.root = some b →
      ∃ y, v.instances.get? i = some y ∧ y.root = some b) :
    Abides w { v with host, instances, contexts, held, types, puts } where
  homed :=
    { child := h.homed.child
      root := fun hi hroot there => by
        obtain ⟨y, hy, hroot⟩ := roots hi hroot
        exact h.homed.root hy hroot there
      file := h.homed.file }
  next := h.next.trans next
  fewer lt gone := (h.fewer lt gone).trans (.of_tables id id id)

/-- The instances are the same as well. -/
theorem onRest (h : Abides w v) {host : Host} {contexts : Table Context} {held : List Ref}
    {types : List FilesystemType} {puts : List (String × Nat)} :
    Abides w { v with host, contexts, held, types, puts } :=
  h.aside (Nat.le_refl _) fun hi hroot => ⟨_, hi, hroot⟩

theorem modifyInstance (h : Abides w v) {g : Instance → Instance}
    (root : ∀ x b, (g x).root = some b → x.root = some b) : Abides w (v.modifyInstance i g) := by
  refine h.aside (Nat.le_of_eq Table.nextId_modify.symm) fun {k x b} hk hroot => ?_
  rcases Table.get?_of_modify hk with ⟨-, y, hy, rfl⟩ | ⟨-, hk⟩
  · exact ⟨y, hy, root y b hroot⟩
  · exact ⟨x, hk, hroot⟩

theorem onFiles (h : Abides w v) {files : Table OpenFile} (kept : ∀ {f x}, files.get? f = some x →
      ∃ y, v.files.get? f = some y ∧ y.binding = x.binding ∧ y.node = x.node) :
    Abides w { v with files } where
  homed :=
    { child := h.homed.child
      root := h.homed.root
      file := fun {f x n} hf hn there => by
        obtain ⟨y, hy, binding, node⟩ := kept hf
        have bound := h.homed.file hy (node.trans hn)
        rw [binding] at bound
        exact bound there }
  next := h.next
  fewer lt gone := (h.fewer lt gone).trans (.of_tables id id id)

theorem settle (h : Abides w v) : Abides w (v.settle tasks) where
  homed := h.homed.spared Spared.refl.settle fun hi hroot =>
    ⟨_, mountsKept_settle.instances _ _ hi, hroot⟩
  next := h.next.trans_eq Spared.refl.settle.next.2.symm
  fewer lt gone := (h.fewer lt gone).trans (.spared Spared.refl.settle)

/-- What is done inside of an instance that was there, or that has been made since. -/
theorem inside (h : Abides w u) (s : Sound u todo) (inside : Inside grows (u.realm i) i u v)
    (alive : grows → i < w.instances.nextId → w.instances.has i = true) : Abides w v where
  homed := inside.homed h.homed s
  next := h.next.trans_eq inside.next.symm
  fewer {k} lt gone := by
    refine (h.fewer lt gone).trans ?_
    by_cases same : k = i
    · subst same
      refine inside.fewer fun growing => ?_
      cases gone.symm.trans (alive growing lt)
    · exact (inside.untouched same).fewer

theorem closeFile (h : Abides w v) {f : FileId} :
    Action.Ends (Abides w) (Action.closeFile f) v := by
  refine .modify ?_
  cases v.files.get? f with
  | none => exact h
  | some file => exact settle (h.onFiles fun hx => ⟨_, Table.get?_of_erase hx, rfl, rfl⟩)

/-! ## Mounts -/

theorem ending : Ending i (Abides w) where
  noted _ h := h.onRest
  stripped h := settle (h.modifyInstance fun _ _ => id)
  dissolved _ h := settle (h.modifyInstance fun _ _ none => nomatch none)

theorem deactivate (h : Abides w v) : Abides w (v.deactivate i) :=
  ending.deactivate h fun _ => h.modifyInstance fun _ _ => id

theorem configuring : Configuring (Abides w) where
  noted _ h := h.onRest
  sourced h := h.onRest
  configured _ _ h := h.onRest
  backed _ _ h := h.modifyInstance fun _ _ => id

theorem newContext (h : Abides w v) {type : FilesystemType} :
    Action.Ends (Abides w) (Action.newContext type) v :=
  .newContext h (fun _ => h.onRest) fun h => h.onRest

theorem leaving : Leaving (Abides w) where
  noted _ h := h.onRest
  contexts h := h.onRest
  held h := h.onRest
  settled h := h.settle
  deactivated h := h.deactivate

/-- An instance that begins has no root, so nothing belongs to it. -/
theorem begun (h : Abides w v) {x : Context} : Abides w (v.begun c x) := by
  refine modifyInstance ?_ fun _ _ => id
  refine h.aside ((Nat.le_succ _).trans_eq Table.nextId_push.symm) fun {k y b} hk hroot => ?_
  unfold World.newInstance at hk
  rcases Table.get?_of_push hk with ⟨-, rfl⟩ | ⟨-, hk⟩
  · cases hroot
  · exact ⟨y, hk, hroot⟩

theorem fill (h : Abides w v) (s : Sound v todo) (newer : w.instances.nextId ≤ i)
    {filling : Filling} : Action.Ends (Abides w) (Action.fill i filling) v :=
  (Inside.fill (.refl (h.homed.closed s i)) trivial).mono fun _ done =>
    h.inside s done fun _ lt => absurd lt (Nat.not_lt_of_le newer)

theorem makeInstance (h : Abides w v) (s : Sound v []) {filling : Filling} :
    Action.Ends (Abides w) (Action.makeInstance c filling) v where
  ok made := by
    obtain ⟨before, u, hc, filled, rfl⟩ := Action.makeInstance_ok made
    exact settle (onRest ((h.begun.fill (s.begun hc) h.next).ok filled))
  error failed := by
    rcases Action.makeInstance_error failed with ⟨-, rfl⟩ | ⟨before, u, hc, failed', rfl⟩
    · exact h
    · exact settle (deactivate (onRest ((h.begun.fill (s.begun hc) h.next).error failed')))

theorem makeTree (h : Abides w v) (s : Sound v []) :
    Action.Ends (Abides w) (Action.makeTree c) v :=
  .makeTree h (fun _ _ => h.makeInstance s) configuring.noted

/-- The tree is made in a world that is sound. -/
theorem mount (h : Abides w v) (s : Sound v []) {name options : String} :
    Action.Ends (Abides w) (Action.mount name options) v := by
  have sound : Action.Ends (fun v => Abides w v ∧ Sound v []) (Action.mount name options) v :=
    .mount ⟨h, s⟩ fun _ _ => .mountType (h.newContext.and s.newContext)
      (fun ⟨h, s⟩ => (configuring.applyOptions h).and (Sound.configuring.applyOptions s))
      (fun ⟨h, s⟩ => (h.makeTree s).and s.makeTree)
      (fun ⟨h, s⟩ => ⟨leaving.takeInstance h, s.takeInstance⟩) (fun ⟨h, s⟩ => ⟨h.onRest, s.note _⟩)
      fun ⟨h, s⟩ => ⟨leaving.dropContext h, s.dropContext⟩
  exact sound.mono fun _ h => h.1

end Abides

/-! ## Calls and runs -/

/-- A failed operation has changed nothing, and one that succeeds has stayed inside. -/
theorem Operation.abides (h : Homed w) (s : Sound w []) (op : Operation) :
    Action.Ends (Abides w) op.act w where
  ok {_ v} done := by
    rcases op.exists_within s done with ⟨f, position, rfl⟩ | ⟨i, within, alive⟩
    · rw [← Action.seek_eq_ok.1 done]
      refine (Abides.refl h).onFiles fun {k x} hk => ?_
      rcases Table.get?_of_modify hk with ⟨-, y, hy, rfl⟩ | ⟨-, hk⟩
      · exact ⟨y, hy, rfl, rfl⟩
      · exact ⟨x, hk, rfl, rfl⟩
    · exact (Abides.refl h).inside s (op.inside h s within done) fun growing _ => alive growing
  error {e v} failed := by
    have same : Unchanged w v := op.act_clean s e v failed
    have kept : Changes op.onFiles w v := (op.changes s.forest).error failed
    exact ⟨h.unchanged same, kept.instances_kept.next, fun _ _ => .unchanged same⟩

theorem World.abides_after (h : Homed w) (s : Sound w []) (call : Call) :
    Abides w (w.after call) := by
  have start : Abides w w := .refl h
  cases call with
  | operate op => exact (op.abides h s).into
  | closeFile f => exact start.closeFile.into
  | hold ref =>
      unfold World.after
      simp only
      split
      · exact start.onRest
      · exact start
  | drop ref => exact .settle start.onRest
  | register type => exact (Abides.configuring.register start fun h => h.onRest).into
  | unregister name => exact (Abides.configuring.unregister start fun h => h.onRest).into
  | mount name options => exact (start.mount s).into
  | newContext type => exact start.newContext.into
  | applyParameter c param => exact (Abides.configuring.applyParameter start).into
  | makeTree c => exact (start.makeTree s).into
  | takeInstance c => exact Abides.leaving.takeInstance start
  | dropContext c => exact Abides.leaving.dropContext start
  | attachToContext c sort device => exact (Abides.configuring.attachToContext start).into
  | attachToInstance i sort device => exact (Abides.configuring.attachToInstance start).into
  | deactivate i => exact start.deactivate
  | setBudget kind budget => exact start.onRest
  | setCredentials uid gid => exact start.onRest
  | setClock clock => exact start.onRest
  | resetIno ino => exact start.onRest

/-- A run keeps objects where they belong. -/
theorem World.homed_run (h : Homed w) (s : Sound w []) (calls : List Call) :
    Homed (w.run calls) := by
  have step : ∀ (v : World) (call : Call), Sound v [] ∧ Homed v →
      Sound (v.after call) [] ∧ Homed (v.after call) :=
    fun v call ⟨s, h⟩ => ⟨s.after call, (World.abides_after h s call).homed⟩
  exact (World.run_induction step calls ⟨s, h⟩).2

/-- An instance that is gone has gained nothing after any run. -/
theorem World.fewer_run (h : Homed w) (s : Sound w []) (calls : List Call)
    (known : i < w.instances.nextId) (gone : w.instances.has i = false) :
    Fewer i w (w.run calls) := by
  have step : ∀ (v : World) (call : Call),
      (Sound v [] ∧ Homed v ∧ i < v.instances.nextId ∧ v.instances.has i = false ∧ Fewer i w v) →
        Sound (v.after call) [] ∧ Homed (v.after call) ∧ i < (v.after call).instances.nextId ∧
          (v.after call).instances.has i = false ∧ Fewer i w (v.after call) := by
    rintro v call ⟨s, h, known, gone, fewer⟩
    have abides := World.abides_after h s call
    refine ⟨s.after call, abides.homed, Nat.lt_of_lt_of_le known abides.next, ?_,
      fewer.trans (abides.fewer known gone)⟩
    rw [← Bool.not_eq_true] at gone ⊢
    exact fun there => ((World.after_changes s.forest call).instances_kept.there i there).elim gone
      (Nat.not_le_of_lt known)
  exact (World.run_induction step calls ⟨s, h, known, gone, .refl⟩).2.2.2.2

end Memfs
