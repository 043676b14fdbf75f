import Memfs.Proofs.Devices.Books

/-!
# Trees in the books

A tree is made for a context by making an instance, to which the configuration passes, and by
filling it. An instance that cannot be filled is torn down and let go of. A configuration that
has passed to such an instance is given back in another place than it was in, but to the books
it is as if it had never left its context (`Books.close_move`).

A context that had made an instance before lets go of it. Whether the configuration of that
one goes is a matter of who else owns it, and this can be told from the state before
(`World.planting`).
-/

namespace Memfs

open World

variable {w v u : World} {b : Books} {c : ContextId} {i j : InstanceId} {x : Context}
  {filling : Filling} {ops : ContextOps} {e : Error}

/-! ## A configuration that has passed to an instance -/

namespace Books

theorem move_of_none (free : b.backing (.inst i) = none) (bare : b.backing (.context c) = none) :
    b.move c i = b := by
  rw [move, close_of_none free]
  simp only [bare]

/-- It is given back with the instance, instead of with the context. -/
theorem close_move (free : b.backing (.inst i) = none) :
    (b.move c i).close (.inst i) = b.close (.context c) := by
  rw [move, close_of_none free]
  cases kept : b.backing (.context c) with
  | none => rw [close_of_none free, close_of_none kept]
  | some x =>
      have here : ((b.without (.context c)).keep (.inst i) x).backing (.inst i) = some x :=
        if_pos rfl
      rw [close, close, here, kept]
      congr 1
      refine Books.ext (funext fun q => ?_) rfl rfl rfl
      simp only [without, keep]
      split
      · next e => rw [e, free, if_neg Place.noConfusion]
      · rfl

/-- The context has it no longer. -/
theorem backing_move : (b.move c i).backing (.context c) = none := by
  cases kept : (b.close (.inst i)).backing (.context c) with
  | none =>
      have moved : b.move c i = b.close (.inst i) := by
        unfold move
        simp only [kept]
      rw [moved, kept]
  | some x =>
      have moved : b.move c i = ((b.close (.inst i)).without (.context c)).keep (.inst i) x := by
        unfold move
        simp only [kept]
      rw [moved]
      show (if Place.context c = .inst i then some x else if Place.context c = .context c then none
        else (b.close (.inst i)).backing (.context c)) = none
      rw [if_neg nofun, if_pos rfl]

end Books

/-! ## Who else owns an instance -/

namespace World

/-- The context has no claim to an instance any more. -/
def parted (w : World) (c : ContextId) : World := w.modifyContext c ({ · with made := none })

theorem owned_inst_iff : w.Owned (.inst i) ↔
    .inst i ∈ w.held ∨ ∃ d x, w.contexts.get? d = some x ∧ x.made = some i := by
  rw [← owns_iff]
  simp [owns, ownsInstance, Table.any_iff]

theorem made_parted {y : Context} (hy : (w.parted c).contexts.get? c = some y) :
    y.made = none := by
  rw [parted, modifyContext, Table.get?_modify, if_pos rfl] at hy
  obtain ⟨x, -, rfl⟩ := Option.map_eq_some_iff.1 hy
  rfl

/-- With a claim of the context or without, the others own the instance or they do not. -/
theorem owned_parted (held : v.held = w.held)
    (others : ∀ d, d ≠ c → v.contexts.get? d = w.contexts.get? d)
    (here : ∀ y, v.contexts.get? c = some y → y.made ≠ some i) :
    v.Owned (.inst i) ↔ (w.parted c).Owned (.inst i) := by
  have apart : ∀ d, d ≠ c → (w.parted c).contexts.get? d = w.contexts.get? d := fun d hne =>
    Table.get?_modify_of_ne hne
  rw [owned_inst_iff, owned_inst_iff, held]
  refine or_congr_right (exists_congr fun d => exists_congr fun y => and_congr_left fun made => ?_)
  by_cases e : d = c
  · subst e
    exact ⟨fun hy => absurd made (here y hy),
      fun hy => absurd ((made_parted hy).symm.trans made) nofun⟩
  · rw [others d e, apart d e]

theorem owned_parted_congr (held : v.held = w.held)
    (others : ∀ d, d ≠ c → v.contexts.get? d = w.contexts.get? d) :
    (v.parted c).Owned (.inst i) ↔ (w.parted c).Owned (.inst i) :=
  owned_parted held (fun d hne => (Table.get?_modify_of_ne hne).trans (others d hne))
    fun _ hy made => absurd ((made_parted hy).symm.trans made) nofun

/-- Nobody owns an instance that is not there. -/
theorem alone_next (s : Sound w []) : ¬ w.Owned (.inst w.instances.nextId) := by
  intro owned
  have there : w.instances.has w.instances.nextId = true := s.tended.there owned
  rw [Table.has, Table.get?_nextId] at there
  cases there

theorem made_lt (s : Sound w []) (hc : w.contexts.get? c = some x) (made : x.made = some i) :
    i < w.instances.nextId := by
  obtain ⟨y, hy⟩ := Table.has_iff.1 (s.tended.there (owned_inst_iff.2 (.inr ⟨c, x, hc, made⟩)))
  exact Table.get?_lt hy

end World

/-! ## Filling -/

/-- The books are the same, and so is everybody who may own an instance. -/
structure World.Unmoved (w v : World) : Prop where
  books : v.books = w.books
  held : v.held = w.held
  contexts : v.contexts = w.contexts
  next : v.instances.nextId = w.instances.nextId

namespace World.Unmoved

theorem refl : w.Unmoved w := ⟨rfl, rfl, rfl, rfl⟩

theorem blind : Blind w.Unmoved where
  host onward h := ⟨(books_host onward).trans h.books, h.held, h.contexts, h.next⟩
  nodes h := ⟨h.books, h.held, h.contexts, h.next⟩
  bindings h := ⟨h.books, h.held, h.contexts, h.next⟩
  files h := ⟨h.books, h.held, h.contexts, h.next⟩

theorem quiet : Quiet w.Unmoved := blind.quiet

theorem note (h : w.Unmoved v) {notice : Notice} (calm : notice.Calm) :
    w.Unmoved (v.note notice) :=
  quiet.note h calm.holding calm.undrawn

theorem modifyInstance (h : w.Unmoved v) {f : Instance → Instance}
    (same : ∀ x, (f x).config? = x.config?) : w.Unmoved (v.modifyInstance i f) where
  books := (books_modifyInstance fun x _ => same x).trans h.books
  held := h.held
  contexts := h.contexts
  next := Table.nextId_modify.trans h.next

theorem setRoot (h : w.Unmoved v) {root : BindingId} : w.Unmoved (v.setRoot i root) := by
  have rooted : w.Unmoved (v.modifyInstance i ({ · with root := some root })) :=
    h.modifyInstance fun _ => rfl
  exact quiet.settle rooted Task.light_bindings

/-- An instance is filled without regard to its devices. -/
theorem fill (h : w.Unmoved v) : Action.Ends w.Unmoved (Action.fill i filling) v := by
  cases filling with
  | noRoot => exact .pure h _
  | failing cause => exact .throw h cause
  | freshRoot =>
      refine .read h .get fun _ _ => .read h (.require _ _) fun config _ =>
        .bind (.modify (h.modifyInstance fun _ => rfl)) fun _ u _ h => ?_
      have made : Action.Ends w.Unmoved
          (Action.newNode i none (config.mode.withType Mode.directoryType) .none) u :=
        quiet.newNode h
      refine .seq (fun e v failed => ?_) fun n v done => ?_
      · obtain ⟨_, _, refused, again⟩ := Action.tryCatch_eq_error.1 failed
        obtain ⟨-, rfl⟩ := Action.throw_eq_error.1 again
        exact made.error refused
      have h : w.Unmoved v := by
        rcases Action.tryCatch_eq_ok.1 done with done | ⟨_, _, -, again⟩
        · exact made.ok done
        · exact absurd again Action.throw_eq_ok
      refine .seq (fun e t failed => ?_) fun b t rooted => ?_
      · obtain ⟨host, refused, rfl⟩ := Action.newRoot_error failed
        exact quiet.letGo (quiet.host (.of_acquire refused nofun) h) trivial
      · obtain ⟨host, acquired, rfl, rfl⟩ := Action.newRoot_ok rooted
        have paid : w.Unmoved { v with host } := quiet.host (.of_acquire acquired nofun) h
        have rooted : w.Unmoved (v.withRoot host n) :=
          quiet.bindings (quiet.bindings (quiet.bindings paid))
        exact .modify rooted.setRoot

end World.Unmoved

/-! ## Making a tree -/

namespace World

/-- The context, if it may be asked for its tree: it has none, and its type can make one. -/
def asked (w : World) (c : ContextId) : Option (Context × ContextOps) :=
  (w.contexts.get? c).bind fun x => if x.root.isSome then none else x.type.ops.map (x, ·)

/-- What is entered when a context is asked for its tree. Its configuration passes to the new
instance, and the one that it had made before goes if nobody else owns it; or the instance
cannot be filled, and its configuration goes. -/
def planting (w : World) (c : ContextId) : List Books.Entry :=
  match w.asked c with
  | none => []
  | some (x, ops) =>
    match Action.makeInstance c ops.filling w with
    | .error _ _ => [.close (.context c)]
    | .ok _ _ => .move c w.instances.nextId ::
      (x.made.toList.filter fun i => ¬ (w.parted c).Owned (.inst i)).map fun i => .close (.inst i)

theorem asked_eq_some : w.asked c = some (x, ops) ↔
    w.contexts.get? c = some x ∧ x.root = none ∧ x.type.ops = some ops := by
  unfold asked
  rw [Option.bind_eq_some_iff]
  constructor
  · rintro ⟨y, hy, h⟩
    split at h
    · cases h
    · next bare =>
        obtain ⟨o, ho, e⟩ := Option.map_eq_some_iff.1 h
        cases e
        exact ⟨hy, by simpa using bare, ho⟩
  · rintro ⟨hc, root, asks⟩
    refine ⟨x, hc, ?_⟩
    rw [root, asks]
    rfl

/-- No instance has the number yet. -/
theorem backing_next : w.books.backing (.inst w.instances.nextId) = none := by
  rw [backing_inst, Table.get?_nextId]
  rfl

theorem books_begun (hc : w.contexts.get? c = some x) :
    (w.begun c x).books = w.books.move c w.instances.nextId := by
  have contexts : (w.begun c x).contexts = w.contexts.modify c ({ · with data := none }) := rfl
  have others : ∀ j, j ≠ w.instances.nextId →
      (w.begun c x).instances.get? j = w.instances.get? j := fun j e =>
    (Table.get?_modify_of_ne e).trans (Table.get?_push_of_ne e)
  have moved : w.books.move c w.instances.nextId = { w.books with
      backing := fun p =>
        if p = .inst w.instances.nextId then w.books.backing (.context c)
        else if p = .context c then none else w.books.backing p } := by
    rw [Books.move, Books.close_of_none backing_next]
    simp only
    cases kept : w.books.backing (.context c) with
    | some y => rfl
    | none =>
        refine Books.ext (funext fun p => ?_) rfl rfl rfl
        simp only
        split
        · next e => rw [e, backing_next]
        · split
          · next e => rw [e, kept]
          · rfl
  rw [moved]
  refine Books.ext (funext fun p => ?_) rfl rfl rfl
  simp only
  cases p with
  | nowhere => rfl
  | context d =>
      rw [backing_context, contexts]
      by_cases e : d = c
      · rw [if_neg nofun, if_pos (congrArg _ e), Table.get?_modify, if_pos e, hc]
        rfl
      · rw [if_neg nofun, if_neg (mt Place.context.inj e), Table.get?_modify_of_ne e]
        rfl
  | inst j =>
      rw [backing_inst]
      by_cases e : j = w.instances.nextId
      · rw [if_pos (congrArg _ e), e, instances_begun, backing_context, hc]
        rfl
      · rw [if_neg (mt Place.inst.inj e), if_neg nofun, others j e]
        rfl

/-- The instance that was begun belongs to nobody so far. -/
theorem alone_begun (s : Sound w []) : ¬ (w.begun c x).Owned (.inst w.instances.nextId) := by
  intro owned
  rcases owned_inst_iff.1 owned with mem | ⟨d, y, hy, made⟩
  · exact alone_next s (owned_inst_iff.2 (.inl mem))
  · rcases Table.get?_of_modify hy with ⟨-, z, hz, rfl⟩ | ⟨-, hz⟩
    · exact alone_next s (owned_inst_iff.2 (.inr ⟨_, z, hz, made⟩))
    · exact alone_next s (owned_inst_iff.2 (.inr ⟨d, y, hz, made⟩))

/-- An instance that cannot be filled goes with what it has. -/
theorem books_makeInstance_error (s : Sound w []) (hc : w.contexts.get? c = some x)
    (failed : Action.makeInstance c filling w = .error e v) :
    v.books = w.books.close (.context c) ∧
      v.contexts = w.contexts.modify c ({ · with data := none }) := by
  obtain ⟨absent, -⟩ | ⟨y, u, hy, unfilled, rfl⟩ := Action.makeInstance_error failed
  · cases hc.symm.trans absent
  cases hc.symm.trans hy
  have kept : (w.begun c x).Unmoved (u.note (.fillFailed x.type.name e)) :=
    (Unmoved.refl.fill.error unfilled).note ⟨rfl, rfl, rfl⟩
  unfold World.givenUp
  generalize u.note (.fillFailed x.type.name e) = t at kept ⊢
  have spared : Spared t (t.deactivate w.instances.nextId) := Spared.refl.deactivate
  have alone : ¬ (t.deactivate w.instances.nextId).Owned (.inst w.instances.nextId) := by
    rw [owned_inst_congr spared.held spared.contexts, owned_inst_congr kept.held kept.contexts]
    exact alone_begun s
  constructor
  · rw [books_letGo (fun _ mem => .inr (List.mem_singleton.1 mem)) List.mem_cons_self,
      if_neg alone, books_deactivate, kept.books, books_begun hc,
      ← Books.close_move (backing_next (w := w))]
    split
    · exact Books.close_close
    · rfl
  · rw [contexts_settle, contexts_deactivate, kept.contexts]
    rfl

theorem contexts_made (hc : u.contexts.get? c = some x) {y : Context} :
    ∃ root, (u.made c y i).contexts.get? c = some { x with root, made := some i } := by
  refine ⟨(u.instances.get? i).bind (·.root), ?_⟩
  unfold World.made
  rw [contexts_settle]
  refine (Table.get?_modify ..).trans ?_
  rw [if_pos rfl, hc]
  rfl

/-- The configuration of the context is with the instance that was filled, and the instance
that the context had made before is let go of. -/
theorem books_makeInstance_ok (s : Sound w []) (hc : w.contexts.get? c = some x)
    (done : Action.makeInstance c filling w = .ok () v) :
    v.books = ((x.made.toList.filter fun i => ¬ (w.parted c).Owned (.inst i)).map fun i =>
      .close (.inst i)).foldl Books.enter (w.books.move c w.instances.nextId) ∧
    v.held = w.held ∧ (∀ d, d ≠ c → v.contexts.get? d = w.contexts.get? d) ∧
    ∃ root, v.contexts.get? c
      = some { x with data := none, root, made := some w.instances.nextId } := by
  obtain ⟨y, u, hy, filled, rfl⟩ := Action.makeInstance_ok done
  cases hc.symm.trans hy
  have kept : (w.begun c x).Unmoved u := Unmoved.refl.fill.ok filled
  obtain ⟨root, here⟩ := contexts_made (i := w.instances.nextId) (y := x)
    ((congrArg (·.get? c) kept.contexts).trans (contexts_begun hc))
  have others : ∀ d, d ≠ c →
      (u.made c x w.instances.nextId).contexts.get? d = w.contexts.get? d := fun d hne => by
    unfold World.made
    rw [contexts_settle]
    refine (Table.get?_modify_of_ne hne).trans ?_
    rw [kept.contexts]
    exact Table.get?_modify_of_ne hne
  have spared : (u.made c x w.instances.nextId).held = w.held :=
    Spared.refl.settle.held.trans kept.held
  refine ⟨?_, spared, others, root, here⟩
  unfold World.made at others here spared ⊢
  rw [contexts_settle] at others here
  rw [Spared.refl.settle.held] at spared
  have books : (u.modifyContext c ({ · with
      root := (u.instances.get? w.instances.nextId).bind (·.root)
      made := some w.instances.nextId })).books = w.books.move c w.instances.nextId := by
    rw [← books_begun hc, ← kept.books]
    exact books_modifyContext fun _ _ => rfl
  cases made : x.made with
  | none =>
      rw [Option.toList_none, List.map_nil, List.append_nil]
      exact (Level.settle Task.light_bindings).books.trans books
  | some j =>
      have tasks : ∀ task ∈ (x.root.toList.map fun b => Task.letGo (.binding b))
          ++ [.letGo (.inst j)], task.Light ∨ task = .letGo (.inst j) := fun task mem =>
        (List.mem_append.1 mem).imp (Task.light_bindings task) List.mem_singleton.1
      have claims := owned_parted (i := j) spared others fun y hy same => by
        cases here.symm.trans hy
        exact absurd (Option.some.inj same) (Nat.ne_of_gt (made_lt s hc made))
      rw [Option.toList_some, List.map_singleton,
        books_letGo tasks (List.mem_append_right _ List.mem_cons_self), books]
      by_cases owned : (w.parted c).Owned (.inst j)
      · rw [if_pos (claims.2 owned), List.filter_cons, if_neg (by simpa using owned)]
        rfl
      · rw [if_neg (mt claims.1 owned), List.filter_cons, if_pos (by simpa using owned)]
        rfl

end World

/-- A context that may not be asked for its tree refuses. -/
theorem Action.makeTree_of_unasked (unasked : w.asked c = none) :
    ∃ e, Action.makeTree c w = .error e w := by
  unfold Action.makeTree
  cases hc : w.contexts.get? c with
  | none => exact ⟨_, bind_of_error (context_of_absent hc)⟩
  | some x =>
      rw [bind_of_ok (context_of_get? hc)]
      cases hroot : x.root with
      | some root => exact ⟨.busy, rfl⟩
      | none =>
          cases hops : x.type.ops with
          | none => exact ⟨.invalidArgument, rfl⟩
          | some ops =>
              rw [asked_eq_some.2 ⟨hc, hroot, hops⟩] at unasked
              cases unasked

/-- A context that may be asked makes its instance, and complains if that has no root. -/
theorem Action.makeTree_of_asked (asked : w.asked c = some (x, ops)) :
    (∃ e v, Action.makeInstance c ops.filling w = .error e v ∧
      Action.makeTree c w = .error e v) ∨
    ∃ v, Action.makeInstance c ops.filling w = .ok () v ∧
      (Action.makeTree c w = .ok () v ∨
        Action.makeTree c w = .error .invalidArgument (v.note (.noRoot x.type.name))) := by
  obtain ⟨hc, root, asks⟩ := asked_eq_some.1 asked
  have begins : Action.makeTree c w = (Action.makeInstance c ops.filling >>= fun _ => do
      if (← Action.context c).root.isNone then
        Action.note (.noRoot x.type.name)
        throw .invalidArgument) w := by
    unfold Action.makeTree
    rw [bind_of_ok (context_of_get? hc), root, asks]
    rfl
  rw [begins]
  cases made : Action.makeInstance c ops.filling w with
  | error e v => exact .inl ⟨e, v, rfl, bind_of_error made⟩
  | ok n v =>
      refine .inr ⟨v, rfl, ?_⟩
      obtain ⟨y, u, hy, filled, rfl⟩ := makeInstance_ok made
      cases hc.symm.trans hy
      have kept : (w.begun c x).Unmoved u := Unmoved.refl.fill.ok filled
      obtain ⟨root, hz⟩ := contexts_made (i := w.instances.nextId) (y := x)
        ((congrArg (·.get? c) kept.contexts).trans (contexts_begun hc))
      rw [bind_of_ok made, bind_of_ok (context_of_get? hz)]
      cases root with
      | none => exact .inr rfl
      | some root => exact .inl rfl

end Memfs
