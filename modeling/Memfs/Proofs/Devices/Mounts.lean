import Memfs.Proofs.Devices.Attaching
import Memfs.Proofs.Devices.Trees

/-!
# Mounts in the books

A context begins with a configuration, if its type asks for one and one can be allocated. When
the context ends it gives back what it has, and the instance that nobody took is torn down and
let go of. A mount is a context that begins, is given its options, is asked for its tree and
ends, and if one of these steps fails then it ends at once. Where the configuration is by then
depends on the step, but it is given back wherever it is (`World.Waiting`).
-/

namespace Memfs

open World

variable {w v u : World} {b : Books} {c : ContextId} {i : InstanceId} {x : Context} {e : Error}

/-! ## The end of a context -/

namespace World

/-- Is data that is left on the context given back before anything else? -/
def frees (w : World) (c : ContextId) : Bool :=
  (w.contexts.get? c).any (·.type.ops.any (·.freesData))

/-- What is entered for the instance that nobody took. Its configuration goes in the teardown,
or because nobody else owns it. -/
def untaken (w : World) (c : ContextId) : List Books.Entry :=
  (((w.contexts.get? c).bind (·.made)).toList.filter fun i =>
    w.tearsDown i ∨ ¬ (w.parted c).Owned (.inst i)).map fun i => .close (.inst i)

/-- What is entered when a context ends. -/
def leavings (w : World) (c : ContextId) : List Books.Entry :=
  if w.frees c then .close (.context c) :: w.untaken c else w.untaken c ++ [.close (.context c)]

theorem untaken_of_unmade (unmade : (w.contexts.get? c).bind (·.made) = none) :
    w.untaken c = [] := by
  rw [untaken, unmade]
  rfl

theorem untaken_of_made (made : (w.contexts.get? c).bind (·.made) = some i) : w.untaken c
    = if w.tearsDown i ∨ ¬ (w.parted c).Owned (.inst i) then [.close (.inst i)] else [] := by
  rw [untaken, made, Option.toList_some]
  by_cases goes : w.tearsDown i ∨ ¬ (w.parted c).Owned (.inst i)
  · rw [List.filter_cons, if_pos (decide_eq_true goes), if_pos goes]
    rfl
  · rw [List.filter_cons, if_neg (by simpa using goes), if_neg goes]
    rfl

theorem mem_untaken {e : Books.Entry} : e ∈ w.untaken c ↔
    ∃ i, (w.contexts.get? c).bind (·.made) = some i ∧
      (w.tearsDown i ∨ ¬ (w.parted c).Owned (.inst i)) ∧ e = .close (.inst i) := by
  simp only [untaken, List.mem_map, List.mem_filter, Option.mem_toList, decide_eq_true_eq,
    and_assoc, eq_comm (a := e)]

theorem freeData_eq (hc : w.contexts.get? c = some x) :
    (w.freeData c).books = (if w.frees c then w.books.close (.context c) else w.books) ∧
    (w.freeData c).instances = w.instances ∧ (w.freeData c).held = w.held ∧
    (∀ d, d ≠ c → (w.freeData c).contexts.get? d = w.contexts.get? d) ∧
    ∃ data, (w.freeData c).contexts.get? c = some { x with data } := by
  have frees : w.frees c = x.type.ops.any (·.freesData) := by
    rw [World.frees, hc]
    rfl
  rw [frees]
  unfold World.freeData
  simp only [hc]
  split
  · next freed =>
      cases hdata : x.data with
      | none =>
          have bare : w.books.backing (.context c) = none := by
            rw [backing_context, hc, Option.bind_some, Context.config?, hdata]
            rfl
          exact ⟨(Books.close_of_none bare).symm, rfl, rfl, fun _ _ => rfl, x.data, hc⟩
      | some data =>
          have same : ∀ v : World, (v.settle ((some data).toList.map .dispose)).instances
              = v.instances := fun _ => instances_settle_dispose
          have emptied : (((w.note .configUnused).modifyContext c ({ · with data := none })).settle
              [.dispose data]).books = w.books.close (.context c) := by
            have found : (w.note .configUnused).contexts.get? c = some x := hc
            have set : (w.note .configUnused).setContextData c none = ((w.note
                .configUnused).modifyContext c ({ · with data := none })).settle [.dispose data] := by
              unfold World.setContextData
              simp only [found, Option.bind_some, hdata]
              rfl
            rw [← set, books_setContextData rfl, books_note rfl]
          refine ⟨emptied, same _,
            Spared.refl.settle.held, fun d hne => ?_, none, ?_⟩
          · rw [contexts_settle]
            exact Table.get?_modify_of_ne hne
          · rw [contexts_settle]
            refine (Table.get?_modify ..).trans ?_
            rw [if_pos rfl]
            exact congrArg _ hc
  · exact ⟨rfl, rfl, rfl, fun _ _ => rfl, x.data, hc⟩

theorem tearsDown_congr (same : v.instances = w.instances) : v.tearsDown i = w.tearsDown i := by
  unfold tearsDown
  rw [same]

/-- The instance that nobody took is torn down and let go of. -/
theorem books_withoutInstance : (w.withoutInstance c x i).books =
    if w.tearsDown i ∨ ¬ (w.parted c).Owned (.inst i) then w.books.close (.inst i)
    else w.books := by
  unfold World.withoutInstance
  have level : World.Level _ ((w.modifyContext c ({ · with root := none })).settle
      (x.root.toList.map fun b => .letGo (.binding b))) := Level.settle Task.light_bindings
  have unrooted : Spared (w.modifyContext c ({ · with root := none }))
      ((w.modifyContext c ({ · with root := none })).settle
        (x.root.toList.map fun b => .letGo (.binding b))) := Spared.refl.settle
  have same : ((w.modifyContext c ({ · with root := none })).settle
      (x.root.toList.map fun b => .letGo (.binding b))).books = w.books :=
    level.books.trans (books_modifyContext fun _ _ => rfl)
  have tears : ((w.modifyContext c ({ · with root := none })).settle
      (x.root.toList.map fun b => .letGo (.binding b))).tearsDown i = w.tearsDown i :=
    tearsDown_congr level.instances
  generalize (w.modifyContext c ({ · with root := none })).settle
    (x.root.toList.map fun b => .letGo (.binding b)) = t at unrooted same tears ⊢
  have spared : Spared (w.modifyContext c ({ · with root := none })) (t.deactivate i) :=
    unrooted.deactivate
  have claims : ((t.deactivate i).modifyContext c ({ · with made := none })).Owned (.inst i)
      ↔ (w.parted c).Owned (.inst i) := by
    refine owned_parted_congr spared.held fun d hne => ?_
    rw [spared.contexts]
    exact Table.get?_modify_of_ne hne
  have torn : ((t.deactivate i).modifyContext c ({ · with made := none })).books
      = if w.tearsDown i then w.books.close (.inst i) else w.books := by
    rw [← tears, ← same, ← books_deactivate]
    exact books_modifyContext fun _ _ => rfl
  rw [books_letGo (fun _ mem => .inr (List.mem_singleton.1 mem)) List.mem_cons_self, torn]
  by_cases owned : (w.parted c).Owned (.inst i)
  · rw [if_pos (claims.2 owned)]
    simp [owned]
  · have goes : w.tearsDown i ∨ ¬ (w.parted c).Owned (.inst i) := .inr owned
    rw [if_neg (mt claims.1 owned), if_pos goes]
    split
    · exact Books.close_close
    · rfl

/-- The last of a context. -/
theorem books_eraseContext_settle : (World.settle { w with contexts := w.contexts.erase c }
    ((w.contexts.get? c).toList.flatMap fun x =>
      x.data.toList.map Task.dispose ++ x.root.toList.map fun b => .letGo (.binding b))).books
      = w.books.close (.context c) := by
  have bare : ∀ i, .letGo (.inst i) ∉ (w.contexts.get? c).toList.flatMap fun x =>
      x.data.toList.map Task.dispose ++ x.root.toList.map fun b => .letGo (.binding b) := by
    intro i mem
    obtain ⟨x, -, mem⟩ := List.mem_flatMap.1 mem
    rcases List.mem_append.1 mem with mem | mem
    · obtain ⟨_, -, e⟩ := List.mem_map.1 mem
      cases e
    · exact Task.light_bindings _ mem
  rw [books_settle bare, books_eraseContext, Books.close, backing_context]
  cases w.contexts.get? c with
  | none => rfl
  | some x =>
      rw [Option.toList_some, List.flatMap_singleton, Books.giveAll_append, giveAll_dispose,
        Books.giveAll_light Task.light_bindings]
      rfl

/-- What is given back at the end has no effect if it was given back before. -/
theorem foldl_leavings {entries : List Books.Entry}
    (others : ∀ e ∈ entries, ∃ i, e = .close (.inst i)) (bare : b.backing (.context c) = none) :
    (entries.foldl Books.enter b).close (.context c) = entries.foldl Books.enter b := by
  induction entries generalizing b with
  | nil => exact Books.close_of_none bare
  | cons e rest ih =>
      obtain ⟨⟨i, rfl⟩, later⟩ := List.forall_mem_cons.1 others
      refine ih later ?_
      exact Books.backing_close.trans ((if_neg nofun).trans bare)

/-- It makes no difference to the instance what data was left. -/
theorem untaken_congr (instances : v.instances = w.instances) (held : v.held = w.held)
    (others : ∀ d, d ≠ c → v.contexts.get? d = w.contexts.get? d)
    (made : (v.contexts.get? c).bind (·.made) = (w.contexts.get? c).bind (·.made)) :
    v.untaken c = w.untaken c := by
  unfold untaken
  simp only [made, tearsDown_congr instances, owned_parted_congr held others]

theorem books_untaken (hc : w.contexts.get? c = some x) :
    (match x.made with
      | none => w
      | some i => w.withoutInstance c x i).books = (w.untaken c).foldl Books.enter w.books := by
  cases made : x.made with
  | none =>
      rw [untaken_of_unmade (by rw [hc, Option.bind_some, made])]
      rfl
  | some i =>
      rw [untaken_of_made (by rw [hc, Option.bind_some, made]),
        apply_ite (List.foldl Books.enter w.books)]
      exact books_withoutInstance

theorem books_dropContext :
    (w.dropContext c).books = (w.leavings c).foldl Books.enter w.books := by
  cases hc : w.contexts.get? c with
  | none =>
      have same : w.dropContext c = w := by
        unfold World.dropContext World.freeData
        simp only [hc]
      have bare : w.books.backing (.context c) = none := by
        rw [backing_context, hc]
        rfl
      have left : w.leavings c = [.close (.context c)] := by
        unfold leavings frees untaken
        rw [hc]
        rfl
      rw [same, left]
      exact (Books.close_of_none bare).symm
  | some x =>
      obtain ⟨books, instances, held, others, data, here⟩ := freeData_eq hc
      have same : (w.freeData c).untaken c = w.untaken c :=
        untaken_congr instances held others (by rw [here, hc]; rfl)
      unfold World.dropContext leavings
      generalize w.freeData c = v at books same here ⊢
      simp only [here]
      rw [books_eraseContext_settle]
      refine (congrArg (Books.close · (.context c)) (books_untaken here)).trans ?_
      rw [same, books]
      split
      · refine foldl_leavings (fun e mem => ?_) (Books.backing_close.trans (if_pos rfl))
        obtain ⟨i, -, -, closes⟩ := mem_untaken.1 mem
        exact ⟨i, closes⟩
      · rw [List.foldl_append]
        rfl

theorem leavings_of_unmade (hc : w.contexts.get? c = some x) (unmade : x.made = none) :
    w.leavings c = [.close (.context c)] := by
  rw [leavings, untaken_of_unmade (by rw [hc, Option.bind_some, unmade])]
  exact ite_self _

/-! ## The beginning of a context -/

variable {type : FilesystemType} {options name : String} {done : InstanceId → World → World}

/-- Is a configuration allocated for a context of the type? -/
def grants (w : World) (type : FilesystemType) : Bool :=
  decide (type.start = .configured) && w.affords

/-- What is entered when a context of the type begins. -/
def opening (w : World) (type : FilesystemType) : List Books.Entry :=
  if w.grants type then [.allot (.context w.contexts.nextId)] else []

theorem backing_nextContext : w.books.backing (.context w.contexts.nextId) = none := by
  rw [backing_context, Table.get?_nextId]
  rfl

/-- Without a configuration, a context is not in the books. -/
theorem books_push_none {x : Context} (bare : x.config? = none) :
    World.books { w with contexts := w.contexts.push x } = w.books := by
  refine books_contexts (c := w.contexts.nextId) (fun d e => Table.get?_push_of_ne e) ?_
  rw [Table.get?_push_self, Table.get?_nextId]
  exact bare

theorem books_push {x : Context} {config : Config} (configured : x.config? = some config) :
    World.books { w with contexts := w.contexts.push x }
      = w.books.keep (.context w.contexts.nextId) config.backing := by
  refine Books.ext (funext fun q => ?_) rfl rfl rfl
  cases q with
  | nowhere => rfl
  | inst i => rfl
  | context d =>
      rw [backing_context]
      simp only [Books.keep]
      by_cases e : d = w.contexts.nextId
      · rw [if_pos (congrArg _ e), e, Table.get?_push_self, Option.bind_some, configured]
        rfl
      · rw [if_neg (mt Place.context.inj e), Table.get?_push_of_ne e]
        rfl

theorem books_newContext_ok (done : Action.newContext type w = .ok c v) :
    v.books = (w.opening type).foldl Books.enter w.books := by
  obtain ⟨rfl, ⟨start, rfl⟩ | ⟨start, host, acquired, rfl⟩⟩ := Action.newContext_ok done
  · rw [opening, grants, start]
    exact books_push_none rfl
  · have granted : w.grants type = true := by
      rw [grants, start, affords_of_acquire acquired]
      rfl
    rw [opening, if_pos granted]
    show _ = w.books.allot _
    rw [Books.allot_of_none backing_nextContext]
    refine (books_push (w := { w with host }) rfl).trans ?_
    rw [books_acquired acquired]
    rfl

/-- A context that does not begin has no configuration. -/
theorem books_newContext_error (failed : Action.newContext type w = .error e v) :
    w.grants type = false ∧ v.books = w.books := by
  obtain ⟨start, rfl⟩ | ⟨start, -, host, refused, rfl⟩ := Action.newContext_error failed
  · rw [grants, start]
    exact ⟨rfl, rfl⟩
  · rw [grants, start, affords_of_acquire refused]
    exact ⟨rfl, books_refused refused⟩

theorem books_newContext :
    ((Action.newContext type).into w).books = (w.opening type).foldl Books.enter w.books := by
  unfold Action.into
  cases done : Action.newContext type w with
  | ok c v => exact books_newContext_ok done
  | error e v =>
      obtain ⟨ungranted, same⟩ := books_newContext_error done
      rw [opening, ungranted]
      exact same

end World

/-- An option may change the mode, but not the devices. -/
theorem World.choosing_books : Choosing (·.books = b) where
  noted calm h := (books_note calm.holding).trans h
  sourced h := Eq.trans (books_modifyContext fun _ _ => rfl) h
  chosen {v d x old mode} hd hold h := by
    have kept : v.books.backing (.context d) = some { old with mode }.backing := by
      rw [backing_context, hd, Option.bind_some, hold]
      rfl
    exact (books_setContextConfig hd).trans ((Books.keep_of_backing kept).trans h)

/-! ## Mounts -/

/-- A context has begun, and was not asked for its tree. -/
structure World.Waiting (b : Books) (next : InstanceId) (c : ContextId) (v : World) : Prop where
  sound : Sound v []
  books : v.books = b
  next : v.instances.nextId = next
  bare : ∃ x, v.contexts.get? c = some x ∧ x.root = none ∧ x.made = none

namespace World.Waiting

variable {k : InstanceId} {d : ContextId} {type : FilesystemType}

theorem of_newContext (s : Sound w []) (begun : Action.newContext type w = .ok c v) :
    v.Waiting ((w.opening type).foldl Books.enter w.books) w.instances.nextId c := by
  refine ⟨s.newContext.ok begun, books_newContext_ok begun, ?_, ?_⟩
  · obtain ⟨-, ⟨-, rfl⟩ | ⟨-, host, -, rfl⟩⟩ := Action.newContext_ok begun
    · rfl
    · rfl
  · obtain ⟨rfl, ⟨-, rfl⟩ | ⟨-, host, -, rfl⟩⟩ := Action.newContext_ok begun
    · exact ⟨_, Table.get?_push_self, rfl, rfl⟩
    · exact ⟨_, Table.get?_push_self, rfl, rfl⟩

/-- No option gives a context a tree. -/
theorem bare_modifyContext (h : v.Waiting b k c) {f : Context → Context}
    (root : ∀ x, (f x).root = x.root) (made : ∀ x, (f x).made = x.made) :
    ∃ x, (v.modifyContext d f).contexts.get? c = some x ∧ x.root = none ∧ x.made = none := by
  obtain ⟨x, hx, bare, unmade⟩ := h.bare
  by_cases e : c = d
  · subst e
    refine ⟨f x, ?_, (root x).trans bare, (made x).trans unmade⟩
    refine (Table.get?_modify ..).trans ?_
    rw [if_pos rfl, hx]
    rfl
  · exact ⟨x, (Table.get?_modify_of_ne e).trans hx, bare, unmade⟩

theorem choosing : Choosing (World.Waiting b k c) where
  noted calm h := ⟨Sound.configuring.noted calm h.sound, choosing_books.noted calm h.books,
    h.next, h.bare⟩
  sourced h := ⟨Sound.configuring.sourced h.sound, choosing_books.sourced h.books, h.next,
    h.bare_modifyContext (fun _ => rfl) fun _ => rfl⟩
  chosen hd hold h := ⟨Sound.configuring.configured hd hold h.sound,
    choosing_books.chosen hd hold h.books, h.next,
    h.bare_modifyContext (fun _ => rfl) fun _ => rfl⟩

/-- No instance has the number yet that the next one will have. -/
theorem free (h : v.Waiting b k c) : b.backing (.inst k) = none := by
  rw [← h.books, ← h.next]
  exact backing_next

theorem dropped (h : v.Waiting b k c) : (v.dropContext c).books = b.close (.context c) := by
  obtain ⟨x, hx, -, unmade⟩ := h.bare
  rw [books_dropContext, leavings_of_unmade hx unmade, ← h.books]
  rfl

/-- Nobody but the context has a claim to the instance that was made for it. -/
theorem leavings (h : v.Waiting b k c) (held : u.held = v.held)
    (others : ∀ d, d ≠ c → u.contexts.get? d = v.contexts.get? d)
    (hc : u.contexts.get? c = some x) (made : x.made = some k) :
    (u.leavings c).foldl Books.enter (b.move c k) = b.close (.context c) := by
  have alone : ¬ (u.parted c).Owned (.inst k) := by
    obtain ⟨y, hy, -, unmade⟩ := h.bare
    have unclaimed : v.Owned (.inst k) ↔ (v.parted c).Owned (.inst k) :=
      owned_parted rfl (fun _ _ => rfl) fun z hz made => by
        cases hy.symm.trans hz
        cases unmade.symm.trans made
    rw [owned_parted_congr held others, ← unclaimed, ← h.next]
    exact alone_next h.sound
  have goes : u.tearsDown k ∨ ¬ (u.parted c).Owned (.inst k) := .inr alone
  unfold World.leavings
  rw [untaken_of_made (by rw [hc, Option.bind_some, made]), if_pos goes]
  split
  · show ((b.move c k).close (.context c)).close (.inst k) = _
    rw [Books.close_of_none Books.backing_move, Books.close_move h.free]
  · show ((b.move c k).close (.inst k)).close (.context c) = _
    rw [Books.close_move h.free, Books.close_close]

/-- If no tree can be made for it, the configuration is gone when the context is. -/
theorem unmade (h : v.Waiting b k c) (failed : Action.makeTree c v = .error e u) :
    (u.dropContext c).books = b.close (.context c) := by
  obtain ⟨x, hx, bare, unmade⟩ := h.bare
  cases asked : v.asked c with
  | none =>
      obtain ⟨e', refused⟩ := Action.makeTree_of_unasked asked
      cases refused.symm.trans failed
      exact h.dropped
  | some pair =>
      obtain ⟨y, ops⟩ := pair
      obtain ⟨hy, -, -⟩ := asked_eq_some.1 asked
      cases hx.symm.trans hy
      rcases Action.makeTree_of_asked asked with ⟨e', t, unfilled, refused⟩ | ⟨t, made, rest⟩
      · cases refused.symm.trans failed
        obtain ⟨books, contexts⟩ := books_makeInstance_error h.sound hx unfilled
        have here : u.contexts.get? c = some { x with data := none } := by
          rw [contexts, Table.get?_modify, if_pos rfl, hx]
          rfl
        rw [books_dropContext, leavings_of_unmade here unmade, books, h.books]
        exact Books.close_close
      · obtain ⟨books, held, others, root, here⟩ := books_makeInstance_ok h.sound hx made
        rcases rest with done | refused
        · cases done.symm.trans failed
        · cases refused.symm.trans failed
          rw [unmade, h.books, h.next] at books
          have noted : (t.note (.noRoot x.type.name)).books = b.move c k :=
            (books_note rfl).trans books
          rw [books_dropContext, noted]
          exact h.leavings held others here (congrArg some h.next)

/-- If its tree is made and taken, the configuration is with the instance. -/
theorem taken (h : v.Waiting b k c) (done : Action.makeTree c v = .ok () u) :
    (u.takeInstance c).1 = some k ∧ (u.takeInstance c).2.books = b.move c k ∧
      ∃ x, (u.takeInstance c).2.contexts.get? c = some x ∧ x.made = none := by
  obtain ⟨x, hx, bare, unmade⟩ := h.bare
  cases asked : v.asked c with
  | none =>
      obtain ⟨e', refused⟩ := Action.makeTree_of_unasked asked
      cases refused.symm.trans done
  | some pair =>
      obtain ⟨y, ops⟩ := pair
      obtain ⟨hy, -, -⟩ := asked_eq_some.1 asked
      cases hx.symm.trans hy
      rcases Action.makeTree_of_asked asked with ⟨e', t, -, refused⟩ | ⟨t, made, done' | refused⟩
      · cases refused.symm.trans done
      · cases done'.symm.trans done
        obtain ⟨books, -, -, root, here⟩ := books_makeInstance_ok h.sound hx made
        rw [unmade, h.books, h.next] at books
        have left : (u.modifyContext c ({ · with root := none, made := none })).books
            = b.move c k := Eq.trans (books_modifyContext fun _ _ => rfl) books
        unfold World.takeInstance
        simp only [here]
        refine ⟨congrArg some h.next, ?_, { x with data := none, root := none, made := none }, ?_,
          rfl⟩
        · exact (Level.settle Task.light_bindings).books.trans left
        · rw [contexts_settle]
          refine (Table.get?_modify ..).trans ?_
          rw [if_pos rfl, here]
          rfl
      · cases refused.symm.trans done

end World.Waiting

namespace World

variable {type : FilesystemType} {name options : String} {done : InstanceId → World → World}

/-- The configuration of a mount that comes about is with its instance. -/
theorem books_mountType_ok (s : Sound w [])
    (told : ∀ i v, (done i v).books = v.books ∧ (done i v).contexts = v.contexts)
    (mounted : Action.mountType type options done w = .ok i v) :
    v.books = ((w.opening type).foldl Books.enter w.books).move
      w.contexts.nextId w.instances.nextId := by
  obtain ⟨c, u₁, u₂, u₃, begun, applied, made, -, rfl⟩ := Action.mountType_ok mounted
  obtain ⟨rfl, -⟩ := Action.newContext_ok begun
  have waiting := (Waiting.choosing.applyOptions (Waiting.of_newContext s begun)).ok applied
  obtain ⟨-, books, x, hx, unmade⟩ := waiting.taken made
  obtain ⟨same, contexts⟩ := told i (u₃.takeInstance w.contexts.nextId).2
  rw [books_dropContext, leavings_of_unmade (by rw [contexts]; exact hx) unmade, same, books]
  exact Books.close_of_none Books.backing_move

/-- The configuration of a mount that does not come about is gone. -/
theorem books_mountType_error (s : Sound w [])
    (failed : Action.mountType type options done w = .error e v) :
    v.books = ((w.opening type).foldl Books.enter w.books).close
      (.context w.contexts.nextId) := by
  rcases Action.mountType_error failed with refused | ⟨c, u₁, u, begun, rfl, attempt⟩
  · obtain ⟨ungranted, same⟩ := books_newContext_error refused
    rw [opening, ungranted]
    exact same.trans (Books.close_of_none backing_nextContext).symm
  · obtain ⟨rfl, -⟩ := Action.newContext_ok begun
    have waiting := Waiting.of_newContext s begun
    have tried : Action.Ends _ (Action.applyOptions w.contexts.nextId options) u₁ :=
      Waiting.choosing.applyOptions waiting
    rcases attempt with refused | ⟨u₂, applied, unmade | ⟨u₃, made, untaken, -⟩⟩
    · exact (tried.error refused).dropped
    · exact (tried.ok applied).unmade unmade
    · obtain ⟨took, -⟩ := (tried.ok applied).taken made
      cases took.symm.trans untaken

/-- What is entered in a mount. The configuration of its context passes to the instance, or is
given back. -/
def mounting (w : World) (name options : String) : List Books.Entry :=
  if (w.findType name).any w.grants then
    [.allot (.context w.contexts.nextId),
      match Action.mount name options w with
      | .ok _ _ => .move w.contexts.nextId w.instances.nextId
      | .error _ _ => .close (.context w.contexts.nextId)]
  else []

theorem books_mount (s : Sound w []) : ((Action.mount name options).into w).books
    = (w.mounting name options).foldl Books.enter w.books := by
  unfold Action.into mounting
  cases found : w.findType name with
  | none =>
      rw [Action.mount_of_absent found]
      rfl
  | some type =>
      have told : ∀ (i : InstanceId) (v : World), (v.note (.mounted name
          (((v.instances.get? i).bind (·.source)).getD "none"))).books = v.books := fun _ _ =>
        books_note rfl
      rw [Action.mount_of_found found, Option.any_some]
      cases outcome : Action.mountType type options (fun i v =>
        v.note (.mounted name (((v.instances.get? i).bind (·.source)).getD "none"))) w with
      | ok i v =>
          refine (books_mountType_ok s (fun i v => ⟨told i v, rfl⟩) outcome).trans ?_
          unfold opening
          split
          · rfl
          · exact Books.move_of_none backing_next backing_nextContext
      | error e v =>
          refine (books_mountType_error s outcome).trans ?_
          unfold opening
          split
          · rfl
          · exact Books.close_of_none backing_nextContext

end World

end Memfs
