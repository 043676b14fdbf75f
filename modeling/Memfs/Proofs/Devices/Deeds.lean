import Memfs.Proofs.Devices.Mounts

/-!
# What a deed enters in the books

A `Deed` is all that may happen to configurations: what callers ask for, and besides that data
that is replaced by hand, and a teardown that is made again and again. What it enters in the
books is told from the state before it (`World.entries`), and from nothing that is known only
afterwards but this: whether an instance could be filled, and whether a mount has come about.
That an allocation is refused, that a slot is taken, that an instance was torn down before or
has another owner still, all of this is told from the state.
-/

namespace Memfs

open World

variable {w v u : World} {c : ContextId} {i : InstanceId} {p q : Place} {x : Backing}

/-! ## Deeds -/

/-- What may happen to configurations. -/
inductive Deed where
  | request (step : Request)
  /-- Private data is taken away or replaced by hand. -/
  | displace (p : Place) (other : Replacement)
  /-- The teardown of the built-in type, whatever was done before. -/
  | dissolve (i : InstanceId)

/-- The attempt to attach a device, if the deed is one. -/
def Deed.attaches : Deed → Option (Place × DeviceSort × Device)
  | request (.call (.attachToContext c sort device)) => some (.context c, sort, device)
  | request (.call (.attachToInstance i sort device)) => some (.inst i, sort, device)
  | _ => none

namespace World

/-- The world after a deed. -/
def undergo (w : World) : Deed → World
  | .request step => w.follow step
  | .displace p other => w.displace p other
  | .dissolve i => w.dissolveBuiltIn i

/-- What a deed enters in the books. -/
def entries (w : World) : Deed → List Books.Entry
  | .request (.call (.newContext type)) => w.opening type
  | .request (.call (.mount name options)) => w.mounting name options
  | .request (.call (.makeTree c)) => w.planting c
  | .request (.call (.dropContext c)) => w.leavings c
  | .request (.call (.attachToContext c sort device)) => [.attach (.context c) sort device]
  | .request (.call (.attachToInstance i sort device)) => [.attach (.inst i) sort device]
  | .request (.call (.deactivate i)) => if w.tearsDown i then [.close (.inst i)] else []
  | .request (.call (.drop (.inst i))) =>
    if World.Owned { w with held := w.held.erase (.inst i) } (.inst i) then []
    else [.close (.inst i)]
  | .displace p other => w.displacing p other
  | .dissolve i => [.close (.inst i)]
  | _ => []

variable {deed : Deed}

/-! ## The books after a deed -/

theorem books_takeInstance : (w.takeInstance c).2.books = w.books := by
  unfold World.takeInstance
  cases w.contexts.get? c with
  | none => rfl
  | some x =>
      have left : (w.modifyContext c ({ · with root := none, made := none })).books = w.books :=
        books_modifyContext fun _ _ => rfl
      refine (Level.settle Task.light_bindings).books.trans ?_
      cases x.made with
      | none => exact left
      | some i => exact left

/-- Something else that the host keeps is set. -/
theorem books_setHost {host : Host} (releases : host.releases = w.host.releases)
    (net : host.net .config = w.host.net .config) : World.books { w with host } = w.books :=
  Books.ext rfl releases rfl net

theorem books_makeTree (s : Sound w []) : ((Action.makeTree c).into w).books
    = (w.planting c).foldl Books.enter w.books := by
  unfold planting
  cases asked : w.asked c with
  | none =>
      obtain ⟨e, refused⟩ := Action.makeTree_of_unasked asked
      unfold Action.into
      rw [refused]
      rfl
  | some pair =>
      obtain ⟨x, ops⟩ := pair
      obtain ⟨hc, -, -⟩ := asked_eq_some.1 asked
      unfold Action.into
      rcases Action.makeTree_of_asked asked with ⟨e, v, failed, refused⟩ | ⟨v, done, rest⟩
      · rw [refused]
        simp only [failed]
        exact (books_makeInstance_error s hc failed).1
      · obtain ⟨books, -⟩ := books_makeInstance_ok s hc done
        simp only [done]
        rcases rest with made | rootless
        · rw [made]
          exact books
        · rw [rootless]
          exact (books_note rfl).trans books

/-- All that a deed does to configurations. -/
theorem books_undergo (s : Sound w []) :
    (w.undergo deed).books = (w.entries deed).foldl Books.enter w.books := by
  cases deed with
  | dissolve i => exact books_dissolveBuiltIn
  | displace p other => exact books_displace
  | request step =>
      cases step with
      | options c text => exact (choosing_books.applyOptions rfl).into
      | call call =>
          cases call with
          | operate op => exact (Level.quiet.operate .refl op).into.books
          | closeFile f => exact (Level.quiet.closeFile .refl).into.books
          | hold ref =>
              show World.books (if w.Has ref then w.hold ref else w) = _
              split
              · rfl
              · rfl
          | drop ref =>
              have unheld : ∀ held, w.Level { w with held } := fun _ => ⟨rfl, rfl⟩
              cases ref with
              | node n =>
                  have light : (Task.letGo (.node n)).Light := trivial
                  exact (Level.quiet.letGo (unheld _) light).books
              | binding b =>
                  have light : (Task.letGo (.binding b)).Light := trivial
                  exact (Level.quiet.letGo (unheld _) light).books
              | inst i =>
                  refine (books_letGo (fun _ mem => .inr (List.mem_singleton.1 mem))
                    List.mem_cons_self).trans ?_
                  show _ = (if World.Owned { w with held := w.held.erase (.inst i) } (.inst i)
                    then [] else [.close (.inst i)]).foldl Books.enter w.books
                  rw [apply_ite (List.foldl Books.enter w.books)]
                  rfl
          | register type => exact (choosing_books.register rfl id).into
          | unregister name => exact (choosing_books.unregister rfl id).into
          | mount name options => exact books_mount s
          | newContext type => exact books_newContext
          | applyParameter c param => exact (choosing_books.applyParameter rfl).into
          | makeTree c => exact books_makeTree s
          | takeInstance c => exact books_takeInstance
          | dropContext c => exact books_dropContext
          | attachToContext c sort device => exact books_attach (p := .context c)
          | attachToInstance i sort device => exact books_attach (p := .inst i)
          | deactivate i =>
              refine books_deactivate.trans ?_
              show _ = (if w.tearsDown i then [.close (.inst i)] else []).foldl Books.enter w.books
              rw [apply_ite (List.foldl Books.enter w.books)]
              rfl
          | setBudget kind budget => exact books_setHost rfl Host.net_setBudget
          | setCredentials uid gid => exact books_setHost rfl rfl
          | setClock clock => exact books_setHost rfl rfl
          | resetIno ino => exact books_setHost rfl rfl

end World

theorem Sound.undergo (s : Sound w []) : Sound (w.undergo deed) [] := by
  cases deed with
  | request step => exact s.follow step
  | displace p other => exact s.displace
  | dissolve i => exact Sound.ending.dissolveBuiltIn s

end Memfs
