import Memfs.Proofs.Devices.Books

/-!
# Devices and data that are put in by hand

A caller may attach a device to the configuration of a context or an instance, and may put
other private data in its place. A device is attached if the slot for its sort is free, and
nothing at all happens if not. What is replaced is given back like any other configuration,
and if a configuration replaces it then that one was allocated before.
-/

namespace Memfs

open World

variable {w : World} {b : Books} {c : ContextId} {i : InstanceId} {p : Place}
  {sort : DeviceSort} {device : Device} {data : Option PrivateData}

/-! ## Attaching -/

theorem Backing.attach_of_taken {x : Backing} (taken : (x.slot sort).isSome = true) :
    x.attach sort device = x := by
  obtain ⟨block, direct⟩ := x
  cases sort with
  | block =>
      obtain ⟨held, rfl⟩ := Option.isSome_iff_exists.1 taken
      rfl
  | direct =>
      obtain ⟨held, rfl⟩ := Option.isSome_iff_exists.1 taken
      rfl

theorem Books.attach_of_taken {x : Backing} (backed : b.backing p = some x)
    (taken : (x.slot sort).isSome = true) : b.attach p sort device = b := by
  refine Books.ext (funext fun q => ite_eq_right_iff.2 ?_) rfl rfl rfl
  rintro rfl
  rw [backed, Option.map_some, Backing.attach_of_taken taken]

/-- A configuration takes a device into a slot that is free. -/
theorem Config.attach_eq {config : Config} :
    ((config.backing.slot sort).isSome = true ∧ config.attach sort device = none) ∨
      ((config.backing.slot sort).isSome = false ∧ ∃ new, config.attach sort device = some new ∧
        new.backing = config.backing.attach sort device) := by
  obtain ⟨mode, block, direct⟩ := config
  cases sort with
  | block =>
      cases block with
      | none => exact .inr ⟨rfl, _, rfl, rfl⟩
      | some held => exact .inl ⟨rfl, rfl⟩
  | direct =>
      cases direct with
      | none => exact .inr ⟨rfl, _, rfl, rfl⟩
      | some held => exact .inl ⟨rfl, rfl⟩

/-- Adds a device to the configuration of a place. -/
def Place.attach (sort : DeviceSort) (device : Device) : Place → Action Unit
  | context c => Action.attachToContext c sort device
  | inst i => Action.attachToInstance i sort device
  | nowhere => throw .invalidArgument

namespace Action

theorem attachDevice_none {store : Config → World → World} :
    attachDevice none sort device store w = .error .invalidArgument w := rfl

theorem attachDevice_taken {config : Config} {store : Config → World → World}
    (taken : config.attach sort device = none) :
    attachDevice (some config) sort device store w = .error .busy w := by
  unfold attachDevice
  rw [bind_of_ok (require_eq_ok.2 ⟨rfl, rfl⟩),
    bind_of_error (require_eq_error.2 ⟨taken, rfl, rfl⟩)]

theorem attachDevice_free {config new : Config} {store : Config → World → World}
    (free : config.attach sort device = some new) : attachDevice (some config) sort device store w
      = .ok () (store new (w.note (.holding sort device.name))) := by
  unfold attachDevice
  rw [bind_of_ok (require_eq_ok.2 ⟨rfl, rfl⟩), bind_of_ok (require_eq_ok.2 ⟨free, rfl⟩)]
  rfl

end Action

namespace World

/-- Without a configuration there is nothing to attach a device to. -/
theorem attach_unbacked (none : w.backing p = none) :
    p.attach sort device w = .error .invalidArgument w := by
  cases p with
  | nowhere => rfl
  | context c =>
      have absent : (w.contexts.get? c).bind (·.config?) = .none := Option.map_eq_none_iff.1 none
      show Action.attachDevice ((w.contexts.get? c).bind (·.config?)) sort device _ w = _
      rw [absent, Action.attachDevice_none]
  | inst i =>
      have absent : (w.instances.get? i).bind (·.config?) = .none := Option.map_eq_none_iff.1 none
      show Action.attachDevice ((w.instances.get? i).bind (·.config?)) sort device _ w = _
      rw [absent, Action.attachDevice_none]

/-- A slot that is taken is not taken again, and nothing else happens. -/
theorem attach_taken {x : Backing} (backed : w.backing p = some x)
    (taken : (x.slot sort).isSome = true) : p.attach sort device w = .error .busy w := by
  have refused : ∀ config : Config, config.backing = x → config.attach sort device = none := by
    rintro config rfl
    exact Config.attach_eq.elim And.right fun free => by
      rw [free.1] at taken
      cases taken
  cases p with
  | nowhere => cases backed
  | context c =>
      obtain ⟨config, found, same⟩ := Option.map_eq_some_iff.1 backed
      show Action.attachDevice ((w.contexts.get? c).bind (·.config?)) sort device _ w = _
      rw [found, Action.attachDevice_taken (refused config same)]
  | inst i =>
      obtain ⟨config, found, same⟩ := Option.map_eq_some_iff.1 backed
      show Action.attachDevice ((w.instances.get? i).bind (·.config?)) sort device _ w = _
      rw [found, Action.attachDevice_taken (refused config same)]

/-- A slot that is free is taken. -/
theorem attach_free {x : Backing} (backed : w.backing p = some x)
    (free : (x.slot sort).isSome = false) :
    ∃ v, p.attach sort device w = .ok () v ∧ v.books = w.books.attach p sort device := by
  have accepted : ∀ config : Config, config.backing = x →
      ∃ new, config.attach sort device = some new ∧ new.backing = x.attach sort device := by
    rintro config rfl
    refine Config.attach_eq.elim (fun taken => ?_) And.right
    cases taken.1.symm.trans free
  have entered : w.books.attach p sort device = w.books.keep p (x.attach sort device) :=
    Books.attach_of_some backed
  have noted : (w.note (.holding sort device.name)).books = w.books := books_note rfl
  rw [entered]
  cases p with
  | nowhere => cases backed
  | context c =>
      obtain ⟨config, found, same⟩ := Option.map_eq_some_iff.1 backed
      obtain ⟨y, hy, -⟩ := Option.bind_eq_some_iff.1 found
      obtain ⟨new, taken, held⟩ := accepted config same
      refine ⟨(w.note (.holding sort device.name)).modifyContext c
        ({ · with data := some (.config new) }), ?_, ?_⟩
      · show Action.attachDevice ((w.contexts.get? c).bind (·.config?)) sort device _ w = _
        rw [found, Action.attachDevice_free taken]
      · refine (books_setContextConfig (w := w.note (.holding sort device.name)) hy).trans ?_
        rw [noted, held]
  | inst i =>
      obtain ⟨config, found, same⟩ := Option.map_eq_some_iff.1 backed
      obtain ⟨y, hy, -⟩ := Option.bind_eq_some_iff.1 found
      obtain ⟨new, taken, held⟩ := accepted config same
      refine ⟨(w.note (.holding sort device.name)).modifyInstance i
        ({ · with data := some (.config new) }), ?_, ?_⟩
      · show Action.attachDevice ((w.instances.get? i).bind (·.config?)) sort device _ w = _
        rw [found, Action.attachDevice_free taken]
      · refine (books_setInstanceConfig (w := w.note (.holding sort device.name)) hy).trans ?_
        rw [noted, held]

/-- Whether it succeeds or not, the books agree with what was asked. -/
theorem books_attach : ((p.attach sort device).into w).books = w.books.attach p sort device := by
  unfold Action.into
  cases backed : w.backing p with
  | none =>
      rw [attach_unbacked backed]
      exact (Books.attach_of_none backed).symm
  | some x =>
      cases taken : (x.slot sort).isSome with
      | true =>
          rw [attach_taken backed taken]
          exact (Books.attach_of_taken backed taken).symm
      | false =>
          obtain ⟨v, done, books⟩ : ∃ v, p.attach sort device w = .ok () v ∧ _ :=
            attach_free backed taken
          rw [done]
          exact books

/-! ## Other data -/

/-- Gives the context or the instance its private data, and gives back what it had. -/
def replaceData (w : World) (data : Option PrivateData) : Place → World
  | .context c => w.setContextData c data
  | .inst i => w.setData i data
  | .nowhere => w

/-- Is there such a context or instance? -/
def there (w : World) : Place → Bool
  | .context c => w.contexts.has c
  | .inst i => w.instances.has i
  | .nowhere => false

/-- Nobody has the data, so nothing is replaced. -/
theorem replaceData_of_absent (absent : w.there p = false) : w.replaceData data p = w := by
  cases p with
  | nowhere => rfl
  | context c =>
      have found : w.contexts.get? c = none := by simpa [there, Table.has] using absent
      show w.setContextData c data = w
      unfold setContextData modifyContext
      simp only [found, Table.modify_of_absent found]
      exact settle_nil
  | inst i =>
      have found : w.instances.get? i = none := by simpa [there, Table.has] using absent
      show w.setData i data = w
      unfold setData modifyInstance
      simp only [found, Table.modify_of_absent found]
      exact settle_nil

/-- Whatever else takes its place, a configuration is given back. -/
theorem books_replaceData (other : data.bind (·.config?) = none) :
    (w.replaceData data p).books = w.books.close p := by
  cases p with
  | context c => exact books_setContextData other
  | inst i => exact books_setData other
  | nowhere => exact (Books.close_of_none rfl).symm

/-- The configuration that was there is given back, and the new one has its place. -/
theorem books_replaceData_config {config : Config} (there : w.there p = true) :
    (w.replaceData (some (.config config)) p).books
      = (w.books.close p).keep p config.backing := by
  rw [Books.keep_close, ← Books.keep_give]
  cases p with
  | nowhere => cases there
  | context c =>
      obtain ⟨x, hx⟩ := Table.has_iff.1 there
      have kept : w.books.backing (.context c) = (x.data.bind (·.config?)).map Config.backing := by
        show ((w.contexts.get? c).bind (·.config?)).map _ = _
        rw [hx]
        rfl
      show ((w.modifyContext c ({ · with data := some (.config config) })).settle
        (((w.contexts.get? c).bind (·.data)).toList.map .dispose)).books = _
      rw [books_settle_dispose, books_setContextConfig hx, kept, hx]
      rfl
  | inst i =>
      obtain ⟨x, hx⟩ := Table.has_iff.1 there
      have kept : w.books.backing (.inst i) = (x.data.bind (·.config?)).map Config.backing := by
        show ((w.instances.get? i).bind (·.config?)).map _ = _
        rw [hx]
        rfl
      show ((w.modifyInstance i ({ · with data := some (.config config) })).settle
        (((w.instances.get? i).bind (·.data)).toList.map .dispose)).books = _
      rw [books_settle_dispose, books_setInstanceConfig hx, kept, hx]
      rfl

/-- What takes the place of private data. -/
inductive Replacement where
  | nothing
  | foreign
  /-- Another configuration, if one can be allocated. -/
  | fresh
  deriving DecidableEq, Repr

/-- Private data is taken away or replaced, where there is some to have. -/
def displace (w : World) (p : Place) : Replacement → World
  | .nothing => w.replaceData none p
  | .foreign => w.replaceData (some .foreign) p
  | .fresh =>
    if w.there p then
      let (granted, host) := w.host.acquire .config
      let w := { w with host }
      if granted then w.replaceData (some (.config { mode := defaultRootMode })) p else w
    else w

/-- No device is put back for an allocation. -/
theorem releases_acquire {kind : Resource} :
    (w.host.acquire kind).2.releases = w.host.releases := by
  unfold Host.acquire
  split
  · rfl
  · exact Host.releases_note rfl

/-- An allocation that is granted counts. -/
theorem books_acquired {host : Host} (acquired : w.host.acquire .config = (true, host)) :
    World.books { w with host } = { w.books with inUse := w.books.inUse + 1 } := by
  have released : host.releases = w.host.releases := by
    rw [← releases_acquire, acquired]
  exact Books.ext rfl released rfl (Host.net_of_acquired acquired)

theorem books_refused {host : Host} (refused : w.host.acquire .config = (false, host)) :
    World.books { w with host } = w.books := by
  have released : host.releases = w.host.releases := by
    rw [← releases_acquire, refused]
  exact Books.ext rfl released rfl (Host.net_of_refused refused)

/-- Can one more configuration be allocated? -/
def affords (w : World) : Bool := decide (w.host.room .config ≠ some 0)

theorem affords_of_acquire {granted : Bool} {host : Host}
    (h : w.host.acquire .config = (granted, host)) : w.affords = granted := by
  unfold affords
  rcases Host.room_of_acquire h with ⟨rfl, ⟨room, -⟩ | ⟨n, room, -⟩⟩ | ⟨rfl, room, -⟩
  · rw [room]
    rfl
  · rw [room]
    exact decide_eq_true nofun
  · rw [room]
    rfl

/-- What is entered when private data is taken away or replaced. -/
def displacing (w : World) (p : Place) : Replacement → List Books.Entry
  | .nothing | .foreign => if w.there p then [.close p] else []
  | .fresh => if w.there p && w.affords then [.allot p] else []

theorem books_displace {other : Replacement} :
    (w.displace p other).books = (w.displacing p other).foldl Books.enter w.books := by
  have taken : ∀ data : Option PrivateData, data.bind (·.config?) = none →
      (w.replaceData data p).books
        = (if w.there p then [.close p] else []).foldl Books.enter w.books := by
    intro data other
    cases there : w.there p with
    | true => exact books_replaceData other
    | false =>
        rw [replaceData_of_absent there]
        rfl
  cases other with
  | nothing => exact taken none rfl
  | foreign => exact taken (some .foreign) rfl
  | fresh =>
      unfold displace displacing
      cases there : w.there p with
      | false => rfl
      | true =>
          cases acquired : w.host.acquire .config with
          | mk granted host =>
              rw [affords_of_acquire acquired]
              cases granted with
              | false => exact books_refused acquired
              | true =>
                  have there : World.there { w with host } p = true := there
                  refine (books_replaceData_config there).trans ?_
                  rw [books_acquired acquired]
                  rfl

end World

/-! ## Nobody is left without an owner -/

/-- The data that is put there waited for somebody to have it. -/
theorem Sound.replaceData (data : Option PrivateData) (s : Sound w (data.toList.map .dispose))
    (there : w.there p = true) : Sound (w.replaceData data p) [] := by
  have waiting : ∀ {ref}, .letGo ref ∉ data.toList.map Task.dispose := by
    intro ref mem
    obtain ⟨_, -, e⟩ := List.mem_map.1 mem
    cases e
  cases p with
  | nowhere => cases there
  | context c =>
      obtain ⟨x, hc⟩ := Table.has_iff.1 there
      show Sound ((w.modifyContext c ({ · with data })).settle
        (((w.contexts.get? c).bind (·.data)).toList.map .dispose)) []
      refine settleAll (s.modifyContext hc (fun ref h => ?_) (fun ref h => .inl ?_)
        (fun ref h => absurd h waiting) ?_)
      · exact s.has_of_context hc (by cases ref <;> exact h)
      · cases ref <;> exact h
      · rw [hc, Option.bind_some, waitingConfigs_dispose, waitingConfigs_dispose, Nat.add_comm]
  | inst i =>
      obtain ⟨x, hi⟩ := Table.has_iff.1 there
      show Sound ((w.modifyInstance i ({ · with data })).settle
        (((w.instances.get? i).bind (·.data)).toList.map .dispose)) []
      refine settleAll (s.modifyInstance hi (fun b h => s.has_root hi h) (fun b h => .inl h)
        (fun ref h => absurd h waiting) ?_)
      rw [hi, Option.bind_some, waitingConfigs_dispose, waitingConfigs_dispose, Nat.add_comm]

theorem Sound.displace (s : Sound w []) {other : Replacement} : Sound (w.displace p other) [] := by
  cases there : w.there p with
  | false =>
      cases other with
      | nothing | foreign =>
          show Sound (w.replaceData _ p) []
          rwa [replaceData_of_absent there]
      | fresh =>
          unfold World.displace
          rwa [there]
  | true =>
      cases other with
      | nothing => exact s.replaceData none there
      | foreign =>
          have offered : Sound w [.dispose .foreign] := s.mono nofun rfl
          exact offered.replaceData (some .foreign) there
      | fresh =>
          unfold World.displace
          rw [there]
          cases acquired : w.host.acquire .config with
          | mk granted host =>
              cases granted with
              | false => exact s.onHost fun _ => Host.net_of_refused acquired
              | true =>
                  exact (s.acquireConfig acquired).replaceData
                    (some (.config { mode := defaultRootMode })) there

end Memfs
