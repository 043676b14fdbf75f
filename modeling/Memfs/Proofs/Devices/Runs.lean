import Memfs.Proofs.Devices.Ends

/-!
# Devices over a whole run

Whatever is done with contexts, instances and their data, the devices of a configuration are
put back once, when its life ends: the block device, the direct device, and the configuration
after them. A `Logbook` keeps the annals beside the world. Each deed comes to entries in the
books, and the same entries are made in the annals, so that both agree after any number of
deeds (`Logbook.Kept`); what the annals say of numbers, order and count is then said of the
devices that were put back in the run. When a life ends is a matter of the deed and of the
state before it (`World.Expires`).
-/

namespace Memfs

open World

/-- A world, and the annals of its configurations. -/
structure Logbook where
  world : World
  annals : Annals

namespace Logbook

def fresh (clock : Clock) : Logbook := ⟨World.fresh clock, {}⟩

def after (t : Logbook) (deed : Deed) : Logbook :=
  ⟨t.world.undergo deed, (t.world.entries deed).foldl Annals.enter t.annals⟩

def run (t : Logbook) (deeds : List Deed) : Logbook := deeds.foldl after t

end Logbook

variable {w : World} {t : Logbook} {deed : Deed} {deeds : List Deed} {a : Annals} {clock : Clock}
  {p : Place} {sort : DeviceSort} {device : Device} {n : Nat} {l : Life}

/-! ## What is said of a run -/

/-- The annals tell what has become of the devices in the world. -/
structure Annals.Tell (a : Annals) (w : World) : Prop where
  /-- Put back are the devices of configurations that were closed, and no others, those of one
  after those of another, the block device before the direct device. -/
  releases : w.host.releases = a.closed.flatMap (·.held.releases)
  /-- What devices have recorded when they were put back. -/
  puts : w.puts = a.closed.flatMap fun c => c.held.puts c.inUse
  /-- What is nowhere was closed once, with all the devices that it has got, and what is in a
  place was not closed. -/
  once : ∀ (n : Nat) l, a.lives[n]? = some l → (a.closed.filter (·.life = n)).map (·.held)
    = if l.place = .nowhere then [l.backing] else []
  /-- What was closed was allocated. -/
  numbered : ∀ c ∈ a.closed, c.life < a.lives.length
  /-- What is in a place has its devices there. -/
  here : ∀ (n : Nat) l, a.lives[n]? = some l → l.place ≠ .nowhere →
    w.backing l.place = some l.backing
  /-- The configuration of a place has one life, and no other is there. -/
  alone : ∀ p x, w.backing p = some x → ∃ n : Nat, a.lives[n]? = some ⟨p, x⟩ ∧
    ∀ (m : Nat) l, a.lives[m]? = some l → l.place = p → m = n
  /-- As many are in use as were not closed. -/
  live : w.host.live .config = a.live

/-- The device can be attached to the configuration of the place, if there is room for it. -/
structure World.Attachable (w : World) (p : Place) (sort : DeviceSort) (device : Device) :
    Prop where
  /-- Without a configuration nothing happens. -/
  absent : w.backing p = none → p.attach sort device w = .error .invalidArgument w
  /-- If the slot is taken, nothing happens either. -/
  taken : ∀ x, w.backing p = some x → (x.slot sort).isSome = true →
    p.attach sort device w = .error .busy w
  /-- If the slot is free then the device is in it. -/
  free : ∀ x, w.backing p = some x → (x.slot sort).isSome = false →
    ∃ v, p.attach sort device w = .ok () v ∧ v.backing p = some (x.attach sort device)

/-- What one more deed does to configurations. -/
structure Logbook.Onward (t : Logbook) (deed : Deed) : Prop where
  /-- All have the devices that they had, with the one that is attached, and nothing happens
  any more to what was closed. -/
  lasts : t.annals.Lasts deed.attaches (t.after deed).annals
  /-- What is allocated in the deed has no devices. -/
  begun : (t.after deed).annals.lives.drop t.annals.lives.length
    = (t.world.begins deed).toList.map (⟨·, {}⟩)
  /-- The lives that end in the deed are those that are listed. -/
  ended : ∀ (n : Nat) l, t.annals.lives[n]? = some l → l.place ≠ .nowhere →
    t.world.Expires deed l.place → (t.after deed).annals.lives[n]? = some ⟨.nowhere, l.backing⟩
  /-- Where the others are then. -/
  kept : ∀ (n : Nat) l, t.annals.lives[n]? = some l → l.place ≠ .nowhere →
    ¬ t.world.Expires deed l.place → ((t.after deed).annals.lives[n]?).map (·.place)
      = some (t.world.goesTo deed l.place)
  /-- What is closed is entered after all that was closed before. Each is in use when its
  devices are put back, and so are those that are closed after it. -/
  closes : t.annals.Closes (t.world.begins deed).toList.length (t.after deed).annals

/-! ## The annals follow the world -/

/-- No deed is entered that is about nothing. -/
theorem World.sited_entries {e : Books.Entry} (mem : e ∈ w.entries deed) : e.Sited := by
  rcases entries_cases w deed with ⟨-, -, departs⟩ | ⟨p, departures, place, entered, departs, -⟩ |
    ⟨p, sort, device, place, entered, -⟩
  · exact (departs e mem).sited
  · rw [entered] at mem
    rcases List.mem_cons.1 mem with rfl | mem
    · exact place
    · exact (departs e mem).sited
  · rw [entered] at mem
    rw [List.mem_singleton.1 mem]
    exact place

/-- The world is in order and the annals agree with its books. -/
structure Logbook.Kept (t : Logbook) : Prop where
  sound : Sound t.world []
  agree : t.annals.Agree 0 t.world.books

namespace Logbook.Kept

theorem fresh : (Logbook.fresh clock).Kept where
  sound := .fresh
  agree := by
    have empty : (World.fresh clock).backing = fun _ => none := by
      funext p
      cases p with
      | nowhere => rfl
      | context c =>
          have absent : (World.fresh clock).contexts.get? c = none := Table.get?_empty
          exact backing_context.trans (by rw [absent])
      | inst i =>
          have absent : (World.fresh clock).instances.get? i = none := Table.get?_empty
          exact backing_inst.trans (by rw [absent])
    refine ⟨⟨rfl, nofun, fun p x kept => ?_, nofun⟩, rfl, rfl, rfl, List.nodup_nil, fun n x => ?_⟩
    · cases (congrFun empty p).symm.trans kept
    · exact ⟨nofun, nofun⟩

theorem after (k : t.Kept) : (t.after deed).Kept where
  sound := k.sound.undergo
  agree := by
    show Annals.Agree _ 0 (t.world.undergo deed).books
    rw [books_undergo k.sound]
    exact k.agree.enterAll fun _ => sited_entries

theorem run (k : t.Kept) : (t.run deeds).Kept := by
  induction deeds generalizing t with
  | nil => exact k
  | cons deed rest ih => exact ih k.after

end Logbook.Kept

theorem Logbook.world_run : (t.run deeds).world = deeds.foldl World.undergo t.world := by
  induction deeds generalizing t with
  | nil => rfl
  | cons deed rest ih => exact ih

/-- One closing in the list has the number, so it is the only one that is found. -/
theorem Closing.filter_eq {closed : List Closing} {c : Closing}
    (single : (closed.map (·.life)).Nodup) (mem : c ∈ closed) :
    closed.filter (·.life = c.life) = [c] := by
  induction closed with
  | nil => cases mem
  | cons d rest ih =>
      obtain ⟨fresh, single⟩ := List.nodup_cons.1 single
      rcases List.mem_cons.1 mem with rfl | mem
      · have others : rest.filter (·.life = c.life) = [] := by
          refine List.filter_eq_nil_iff.2 fun e mem same => fresh ?_
          exact List.mem_map.2 ⟨e, mem, of_decide_eq_true same⟩
        rw [List.filter_cons, if_pos (decide_eq_true rfl), others]
      · have other : d.life ≠ c.life := fun same => fresh (List.mem_map.2 ⟨c, mem, same.symm⟩)
        rw [List.filter_cons, if_neg (by simpa using other)]
        exact ih single mem

/-- A configuration was closed once with all its devices, or it is in its place and was not
closed. -/
theorem Annals.Agree.closings {b : Books} {n : Nat} {l : Life} (h : a.Agree 0 b)
    (known : a.lives[n]? = some l) : (a.closed.filter (·.life = n)).map (·.held)
      = if l.place = .nowhere then [l.backing] else [] := by
  split
  · next gone =>
      have known : a.lives[n]? = some ⟨.nowhere, l.backing⟩ := gone ▸ known
      obtain ⟨k, mem⟩ := (h.closed n l.backing).1 known
      rw [Closing.filter_eq (c := ⟨n, l.backing, k⟩) h.single mem]
      rfl
  · next there =>
      refine List.map_eq_nil_iff.2 (List.filter_eq_nil_iff.2 fun c mem same => ?_)
      have mine : ⟨n, c.held, c.inUse⟩ ∈ a.closed := of_decide_eq_true same ▸ mem
      exact h.unclosed known there mine

/-! ## What is said of it holds -/

theorem Annals.Agree.tell (h : a.Agree 0 w.books) : a.Tell w where
  releases := h.releases
  puts := h.puts
  once _ _ := h.closings
  numbered c mem := by
    have gone : a.lives[c.life]? = some ⟨.nowhere, c.held⟩ := (h.closed _ _).2 ⟨c.inUse, mem⟩
    exact (List.getElem?_eq_some_iff.1 gone).1
  here := h.filed.here
  alone p x kept := by
    obtain ⟨n, known⟩ := h.filed.kept p x kept
    have place : p ≠ .nowhere := by
      rintro rfl
      cases kept
    exact ⟨n, known, fun m l hm here => h.filed.once m n l _ hm known here (here ▸ place)⟩
  live := by
    have net : w.host.net .config = a.live := h.inUse
    rw [Host.live_eq_toNat_net, net, Int.toNat_natCast]

theorem World.attachable : w.Attachable p sort device where
  absent := attach_unbacked
  taken _ := attach_taken
  free x backed free := by
    obtain ⟨v, done, books⟩ : ∃ v, p.attach sort device w = .ok () v ∧ _ :=
      attach_free backed free
    have entered : v.books.backing p = (w.books.attach p sort device).backing p := by
      rw [books]
    have found : w.books.backing p = some x := backed
    rw [Books.attach_of_some found] at entered
    exact ⟨v, done, entered.trans (if_pos rfl)⟩

/-- What a deed adds to the annals, and what it leaves as it was. -/
theorem Annals.Agree.entered (h : a.Agree 0 w.books) (deed : Deed) :
    let a' := (w.entries deed).foldl Annals.enter a
    a.Lasts deed.attaches a' ∧ a.Closes (w.begins deed).toList.length a' ∧
      a'.lives.drop a.lives.length = (w.begins deed).toList.map (⟨·, {}⟩) := by
  intro a'
  rcases entries_cases w deed with ⟨idle, unattached, departs⟩ |
    ⟨p, departures, place, entered, departs, begins, unattached⟩ |
    ⟨p, sort, device, place, entered, idle, attaches⟩
  · obtain ⟨lasts, closes, length⟩ := lasts_departures (a := a) departs
    rw [idle, unattached]
    exact ⟨lasts, closes, List.drop_eq_nil_of_le length.le⟩
  · obtain ⟨lasts, closes, length⟩ := lasts_departures (a := a.enter (.allot p)) departs
    have allotted : a' = departures.foldl Annals.enter (a.enter (.allot p)) := by
      show List.foldl _ _ (w.entries deed) = _
      rw [entered]
      rfl
    have more : (a.enter (.allot p)).lives.length = a.lives.length + 1 := by
      show ((a.leave p (a.live + 1)).lives ++ [_]).length = _
      rw [List.length_append, length_leave]
      rfl
    -- the new one has departed with the others, but no device was attached to it
    obtain ⟨l, known, held, -⟩ := lasts _ _ (getElem?_allot (a := a) (p := p))
    obtain ⟨l', known', goes⟩ := (h.enter (e := .allot p) place).place_enterAll
      (fun e mem => (departs e mem).sited) (getElem?_allot (a := a) (p := p))
    cases known.symm.trans known'
    obtain ⟨bound, same⟩ := List.getElem?_eq_some_iff.1 known
    rw [begins, unattached, allotted]
    refine ⟨Lasts.allot.trans lasts, (Closes.allot place).trans closes, ?_⟩
    rw [List.drop_eq_getElem_cons bound, same, List.drop_eq_nil_of_le (length.trans more).le]
    obtain ⟨q, x⟩ := l
    cases held
    cases goes
    rfl
  · have attached : a' = a.change p p (·.attach sort device) := by
      show List.foldl _ _ (w.entries deed) = _
      rw [entered]
      rfl
    rw [idle, attaches, attached]
    exact ⟨Lasts.attach h.filed place, Closes.change place place,
      List.drop_eq_nil_of_le length_change.le⟩

/-- One more deed, and the configurations go where they are said to go. -/
theorem Logbook.Kept.onward (k : t.Kept) : t.Onward deed := by
  have goes : ∀ (n : Nat) l, t.annals.lives[n]? = some l → ∃ l',
      (t.after deed).annals.lives[n]? = some l' ∧
        l'.place = Books.carry (t.world.entries deed) l.place := fun n l known =>
    k.agree.place_enterAll (fun _ => sited_entries) known
  obtain ⟨lasts, closes, begun⟩ := k.agree.entered deed
  refine ⟨lasts, begun, fun n l known place expires => ?_, fun n l known place lives => ?_, closes⟩
  · have backed := k.agree.filed.here n l known place
    obtain ⟨⟨q, x⟩, known', gone⟩ := goes n l known
    obtain ⟨l', known'', held, -⟩ := lasts n l known
    cases known'.symm.trans known''
    rw [expires.unattached] at held
    cases held
    cases gone.trans (carry_of_expires backed expires)
    exact known'
  · have backed := k.agree.filed.here n l known place
    obtain ⟨l', known', gone⟩ := goes n l known
    rw [known', Option.map_some, gone, carry_of_not_expires k.sound backed lives]

/-- Whatever is done with contexts and instances, with their private data and with devices, and
whatever fails: the annals tell what has become of the devices, devices are attached where
there is room for them, and one more deed ends the lives that it is said to end, puts back
their devices, and no others. -/
theorem devices_put_once (clock : Clock) (deeds : List Deed) :
    let t := (Logbook.fresh clock).run deeds
    t.world = deeds.foldl World.undergo (World.fresh clock) ∧ t.annals.Tell t.world ∧
      (∀ p sort device, t.world.Attachable p sort device) ∧ ∀ deed, t.Onward deed := by
  intro t
  have k : t.Kept := Logbook.Kept.fresh.run
  exact ⟨Logbook.world_run, k.agree.tell, fun _ _ _ => attachable, fun _ => k.onward⟩

/-- The lives of six configurations end: a context is dropped with a device, a mount has a bad
option, a tree has no node for its root, an instance is dropped that was not torn down, and one
loses its data and is torn down then. The last one has a device of each sort, and gets another
direct device in vain. It is torn down, and once more by hand. -/
theorem devices_put_once_torn_down :
    let call : Call → Deed := fun call => .request (.call call)
    let deeds : List Deed := [call (.register builtInType),
      call (.newContext builtInType), call (.attachToContext 0 .block ⟨"a", true⟩),
      call (.dropContext 0),
      call (.mount "tagfs" "mode=9"),
      call (.newContext builtInType), call (.attachToContext 2 .direct ⟨"b", true⟩),
      call (.setBudget .node (some 0)), call (.makeTree 2), call (.setBudget .node none),
      call (.mount "tagfs" ""), call (.attachToInstance 1 .block ⟨"c", true⟩),
      call (.drop (.inst 1)),
      call (.mount "tagfs" ""), call (.attachToInstance 2 .direct ⟨"d", true⟩),
      .displace (.inst 2) .nothing, call (.deactivate 2),
      call (.mount "tagfs" ""), call (.attachToInstance 3 .block ⟨"bdev", true⟩),
      call (.attachToInstance 3 .direct ⟨"dax", true⟩)]
    let t := (Logbook.fresh (.steady 0 0 1)).run deeds
    let torn := t.after (call (.deactivate 3))
    t.annals.lives.map (·.place)
        = [.nowhere, .nowhere, .nowhere, .nowhere, .nowhere, .inst 3] ∧
      t.world.host.releases
        = [(.block, "a"), (.direct, "b"), (.block, "c"), (.direct, "d")] ∧
      Place.attach .direct ⟨"other", true⟩ (.inst 3) t.world = .error .busy t.world ∧
      torn.annals.lives[5]?
        = some ⟨.nowhere, ⟨some ⟨"bdev", true⟩, some ⟨"dax", true⟩⟩⟩ ∧
      torn.world.host.releases
        = t.world.host.releases ++ [(.block, "bdev"), (.direct, "dax")] ∧
      torn.world.puts = [("a", 1), ("b", 1), ("c", 1), ("d", 1), ("bdev", 1), ("dax", 1)] ∧
      torn.world.host.live .config = 0 ∧
      (torn.after (.dissolve 3)).world.host.releases = torn.world.host.releases := by
  intro call deeds t torn
  obtain ⟨-, tell, attachable, onward⟩ := devices_put_once (.steady 0 0 1) deeds
  have told : ∀ later, ((Logbook.fresh (.steady 0 0 1)).run (deeds ++ later)).annals.Tell
      ((Logbook.fresh (.steady 0 0 1)).run (deeds ++ later)).world := fun later =>
    (devices_put_once (.steady 0 0 1) (deeds ++ later)).2.1
  have tellTorn : torn.annals.Tell torn.world := told [call (.deactivate 3)]
  have tellAgain : (torn.after (.dissolve 3)).annals.Tell (torn.after (.dissolve 3)).world :=
    told [call (.deactivate 3), .dissolve 3]
  have last : t.annals.lives[5]? = some ⟨.inst 3, ⟨some ⟨"bdev", true⟩, some ⟨"dax", true⟩⟩⟩ := by
    decide +kernel
  have closed : t.annals.closed.flatMap (·.held.releases)
      = [(.block, "a"), (.direct, "b"), (.block, "c"), (.direct, "d")] := by decide +kernel
  have closedTorn : torn.annals.closed.flatMap (·.held.releases)
      = t.annals.closed.flatMap (·.held.releases) ++ [(.block, "bdev"), (.direct, "dax")] := by
    decide +kernel
  have closedAgain : (torn.after (.dissolve 3)).annals.closed = torn.annals.closed := by
    decide +kernel
  refine ⟨by decide +kernel, tell.releases.trans closed, ?_, ?_, ?_, ?_, ?_, ?_⟩
  · exact (attachable (.inst 3) .direct ⟨"other", true⟩).taken _
      (tell.here 5 _ last Place.noConfusion) rfl
  · exact (onward (call (.deactivate 3))).ended 5 _ last Place.noConfusion
      (.tornDown (by decide +kernel))
  · rw [tellTorn.releases, tell.releases, closedTorn]
  · rw [tellTorn.puts]
    decide +kernel
  · rw [tellTorn.live]
    decide +kernel
  · rw [tellAgain.releases, tellTorn.releases, closedAgain]

end Memfs
