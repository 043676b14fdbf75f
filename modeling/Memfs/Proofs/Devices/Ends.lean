import Memfs.Proofs.Devices.Deeds
import Memfs.Proofs.Devices.Lives

/-!
# When a configuration goes

The deeds in which the life of a configuration ends are listed in `World.Expires`: its context
is dropped, or its tree cannot be filled; its instance is torn down, or lost by the last who
owned it; or something else is put in its place. That a tree cannot be filled is seen when it
is asked for; all else that such a deed asks for is a matter of the state before it, and what
is done then plays no part. A configuration whose life does not end is where it was before, or
it has gone from its context to the instance that was made for it (`World.goesTo`). In a mount
that does not come about, a configuration begins and ends at once (`World.begins`).

That it is so is read off the entries of the deed. They carry every configuration from one
place to another (`Books.carry`).
-/

namespace Memfs

open World

variable {w : World} {c : ContextId} {p : Place} {deed : Deed} {x : Backing}

namespace World

/-- Where a configuration that is allocated in a deed is after it. In a mount that does not
come about it is given back again. -/
def begins (w : World) : Deed → Option Place
  | .request (.call (.newContext type)) =>
    if w.grants type then some (.context w.contexts.nextId) else none
  | .request (.call (.mount name options)) =>
    if (w.findType name).any w.grants then
      some (match Action.mount name options w with
        | .ok _ _ => .inst w.instances.nextId
        | .error _ _ => .nowhere)
    else none
  | .displace p .fresh => if w.there p && w.affords then some p else none
  | _ => none

/-- The life of the configuration of the place ends with the deed. -/
inductive Expires (w : World) : Deed → Place → Prop
  /-- The context ends, and whether it was asked for a tree does not matter. -/
  | dropped {c : ContextId} : w.Expires (.request (.call (.dropContext c))) (.context c)
  /-- The context ends, and nobody took the instance that it made. It is torn down, and if
  that gives nothing back then it may still be that nobody else owns it. -/
  | untaken {c : ContextId} {x : Context} {i : InstanceId} (found : w.contexts.get? c = some x)
    (made : x.made = some i) (goes : w.tearsDown i ∨ ¬ (w.parted c).Owned (.inst i)) :
    w.Expires (.request (.call (.dropContext c))) (.inst i)
  /-- The context is asked for its tree, but the instance cannot be filled. -/
  | unfilled {c : ContextId} {x : Context} {ops : ContextOps} {e : Error} {v : World}
    (asked : w.asked c = some (x, ops))
    (failed : Action.makeInstance c ops.filling w = .error e v) :
    w.Expires (.request (.call (.makeTree c))) (.context c)
  /-- The context is asked for its tree once more, and the instance that it made before, which
  had no root, has no owner now. -/
  | superseded {c : ContextId} {x : Context} {ops : ContextOps} {v : World} {i : InstanceId}
    (asked : w.asked c = some (x, ops)) (filled : Action.makeInstance c ops.filling w = .ok () v)
    (made : x.made = some i) (alone : ¬ (w.parted c).Owned (.inst i)) :
    w.Expires (.request (.call (.makeTree c))) (.inst i)
  /-- The instance is torn down for the first time, and its type gives back what it has. -/
  | tornDown {i : InstanceId} (tears : w.tearsDown i) :
    w.Expires (.request (.call (.deactivate i))) (.inst i)
  /-- A caller lets go of the instance, and nobody else owns it. -/
  | letGo {i : InstanceId}
    (alone : ¬ World.Owned { w with held := w.held.erase (.inst i) } (.inst i)) :
    w.Expires (.request (.call (.drop (.inst i)))) (.inst i)
  /-- The data of the context or the instance is replaced. -/
  | replaced {p : Place} {other : Replacement} (comes : other = .fresh → w.affords) :
    w.Expires (.displace p other) p
  /-- The teardown of the built-in type is made by hand. -/
  | dissolved {i : InstanceId} : w.Expires (.dissolve i) (.inst i)

/-- No life ends in a deed that attaches a device. -/
theorem Expires.unattached (expires : w.Expires deed p) : deed.attaches = none := by
  cases expires with
  | _ => rfl

/-- Where a configuration is after a deed in which its life does not end. -/
def goesTo (w : World) : Deed → Place → Place
  | .request (.call (.makeTree c)), p =>
    if p = .context c ∧ (w.asked c).isSome then .inst w.instances.nextId else p
  | _, p => p

/-! ## What the entries are about -/

theorem mem_leavings {e : Books.Entry} :
    e ∈ w.leavings c ↔ e = .close (.context c) ∨ e ∈ w.untaken c := by
  unfold leavings
  split
  · exact List.mem_cons
  · rw [List.mem_append, List.mem_singleton, or_comm]

/-- When a context ends, configurations are given back, and that is all. -/
theorem closes_leavings {e : Books.Entry} (mem : e ∈ w.leavings c) :
    ∃ q, e = .close q ∧ q ≠ .nowhere := by
  rcases mem_leavings.1 mem with own | untaken
  · exact ⟨_, own, Place.noConfusion⟩
  · obtain ⟨i, -, -, closes⟩ := mem_untaken.1 untaken
    exact ⟨_, closes, Place.noConfusion⟩

/-! ## Where the entries carry a configuration -/

theorem there_of_backing (backed : w.backing p = some x) : w.there p = true := by
  cases p with
  | nowhere => cases backed
  | context c =>
      obtain ⟨config, found, -⟩ := Option.map_eq_some_iff.1 backed
      obtain ⟨y, hy, -⟩ := Option.bind_eq_some_iff.1 found
      exact Table.has_iff.2 ⟨y, hy⟩
  | inst i =>
      obtain ⟨config, found, -⟩ := Option.map_eq_some_iff.1 backed
      obtain ⟨y, hy, -⟩ := Option.bind_eq_some_iff.1 found
      exact Table.has_iff.2 ⟨y, hy⟩

theorem ne_nextContext (backed : w.backing p = some x) : p ≠ .context w.contexts.nextId := by
  rintro rfl
  cases backing_nextContext.symm.trans backed

theorem ne_nextInstance (backed : w.backing p = some x) : p ≠ .inst w.instances.nextId := by
  rintro rfl
  cases backing_next.symm.trans backed

theorem carry_leavings :
    Books.carry (w.leavings c) p = if .close p ∈ w.leavings c then .nowhere else p :=
  Books.carry_closes fun _ mem => (closes_leavings mem).imp fun _ => And.left

/-- The configuration of a place whose life ends is nowhere after the deed. -/
theorem carry_of_expires (backed : w.backing p = some x) (expires : w.Expires deed p) :
    Books.carry (w.entries deed) p = .nowhere := by
  cases expires with
  | dropped => exact carry_leavings.trans (if_pos (mem_leavings.2 (.inl rfl)))
  | untaken found made goes =>
      have mem : .close (.inst _) ∈ w.untaken _ :=
        mem_untaken.2 ⟨_, by rw [found, Option.bind_some, made], goes, rfl⟩
      exact carry_leavings.trans (if_pos (mem_leavings.2 (.inr mem)))
  | unfilled asked failed =>
      show Books.carry (w.planting _) _ = _
      unfold planting
      simp only [asked, failed]
      exact if_pos rfl
  | superseded asked filled made alone =>
      show Books.carry (w.planting _) _ = _
      unfold planting
      simp only [asked, filled, made, Option.toList_some, List.filter_cons, alone]
      -- unless it has gone already, to make room for the new instance, it goes now
      show (Books.Entry.close _).carry (if _ then _ else if _ then _ else _) = _
      split
      · rfl
      · rw [if_neg nofun]
        exact if_pos rfl
  | tornDown tears =>
      show Books.carry (if w.tearsDown _ then _ else _) _ = _
      rw [if_pos tears]
      exact if_pos rfl
  | letGo alone =>
      show Books.carry (if World.Owned _ _ then _ else _) _ = _
      rw [if_neg alone]
      exact if_pos rfl
  | @replaced _ other comes =>
      show Books.carry (w.displacing _ other) _ = _
      unfold displacing
      have there := there_of_backing backed
      cases other with
      | nothing | foreign =>
          simp only [there, if_true]
          exact if_pos rfl
      | fresh =>
          simp only [there, comes rfl, Bool.and_self, if_true]
          exact if_pos rfl
  | dissolved => exact if_pos rfl

/-- If its life does not end, the configuration of a place is kept when a tree is made, or it
goes from its context to the instance. -/
theorem carry_planting (s : Sound w []) (backed : w.backing p = some x)
    (lasts : ¬ w.Expires (.request (.call (.makeTree c))) p) :
    Books.carry (w.planting c) p = w.goesTo (.request (.call (.makeTree c))) p := by
  show _ = if _ then _ else p
  unfold planting
  cases asked : w.asked c with
  | none => exact (if_neg nofun).symm
  | some pair =>
      obtain ⟨y, ops⟩ := pair
      simp only
      cases made : Action.makeInstance c ops.filling w with
      | error e v =>
          have other : p ≠ .context c := by
            rintro rfl
            exact lasts (.unfilled asked made)
          exact (if_neg other).trans (if_neg fun here => other here.1).symm
      | ok n v =>
          obtain ⟨hc, -, -⟩ := asked_eq_some.1 asked
          have goes : (Books.Entry.move c w.instances.nextId).carry p =
              if p = .context c ∧ (some (y, ops)).isSome then .inst w.instances.nextId else p := by
            refine (if_neg (ne_nextInstance backed)).trans ?_
            simp
          show Books.carry (List.map _ (List.filter _ _))
            ((Books.Entry.move c w.instances.nextId).carry p) = _
          rw [Books.carry_closes fun e mem => ?_, goes, if_neg]
          · intro mem
            obtain ⟨i, mem, same⟩ := List.mem_map.1 mem
            obtain ⟨first, alone⟩ := List.mem_filter.1 mem
            have first : y.made = some i := Option.mem_toList.1 first
            have alone : ¬ (w.parted c).Owned (.inst i) := of_decide_eq_true alone
            split at same
            · exact absurd (Place.inst.inj (Books.Entry.close.inj same))
                (Nat.ne_of_lt (made_lt s hc first))
            · cases Books.Entry.close.inj same
              exact lasts (.superseded asked made first alone)
          · obtain ⟨i, -, rfl⟩ := List.mem_map.1 mem
            exact ⟨_, rfl⟩

/-- If its life does not end, the configuration of a place is kept. -/
theorem carry_of_not_expires (s : Sound w []) (backed : w.backing p = some x)
    (lasts : ¬ w.Expires deed p) : Books.carry (w.entries deed) p = w.goesTo deed p := by
  have old := ne_nextContext backed
  cases deed with
  | dissolve i =>
      refine if_neg ?_
      rintro rfl
      exact lasts .dissolved
  | displace q other =>
      show Books.carry (w.displacing q other) p = p
      have apart : (other = .fresh → w.affords) → p ≠ q := by
        rintro comes rfl
        exact lasts (.replaced comes)
      cases other with
      | nothing | foreign =>
          show Books.carry (if w.there q then _ else _) p = p
          split
          · exact if_neg (apart nofun)
          · rfl
      | fresh =>
          show Books.carry (if w.there q && w.affords then _ else _) p = p
          split
          · next comes => exact if_neg (apart fun _ => (Bool.and_eq_true_iff.1 comes).2)
          · rfl
  | request step =>
      cases step with
      | options c text => rfl
      | call call =>
          cases call with
          | newContext type =>
              show Books.carry (if w.grants type then _ else _) p = p
              split
              · exact if_neg old
              · rfl
          | mount name options =>
              show Books.carry (if (w.findType name).any w.grants then _ else _) p = p
              split
              · have begun : (Books.Entry.allot (.context w.contexts.nextId)).carry p = p :=
                  if_neg old
                show Books.carry [_] (Books.Entry.carry _ p) = p
                rw [begun]
                split
                · exact (if_neg (ne_nextInstance backed)).trans (if_neg old)
                · exact if_neg old
              · rfl
          | makeTree c => exact carry_planting s backed lasts
          | dropContext c =>
              refine carry_leavings.trans (if_neg fun mem => ?_)
              rcases mem_leavings.1 mem with own | untaken
              · cases own
                exact lasts .dropped
              · obtain ⟨i, made, goes, closes⟩ := mem_untaken.1 untaken
                obtain ⟨y, found, made⟩ := Option.bind_eq_some_iff.1 made
                cases closes
                exact lasts (.untaken found made goes)
          | deactivate i =>
              show Books.carry (if w.tearsDown i then _ else _) p = p
              split
              · next tears =>
                  refine if_neg ?_
                  rintro rfl
                  exact lasts (.tornDown tears)
              · rfl
          | drop ref =>
              cases ref with
              | node | binding => rfl
              | inst i =>
                  show Books.carry (if World.Owned _ (.inst i) then _ else _) p = p
                  split
                  · rfl
                  · next alone =>
                      refine if_neg ?_
                      rintro rfl
                      exact lasts (.letGo alone)
          | _ => rfl

/-! ## What a deed may enter -/

theorem departs_planting {e : Books.Entry} (mem : e ∈ w.planting c) : e.Departs := by
  unfold planting at mem
  split at mem
  · cases mem
  · split at mem
    · rw [List.mem_singleton.1 mem]
      exact Place.noConfusion
    · rcases List.mem_cons.1 mem with rfl | mem
      · trivial
      · obtain ⟨i, -, rfl⟩ := List.mem_map.1 mem
        exact Place.noConfusion

variable (w deed) in
/-- A configuration is allocated in a deed and may depart again, or a device is attached, or
configurations depart. -/
theorem entries_cases :
    (w.begins deed = none ∧ deed.attaches = none ∧ ∀ e ∈ w.entries deed, e.Departs) ∨
    (∃ p departures, p ≠ .nowhere ∧ w.entries deed = .allot p :: departures ∧
      (∀ e ∈ departures, e.Departs) ∧ w.begins deed = some (Books.carry departures p) ∧
        deed.attaches = none) ∨
    ∃ p sort device, p ≠ .nowhere ∧ w.entries deed = [.attach p sort device] ∧
      w.begins deed = none ∧ deed.attaches = some (p, sort, device) := by
  cases deed with
  | dissolve i =>
      refine .inl ⟨rfl, rfl, fun e mem => ?_⟩
      rw [List.mem_singleton.1 mem]
      exact Place.noConfusion
  | displace p other =>
      have sited : w.there p = true → p ≠ .nowhere := by
        rintro there rfl
        cases there
      cases other with
      | nothing | foreign =>
          refine .inl ⟨rfl, rfl, fun e mem => ?_⟩
          obtain ⟨there, mem⟩ := List.mem_ite_nil_right.1 mem
          rw [List.mem_singleton.1 mem]
          exact sited there
      | fresh =>
          unfold entries begins displacing
          simp only
          split
          · next comes =>
              refine .inr (.inl ⟨p, [], sited (Bool.and_eq_true_iff.1 comes).1, rfl, ?_, rfl, rfl⟩)
              exact List.forall_mem_nil _
          · exact .inl ⟨rfl, rfl, List.forall_mem_nil _⟩
  | request step =>
      cases step with
      | options c text => exact .inl ⟨rfl, rfl, List.forall_mem_nil _⟩
      | call call =>
          cases call with
          | newContext type =>
              unfold entries begins opening
              simp only
              split
              · exact .inr (.inl ⟨_, [], Place.noConfusion, rfl, List.forall_mem_nil _, rfl, rfl⟩)
              · exact .inl ⟨rfl, rfl, List.forall_mem_nil _⟩
          | mount name options =>
              have moved : (Books.Entry.move w.contexts.nextId w.instances.nextId).carry
                  (.context w.contexts.nextId) = .inst w.instances.nextId := by
                simp [Books.Entry.carry]
              unfold entries begins mounting
              simp only
              split
              · refine .inr (.inl ⟨_, _, Place.noConfusion, rfl, fun e mem => ?_, ?_, rfl⟩)
                · rw [List.mem_singleton.1 mem]
                  split
                  · trivial
                  · exact Place.noConfusion
                · refine congrArg some ?_
                  show _ = Books.Entry.carry _ _
                  cases Action.mount name options w with
                  | ok i v => exact moved.symm
                  | error e v => exact (if_pos rfl).symm
              · exact .inl ⟨rfl, rfl, List.forall_mem_nil _⟩
          | makeTree c => exact .inl ⟨rfl, rfl, fun _ => departs_planting⟩
          | dropContext c =>
              refine .inl ⟨rfl, rfl, fun e mem => ?_⟩
              obtain ⟨q, rfl, place⟩ := closes_leavings mem
              exact place
          | deactivate i =>
              refine .inl ⟨rfl, rfl, fun e mem => ?_⟩
              obtain ⟨-, mem⟩ := List.mem_ite_nil_right.1 mem
              rw [List.mem_singleton.1 mem]
              exact Place.noConfusion
          | drop ref =>
              cases ref with
              | node | binding => exact .inl ⟨rfl, rfl, List.forall_mem_nil _⟩
              | inst i =>
                  refine .inl ⟨rfl, rfl, fun e mem => ?_⟩
                  obtain ⟨-, mem⟩ := List.mem_ite_nil_left.1 mem
                  rw [List.mem_singleton.1 mem]
                  exact Place.noConfusion
          | attachToContext c sort device =>
              exact .inr (.inr ⟨_, sort, device, Place.noConfusion, rfl, rfl, rfl⟩)
          | attachToInstance i sort device =>
              exact .inr (.inr ⟨_, sort, device, Place.noConfusion, rfl, rfl, rfl⟩)
          | _ => exact .inl ⟨rfl, rfl, List.forall_mem_nil _⟩

end World

end Memfs
