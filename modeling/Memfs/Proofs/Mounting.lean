import Memfs.Proofs.Effects.Mounts

/-!
# Mounts in their order

A mount begins a context, gives it options, asks it for its tree, hands out the instance and
ends the context, whatever has failed in between. What holds where a mount ends therefore
comes from its steps alone, and the lemmas here go through these steps once and for all.

A property need not be kept by every step. Between the first and the last one another property
may stand for it, which the end of the context turns back into the first
(`Ends.mountType_seq`).
-/

namespace Memfs

open World

namespace Action

variable {P : World → Prop} {w : World} {c : ContextId} {type : FilesystemType}
  {name options : String} {done : InstanceId → World → World}

/-- A mount of a registered type. What has come about is told in the end. -/
theorem mount_of_found (found : w.findType name = some type) :
    mount name options w = mountType type options
      (fun i v => v.note (.mounted name (((v.instances.get? i).bind (·.source)).getD "none")))
      w := by
  unfold mount
  rw [bind_of_ok (get_eq_ok.2 ⟨rfl, rfl⟩), bind_of_ok (require_eq_ok.2 ⟨found, rfl⟩)]

theorem mount_of_absent (absent : w.findType name = none) :
    mount name options w = .error .noDevice w := by
  unfold mount
  rw [bind_of_ok (get_eq_ok.2 ⟨rfl, rfl⟩),
    bind_of_error (require_eq_error.2 ⟨absent, rfl, rfl⟩)]

/-- The steps of a mount that comes about. -/
theorem mountType_ok {v : World} {i : InstanceId} (h : mountType type options done w = .ok i v) :
    ∃ c u₁ u₂ u₃, newContext type w = .ok c u₁ ∧ applyOptions c options u₁ = .ok () u₂ ∧
      makeTree c u₂ = .ok () u₃ ∧ (u₃.takeInstance c).1 = some i ∧
        v = (done i (u₃.takeInstance c).2).dropContext c := by
  simp only [mountType, bind_eq_ok, onFailure_eq_ok, total_eq_ok, require_eq_ok, modify_eq_ok,
    pure_eq_ok] at h
  obtain ⟨c, u₁, begun, _, _, ⟨⟨⟩, u₂, applied, ⟨⟩, u₃, made, _, _, ⟨rfl, rfl⟩, _, _, ⟨taken, rfl⟩,
    _, _, rfl, rfl, rfl⟩, _, _, rfl, rfl, rfl⟩ := h
  exact ⟨c, u₁, u₂, u₃, begun, applied, made, taken, rfl⟩

/-- A mount that does not come about ends its context, if that had begun. -/
theorem mountType_error {v : World} {e : Error}
    (h : mountType type options done w = .error e v) : newContext type w = .error e v ∨
      ∃ c u₁ u, newContext type w = .ok c u₁ ∧ v = u.dropContext c ∧
        (applyOptions c options u₁ = .error e u ∨ ∃ u₂, applyOptions c options u₁ = .ok () u₂ ∧
          (makeTree c u₂ = .error e u ∨ ∃ u₃, makeTree c u₂ = .ok () u₃ ∧
            (u₃.takeInstance c).1 = none ∧ u = (u₃.takeInstance c).2)) := by
  simp only [mountType, bind_eq_error, onFailure_eq_error, total_eq_error, total_eq_ok,
    require_eq_error, require_eq_ok, modify_eq_error, pure_eq_error, false_or, and_false,
    exists_false, or_false] at h
  rcases h with failed | ⟨c, u₁, begun, u, attempt, rfl⟩
  · exact .inl failed
  · refine .inr ⟨c, u₁, u, begun, rfl, ?_⟩
    rcases attempt with failed | ⟨⟨⟩, u₂, applied, failed | ⟨⟨⟩, u₃, made, _, _, ⟨rfl, rfl⟩, untaken,
      -, rfl⟩⟩
    · exact .inl failed
    · exact .inr ⟨u₂, applied, .inl failed⟩
    · exact .inr ⟨u₂, applied, .inr ⟨u₃, made, untaken, rfl⟩⟩

namespace Ends

/-- A context begins. It may have to be paid for. -/
theorem newContext (h : P w)
    (paid : ∀ {granted host}, w.host.acquire .config = (granted, host) → P { w with host })
    (pushed : ∀ {v : World} {x : Context}, P v →
      P { v with contexts := v.contexts.push x }) : Ends P (Action.newContext type) w where
  ok begun := by
    obtain ⟨-, ⟨-, rfl⟩ | ⟨-, host, acquired, rfl⟩⟩ := newContext_ok begun
    · exact pushed h
    · exact pushed (paid acquired)
  error failed := by
    obtain ⟨-, rfl⟩ | ⟨-, -, host, refused, rfl⟩ := newContext_error failed
    · exact h
    · exact paid refused

/-- A tree is made if there was none, and it is told if there is none then. -/
theorem makeTree (h : P w)
    (made : ∀ {x ops}, w.contexts.get? c = some x → x.type.ops = some ops →
      Ends P (makeInstance c ops.filling) w)
    (noted : ∀ {v : World} {notice : Notice}, notice.Calm → P v → P (v.note notice)) :
    Ends P (Action.makeTree c) w := by
  refine .read h (reads_context c) fun x hx => .ite (fun _ => .stop h) fun _ =>
    .read h (.require _ _) fun ops asked =>
    .bind (made (context_eq_ok.1 hx).1 (require_eq_ok.1 asked).1) fun _ _ _ h =>
    .read h (reads_context c) fun _ _ => .ite (fun _ => ?_) fun _ => .pure h _
  exact .bind (.modify (noted ⟨rfl, rfl, rfl⟩ h)) fun _ _ _ h => .throw h _

/-- Between the beginning and the end of its context, a mount need not have the property. -/
theorem mountType_seq {M : ContextId → World → Prop}
    (refused : ∀ {e v}, Action.newContext type w = .error e v → P v)
    (tried : ∀ {c v}, Action.newContext type w = .ok c v → Ends (M c) (do
      applyOptions c options
      Action.makeTree c
      Action.total (·.takeInstance c)) v)
    (told : ∀ {c i v}, M c v → M c (done i v))
    (dropped : ∀ {c v}, M c v → P (v.dropContext c)) :
    Ends P (Action.mountType type options done) w := by
  refine .seq (fun _ _ => refused) fun c v begun => ?_
  have attempt := Ends.bind (tried begun) fun taken _ _ h =>
    .read h (.require .invalidArgument taken) fun i _ =>
    .bind (.modify (told h : M c (done i _))) fun _ _ _ h => .pure h i
  rw [bind_assoc, bind_assoc] at attempt
  refine .seq (fun e u failed => ?_) fun i u reached => ?_
  · obtain ⟨mid, unmounted, rfl⟩ := onFailure_eq_error.1 failed
    exact dropped (attempt.error unmounted)
  · exact .bind (.modify (dropped (attempt.ok (onFailure_eq_ok.1 reached))))
      fun _ _ _ h => .pure h i

/-- What each step of a mount keeps, the mount keeps. -/
theorem mountType (begun : Ends P (Action.newContext type) w)
    (applied : ∀ {c v}, P v → Ends P (applyOptions c options) v)
    (made : ∀ {c v}, P v → Ends P (Action.makeTree c) v)
    (taken : ∀ {c v}, P v → P (World.takeInstance v c).2)
    (told : ∀ {i v}, P v → P (done i v))
    (dropped : ∀ {c v}, P v → P (World.dropContext v c)) :
    Ends P (Action.mountType type options done) w :=
  mountType_seq begun.error (fun opened => .bind (applied (begun.ok opened)) fun _ _ _ h =>
    .bind (made h) fun _ _ _ h => .total (taken h)) told dropped

/-- There is nothing to mount if the type is not registered. -/
theorem mount (h : P w) (mounted : ∀ type, w.findType name = some type →
    Ends P (Action.mountType type options fun i v =>
      v.note (.mounted name (((v.instances.get? i).bind (·.source)).getD "none"))) w) :
    Ends P (Action.mount name options) w := by
  cases found : w.findType name with
  | none =>
      have failed : Action.mount name options w = .error .noDevice w := mount_of_absent found
      refine ⟨fun done => ?_, fun done => ?_⟩
      · cases failed.symm.trans done
      · cases failed.symm.trans done
        exact h
  | some type =>
      refine ⟨fun done => ?_, fun done => ?_⟩
      · exact (mounted type found).ok ((mount_of_found found).symm.trans done)
      · exact (mounted type found).error ((mount_of_found found).symm.trans done)

end Ends

end Action

/-! ## What a context leaves -/

/-- `P` is kept by each step in which a context gives away or gives back what it has. -/
structure Leaving (P : World → Prop) : Prop where
  noted : ∀ {w : World} {notice : Notice}, notice.Calm → P w → P (w.note notice)
  contexts : ∀ {w : World} {contexts : Table Context}, P w → P { w with contexts }
  held : ∀ {w : World} {ref : Ref}, P w → P (w.hold ref)
  settled : ∀ {w : World} {tasks : List Task}, P w → P (w.settle tasks)
  deactivated : ∀ {w : World} {i : InstanceId}, P w → P (w.deactivate i)

namespace Leaving

variable {P : World → Prop} {w : World} {c : ContextId}

theorem takeInstance (p : Leaving P) (h : P w) : P (w.takeInstance c).2 := by
  unfold World.takeInstance
  cases w.contexts.get? c with
  | none => exact h
  | some x =>
      refine p.settled ?_
      cases x.made with
      | none => exact p.contexts h
      | some i => exact p.held (p.contexts h)

theorem freeData (p : Leaving P) (h : P w) : P (w.freeData c) := by
  unfold World.freeData
  cases w.contexts.get? c with
  | none => exact h
  | some x =>
      simp only
      split
      · cases x.data with
        | none => exact h
        | some data => exact p.settled (p.contexts (p.noted ⟨rfl, rfl, rfl⟩ h))
      · exact h

theorem dropContext (p : Leaving P) (h : P w) : P (w.dropContext c) := by
  unfold World.dropContext
  simp only
  have h : P (w.freeData c) := p.freeData h
  generalize w.freeData c = v at *
  cases v.contexts.get? c with
  | none => exact h
  | some x =>
      refine p.settled (p.contexts ?_)
      cases x.made with
      | none => exact h
      | some i => exact p.settled (p.contexts (p.deactivated (p.settled (p.contexts h))))

end Leaving

end Memfs
