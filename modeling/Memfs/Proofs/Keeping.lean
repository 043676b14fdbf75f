import Memfs.Proofs.Failure

/-!
# What holds where an operation ends

Some properties of a world outlive an operation whether it fails or not. `Ends P x w`
says that `P` holds in the world that the operation `x` leads to from `w`, in both cases.
It is put together along the operation: every step keeps the property, so the whole
does, and what a step has seen of the world on its way may be used by the next one.
-/

namespace Memfs.Action

open World

variable {α β : Type} {P : World → Prop} {w : World}

/-- Whether the operation fails or not, it ends in a world with the property. -/
structure Ends (P : World → Prop) (x : Action α) (w : World) : Prop where
  ok : ∀ {a w'}, x w = .ok a w' → P w'
  error : ∀ {e w'}, x w = .error e w' → P w'

namespace Ends

theorem of_reads {x : Action α} (p : P w) (hx : Reads x) : Ends P x w where
  ok h := by
    rw [hx.ok h]
    exact p
  error h := by
    rw [hx.error h]
    exact p

theorem mono {Q : World → Prop} {x : Action α} (hx : Ends P x w) (h : ∀ v, P v → Q v) :
    Ends Q x w :=
  ⟨fun hv => h _ (hx.ok hv), fun hv => h _ (hx.error hv)⟩

theorem and {Q : World → Prop} {x : Action α} (hP : Ends P x w) (hQ : Ends Q x w) :
    Ends (fun v => P v ∧ Q v) x w where
  ok h := ⟨hP.ok h, hQ.ok h⟩
  error h := ⟨hP.error h, hQ.error h⟩

/-- The first part need not end with the property if the second one restores it. -/
theorem seq {x : Action α} {k : α → Action β} (error : ∀ e v, x w = .error e v → P v)
    (hk : ∀ a v, x w = .ok a v → Ends P (k a) v) : Ends P (x >>= k) w where
  ok h := by
    obtain ⟨a, mid, ha, hb⟩ := bind_eq_ok.1 h
    exact (hk a mid ha).ok hb
  error h := by
    rcases bind_eq_error.1 h with h | ⟨a, mid, ha, h⟩
    · exact error _ _ h
    · exact (hk a mid ha).error h

theorem bind {x : Action α} {k : α → Action β} (hx : Ends P x w)
    (hk : ∀ a v, x w = .ok a v → P v → Ends P (k a) v) : Ends P (x >>= k) w :=
  seq (fun _ _ h => hx.error h) fun a v ha => hk a v ha (hx.ok ha)

/-- Nor need a dealing with the host. -/
theorem seq_onHost {f : Host → α × Host} {k : α → Action β}
    (hk : Ends P (k (f w.host).1) { w with host := (f w.host).2 }) :
    Ends P (onHost f >>= k) w :=
  seq (fun _ _ failed => absurd failed onHost_eq_error) fun a v done => by
    obtain ⟨rfl, rfl⟩ := onHost_eq_ok.1 done
    exact hk

/-- Nothing follows a failure. -/
theorem stop (p : P w) {cause : Error} {k : α → Action β} : Ends P (throw cause >>= k) w :=
  bind (of_reads p (.throw cause)) fun _ _ done _ => absurd done throw_eq_ok

/-- The operation goes on in the same world behind a part that only looks. -/
theorem read {x : Action α} {k : α → Action β} (p : P w) (hx : Reads x)
    (hk : ∀ a, x w = .ok a w → Ends P (k a) w) : Ends P (x >>= k) w := by
  refine bind (of_reads p hx) fun a v ha _ => ?_
  have same := hx.ok ha
  subst same
  exact hk a ha

theorem ite {c : Prop} [Decidable c] {x y : Action α} (hx : c → Ends P x w)
    (hy : ¬ c → Ends P y w) : Ends P (if c then x else y) w := by
  split
  · next h => exact hx h
  · next h => exact hy h

theorem pure (p : P w) (a : α) : Ends P (pure a : Action α) w := of_reads p (.pure a)

theorem throw (p : P w) (cause : Error) : Ends P (throw cause : Action α) w :=
  of_reads p (.throw cause)

theorem modify {f : World → World} (p : P (f w)) : Ends P (modify f : Action Unit) w where
  ok h := by
    rw [← modify_eq_ok.1 h]
    exact p
  error h := absurd h modify_eq_error

theorem total {f : World → α × World} (p : P (f w).2) : Ends P (total f) w where
  ok h := by
    rw [← (total_eq_ok.1 h).2]
    exact p
  error h := absurd h total_eq_error

theorem onFailure {x : Action α} {undo : Error → World → World}
    (ok : ∀ {a v}, x w = .ok a v → P v) (undone : ∀ {e v}, x w = .error e v → P (undo e v)) :
    Ends P (x.onFailure undo) w where
  ok h := ok (onFailure_eq_ok.1 h)
  error h := by
    obtain ⟨mid, failed, rfl⟩ := onFailure_eq_error.1 h
    exact undone failed

theorem forM {x : α → Action Unit} (hx : ∀ a v, P v → Ends P (x a) v) :
    ∀ (list : List α) {w : World}, P w → Ends P (list.forM x) w
  | [], _, p => .pure p _
  | a :: rest, _, p => .bind (hx a _ p) fun _ _ _ q => forM hx rest q

end Ends

end Memfs.Action
