import Memfs.Mount.Registry

/-!
# Reading an operation backwards

An operation is a chain of steps, each of which fails or hands the world on. The
lemmas here take such a chain apart: what it means for the whole that it ended in
`ok`, and what it means that it ended in `error`. With them the outcome of an
operation turns into the list of tests that it passed and the changes it made, and
no proof after this file looks at a `do` block again.
-/

namespace Memfs.Action

variable {α β : Type} {w w' : World} {a : α} {e cause : Error}

@[simp]
theorem bind_eq_ok {x : Action α} {f : α → Action β} {b : β} :
    (x >>= f) w = .ok b w' ↔ ∃ a mid, x w = .ok a mid ∧ f a mid = .ok b w' := by
  show EStateM.bind x f w = _ ↔ _
  unfold EStateM.bind
  cases x w with
  | ok a mid => simp [and_assoc]
  | error e mid => simp

@[simp]
theorem bind_eq_error {x : Action α} {f : α → Action β} :
    (x >>= f) w = .error e w' ↔
      x w = .error e w' ∨ ∃ a mid, x w = .ok a mid ∧ f a mid = .error e w' := by
  show EStateM.bind x f w = _ ↔ _
  unfold EStateM.bind
  cases x w with
  | ok a mid => simp [and_assoc]
  | error e mid => simp

/-- Behind a part whose outcome is known, the operation goes on from there. -/
theorem bind_of_ok {x : Action α} {f : α → Action β} (h : x w = .ok a w') :
    (x >>= f) w = f a w' := by
  show EStateM.bind x f w = _
  unfold EStateM.bind
  rw [h]

theorem bind_of_error {x : Action α} {f : α → Action β} (h : x w = .error e w') :
    (x >>= f) w = .error e w' := by
  show EStateM.bind x f w = _
  unfold EStateM.bind
  rw [h]

@[simp]
theorem pure_eq_ok {b : α} : (pure b : Action α) w = .ok a w' ↔ b = a ∧ w = w' := by
  show EStateM.Result.ok b w = _ ↔ _
  simp

@[simp]
theorem pure_eq_error {b : α} : ¬ (pure b : Action α) w = .error e w' := by
  show ¬ EStateM.Result.ok b w = _
  simp

@[simp]
theorem map_eq_ok {x : Action α} {f : α → β} {b : β} :
    (f <$> x) w = .ok b w' ↔ ∃ a, x w = .ok a w' ∧ f a = b := by
  show EStateM.map f x w = _ ↔ _
  unfold EStateM.map
  cases x w with
  | ok a mid =>
      simp only [EStateM.Result.ok.injEq]
      constructor
      · rintro ⟨h, e⟩
        exact ⟨a, ⟨rfl, e⟩, h⟩
      · rintro ⟨_, ⟨rfl, e⟩, h⟩
        exact ⟨h, e⟩
  | error e mid => simp

@[simp]
theorem map_eq_error {x : Action α} {f : α → β} :
    (f <$> x) w = .error e w' ↔ x w = .error e w' := by
  show EStateM.map f x w = _ ↔ _
  unfold EStateM.map
  cases x w with
  | ok a mid => simp
  | error e mid => simp

@[simp]
theorem throw_eq_ok : ¬ (throw cause : Action α) w = .ok a w' := by
  show ¬ EStateM.Result.error cause w = _
  simp

@[simp]
theorem throw_eq_error : (throw cause : Action α) w = .error e w' ↔ cause = e ∧ w = w' := by
  show EStateM.Result.error cause w = _ ↔ _
  simp

@[simp]
theorem get_eq_ok {s : World} : (get : Action World) w = .ok s w' ↔ w = s ∧ w = w' := by
  show EStateM.Result.ok w w = _ ↔ _
  simp

@[simp]
theorem get_eq_error : ¬ (get : Action World) w = .error e w' := by
  show ¬ EStateM.Result.ok w w = _
  simp

@[simp]
theorem modify_eq_ok {f : World → World} {u : Unit} :
    (modify f : Action Unit) w = .ok u w' ↔ f w = w' := by
  show EStateM.Result.ok () (f w) = _ ↔ _
  simp

@[simp]
theorem modify_eq_error {f : World → World} : ¬ (modify f : Action Unit) w = .error e w' := by
  show ¬ EStateM.Result.ok () (f w) = _
  simp

@[simp]
theorem total_eq_ok {f : World → α × World} :
    total f w = .ok a w' ↔ (f w).1 = a ∧ (f w).2 = w' := by
  show EStateM.Result.ok (f w).1 (f w).2 = _ ↔ _
  simp

@[simp]
theorem total_eq_error {f : World → α × World} : ¬ total f w = .error e w' := by
  show ¬ EStateM.Result.ok (f w).1 (f w).2 = _
  simp

@[simp]
theorem onHost_eq_ok {f : Host → α × Host} :
    onHost f w = .ok a w' ↔ (f w.host).1 = a ∧ { w with host := (f w.host).2 } = w' :=
  total_eq_ok

@[simp]
theorem onHost_eq_error {f : Host → α × Host} : ¬ onHost f w = .error e w' :=
  total_eq_error

@[simp]
theorem now_eq_ok {n : NodeId} {time : Timestamp} :
    now n w = .ok time w' ↔ (w.now n).1 = time ∧ (w.now n).2 = w' :=
  total_eq_ok

@[simp]
theorem now_eq_error {n : NodeId} : ¬ now n w = .error e w' :=
  total_eq_error

@[simp]
theorem note_eq_ok {notice : Notice} {u : Unit} :
    note notice w = .ok u w' ↔ w.note notice = w' :=
  modify_eq_ok

@[simp]
theorem note_eq_error {notice : Notice} : ¬ note notice w = .error e w' :=
  modify_eq_error

@[simp]
theorem letGo_eq_ok {ref : Ref} {u : Unit} :
    letGo ref w = .ok u w' ↔ w.settle [.letGo ref] = w' :=
  modify_eq_ok

@[simp]
theorem letGo_eq_error {ref : Ref} : ¬ letGo ref w = .error e w' :=
  modify_eq_error

@[simp]
theorem test_eq_ok {f : World → Except Error α} :
    test f w = .ok a w' ↔ f w = .ok a ∧ w = w' := by
  unfold test
  cases f w with
  | ok a => simp
  | error e => simp

@[simp]
theorem test_eq_error {f : World → Except Error α} :
    test f w = .error e w' ↔ f w = .error e ∧ w = w' := by
  unfold test
  cases f w with
  | ok a => simp
  | error e => simp

@[simp]
theorem require_eq_ok {value : Option α} :
    require cause value w = .ok a w' ↔ value = some a ∧ w = w' := by
  cases value with
  | none => simp [require]
  | some b => simp [require]

@[simp]
theorem require_eq_error {value : Option α} :
    require cause value w = .error e w' ↔ value = none ∧ cause = e ∧ w = w' := by
  cases value with
  | none => simp [require]
  | some b => simp [require]

@[simp]
theorem ite_eq_ok {c : Prop} [Decidable c] {x y : Action α} :
    (if c then x else y) w = .ok a w' ↔
      (c ∧ x w = .ok a w') ∨ (¬ c ∧ y w = .ok a w') := by
  by_cases h : c
  · simp [h]
  · simp [h]

@[simp]
theorem ite_eq_error {c : Prop} [Decidable c] {x y : Action α} :
    (if c then x else y) w = .error e w' ↔
      (c ∧ x w = .error e w') ∨ (¬ c ∧ y w = .error e w') := by
  by_cases h : c
  · simp [h]
  · simp [h]

@[simp]
theorem onFailure_eq_ok {x : Action α} {undo : Error → World → World} :
    x.onFailure undo w = .ok a w' ↔ x w = .ok a w' := by
  unfold onFailure
  cases x w with
  | ok a mid => simp
  | error e mid => simp

@[simp]
theorem onFailure_eq_error {x : Action α} {undo : Error → World → World} :
    x.onFailure undo w = .error e w' ↔ ∃ mid, x w = .error e mid ∧ undo e mid = w' := by
  unfold onFailure
  cases x w with
  | ok a mid => simp
  | error cause mid =>
      simp only [EStateM.Result.error.injEq]
      constructor
      · rintro ⟨rfl, h⟩
        exact ⟨mid, ⟨rfl, rfl⟩, h⟩
      · rintro ⟨_, ⟨rfl, rfl⟩, h⟩
        exact ⟨rfl, h⟩

@[simp]
theorem orLetGo_eq_ok {x : Action α} {ref : Ref} :
    x.orLetGo ref w = .ok a w' ↔ x w = .ok a w' :=
  onFailure_eq_ok

@[simp]
theorem orLetGo_eq_error {x : Action α} {ref : Ref} :
    x.orLetGo ref w = .error e w' ↔
      ∃ mid, x w = .error e mid ∧ mid.settle [.letGo ref] = w' :=
  onFailure_eq_error

@[simp]
theorem tryCatch_eq_ok {x : Action α} {handler : Error → Action α} :
    (tryCatch x handler) w = .ok a w' ↔
      x w = .ok a w' ∨ ∃ e mid, x w = .error e mid ∧ handler e mid = .ok a w' := by
  show EStateM.tryCatch x handler w = _ ↔ _
  unfold EStateM.tryCatch
  cases x w with
  | ok a mid => simp
  | error cause mid =>
      constructor
      · intro h
        exact .inr ⟨cause, mid, rfl, h⟩
      · intro h
        obtain h | ⟨_, _, h, handled⟩ := h
        · cases h
        · cases h
          exact handled

@[simp]
theorem tryCatch_eq_error {x : Action α} {handler : Error → Action α} :
    (tryCatch x handler) w = .error e w' ↔
      ∃ cause mid, x w = .error cause mid ∧ handler cause mid = .error e w' := by
  show EStateM.tryCatch x handler w = _ ↔ _
  unfold EStateM.tryCatch
  cases x w with
  | ok a mid => simp
  | error cause mid =>
      constructor
      · intro h
        exact ⟨cause, mid, rfl, h⟩
      · intro h
        obtain ⟨_, _, h, handled⟩ := h
        cases h
        exact handled

end Memfs.Action
