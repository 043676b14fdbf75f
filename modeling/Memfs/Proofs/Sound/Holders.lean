import Memfs.Mount.Registry
import Memfs.Proofs.Sound

/-!
# A world in order: files, mounts and callers

The owners that are not bindings, and then the work of letting go as a whole. A file
or a context may change in any way, so its lemma asks for the object before and after
and for nothing in between.
-/

namespace Memfs

namespace Sound

open World

variable {w : World} {todo todo' : List Task} {ref : Ref}

/-- What the ledger and the forest do not depend on. -/
theorem of_tended (s : Sound w todo) {files : Table OpenFile} {held : List Ref}
    (tended : Tended { w with files, held } todo')
    (configs : waitingConfigs todo' = waitingConfigs todo) : Sound { w with files, held } todo' where
  tended := tended
  charged := ⟨s.charged.nodes, s.charged.bindings, s.charged.pages, by
    rw [configs]
    exact s.charged.configs⟩
  forest := s.forest.of_bindings_eq rfl fun _ _ _ => rfl

/-! ## Files -/

theorem changeFile (s : Sound w todo) {files : Table OpenFile} {f : FileId}
    (others : ∀ g, g ≠ f → files.get? g = w.files.get? g)
    (gained : ∀ x ref, files.get? f = some x → x.Owns ref → w.Has ref)
    (lost : ∀ x ref, w.files.get? f = some x → x.Owns ref →
      (∃ y, files.get? f = some y ∧ y.Owns ref) ∨ .letGo ref ∈ todo')
    (done : ∀ ref, .letGo ref ∈ todo →
      (∃ y, files.get? f = some y ∧ y.Owns ref) ∨ .letGo ref ∈ todo')
    (configs : waitingConfigs todo' = waitingConfigs todo) : Sound { w with files } todo' :=
  s.of_tended
    (s.tended.change (o := .file f) (fun ref => by cases ref <;> exact Iff.rfl)
      (fun ref holder hne => by
        cases holder with
        | file g =>
            have hg : g ≠ f := fun e => hne (e ▸ rfl)
            simp only [Owner, others g hg]
        | _ => exact Iff.rfl)
      (fun ref ⟨x, hx, h⟩ => gained x ref hx h)
      (fun ref ⟨x, hx, h⟩ => lost x ref hx h)
      done)
    configs

/-- A new file owns what waited for an owner. -/
theorem pushFile (s : Sound w todo) {file : OpenFile} (gained : ∀ ref, file.Owns ref → w.Has ref)
    (done : ∀ ref, .letGo ref ∈ todo → file.Owns ref ∨ .letGo ref ∈ todo')
    (configs : waitingConfigs todo' = waitingConfigs todo) :
    Sound { w with files := w.files.push file } todo' := by
  refine s.changeFile (f := w.files.nextId) (fun g hg => Table.get?_push_of_ne hg)
    (fun x ref hx h => ?_) (fun x ref hx => ?_) (fun ref h => ?_) configs
  · rw [Table.get?_push_self] at hx
    cases hx
    exact gained ref h
  · rw [Table.get?_nextId] at hx
    cases hx
  · exact (done ref h).imp (fun h => ⟨file, Table.get?_push_self, h⟩) id

/-- A file ends and lets go of its binding and its node. -/
theorem eraseFile (s : Sound w todo) {file : OpenFile} {f : FileId}
    (hf : w.files.get? f = some file) :
    Sound { w with files := w.files.erase f }
      ((.letGo (.binding file.binding) :: file.node.toList.map fun n => .letGo (.node n))
        ++ todo) := by
  refine s.changeFile (f := f) (fun g hg => by rw [Table.get?_erase, if_neg hg])
    (fun x ref hx => ?_) (fun x ref hx h => .inr (List.mem_append_left _ ?_))
    (fun ref h => .inr (List.mem_append_right _ h)) ?_
  · rw [Table.get?_erase, if_pos rfl] at hx
    cases hx
  · cases hf.symm.trans hx
    cases ref with
    | node n => simp [show file.node = some n from h]
    | binding b => simp [show file.binding = b from h]
    | inst i => exact h.elim
  · rw [waitingConfigs_append]
    cases file.node with
    | none => simp [Task.configs]
    | some n => simp [Task.configs]

/-- A file changes, and keeps what it owns. -/
theorem modifyFile (s : Sound w todo) {f : FileId} {g : OpenFile → OpenFile}
    (gained : ∀ x ref, w.files.get? f = some x → (g x).Owns ref → w.Has ref)
    (kept : ∀ x ref, w.files.get? f = some x → x.Owns ref → (g x).Owns ref) :
    Sound (w.modifyFile f g) todo := by
  have here : ∀ x, (w.files.modify f g).get? f = some x ↔
      ∃ y, w.files.get? f = some y ∧ g y = x := fun x => by
    rw [Table.get?_modify, if_pos rfl, Option.map_eq_some_iff]
  refine s.changeFile (f := f) (fun k hk => by rw [Table.get?_modify, if_neg hk])
    (fun x ref hx h => ?_) (fun x ref hx h => .inl ?_) (fun _ h => .inr h) rfl
  · obtain ⟨y, hy, rfl⟩ := (here x).1 hx
    exact gained y ref hy h
  · exact ⟨g x, (here _).2 ⟨x, hx, rfl⟩, kept x ref hx h⟩

/-! ## Callers -/

theorem hold (s : Sound w (.letGo ref :: todo)) (there : w.Has ref) : Sound (w.hold ref) todo :=
  s.of_tended
    (s.tended.change (o := .caller) (fun ref => by cases ref <;> exact Iff.rfl)
      (fun other holder hne => by
        cases holder with
        | caller => exact absurd rfl hne
        | _ => exact Iff.rfl)
      (fun other h => by
        rcases List.mem_cons.1 h with rfl | h
        · exact there
        · exact s.tended.there (owned_of_held h))
      (fun other h => .inl (List.mem_cons_of_mem _ h))
      (fun other h => by
        rcases List.mem_cons.1 h with e | h
        · cases e
          exact .inl List.mem_cons_self
        · exact .inr h))
    (by simp [Task.configs])

theorem unhold (s : Sound w todo) (ref : Ref) :
    Sound { w with held := w.held.erase ref } (.letGo ref :: todo) :=
  s.of_tended
    (s.tended.change (o := .caller) (fun ref => by cases ref <;> exact Iff.rfl)
      (fun other holder hne => by
        cases holder with
        | caller => exact absurd rfl hne
        | _ => exact Iff.rfl)
      (fun other h => s.tended.there (owned_of_held (List.mem_of_mem_erase h)))
      (fun other h => by
        by_cases e : other = ref
        · exact .inr (e ▸ List.mem_cons_self)
        · exact .inl ((List.mem_erase_of_ne e).2 h))
      (fun other h => .inr (List.mem_cons_of_mem _ h)))
    (by simp [Task.configs])

/-! ## Instances -/

/-- A new instance has neither a root nor data, and waits for an owner. -/
theorem pushInstance (s : Sound w todo) {inst : Instance} (noRoot : inst.root = none)
    (noData : inst.data = none) :
    Sound { w with instances := w.instances.push inst }
      (.letGo (.inst w.instances.nextId) :: todo) where
  tended := s.tended.push
    (fun ref => by
      cases ref with
      | inst i => simp [Has, Table.has_push]
      | _ => simp [Has])
    (fun ref holder => by
      cases holder with
      | inst i =>
          simp only [Owner, Table.get?_push]
          split
          · next e =>
              rw [e, Table.get?_nextId]
              cases ref with
              | binding b => simp [Instance.Owns, noRoot]
              | _ => simp [Instance.Owns]
          · exact Iff.rfl
      | _ => exact Iff.rfl)
  charged := ⟨s.charged.nodes, s.charged.bindings, s.charged.pages, by
    simpa [Table.sum_push, noData, PrivateData.configs, Task.configs] using s.charged.configs⟩
  forest := s.forest.of_bindings_eq rfl fun _ _ _ => rfl

theorem modifyInstance (s : Sound w todo) {i : InstanceId} {inst : Instance}
    {g : Instance → Instance} (hi : w.instances.get? i = some inst)
    (gained : ∀ b, (g inst).root = some b → w.bindings.has b = true)
    (lost : ∀ b, inst.root = some b → (g inst).root = some b ∨ .letGo (.binding b) ∈ todo')
    (done : ∀ ref, .letGo ref ∈ todo →
      (∃ b, ref = .binding b ∧ (g inst).root = some b) ∨ .letGo ref ∈ todo')
    (configs : PrivateData.configs (g inst).data + waitingConfigs todo'
      = PrivateData.configs inst.data + waitingConfigs todo) :
    Sound (w.modifyInstance i g) todo' where
  tended := by
    have here : ∀ ref, (w.modifyInstance i g).Owner ref (.inst i) ↔ (g inst).Owns ref := fun ref => by
      simp [Owner, World.modifyInstance, Table.get?_modify, hi]
    refine s.tended.change (o := .inst i)
      (fun ref => ?_) (fun ref holder hne => ?_) (fun ref h => ?_) (fun ref h => ?_)
      (fun ref waiting => ?_)
    · cases ref with
      | inst j => simp [Has, World.modifyInstance, Table.has_modify]
      | _ => exact Iff.rfl
    · cases holder with
      | inst j =>
          have hj : j ≠ i := fun e => hne (e ▸ rfl)
          simp only [Owner, World.modifyInstance, Table.get?_modify, if_neg hj]
      | _ => exact Iff.rfl
    · have h := (here ref).1 h
      cases ref with
      | binding b => exact gained b h
      | _ => exact h.elim
    · rw [here]
      obtain ⟨x, hx, h⟩ := h
      cases hi.symm.trans hx
      cases ref with
      | binding b => exact lost b h
      | _ => exact h.elim
    · rw [here]
      rcases done ref waiting with ⟨b, rfl, hroot⟩ | still
      · exact .inl hroot
      · exact .inr still
  charged := ⟨s.charged.nodes, s.charged.bindings, s.charged.pages, by
    have := w.instances.sum_modify (PrivateData.configs ·.data) g hi
    have := s.charged.configs
    simp only [World.modifyInstance]
    omega⟩
  forest := s.forest.of_bindings_eq rfl fun _ _ _ => rfl

/-- An instance that nobody owns is gone, and lets go of its root and its data. -/
theorem removeInstance {i : InstanceId} {inst : Instance} (s : Sound w (.letGo (.inst i) :: todo))
    (hi : w.instances.get? i = some inst) (free : ¬ w.Owned (.inst i)) :
    Sound (w.removeInstance i) (inst.owned ++ todo) where
  tended := s.tended.remove (.inst i) free
    (fun ref => by
      cases ref with
      | inst j => simp [Has, World.removeInstance, Table.has_erase, and_comm]
      | _ => simp [Has, World.removeInstance])
    (fun ref holder => by
      cases holder with
      | inst j =>
          simp only [Owner, World.removeInstance, Table.get?_erase]
          split
          · rintro ⟨y, hy, -⟩
            cases hy
          · exact id
      | _ => exact id)
    (fun ref holder h => by
      cases holder with
      | inst j =>
          by_cases e : j = i
          · subst e
            obtain ⟨x, hx, h⟩ := h
            cases hi.symm.trans hx
            refine .inr (List.mem_append_left _ ?_)
            cases ref with
            | binding b => simp [Instance.owned, show inst.root = some b from h]
            | _ => exact h.elim
          · simp only [Owner, World.removeInstance, Table.get?_erase, if_neg e]
            exact .inl h
      | _ => exact .inl h)
    (fun ref h => by
      rcases List.mem_cons.1 h with e | h
      · cases e
        exact .inl rfl
      · exact .inr (List.mem_append_right _ h))
  charged := ⟨s.charged.nodes, s.charged.bindings, s.charged.pages, by
    have := w.instances.sum_erase (PrivateData.configs ·.data) hi
    have := s.charged.configs
    simp only [World.removeInstance, waitingConfigs_append, Instance.waitingConfigs_owned]
    simp only [waitingConfigs_cons, Task.configs] at this
    omega⟩
  forest := s.forest.of_bindings_eq rfl fun _ _ _ => rfl

/-! ## Contexts -/

theorem changeContext (s : Sound w todo) {contexts : Table Context} {c : ContextId}
    (others : ∀ d, d ≠ c → contexts.get? d = w.contexts.get? d)
    (gained : ∀ x ref, contexts.get? c = some x → x.Owns ref → w.Has ref)
    (lost : ∀ x ref, w.contexts.get? c = some x → x.Owns ref →
      (∃ y, contexts.get? c = some y ∧ y.Owns ref) ∨ .letGo ref ∈ todo')
    (done : ∀ ref, .letGo ref ∈ todo →
      (∃ y, contexts.get? c = some y ∧ y.Owns ref) ∨ .letGo ref ∈ todo')
    (configs : contexts.sum (PrivateData.configs ·.data) + waitingConfigs todo'
      = w.contexts.sum (PrivateData.configs ·.data) + waitingConfigs todo) :
    Sound { w with contexts } todo' where
  tended := s.tended.change (o := .context c) (fun ref => by cases ref <;> exact Iff.rfl)
    (fun ref holder hne => by
      cases holder with
      | context d =>
          have hd : d ≠ c := fun e => hne (e ▸ rfl)
          simp only [Owner, others d hd]
      | _ => exact Iff.rfl)
    (fun ref ⟨x, hx, h⟩ => gained x ref hx h)
    (fun ref ⟨x, hx, h⟩ => lost x ref hx h)
    done
  charged := ⟨s.charged.nodes, s.charged.bindings, s.charged.pages, by
    have := s.charged.configs
    simp only
    omega⟩
  forest := s.forest.of_bindings_eq rfl fun _ _ _ => rfl

/-! ## Letting go -/

theorem put (s : Sound w todo) (sort : DeviceSort) (device : Device) :
    Sound (w.put sort device) todo := by
  unfold World.put
  simp only
  split
  · have noted := s.note (.releasing sort device.name)
    exact ⟨noted.tended.same (fun ref => by cases ref <;> exact Iff.rfl)
        (fun ref holder => by cases holder <;> exact Iff.rfl),
      ⟨noted.charged.nodes, noted.charged.bindings, noted.charged.pages, noted.charged.configs⟩,
      noted.forest.of_bindings_eq rfl fun _ _ _ => rfl⟩
  · exact s.note _

/-- A step that lets go of nothing and gives nothing back need not be done. -/
theorem skip {task : Task} (s : Sound w (task :: todo)) (keeps : ∀ ref, task ≠ .letGo ref)
    (configs : task.configs = 0) : Sound w todo where
  tended := ⟨s.tended.there, fun h => (s.tended.owned h).imp id fun h =>
    (List.mem_cons.1 h).resolve_left fun e => keeps _ e.symm⟩
  charged := ⟨s.charged.nodes, s.charged.bindings, s.charged.pages, by
    simpa [configs] using s.charged.configs⟩
  forest := s.forest

theorem releaseConfig {c : Config} (s : Sound w (.dispose (.config c) :: todo)) :
    Sound { w with host := w.host.release .config } todo where
  tended := (Tended.mk s.tended.there fun h => (s.tended.owned h).imp id fun h => by
      simpa using h).same
    (fun ref => by cases ref <;> exact Iff.rfl) (fun ref holder => by cases holder <;> exact Iff.rfl)
  charged := {
    nodes := by simpa using s.charged.nodes
    bindings := by simpa using s.charged.bindings
    pages := by simpa using s.charged.pages
    configs := by
      have := s.charged.configs
      simp [Task.configs, PrivateData.configs, PrivateData.config?] at this ⊢
      omega }
  forest := s.forest.of_bindings_eq rfl fun _ _ _ => rfl

theorem dispose {data : PrivateData} (s : Sound w (.dispose data :: todo)) :
    Sound (w.disposeData data) todo := by
  cases data with
  | foreign => exact s.skip (fun _ => nofun) rfl
  | config c =>
      unfold World.disposeData
      refine releaseConfig (c := c) ?_
      cases c.block with
      | none =>
          cases c.direct with
          | none => exact s
          | some direct => exact s.put _ _
      | some block =>
          cases c.direct with
          | none => exact s.put _ _
          | some direct => exact (s.put _ _).put _ _

theorem settling : Settling Sound where
  disposed := fun s => s.dispose
  unpinned := fun s => (s.skip (fun _ => nofun) rfl).unpin _
  dissolved := fun hx s => (s.skip (fun _ => nofun) rfl).clear hx
  absent := fun _ s => s.skip (fun _ => nofun) rfl
  kept := fun h s => s.drop h
  evicted := fun hn free s => s.evict hn free
  removedBinding := fun hx free s => s.removeBinding hx free
  removedInstance := fun hi free s => s.removeInstance hi free

/-- Letting go leaves what else is to be done. -/
theorem settle {tasks hand : List Task} (s : Sound w (tasks ++ hand)) : Sound (w.settle tasks) hand :=
  settling.settle s

theorem settleAll {tasks : List Task} (s : Sound w tasks) : Sound (w.settle tasks) [] :=
  settling.settle_all s

theorem settleOne {task : Task} (s : Sound w (task :: todo)) : Sound (w.settle [task]) todo :=
  settling.settle s

/-- The root of an instance is there. -/
theorem has_root (s : Sound w todo) {i : InstanceId} {inst : Instance} {b : BindingId}
    (hi : w.instances.get? i = some inst) (h : inst.root = some b) : w.bindings.has b = true := by
  have owned : w.Owned (.binding b) := ⟨.inst i, inst, hi, h⟩
  exact s.tended.there owned

theorem has_of_context (s : Sound w todo) {c : ContextId} {x : Context}
    (hc : w.contexts.get? c = some x) (h : x.Owns ref) : w.Has ref :=
  s.tended.there ⟨.context c, x, hc, h⟩

end Sound

end Memfs
