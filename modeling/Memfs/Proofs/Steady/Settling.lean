import Memfs.Proofs.Steady.Basic

/-!
# Letting go keeps the counters steady

Letting go takes objects away, and a directory in place keeps all that is in it: what is
dissolved has lost its place before. `Easing` says of the pending work that the bindings
which it unpins and dissolves are out of place.
-/

namespace Memfs

open World

variable {w v : World} {rs : List Removed} {todo todo' tasks : List Task} {b c d : BindingId}
  {n : NodeId}

/-- A directory that is dissolved loses its entries, and the others keep theirs. -/
theorem World.entered_dissolve {x : Binding} (hx : v.bindings.get? b = some x) :
    (v.modifyBinding b ({ · with children := ∅ })).Entered d c ↔ d ≠ b ∧ v.Entered d c := by
  constructor
  · rintro ⟨k, entry⟩
    refine ⟨?_, Spared.refl.dissolve.entered ⟨k, entry⟩⟩
    rintro rfl
    obtain ⟨y, hy, hk⟩ := child?_eq_some_iff.1 entry
    rw [get?_modifyBinding hx, if_pos rfl] at hy
    cases hy
    rw [Std.TreeMap.getElem?_emptyc] at hk
    cases hk
  · rintro ⟨hne, k, entry⟩
    exact ⟨k, (child?_modifyBinding hx).trans ((if_neg hne).trans entry)⟩

/-- A binding that goes takes its entries along. -/
theorem World.entered_removeBinding : (v.removeBinding b).Entered d c ↔ d ≠ b ∧ v.Entered d c := by
  have found : (v.removeBinding b).bindings.get? d = if d = b then none else v.bindings.get? d :=
    Table.get?_erase ..
  constructor
  · rintro ⟨k, entry⟩
    refine ⟨?_, Spared.refl.removeBinding.entered ⟨k, entry⟩⟩
    rintro rfl
    obtain ⟨y, hy, -⟩ := child?_eq_some_iff.1 entry
    rw [found, if_pos rfl] at hy
    cases hy
  · rintro ⟨hne, k, entry⟩
    obtain ⟨y, hy, hk⟩ := child?_eq_some_iff.1 entry
    exact ⟨k, child?_eq_some_iff.2 ⟨y, found.trans ((if_neg hne).trans hy), hk⟩⟩

theorem World.pins_dissolve {x y : Binding} (hx : v.bindings.get? b = some x)
    (hy : (v.modifyBinding b ({ · with children := ∅ })).bindings.get? c = some y) :
    ∃ z, v.bindings.get? c = some z ∧ y.pins = z.pins := by
  rw [get?_modifyBinding hx] at hy
  split at hy
  · next same =>
      cases hy
      exact ⟨x, same ▸ hx, rfl⟩
  · exact ⟨y, hy, rfl⟩

/-- Directories in place keep what is in them, and so the links that are due to them. -/
theorem World.due_le_of_spared (spared : Spared w v) (f : Forest w) (s : Sound v todo)
    (before : w.Placed b) (after : v.Placed b) (hn : v.nodeOf b = some n)
    (isDir : v.isDirectory n = true) (full : ∀ c, w.Entered b c → v.Entered b c) :
    w.due n ≤ v.due n := by
  have kinds : ∀ {m}, v.nodes.has m = true → v.isDirectory m = w.isDirectory m := by
    intro m there
    obtain ⟨x, hx⟩ := Table.has_iff.1 there
    unfold World.isDirectory
    rw [hx, spared.nodes hx]
  have there : ∀ {c m}, v.nodeOf c = some m → v.nodes.has m = true := fun h =>
    s.tended.there (owned_of_nodeOf h)
  rw [due_directory s.forest after hn isDir,
    due_directory f before (spared.nodeOf hn) ((kinds (there hn)).symm.trans isDir)]
  refine Nat.add_le_add_left (List.Subperm.length_le ?_) 2
  refine (nodup_directoriesIn f).subperm fun c mem => ?_
  obtain ⟨entered, binds⟩ := mem_directoriesIn.1 mem
  have inside := full c entered
  refine mem_directoriesIn.2 ⟨inside, ?_⟩
  obtain ⟨_, entry⟩ := inside
  obtain ⟨m, hm⟩ := s.forest.bound entry
  unfold World.bindsDirectory at binds ⊢
  rw [← spared.nodeOf_eq (s.forest.has_of_child? entry), hm] at binds
  rw [hm]
  exact (kinds (there hm)).trans binds

namespace Steady

/-- Objects are taken away, but nothing out of a directory in place. -/
theorem shrink (h : Steady w w.due rs) (f : Forest w) (spared : Spared w v) (s : Sound v todo)
    (next : w.nodes.nextId ≤ v.nodes.nextId)
    (roots : ∀ {i x b}, v.instances.get? i = some x → x.root = some b →
      ∃ y, w.instances.get? i = some y ∧ y.root = some b)
    (full : ∀ d, w.Placed d → v.Placed d → ∀ c, w.Entered d c → v.Entered d c)
    (pins : ∀ {b x}, v.bindings.get? b = some x → w.Placed b →
      ∃ y, w.bindings.get? b = some y ∧ x.pins = y.pins) : Steady v v.due rs := by
  have rooted : ∀ {b}, v.Rooted b → w.Rooted b := fun ⟨i, x, hi, root⟩ => by
    obtain ⟨y, hy, root⟩ := roots hi root
    exact ⟨i, y, hy, root⟩
  have placed : ∀ {b}, v.Placed b → w.Placed b :=
    Or.imp rooted fun ⟨d, entered⟩ => ⟨d, spared.entered entered⟩
  refine ⟨fun {b} root => ?_, fun hi hj rootI rootJ => ?_, fun hb here => ?_,
    fun {n x} hn seated => ?_, fun r mem => ?_⟩
  · cases still : v.parentOf b with
    | none => rfl
    | some p =>
        obtain ⟨⟨x, hx, hp⟩, there⟩ := parentOf_eq_some_iff.1 still
        obtain ⟨y, hy, -, parent, -⟩ := spared.bindings hx
        obtain ⟨z, hz⟩ := Table.has_iff.1 there
        obtain ⟨z', hz', -⟩ := spared.bindings hz
        have above : w.parentOf b = some p :=
          parentOf_eq_some_iff.2 ⟨⟨y, hy, parent.symm.trans hp⟩, Table.has_of_get? hz'⟩
        cases (h.roots (rooted root)).symm.trans above
  · obtain ⟨x, hx, rootX⟩ := roots hi rootI
    obtain ⟨y, hy, rootY⟩ := roots hj rootJ
    exact h.sole hx hy rootX rootY
  · obtain ⟨y, hy, e⟩ := pins hb (placed here)
    exact e.trans (h.pins hy (placed here))
  · obtain ⟨b, here, hb, isDir⟩ := seated
    have isDir' : w.isDirectory n = true := by
      unfold World.isDirectory at isDir ⊢
      rwa [hn, ← spared.nodes hn] at isDir
    exact (h.links (spared.nodes hn) ⟨b, placed here, spared.nodeOf hb, isDir'⟩).trans
      (due_le_of_spared spared f s (placed here) here hb isDir (full b (placed here) here))
  · exact (h.gone r mem).frame (Nat.le_of_eq spared.next.1.symm) next placed
      (fun b hb => spared.nodeOf hb) (fun _ c => spared.entered)
      fun x hx => ⟨x, spared.nodes hx, rfl, fun _ => id⟩

theorem of_shape (h : Steady v w.due rs) (shape : SameShape w v) : Steady v v.due rs :=
  h.mono fun _ _ => Nat.le_of_eq shape.due.symm

end Steady

/-- The counters are steady while work is done that unpins and dissolves nothing in
place. -/
structure Easing (rs : List Removed) (w : World) (todo : List Task) : Prop where
  sound : Sound w todo
  steady : Steady w w.due rs
  waiting : ∀ {b}, .unpin b ∈ todo ∨ .dissolve b ∈ todo → ¬ w.Placed b

namespace Easing

variable {task : Task} {x : Binding}

/-- What is left of the work still waits. -/
theorem still (h : Easing rs w (task :: todo)) :
    .unpin b ∈ todo ∨ .dissolve b ∈ todo → ¬ w.Placed b :=
  fun waits => h.waiting (waits.imp (List.mem_cons_of_mem _) (List.mem_cons_of_mem _))

/-- Tasks that let go do not have to wait. -/
theorem calm_append {tasks : List Task} (calm : ∀ task ∈ tasks, task.Calm)
    (waits : .unpin b ∈ tasks ++ todo ∨ .dissolve b ∈ tasks ++ todo) :
    .unpin b ∈ todo ∨ .dissolve b ∈ todo :=
  waits.imp (fun mem => (List.mem_append.1 mem).resolve_left fun mem => (calm _ mem).elim)
    fun mem => (List.mem_append.1 mem).resolve_left fun mem => (calm _ mem).elim

theorem placed_of_dissolve (h : (w.modifyBinding b ({ · with children := ∅ })).Placed c) :
    w.Placed c :=
  h.imp (rooted_of_instances rfl).1 fun ⟨d, entered⟩ => ⟨d, Spared.refl.dissolve.entered entered⟩

/-- What was in a directory is out of place when the directory is dissolved. -/
theorem out_of_dissolve (steady : Steady w w.due rs) (f : Forest w)
    (hx : w.bindings.get? b = some x) (mem : c ∈ x.below) :
    ¬ (w.modifyBinding b ({ · with children := ∅ })).Placed c := by
  obtain ⟨name, hc⟩ := Binding.mem_below.1 mem
  have entry : w.child? b name = some c := child?_eq_some_iff.2 ⟨x, hx, hc⟩
  rintro (root | ⟨d, inside⟩)
  · have root : w.Rooted c := (rooted_of_instances rfl).1 root
    cases (steady.roots root).symm.trans (f.entry entry).2
  · obtain ⟨hne, entered⟩ := (entered_dissolve hx).1 inside
    exact hne (entered_once f ⟨name, entry⟩ entered)

/-- What waits after a directory is dissolved has waited before or was in the directory. -/
theorem out_of_step (h : Easing rs w (.dissolve b :: todo)) (hx : w.bindings.get? b = some x)
    (waits : .unpin c ∈ x.dissolution ++ todo ∨ .dissolve c ∈ x.dissolution ++ todo) :
    ¬ (w.modifyBinding b ({ · with children := ∅ })).Placed c := by
  have old : .unpin c ∈ todo ∨ .dissolve c ∈ todo →
      ¬ (w.modifyBinding b ({ · with children := ∅ })).Placed c :=
    fun waits => mt placed_of_dissolve (h.still waits)
  have new : c ∈ x.below → ¬ (w.modifyBinding b ({ · with children := ∅ })).Placed c :=
    out_of_dissolve h.steady h.sound.forest hx
  rcases waits with waits | waits
  · rcases List.mem_append.1 waits with mem | mem
    · exact new (by simpa using Binding.mem_dissolution.1 mem)
    · exact old (.inl mem)
  · rcases List.mem_append.1 waits with mem | mem
    · exact new (by simpa using Binding.mem_dissolution.1 mem)
    · exact old (.inr mem)

theorem settling : Settling (Easing rs) where
  disposed {v data todo} h := by
    obtain ⟨-, nodes, bindings, inst⟩ := v.alike_disposeData data
    have shape : SameShape v (v.disposeData data) := .of_tables nodes bindings inst
    exact ⟨h.sound.dispose, (h.steady.of_tables nodes bindings inst).of_shape shape,
      fun waits => mt shape.placed.1 (h.still waits)⟩
  unpinned {v b todo} h := by
    have shape : SameShape v (v.unpin b) := .unpin
    exact ⟨Sound.settling.unpinned h.sound,
      (h.steady.unpin (h.waiting (.inl List.mem_cons_self))).of_shape shape,
      fun waits => mt shape.placed.1 (h.still waits)⟩
  dissolved {v b x todo} hx h := by
    have out : ¬ v.Placed b := h.waiting (.inr List.mem_cons_self)
    have sound := Sound.settling.dissolved hx h.sound
    refine ⟨sound, ?_, fun {c} waits => ?_⟩
    · refine h.steady.shrink h.sound.forest Spared.refl.dissolve sound (Nat.le_refl _)
        (fun hi root => ⟨_, hi, root⟩) (fun d placed _ c entered => ?_) fun hy _ =>
          pins_dissolve hx hy
      have hne : d ≠ b := fun e => out (e ▸ placed)
      exact (entered_dissolve hx).2 ⟨hne, entered⟩
    · exact h.out_of_step hx waits
  absent hx h := ⟨Sound.settling.absent hx h.sound, h.steady, h.still⟩
  kept owned h := ⟨h.sound.drop owned, h.steady, h.still⟩
  evicted {v n node todo} hn free h := by
    have sound := h.sound.evict hn free
    exact ⟨sound, h.steady.shrink h.sound.forest Spared.refl.evict sound
      (Nat.le_of_eq Table.nextId_erase.symm) (fun hi root => ⟨_, hi, root⟩)
      (fun _ _ _ _ entered => entered) fun hb _ => ⟨_, hb, rfl⟩, h.still⟩
  removedBinding {v b x todo} hx free h := by
    have sound := h.sound.removeBinding hx free
    have out : ¬ v.Placed b := mt owned_of_placed free
    refine ⟨sound, ?_, fun waits => ?_⟩
    · refine h.steady.shrink h.sound.forest Spared.refl.removeBinding sound (Nat.le_refl _)
        (fun hi root => ⟨_, hi, root⟩) (fun d placed _ c entered => ?_)
        fun hb _ => ⟨_, Table.get?_of_erase hb, rfl⟩
      have hne : d ≠ b := fun e => out (e ▸ placed)
      exact entered_removeBinding.2 ⟨hne, entered⟩
    · have placed : ∀ {c}, (v.removeBinding b).Placed c → v.Placed c := fun here =>
        here.imp (rooted_of_instances rfl).1 fun ⟨d, entered⟩ =>
          ⟨d, Spared.refl.removeBinding.entered entered⟩
      exact mt placed (h.still (calm_append Binding.calm_owned waits))
  removedInstance {v i inst todo} hi free h := by
    have sound := h.sound.removeInstance hi free
    have old : ∀ {j x}, (v.removeInstance i).instances.get? j = some x →
        v.instances.get? j = some x := Table.get?_of_erase
    refine ⟨sound, ?_, fun waits => ?_⟩
    · exact h.steady.shrink h.sound.forest Spared.refl.removeInstance sound (Nat.le_refl _)
        (fun hi root => ⟨_, old hi, root⟩) (fun _ _ _ _ entered => entered) fun hb _ => ⟨_, hb, rfl⟩
    · have placed : ∀ {c}, (v.removeInstance i).Placed c → v.Placed c := fun here =>
        here.imp (fun ⟨j, x, hj, root⟩ => ⟨j, x, old hj, root⟩) id
      exact mt placed (h.still (calm_append Instance.calm_owned waits))

end Easing

namespace Steady

/-- All the work is done. -/
theorem settle (h : Steady w w.due rs) (s : Sound w (tasks ++ todo))
    (calm : ∀ task ∈ tasks ++ todo, task.Calm) :
    Steady (w.settle tasks) (w.settle tasks).due rs := by
  have start : Easing rs w (tasks ++ todo) := ⟨s, h, fun waits => by
    rcases waits with mem | mem
    · exact (calm _ mem).elim
    · exact (calm _ mem).elim⟩
  exact (Easing.settling.settle start).steady

theorem settleAll (h : Steady w w.due rs) (s : Sound w tasks)
    (calm : ∀ task ∈ tasks, task.Calm) : Steady (w.settle tasks) (w.settle tasks).due rs := by
  rw [← List.append_nil tasks] at s calm
  exact h.settle s calm

end Steady

end Memfs
