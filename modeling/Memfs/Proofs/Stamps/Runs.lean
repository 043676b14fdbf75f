import Memfs.Proofs.Stamps.Operations

/-!
# Times over a whole run

Nothing compares the times of nodes with the clock, so that they do not go back has to come
from the clock alone. The invariant `Aged` says that every time that is stored was read
before. A clock that was set back would break it, hence the condition is on the readings of
the whole run, the settings of the clock between them included: none is earlier than one that
was made before it.
-/

namespace Memfs

open World

/-! ## The readings of a run -/

/-- The readings made on the way from one state of a clock to another. -/
def Clock.between (clock clock' : Clock) : List Timestamp :=
  (List.range' clock.taken (clock'.taken - clock.taken)).map clock.reading

theorem Clock.Gave.mem_between {clock clock' : Clock} {time : Timestamp}
    (h : clock.Gave clock' time) : time ∈ clock.between clock' := by
  obtain ⟨k, first, last, rfl⟩ := h
  exact List.mem_map_of_mem (List.mem_range'_1.2 ⟨first, by omega⟩)

/-- The readings that the call makes. A clock that is set was not read for it. -/
def Call.readings (w : World) : Call → List Timestamp
  | setClock _ => []
  | call => w.host.clock.between (w.after call).host.clock

/-- The readings that the calls make. -/
def World.readings (w : World) : List Call → List Timestamp
  | [] => []
  | call :: calls => call.readings w ++ (w.after call).readings calls

theorem World.readings_append {w : World} {before later : List Call} :
    w.readings (before ++ later) = w.readings before ++ (w.run before).readings later := by
  induction before generalizing w with
  | nil => rfl
  | cons call calls ih =>
      rw [List.cons_append, readings, readings, ih, run_cons, List.append_assoc]

/-! ## The invariant -/

/-- No time of the node is earlier than it was. -/
structure Node.Onward (x y : Node) : Prop where
  atime : x.atime ≤ y.atime
  mtime : x.mtime ≤ y.mtime
  ctime : x.ctime ≤ y.ctime

namespace World

variable {w v u : World} {past : List Timestamp} {marks : Marks} {call : Call}

/-- The nodes that are left are those that were there, and no time of one has gone back. -/
structure Later (w v : World) : Prop where
  next : w.nodes.nextId ≤ v.nodes.nextId
  nodes : ∀ n y, n < w.nodes.nextId → v.nodes.get? n = some y →
    ∃ x, w.nodes.get? n = some x ∧ x.Onward y

namespace Later

theorem of_nodes (same : v.nodes = w.nodes) : w.Later v where
  next := same ▸ Nat.le_refl _
  nodes _ y _ hy := ⟨y, same ▸ hy, le_rfl, le_rfl, le_rfl⟩

theorem trans (h : w.Later v) (h' : v.Later u) : w.Later u where
  next := h.next.trans h'.next
  nodes n z known hz := by
    obtain ⟨y, hy, later⟩ := h'.nodes n z (known.trans_le h.next) hz
    obtain ⟨x, hx, before⟩ := h.nodes n y known hy
    exact ⟨x, hx, before.atime.trans later.atime, before.mtime.trans later.mtime,
      before.ctime.trans later.ctime⟩

end Later

/-- Every time of a node was read, and no change of its content is later than its last
change. -/
structure Aged (w : World) (past : List Timestamp) : Prop where
  atime : ∀ n x, w.nodes.get? n = some x → x.atime ∈ past
  mtime : ∀ n x, w.nodes.get? n = some x → x.mtime ∈ past
  ctime : ∀ n x, w.nodes.get? n = some x → x.ctime ∈ past
  ordered : ∀ n x, w.nodes.get? n = some x → x.mtime ≤ x.ctime

/-- What a mark puts in the place of a time that was read before. -/
theorem mem_stamped {marked : Prop} [Decidable marked] {now : List Timestamp}
    {time before : Timestamp} (read : marked → time ∈ now) (mem : before ∈ past) :
    (if marked then time else before) ∈ past ++ now := by
  split
  · next h => exact List.mem_append_right _ (read h)
  · exact List.mem_append_left _ mem

theorem le_stamped {marked : Prop} [Decidable marked] {time before : Timestamp}
    (later : marked → before ≤ time) : before ≤ if marked then time else before := by
  split
  · next h => exact later h
  · exact le_rfl

namespace Aged

theorem stamped (h : w.Aged past) (moved : w.Stamped v marks)
    (onward : (past ++ w.host.clock.between v.host.clock).Pairwise (· ≤ ·)) :
    v.Aged (past ++ w.host.clock.between v.host.clock) ∧ w.Later v := by
  obtain ⟨-, -, onward⟩ := List.pairwise_append.1 onward
  obtain ⟨time, gave, old⟩ := moved.old
  -- a reading that some node got was made now, so it is not earlier than those of the past
  have read : ∀ n, n ∈ marks.nodes → time ∈ w.host.clock.between v.host.clock := by
    intro n mem
    rcases gave with none | gave
    · exact absurd (none ▸ mem) List.not_mem_nil
    · exact gave.mem_between
  have accessed : ∀ {n}, n ∈ marks.accessed → n ∈ marks.nodes := fun mem =>
    List.mem_append_left _ (List.mem_append_left _ mem)
  have written : ∀ {n}, n ∈ marks.written → n ∈ marks.nodes := fun mem =>
    List.mem_append_left _ (List.mem_append_right _ mem)
  have changed : ∀ {n}, n ∈ marks.written ∨ n ∈ marks.changed → n ∈ marks.nodes := fun mem =>
    mem.elim written (List.mem_append_right _)
  have born : ∀ {n y}, ¬ n < w.nodes.nextId → v.nodes.get? n = some y →
      y.atime = y.mtime ∧ y.mtime = y.ctime ∧ y.ctime ∈ w.host.clock.between v.host.clock := by
    intro n y newer hy
    obtain ⟨first, second, gave⟩ := moved.born n y (Nat.le_of_not_lt newer) hy
    exact ⟨first, second, gave.mem_between⟩
  refine ⟨⟨fun n y hy => ?_, fun n y hy => ?_, fun n y hy => ?_, fun n y hy => ?_⟩,
    moved.next, fun n y known hy => ?_⟩
  · by_cases known : n < w.nodes.nextId
    · obtain ⟨x, hx, now⟩ := old n y known hy
      rw [now.atime]
      exact mem_stamped (fun mem => read n (accessed mem)) (h.atime n x hx)
    · obtain ⟨first, second, mem⟩ := born known hy
      rw [first, second]
      exact List.mem_append_right _ mem
  · by_cases known : n < w.nodes.nextId
    · obtain ⟨x, hx, now⟩ := old n y known hy
      rw [now.mtime]
      exact mem_stamped (fun mem => read n (written mem)) (h.mtime n x hx)
    · obtain ⟨-, second, mem⟩ := born known hy
      rw [second]
      exact List.mem_append_right _ mem
  · by_cases known : n < w.nodes.nextId
    · obtain ⟨x, hx, now⟩ := old n y known hy
      rw [now.ctime]
      exact mem_stamped (fun mem => read n (changed mem)) (h.ctime n x hx)
    · exact List.mem_append_right _ (born known hy).2.2
  · by_cases known : n < w.nodes.nextId
    · obtain ⟨x, hx, now⟩ := old n y known hy
      rw [now.mtime, now.ctime]
      by_cases content : n ∈ marks.written
      · rw [if_pos content, if_pos (.inl content)]
      · rw [if_neg content]
        exact (h.ordered n x hx).trans
          (le_stamped fun mem => onward _ (h.ctime n x hx) _ (read n (changed mem)))
    · exact le_of_eq (born known hy).2.1
  · obtain ⟨x, hx, now⟩ := old n y known hy
    refine ⟨x, hx, ?_, ?_, ?_⟩
    · rw [now.atime]
      exact le_stamped fun mem => onward _ (h.atime n x hx) _ (read n (accessed mem))
    · rw [now.mtime]
      exact le_stamped fun mem => onward _ (h.mtime n x hx) _ (read n (written mem))
    · rw [now.ctime]
      exact le_stamped fun mem => onward _ (h.ctime n x hx) _ (read n (changed mem))

end Aged

/-! ## Every call -/

/-- A call that is no operation marks nothing. -/
theorem Stamped.housekeeping (fine : w.Fine) : Housekeeping (w.Stamped · {}) where
  aside h paced _ nodes _ := h.frame paced nodes
  settled h := h.settle
  made made h := h.newNode fine made
  rooted {v u home mode n host} made acquired h := by
    have paid : u.Paced { u with host } := .acquire acquired
    exact (h.newNode fine made).frame (paid.trans (.same rfl rfl)) rfl

theorem Stamped.after (s : Sound w []) (fine : w.Fine)
    (unset : ∀ clock, call ≠ .setClock clock) : ∃ marks, w.Stamped (w.after call) marks := by
  by_cases operation : ∃ op, call = .operate op
  · obtain ⟨op, rfl⟩ := operation
    cases done : op.act w with
    | ok a v =>
        rw [Operation.after_of_ok done]
        exact ⟨op.marks w, Operation.stamped s fine done⟩
    | error e v =>
        rw [Operation.after_of_error done]
        exact ⟨{}, Operation.unstamped s done⟩
  · exact ⟨{}, (Stamped.housekeeping fine).after .refl (fun op same => operation ⟨op, same⟩)
      (fun clock same => absurd same (unset clock)) fun _ _ => .frame .refl (.same rfl rfl) rfl⟩

theorem Fine.after (fine : w.Fine) (s : Sound w []) : (w.after call).Fine := by
  by_cases set : ∃ clock, call = .setClock clock
  · obtain ⟨clock, rfl⟩ := set
    exact fine
  · obtain ⟨marks, moved⟩ := Stamped.after s fine fun clock same => set ⟨clock, same⟩
    exact moved.paced.fine fine

theorem Fine.run (fine : w.Fine) (s : Sound w []) (calls : List Call) : (w.run calls).Fine :=
  have step : ∀ (w : World) (call : Call), Sound w [] ∧ w.Fine →
      Sound (w.after call) [] ∧ (w.after call).Fine := fun _ call kept =>
    ⟨kept.1.after call, kept.2.after kept.1⟩
  (run_induction step calls ⟨s, fine⟩).2

theorem Fine.fresh {clock : Clock} : (World.fresh clock).Fine := fun i x hx => by
  simp [World.fresh] at hx

theorem Aged.after (h : w.Aged past) (s : Sound w []) (fine : w.Fine)
    (onward : (past ++ call.readings w).Pairwise (· ≤ ·)) :
    (w.after call).Aged (past ++ call.readings w) ∧ w.Later (w.after call) := by
  by_cases set : ∃ clock, call = .setClock clock
  · obtain ⟨clock, rfl⟩ := set
    rw [Call.readings, List.append_nil]
    exact ⟨⟨h.atime, h.mtime, h.ctime, h.ordered⟩, .of_nodes rfl⟩
  · have unset : ∀ clock, call ≠ .setClock clock := fun clock same => set ⟨clock, same⟩
    have readings : call.readings w = w.host.clock.between (w.after call).host.clock := by
      unfold Call.readings
      split
      · next clock => exact absurd rfl (unset clock)
      · rfl
    obtain ⟨marks, moved⟩ := Stamped.after s fine unset
    rw [readings] at onward ⊢
    exact h.stamped moved onward

theorem Aged.run (h : w.Aged past) (s : Sound w []) (fine : w.Fine) (calls : List Call)
    (onward : (past ++ w.readings calls).Pairwise (· ≤ ·)) :
    (w.run calls).Aged (past ++ w.readings calls) ∧ w.Later (w.run calls) := by
  induction calls generalizing w past with
  | nil => exact ⟨by rwa [readings, List.append_nil], .of_nodes rfl⟩
  | cons call calls ih =>
      rw [readings, ← List.append_assoc] at onward ⊢
      obtain ⟨aged, first⟩ := h.after s fine (List.pairwise_append.1 onward).1
      obtain ⟨aged, rest⟩ := ih aged (s.after call) (fine.after s) onward
      exact ⟨aged, first.trans rest⟩

theorem Aged.fresh {clock : Clock} : (World.fresh clock).Aged [] where
  atime n x hx := by simp [World.fresh] at hx
  mtime n x hx := by simp [World.fresh] at hx
  ctime n x hx := by simp [World.fresh] at hx
  ordered n x hx := by simp [World.fresh] at hx

end World

/-! ## All runs -/

/-- What is asked about names. -/
inductive Inquiry where
  | lookup (dir : BindingId) (name : String)
  | resolve (root : BindingId) (path : String) (follow : Bool)
  | readlink (b : BindingId)

def Inquiry.act : Inquiry → Action Unit
  | lookup dir name => do let _ ← Action.test (·.lookup dir name)
  | resolve root path follow => do let _ ← Action.test (·.resolve root path follow)
  | readlink b => do let _ ← Action.test (·.readlink b)

theorem Inquiry.reads (q : Inquiry) : Action.Reads q.act := by
  cases q with
  | lookup dir name => exact .bind (.test _) fun _ => .pure ()
  | resolve root path follow => exact .bind (.test _) fun _ => .pure ()
  | readlink b => exact .bind (.test _) fun _ => .pure ()

/-- In every state that calls lead to, an operation moves the times of `Operation.marks`, if it
succeeds, and no others, and inquiries leave everything as it is. If no reading of the run was
earlier than one before it then in addition no time of a node has ever gone back, and no node's
content has changed later than the node. -/
theorem times_onward (clock : Clock) (before later : List Call) :
    let w := (World.fresh clock).run before
    let v := w.run later
    (((World.fresh clock).readings (before ++ later)).Pairwise (· ≤ ·) →
      (∀ n x, v.nodes.get? n = some x → x.mtime ≤ x.ctime) ∧
        ∀ n x y, w.nodes.get? n = some x → v.nodes.get? n = some y → x.Onward y) ∧
      (∀ (op : Operation) (u : World), op.act v = .ok () u → v.Stamped u (op.marks v)) ∧
      (∀ (op : Operation) (e : Error) (u : World), op.act v = .error e u → v.Stamped u {}) ∧
      ∀ q : Inquiry, Action.Ends (· = v) q.act v := by
  intro w v
  have s : Sound w [] := Sound.fresh.run before
  have s' : Sound v [] := s.run later
  have fine : w.Fine := Fine.fresh.run .fresh before
  have fine' : v.Fine := fine.run s later
  refine ⟨fun onward => ?_, fun op u done => ?_, fun op e u failed => ?_, fun q => ?_⟩
  · rw [readings_append] at onward
    have aged : w.Aged _ :=
      (Aged.fresh.run .fresh .fresh before (List.pairwise_append.1 onward).1).1
    obtain ⟨aged, moved⟩ := aged.run s fine later onward
    refine ⟨aged.ordered, fun n x y hx hy => ?_⟩
    obtain ⟨x', hx', onward⟩ := moved.nodes n y (Table.get?_lt hx) hy
    cases hx.symm.trans hx'
    exact onward
  · exact Operation.stamped s' fine' done
  · exact Operation.unstamped s' failed
  · exact .of_reads rfl q.reads

/-- A file moves onto another one, which is held: the clock is read for the name that goes and
then for the rename, and the later reading is stored. -/
theorem times_onward_replacing :
    let before : List Call := [.register builtInType, .mount "tagfs" "",
      .operate (.mkdir 0 "d" ⟨0o755⟩), .operate (.create 0 "a" ⟨0o644⟩),
      .operate (.create 1 "b" ⟨0o644⟩), .hold (.binding 3)]
    let op : Operation := .rename 0 "a" 1 "b" ⟨0⟩
    let w := (World.fresh (.steady 0 0 1)).run before
    let v := w.run [.operate op]
    ((World.fresh (.steady 0 0 1)).readings (before ++ [.operate op])).Pairwise (· ≤ ·) ∧
      (∀ n x, v.nodes.get? n = some x → x.mtime ≤ x.ctime) ∧
      (∀ n x y, w.nodes.get? n = some x → v.nodes.get? n = some y → x.Onward y) ∧
      w.Stamped v { written := [1, 0], changed := [3, 2] } ∧
      (w.nodes.get? 3).map (·.ctime) = some ⟨0, 5⟩ ∧
      (v.nodes.get? 3).map (·.ctime) = some ⟨0, 8⟩ := by
  intro before op w v
  have onward : ((World.fresh (.steady 0 0 1)).readings (before ++ [.operate op])).Pairwise
      (· ≤ ·) := by decide +kernel
  have marks : op.marks w = { written := [1, 0], changed := [3, 2] } := by decide +kernel
  have times : (w.nodes.get? 3).map (·.ctime) = some ⟨0, 5⟩ ∧
      (v.nodes.get? 3).map (·.ctime) = some ⟨0, 8⟩ := by decide +kernel
  have succeeds : op.succeeds w = true := by decide +kernel
  have later := times_onward (.steady 0 0 1) before [.operate op]
  have now := times_onward (.steady 0 0 1) before []
  obtain ⟨ordered, kept⟩ := later.1 onward
  have moved : w.Stamped v (op.marks w) := now.2.1 op v (Operation.act_of_succeeds succeeds)
  rw [marks] at moved
  exact ⟨onward, ordered, kept, moved, times⟩

end Memfs
