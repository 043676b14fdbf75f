import Memfs.Proofs.Shelf.Steps

/-!
# Files are plain strings

Whatever is called in whatever order, the calls on handles are replied to as a shelf
replies to their events: names come and go, instances are taken down and pages are
refused, and each file is still one string of bytes, which all handles on it share.

The positions of a shelf are natural numbers. As long as callers seek and resize within
the range of offsets, no position and no length leaves it, so the sums of positions and
lengths do not wrap.
-/

namespace Memfs

open World Memfs.Action

variable {w v : World} {s : Shelf} {f : FileId} {n : NodeId} {h : FileHandle}

namespace Tracks

/-! ## Every call -/

/-- What has no business with open files is no event. -/
theorem aside (t : Tracks w s) (sound : Sound w []) (call : Call) (idle : ¬ call.onFiles) :
    Tracks (w.after call) s :=
  t.changes ((World.after_changes sound.forest call).mono idle)

/-- An operation on a handle, and on what is no handle. -/
theorem through {α : Type} {x : Action α} {shown : α → Nat × ByteString}
    {done : FileHandle → Reply × Shelf} {op : Operation} (t : Tracks w s)
    (act : op.act.into w = x.into w)
    (other : w.handleOf f = none → Tracks (w.after (.operate op)) s)
    (agrees : ∀ h, s.handles f = some h → Agrees w f h.node x shown (done h)) :
    w.observeBy f x shown = (s.through f done).1 ∧
      Tracks (w.after (.operate op)) (s.through f done).2 := by
  have after : w.after (.operate op) = x.into w := act
  unfold World.observeBy Shelf.through
  rw [← t.handles]
  cases hs : s.handles f with
  | none => exact ⟨rfl, other ((t.handles f).symm.trans hs)⟩
  | some h =>
      obtain ⟨seen, t⟩ := agrees h hs
      exact ⟨congrArg some seen, after ▸ t⟩

theorem not_ok {α : Type} {x : Action α} (none : w.handleOf f = none)
    (only : ∀ {a v}, x w = .ok a v → ∃ h, w.handleOf f = some h) (v : World) :
    (do let _ ← x : Action Unit) w ≠ .ok () v := by
  intro done
  obtain ⟨a, done⟩ := exists_of_discard_ok done
  obtain ⟨h, handle⟩ := only done
  rw [none] at handle
  cases handle

/-- A call is replied to as the shelf replies to its event, and the shelf that is left
stands for the world that is left. -/
def Answered (w : World) (s : Shelf) (call : Call) : Prop :=
  w.reply call = (s.answer (w.event call)).1 ∧ Tracks (w.after call) (s.answer (w.event call)).2

theorem answer_openFile (t : Tracks w s) (sound : Sound w []) {b : BindingId} {flags : OpenFlags} :
    Answered w s (.operate (.openFile b flags)) := by
  simp only [Answered, World.reply, World.event]
  cases hb : w.regularOf b with
  | none => exact ⟨rfl, t.openFile_other sound hb⟩
  | some n =>
      have after : w.after (.operate (.openFile b flags)) = (Action.openFile b flags).into w :=
        into_discard
      obtain ⟨seen, t⟩ := t.agrees_openFile hb
      rw [after]
      exact ⟨congrArg some seen, t⟩

theorem answer_openUnnamed (t : Tracks w s) (sound : Sound w []) {dir : BindingId} {mode : Mode}
    {flags : OpenFlags} : Answered w s (.operate (.openUnnamed dir mode flags)) := by
  simp only [Answered, World.reply, World.event]
  cases done : Action.openUnnamed dir mode flags w with
  | error e v =>
      have failed : (Operation.openUnnamed dir mode flags).act w = .error e v := bind_of_error done
      refine ⟨rfl, t.of_failing sound _ fun u ok => ?_⟩
      rw [failed] at ok
      cases ok
  | ok f v =>
      have opened := t.openUnnamed done
      have after : w.after (.operate (.openUnnamed dir mode flags)) = v := by
        refine into_discard.trans ?_
        unfold Action.into
        rw [done]
      rw [after]
      exact ⟨congrArg some (opened.see_handle (if_pos rfl)), opened⟩

/-- Every call is replied to as the shelf replies to its event. -/
theorem answer (t : Tracks w s) (sound : Sound w []) (call : Call) : Answered w s call := by
  cases call with
  | operate op =>
      cases op with
      | read f len =>
          exact t.through into_discard
            (fun none => t.of_failing sound _ (not_ok none handle_of_read)) fun _ => t.agrees_read
      | readAt f offset len =>
          exact t.through into_discard
            (fun none => t.of_failing sound _ (not_ok none handle_of_readAt))
            fun _ => t.agrees_readAt
      | write f src =>
          exact t.through into_discard
            (fun none => t.of_failing sound _ (not_ok none handle_of_write)) fun _ => t.agrees_write
      | writeAt f offset src =>
          exact t.through into_discard
            (fun none => t.of_failing sound _ (not_ok none handle_of_writeAt))
            fun _ => t.agrees_writeAt
      | setLength f size =>
          refine t.through rfl (fun none => t.of_failing sound _ fun v done => ?_)
            fun _ => t.agrees_setLength
          obtain ⟨h, handle⟩ := handle_of_setLength done
          rw [none] at handle
          cases handle
      | seek f position =>
          refine t.through rfl (fun none => ?_) fun _ => t.agrees_seek
          have moved := t.moveTo f position
          have absent : s.handles f = (s.handles f).map ({ · with position }) := by
            rw [t.handles, none]
            rfl
          rwa [Shelf.moveTo, Shelf.setHandle_of_eq absent] at moved
      | openFile b flags => exact t.answer_openFile sound
      | openUnnamed dir mode flags => exact t.answer_openUnnamed sound
      | _ => exact ⟨rfl, t.aside sound _ id⟩
  | closeFile f => exact ⟨rfl, t.closeFile⟩
  | _ => exact ⟨rfl, t.aside sound _ id⟩

theorem replies (t : Tracks w s) (sound : Sound w []) (calls : List Call) :
    w.replies calls = s.replies (w.events calls) := by
  induction calls generalizing w s with
  | nil => rfl
  | cons call rest ih =>
      obtain ⟨same, t⟩ := t.answer sound call
      rw [World.replies, World.events, Shelf.replies, same, ih t (sound.after call)]

end Tracks

/-! ## The range of offsets -/

/-- The event asks for no position and no length beyond the range of offsets. -/
def Event.Ranged : Event → Prop
  | .seek _ position => position ≤ lastOffset
  | .setLength _ size _ => size ≤ lastOffset
  | _ => True

/-- The call asks for no position and no length beyond the range of offsets. -/
def Call.Ranged : Call → Prop
  | .operate (.seek _ position) => position ≤ lastOffset
  | .operate (.setLength _ size) => size ≤ lastOffset
  | _ => True

/-- The reply shows numbers in the range of offsets. -/
def Reply.Ranged (reply : Reply) : Prop := reply.position ≤ lastOffset ∧ reply.size ≤ lastOffset

namespace Shelf

/-- All positions and lengths are in the range of offsets. -/
structure Ranged (s : Shelf) : Prop where
  strings : ∀ n, (s.strings n).length ≤ lastOffset
  positions : ∀ {f h}, s.handles f = some h → h.position ≤ lastOffset

namespace Ranged

theorem see (r : s.Ranged) {result : Except Error Nat} {bytes : ByteString} :
    (s.see f n result bytes).Ranged := by
  refine ⟨?_, r.strings n⟩
  show ((s.handles f).map (·.position)).getD 0 ≤ lastOffset
  cases hs : s.handles f with
  | none => exact Nat.zero_le _
  | some h => exact r.positions hs

theorem setString (r : s.Ranged) {string : ByteString} (short : string.length ≤ lastOffset) :
    (s.setString n string).Ranged where
  strings m := by
    rw [strings_setString]
    split
    · exact short
    · exact r.strings m
  positions := r.positions

theorem setHandle (r : s.Ranged) {handle : Option FileHandle}
    (near : ∀ h, handle = some h → h.position ≤ lastOffset) : (s.setHandle f handle).Ranged where
  strings := r.strings
  positions := by
    intro g h hs
    rw [handles_setHandle] at hs
    split at hs
    · exact near h hs
    · exact r.positions hs

theorem moveTo (r : s.Ranged) {position : Nat} (near : position ≤ lastOffset) :
    (s.moveTo f position).Ranged := by
  refine r.setHandle fun h hs => ?_
  obtain ⟨old, -, rfl⟩ := Option.map_eq_some_iff.1 hs
  exact near

theorem enter (r : s.Ranged) {flags : OpenFlags} :
    (s.enter f n flags).1.Ranged ∧ (s.enter f n flags).2.Ranged := by
  have entered : (s.setHandle f (some { node := n, flags })).Ranged := by
    refine r.setHandle fun h hs => ?_
    cases hs
    exact Nat.zero_le _
  exact ⟨entered.see, entered⟩

theorem openBy (r : s.Ranged) {flags : OpenFlags} :
    (s.openBy f n flags).1.Ranged ∧ (s.openBy f n flags).2.Ranged := by
  unfold Shelf.openBy
  split
  · exact r.enter
  · split
    · exact (r.setString (Nat.zero_le _)).enter
    · exact ⟨r.see, r⟩

theorem readBy (r : s.Ranged) {offset len : Nat} {moves : Shelf → ByteString → Shelf}
    (moved : ∀ bytes, s.bytesAt h offset len = .ok bytes → (moves s bytes).Ranged) :
    (s.readBy f h offset len moves).1.Ranged ∧ (s.readBy f h offset len moves).2.Ranged := by
  unfold Shelf.readBy
  cases bytes : s.bytesAt h offset len with
  | error e => exact ⟨r.see, r⟩
  | ok bytes' => exact ⟨(moved _ bytes).see, moved _ bytes⟩

theorem putBy (r : s.Ranged) {string : Except Error ByteString} {count : Nat}
    {moves : Shelf → Shelf} (short : ∀ bytes, string = .ok bytes → bytes.length ≤ lastOffset)
    (moved : ∀ {u : Shelf} bytes, string = .ok bytes → u.Ranged → (moves u).Ranged) :
    (s.putBy f h string count moves).1.Ranged ∧ (s.putBy f h string count moves).2.Ranged := by
  unfold Shelf.putBy
  cases string with
  | error e => exact ⟨r.see, r⟩
  | ok bytes =>
      have stored : (s.setString h.node bytes).Ranged := r.setString (short bytes rfl)
      have put := moved bytes rfl stored
      exact ⟨put.see, put⟩

/-! The numbers that a write and a read lead to. -/

theorem end_of_overwritten {offset : Nat} {src bytes : ByteString} {terms : Terms}
    (done : s.overwritten h offset src terms = .ok bytes) :
    offset + src.length ≤ lastOffset ∧ bytes = (s.strings h.node).overwrite offset src := by
  unfold Shelf.overwritten at done
  split at done
  · cases done
  · split at done
    · cases done
    · next fits =>
        split at done
        · cases done
        · cases done
          exact ⟨Nat.le_of_not_lt fun beyond => fits (.inl beyond), rfl⟩

theorem overwritten (r : s.Ranged) {offset : Nat} {src bytes : ByteString} {terms : Terms}
    (done : s.overwritten h offset src terms = .ok bytes) : bytes.length ≤ lastOffset := by
  obtain ⟨near, rfl⟩ := end_of_overwritten done
  by_cases none : src = []
  · rw [ByteString.overwrite, if_pos none]
    exact r.strings _
  · rw [ByteString.length_overwrite none]
    exact Nat.max_le.2 ⟨r.strings _, near⟩

theorem resized {size : Nat} {bytes : ByteString} {terms : Terms} (near : size ≤ lastOffset)
    (done : s.resized h size terms = .ok bytes) : bytes.length ≤ lastOffset := by
  unfold Shelf.resized at done
  split at done
  · cases done
  · split at done
    · cases done
    · cases done
      rw [ByteString.length_resize]
      exact near

/-- A read leads no further than to the end of the content, unless it began behind it. -/
theorem end_of_bytesAt (r : s.Ranged) {offset len : Nat} {bytes : ByteString}
    (near : offset ≤ lastOffset) (done : s.bytesAt h offset len = .ok bytes) :
    offset + bytes.length ≤ lastOffset := by
  unfold Shelf.bytesAt at done
  split at done
  · cases done
    have := r.strings h.node
    rw [ByteString.length_slice]
    omega
  · cases done

theorem through (r : s.Ranged) {done : FileHandle → Reply × Shelf}
    (kept : ∀ h, s.handles f = some h → (done h).1.Ranged ∧ (done h).2.Ranged) :
    (∀ reply, (s.through f done).1 = some reply → reply.Ranged) ∧ (s.through f done).2.Ranged := by
  unfold Shelf.through
  cases hs : s.handles f with
  | none => exact ⟨nofun, r⟩
  | some h =>
      obtain ⟨reply, rest⟩ := kept h hs
      refine ⟨fun other same => ?_, rest⟩
      cases same
      exact reply

/-- An event in the range of offsets leaves all numbers there. -/
theorem answer (r : s.Ranged) {event : Event} (near : event.Ranged) :
    (∀ reply, (s.answer event).1 = some reply → reply.Ranged) ∧ (s.answer event).2.Ranged := by
  cases event with
  | opened f n flags =>
      obtain ⟨reply, rest⟩ := r.openBy (f := f) (n := n)
      refine ⟨fun other same => ?_, rest⟩
      cases same
      exact reply
  | unnamed f n flags =>
      have cut : (s.setString n []).Ranged := r.setString (Nat.zero_le _)
      obtain ⟨reply, rest⟩ := cut.enter (f := f) (n := n)
      refine ⟨fun other same => ?_, rest⟩
      cases same
      exact reply
  | closed f => exact ⟨nofun, r.setHandle nofun⟩
  | read f len =>
      exact r.through fun h hs => r.readBy fun bytes done =>
        r.moveTo (r.end_of_bytesAt (r.positions hs) done)
  | readAt f offset len => exact r.through fun h hs => r.readBy fun _ _ => r
  | write f src terms =>
      exact r.through fun h hs => r.putBy (fun _ done => r.overwritten done)
        fun _ done moved => moved.moveTo (end_of_overwritten done).1
  | writeAt f offset src terms =>
      exact r.through fun h hs => r.putBy (fun _ done => r.overwritten done) fun _ _ moved => moved
  | seek f position =>
      exact r.through fun h hs => ⟨(r.moveTo near).see, r.moveTo near⟩
  | setLength f size terms =>
      exact r.through fun h hs => r.putBy (fun _ done => resized near done) fun _ _ moved => moved
  | other => exact ⟨nofun, r⟩

theorem replies (r : s.Ranged) {events : List Event} (near : ∀ event ∈ events, event.Ranged) :
    ∀ reply, some reply ∈ s.replies events → reply.Ranged := by
  induction events generalizing s with
  | nil => nofun
  | cons event rest ih =>
      intro reply h
      obtain ⟨first, r⟩ := r.answer (near event List.mem_cons_self)
      rcases List.mem_cons.1 h with same | h
      · exact first reply same.symm
      · exact ih r (fun e he => near e (List.mem_cons_of_mem _ he)) reply h

end Ranged

end Shelf

namespace World

theorem event_ranged {call : Call} (near : call.Ranged) : (w.event call).Ranged := by
  cases call with
  | operate op =>
      cases op with
      | seek f position => exact near
      | setLength f size => exact near
      | openFile b flags =>
          simp only [event]
          split
          · exact trivial
          · exact trivial
      | openUnnamed dir mode flags =>
          simp only [event]
          split
          · exact trivial
          · exact trivial
      | _ => exact trivial
  | _ => exact trivial

theorem events_ranged {calls : List Call} (near : ∀ call ∈ calls, call.Ranged) :
    ∀ event ∈ w.events calls, event.Ranged := by
  induction calls generalizing w with
  | nil => nofun
  | cons call rest ih =>
      intro event h
      rcases List.mem_cons.1 h with rfl | h
      · exact event_ranged (near call List.mem_cons_self)
      · exact ih (fun e he => near e (List.mem_cons_of_mem _ he)) event h

end World

/-- Whatever is called, open files are seen to be plain strings of bytes with handles on
them. As long as callers keep within the range of offsets, the positions do. -/
theorem replies_eq_shelf (clock : Clock) (calls : List Call) :
    (World.fresh clock).replies calls
        = ({} : Shelf).replies ((World.fresh clock).events calls) ∧
      ((∀ call ∈ calls, call.Ranged) →
        ∀ reply, some reply ∈ (World.fresh clock).replies calls → reply.Ranged) := by
  have same : (World.fresh clock).replies calls
      = ({} : Shelf).replies ((World.fresh clock).events calls) :=
    Tracks.fresh.replies Sound.fresh calls
  refine ⟨same, fun near => ?_⟩
  rw [same]
  have start : Shelf.Ranged {} := ⟨fun _ => Nat.zero_le _, nofun⟩
  exact start.replies (World.events_ranged near)

/-- Two handles on a file that has lost its names: one appends, the other one reads the
gap, is refused a page but may write to one that is held, and goes beyond what the
instance allows. When that is gone positions are the only limit. -/
theorem replies_eq_shelf_unlinked :
    let calls : List Call := [.register builtInType, .mount "tagfs" "",
      .operate (.create 0 "a" ⟨0o644⟩), .operate (.link 1 0 "b"),
      .operate (.openFile 1 (.union .reading .writing)),
      .operate (.openFile 2 (.union .writing .appending)), .operate (.unlink 0 "a"),
      .operate (.unlink 0 "b"), .operate (.write 1 #[1, 2]), .operate (.setLength 0 4),
      .operate (.write 1 #[3]), .operate (.seek 0 1), .operate (.read 0 9),
      .setBudget .page (some 0), .operate (.writeAt 0 5000 #[4]), .operate (.writeAt 0 0 #[4]),
      .operate (.seek 0 (2 ^ 63 - 1)), .operate (.write 0 #[5]),
      .operate (.setLength 0 (2 ^ 63)), .drop (.inst 0), .operate (.setLength 0 (2 ^ 63)),
      .operate (.seek 0 (2 ^ 64 - 1)), .operate (.write 0 #[5])]
    let w := World.fresh (.steady 0 0 1)
    (w.replies calls).reduceOption.map (fun r => (r.result, r.bytes, r.position, r.size))
      = [(.ok 0, [], 0, 0), (.ok 0, [], 0, 0), (.ok 2, [], 2, 2), (.ok 0, [], 0, 4),
        (.ok 1, [], 5, 5), (.ok 0, [], 1, 5), (.ok 4, [2, 0, 0, 3], 5, 5),
        (.error .backingStore, [], 5, 5), (.ok 1, [], 5, 5),
        (.ok 0, [], 2 ^ 63 - 1, 5), (.error .fileTooLarge, [], 2 ^ 63 - 1, 5),
        (.error .fileTooLarge, [], 2 ^ 63 - 1, 5), (.ok 0, [], 2 ^ 63 - 1, 2 ^ 63),
        (.ok 0, [], 2 ^ 64 - 1, 2 ^ 63), (.error .fileTooLarge, [], 2 ^ 64 - 1, 2 ^ 63)] ∧
      w.replies calls = ({} : Shelf).replies (w.events calls) ∧
      ∀ reply, some reply ∈ w.replies calls → reply.Ranged := by
  intro calls w
  have near : ∀ call ∈ calls, call.Ranged := by
    simp [calls, Call.Ranged, lastOffset]
  obtain ⟨same, ranged⟩ := replies_eq_shelf (.steady 0 0 1) calls
  exact ⟨by decide +kernel, same, ranged near⟩

end Memfs
