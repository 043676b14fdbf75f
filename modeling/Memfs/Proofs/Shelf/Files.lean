import Memfs.Proofs.Shelf.Tracks

/-!
# What is done through a handle

Each operation on a handle on a regular file, beside the event that it is to a shelf.
Reading and moving the position cannot fail once the flags allow it. A change of the
content fails for want of a right, for its length or for want of pages, in this order,
and what it does not do it leaves undone.
-/

namespace Memfs

namespace Action

open World

variable {α β : Type} {w w' v : World} {a : α} {e : Error} {f : FileId} {n : NodeId} {node : Node}
  {h : FileHandle} {right : OpenFlags} {offset len size : Nat} {src : Bytes}

theorem into_discard {x : Action α} : (do let _ ← x : Action Unit).into w = x.into w := by
  unfold into
  cases hx : x w with
  | ok a v => rw [bind_of_ok hx]; rfl
  | error e v => rw [bind_of_error hx]

/-! ## The way to the content -/

/-- Only handles with the right lead to content. -/
theorem contentNode_eq_ok : contentNode f right w = .ok n w' ↔
    (∃ h, w.handleOf f = some h ∧ h.node = n ∧ h.flags.has right = true) ∧ w = w' := by
  simp only [contentNode, bind_eq_ok, file_eq_ok, fileNode_eq_ok, node_eq_ok, ite_eq_ok,
    throw_eq_ok, false_and, exists_false, and_false, or_false]
  constructor
  · rintro ⟨file, _, ⟨hf, rfl⟩, allowed, m, _, ⟨⟨_, hf', hm⟩, rfl⟩, node, _, ⟨hnode, rfl⟩, h⟩
    cases hf.symm.trans hf'
    cases kind : node.kind with
    | regular =>
        simp only [kind, pure_eq_ok] at h
        obtain ⟨rfl, rfl⟩ := h
        exact ⟨⟨_, handleOf_of_get? hf hm hnode kind, rfl, allowed⟩, rfl⟩
    | directory => simp [kind] at h
    | symlink => simp [kind] at h
    | special kind device => simp [*] at h
  · rintro ⟨⟨h, handle, rfl, allowed⟩, rfl⟩
    obtain ⟨file, node, hf, hn, hnode, kind, same⟩ := handleOf_eq_some_iff.1 handle
    rw [same] at allowed
    refine ⟨file, w, ⟨hf, rfl⟩, allowed, h.node, w, ⟨⟨file, hf, hn⟩, rfl⟩, node, w,
      ⟨hnode, rfl⟩, ?_⟩
    simp only [kind, pure_eq_ok, and_self]

theorem contentNode_of_forbidden (handle : w.handleOf f = some h)
    (forbidden : h.flags.has right = false) :
    contentNode f right w = .error .notPermitted w := by
  obtain ⟨file, node, hf, -, -, -, same⟩ := handleOf_eq_some_iff.1 handle
  rw [same] at forbidden
  refine (bind_of_ok (file_eq_ok.2 ⟨hf, rfl⟩)).trans ?_
  simp only [forbidden]
  rfl

/-! An operation that succeeded has found a handle. -/

theorem handle_of_contentNode {right : OpenFlags} (h : contentNode f right w = .ok n v) :
    ∃ h, w.handleOf f = some h := by
  obtain ⟨⟨h, handle, -, -⟩, -⟩ := contentNode_eq_ok.1 h
  exact ⟨h, handle⟩

theorem handle_of_readAt {bytes : Bytes} (h : readAt f offset len w = .ok bytes v) :
    ∃ h, w.handleOf f = some h := by
  obtain ⟨n, u, there, -⟩ := bind_eq_ok.1 h
  exact handle_of_contentNode there

theorem handle_of_writeAt {count : Nat} (h : writeAt f offset src w = .ok count v) :
    ∃ h, w.handleOf f = some h := by
  obtain ⟨n, u, there, -⟩ := bind_eq_ok.1 h
  exact handle_of_contentNode there

theorem handle_of_setLength (h : setLength f size w = .ok () v) : ∃ h, w.handleOf f = some h := by
  obtain ⟨n, u, there, -⟩ := bind_eq_ok.1 h
  exact handle_of_contentNode there

theorem handle_of_read {bytes : Bytes} (h : read f len w = .ok bytes v) :
    ∃ h, w.handleOf f = some h := by
  simp only [read, bind_eq_ok, file_eq_ok] at h
  obtain ⟨file, _, ⟨-, rfl⟩, bytes, u, done, -⟩ := h
  exact handle_of_readAt done

theorem handle_of_write {count : Nat} (h : write f src w = .ok count v) :
    ∃ h, w.handleOf f = some h := by
  simp only [write, bind_eq_ok, file_eq_ok, ite_eq_ok, fileNode_eq_ok, node_eq_ok, pure_eq_ok] at h
  obtain ⟨file, _, ⟨-, rfl⟩, h⟩ := h
  rcases h with ⟨-, n, _, ⟨-, rfl⟩, node, _, ⟨-, rfl⟩, offset, _, ⟨-, rfl⟩, count, u, done, -⟩ |
    ⟨-, offset, _, ⟨-, rfl⟩, count, u, done, -⟩
  · exact handle_of_writeAt done
  · exact handle_of_writeAt done

/-! ## The terms of the instance and the host -/

theorem limit_terms : (w.terms node).limit = w.maxBytes node := by
  unfold terms maxBytes
  cases w.instances.get? node.home with
  | none => rfl
  | some home => rfl

/-- The pages that a write lacks are those that it asks the host for. -/
theorem card_lacking {map : PageMap} :
    (map.lacking offset len).card = (map.missing offset len).length := by
  have same : map.lacking offset len = (map.missing offset len).toFinset := by
    ext i
    simp only [PageMap.lacking, PageMap.missing, List.mem_toFinset, List.mem_filter,
      PageMap.mem_touched, Finset.mem_filter, Finset.mem_image, Finset.mem_range, pageSize,
      ← Std.TreeMap.contains_iff_mem, Bool.not_eq_true', Bool.not_eq_true]
    refine and_congr_left fun _ => ⟨?_, fun touched => ?_⟩
    · rintro ⟨k, small, rfl⟩
      omega
    · exact ⟨max offset (i * 4096) - offset, by omega, by omega⟩
  rw [same]
  exact List.toFinset_card_of_nodup (PageMap.nodup_touched.filter _)

theorem grants_terms : (w.terms node).grants offset len
    = (w.host.room .page).all ((node.content.missing offset len).length ≤ ·) := by
  rw [← card_lacking]
  rfl

/-! ## Work on content -/

theorem readContent_of_get? (hn : w.nodes.get? n = some node) :
    readContent n offset len w = .ok (node.content.read offset len) (w.markAccessed n) := by
  refine (bind_of_ok (node_eq_ok.2 ⟨hn, rfl⟩)).trans ?_
  rfl

theorem storeBytes_granted (hn : w.nodes.get? n = some node) {string : ByteString}
    (shows : node.content.Shows string) (fits : offset + src.size ≤ offsetLimit)
    (granted : (w.terms node).grants offset src.size = true) :
    ∃ host content, storeBytes n offset src w
        = .ok () (World.modifyNode { w with host } n ({ · with content })) ∧
      content.Shows (string.overwrite offset src.toList) := by
  rw [grants_terms] at granted
  obtain ⟨content, host, written, shows⟩ := shows.write_granted fits granted
  refine ⟨host, content, (bind_of_ok (node_eq_ok.2 ⟨hn, rfl⟩)).trans ?_, shows⟩
  refine (bind_of_ok (onHost_eq_ok.2 ⟨rfl, rfl⟩)).trans ?_
  rw [written]
  rfl

theorem storeBytes_refused (hn : w.nodes.get? n = some node)
    (fits : offset + src.size ≤ offsetLimit)
    (refused : (w.terms node).grants offset src.size = false) :
    ∃ host, storeBytes n offset src w = .error .backingStore { w with host } := by
  rw [grants_terms] at refused
  obtain ⟨host, written⟩ := PageMap.write_refused fits refused
  refine ⟨host, (bind_of_ok (node_eq_ok.2 ⟨hn, rfl⟩)).trans ?_⟩
  refine (bind_of_ok (onHost_eq_ok.2 ⟨rfl, rfl⟩)).trans ?_
  rw [written]
  rfl

/-- A content that is too long for the range of offsets or for the instance. -/
theorem writeContent_tooLarge (hn : w.nodes.get? n = some node)
    (long : offsetLimit < offset + src.size ∨ w.maxBytes node < offset + src.size) :
    writeContent n offset src w = .error .fileTooLarge w := by
  refine (bind_of_ok (node_eq_ok.2 ⟨hn, rfl⟩)).trans ?_
  by_cases beyond : offsetLimit < offset + src.size
  · simp only [if_pos beyond]
    rfl
  · simp only [if_neg beyond]
    refine (bind_of_ok (get_eq_ok.2 ⟨rfl, rfl⟩)).trans ?_
    simp only [if_pos (long.resolve_left beyond)]
    rfl

theorem writeContent_bind (hn : w.nodes.get? n = some node)
    (fits : ¬ (offsetLimit < offset + src.size ∨ w.maxBytes node < offset + src.size)) :
    writeContent n offset src w = (do
      storeBytes n offset src
      let time ← now n
      modify (·.modifyNode n (·.written time))
      return src.size : Action Nat) w := by
  refine (bind_of_ok (node_eq_ok.2 ⟨hn, rfl⟩)).trans ?_
  simp only [if_neg fun beyond => fits (.inl beyond)]
  refine (bind_of_ok (get_eq_ok.2 ⟨rfl, rfl⟩)).trans ?_
  simp only [if_neg fun long => fits (.inr long)]

theorem writeContent_of_ok (hn : w.nodes.get? n = some node)
    (fits : ¬ (offsetLimit < offset + src.size ∨ w.maxBytes node < offset + src.size))
    (stored : storeBytes n offset src w = .ok () v) :
    writeContent n offset src w = .ok src.size (v.touch n) :=
  (writeContent_bind hn fits).trans (bind_of_ok stored)

theorem writeContent_of_error (hn : w.nodes.get? n = some node)
    (fits : ¬ (offsetLimit < offset + src.size ∨ w.maxBytes node < offset + src.size))
    (refused : storeBytes n offset src w = .error e v) :
    writeContent n offset src w = .error e v :=
  (writeContent_bind hn fits).trans (bind_of_error refused)

theorem resizeContent_tooLarge (hn : w.nodes.get? n = some node) (long : w.maxBytes node < size) :
    resizeContent n size w = .error .fileTooLarge w := by
  refine (bind_of_ok (node_eq_ok.2 ⟨hn, rfl⟩)).trans ?_
  refine (bind_of_ok (get_eq_ok.2 ⟨rfl, rfl⟩)).trans ?_
  simp only [if_pos long]
  rfl

theorem resizeContent_of_fits (hn : w.nodes.get? n = some node) (fits : ¬ w.maxBytes node < size) :
    resizeContent n size w = .ok () ((w.resized n node size).touch n) := by
  refine (bind_of_ok (node_eq_ok.2 ⟨hn, rfl⟩)).trans ?_
  refine (bind_of_ok (get_eq_ok.2 ⟨rfl, rfl⟩)).trans ?_
  simp only [if_neg fits]
  rfl

end Action

open World Memfs.Action

/-! ## What a shelf says of it -/

/-- An operation ends as a shelf says of the content of a node: it fails and the shelf
stays, or the content is put in place and then what `moves` says is done. -/
def Puts {α : Type} (w : World) (s : Shelf) (n : NodeId) (x : Action α) (a : α)
    (moves : Shelf → Shelf) : Except Error ByteString → Prop
  | .error e => ∃ v, x w = .error e v ∧ Tracks v s
  | .ok string => ∃ v, x w = .ok a v ∧ Tracks v (moves (s.setString n string))

namespace Tracks

variable {w v : World} {s : Shelf} {f : FileId} {n : NodeId} {node : Node} {h : FileHandle}
  {offset len size : Nat} {src : Bytes}

theorem onHost (t : Tracks w s) {host : Host} : Tracks { w with host } s :=
  t.changes (Changes.refl.onHost)

theorem touch (t : Tracks w s) : Tracks (w.touch n) s := t.changes Changes.refl.now.written

theorem markAccessed (t : Tracks w s) : Tracks (w.markAccessed n) s :=
  t.changes Changes.refl.now.accessed

theorem resized (t : Tracks w s) (hn : w.nodes.get? n = some node)
    (regular : node.kind = .regular) (size : Nat) :
    Tracks ((w.resized n node size).touch n) (s.setString n ((s.strings n).resize size)) := by
  have released : Tracks { w with host := (node.content.resize w.host size).2 } s := t.onHost
  exact (released.setString hn (t.shows hn regular).resized).touch

theorem writeContent (t : Tracks w s) (hn : w.nodes.get? n = some node)
    (regular : node.kind = .regular)
    (fits : ¬ (offsetLimit < offset + src.size ∨ w.maxBytes node < offset + src.size)) :
    Puts w s n (Action.writeContent n offset src) src.size id
      (if !(w.terms node).grants offset src.size then .error .backingStore
        else .ok ((s.strings n).overwrite offset src.toList)) := by
  have end_le : offset + src.size ≤ offsetLimit := Nat.le_of_not_lt fun h => fits (.inl h)
  cases granted : (w.terms node).grants offset src.size with
  | false =>
      obtain ⟨host, refused⟩ := storeBytes_refused hn end_le granted
      exact ⟨_, writeContent_of_error hn fits refused, t.onHost⟩
  | true =>
      obtain ⟨host, content, stored, shows⟩ :=
        storeBytes_granted hn (t.shows hn regular) end_le granted
      have charged : Tracks { w with host } s := t.onHost
      exact ⟨_, writeContent_of_ok hn fits stored, (charged.setString hn shows).touch⟩

/-! ## Through a handle -/

/-- What a handle leads to. -/
theorem found (t : Tracks w s) (hs : s.handles f = some h) : w.handleOf f = some h ∧
    ∃ node, w.nodes.get? h.node = some node ∧ node.kind = .regular ∧
      w.termsOf f = w.terms node := by
  have handle := (t.handles f).symm.trans hs
  obtain ⟨file, node, hf, hn, hnode, regular, -⟩ := handleOf_eq_some_iff.1 handle
  refine ⟨handle, node, hnode, regular, ?_⟩
  unfold termsOf
  rw [hf, Option.bind_some, hn, Option.bind_some, hnode]
  rfl

theorem readAt (t : Tracks w s) (hs : s.handles f = some h) (offset len : Nat) :
    match s.bytesAt h offset len with
    | .error e => Action.readAt f offset len w = .error e w
    | .ok bytes => ∃ got v, Action.readAt f offset len w = .ok got v ∧ got.toList = bytes ∧
        Tracks v s := by
  obtain ⟨handle, node, hn, regular, -⟩ := t.found hs
  unfold Shelf.bytesAt
  cases allowed : h.flags.has .reading with
  | false => exact bind_of_error (contentNode_of_forbidden handle allowed)
  | true =>
      refine ⟨_, _, (bind_of_ok (contentNode_eq_ok.2 ⟨⟨h, handle, rfl, allowed⟩, rfl⟩)).trans
        (readContent_of_get? hn), ?_, t.markAccessed⟩
      exact (t.shows hn regular).read offset len

theorem writeAt (t : Tracks w s) (hs : s.handles f = some h) (offset : Nat) :
    Puts w s h.node (Action.writeAt f offset src) src.size id
      (s.overwritten h offset src.toList (w.termsOf f)) := by
  obtain ⟨handle, node, hn, regular, terms⟩ := t.found hs
  unfold Shelf.overwritten
  rw [terms, Array.length_toList]
  cases allowed : h.flags.has .writing with
  | false => exact ⟨w, bind_of_error (contentNode_of_forbidden handle allowed), t⟩
  | true =>
      have there := contentNode_eq_ok.2 ⟨⟨h, handle, rfl, allowed⟩, rfl⟩
      have done : Action.writeAt f offset src w = Action.writeContent h.node offset src w :=
        bind_of_ok there
      unfold Puts
      rw [done]
      rw [limit_terms]
      by_cases long : lastOffset < offset + src.size ∨ w.maxBytes node < offset + src.size
      · simp only [if_pos long]
        exact ⟨w, writeContent_tooLarge hn long, t⟩
      · simp only [if_neg long]
        exact t.writeContent hn regular long

theorem setLength (t : Tracks w s) (hs : s.handles f = some h) :
    Puts w s h.node (Action.setLength f size) () id (s.resized h size (w.termsOf f)) := by
  obtain ⟨handle, node, hn, regular, terms⟩ := t.found hs
  unfold Shelf.resized
  rw [terms]
  cases allowed : h.flags.has .writing with
  | false => exact ⟨w, bind_of_error (contentNode_of_forbidden handle allowed), t⟩
  | true =>
      have there := contentNode_eq_ok.2 ⟨⟨h, handle, rfl, allowed⟩, rfl⟩
      have done : Action.setLength f size w = Action.resizeContent h.node size w :=
        bind_of_ok there
      unfold Puts
      rw [done]
      rw [limit_terms]
      by_cases long : w.maxBytes node < size
      · simp only [if_pos long]
        exact ⟨w, resizeContent_tooLarge hn long, t⟩
      · simp only [if_neg long]
        exact ⟨_, resizeContent_of_fits hn long, t.resized hn regular size⟩

/-- Where a handle is to write is where the file writes. -/
theorem write_bind (t : Tracks w s) (hs : s.handles f = some h) :
    Action.write f src w = (do
      let written ← Action.writeAt f (s.offsetOf h) src
      seek f (s.offsetOf h + written)
      return written : Action Nat) w := by
  obtain ⟨handle, node, hn, regular, -⟩ := t.found hs
  obtain ⟨file, -, hf, bound, -, -, same⟩ := handleOf_eq_some_iff.1 handle
  refine (bind_of_ok (file_eq_ok.2 ⟨hf, rfl⟩)).trans ?_
  have flags : h.flags = file.flags := congrArg FileHandle.flags same
  unfold Shelf.offsetOf
  rw [flags]
  split
  · refine (bind_of_ok (fileNode_eq_ok.2 ⟨⟨file, hf, bound⟩, rfl⟩)).trans ?_
    refine (bind_of_ok (node_eq_ok.2 ⟨hn, rfl⟩)).trans ?_
    rw [← (t.shows hn regular).size]
    rfl
  · rw [show h.position = file.position from congrArg FileHandle.position same]
    rfl

theorem write (t : Tracks w s) (hs : s.handles f = some h) :
    Puts w s h.node (Action.write f src) src.size (·.moveTo f (s.offsetOf h + src.size))
      (s.overwritten h (s.offsetOf h) src.toList (w.termsOf f)) := by
  have done : Puts w s h.node (Action.writeAt f (s.offsetOf h) src) src.size id _ :=
    t.writeAt hs (s.offsetOf h)
  unfold Puts
  rw [t.write_bind hs]
  cases string : s.overwritten h (s.offsetOf h) src.toList (w.termsOf f) with
  | error e =>
      rw [string] at done
      obtain ⟨v, failed, t⟩ := done
      exact ⟨v, bind_of_error failed, t⟩
  | ok string' =>
      rw [string] at done
      obtain ⟨v, written, t⟩ := done
      exact ⟨_, bind_of_ok written, t.moveTo f _⟩

end Tracks

end Memfs
