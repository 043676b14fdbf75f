import Memfs.Proofs.Changes.Mounts
import Memfs.Proofs.Contents

/-!
# Targets of symlinks

A symlink is made with its target: the bytes of the text and a zero byte behind them,
which the length then leaves out, so that a text that fills its last page puts the zero
in a page of its own. Nothing is written to a symlink later, for the way from an open
file to content leads to regular nodes only. `Leads` is kept by each of the changes that a
world may see, and whatever becomes of the names of a symlink, every name that it still
has or comes to have reads as the text that was asked for.
-/

namespace Memfs

/-- What is encoded is decoded. -/
theorem String.fromUTF8?_toUTF8 {s : String} : String.fromUTF8? s.toUTF8 = some s := by
  unfold String.fromUTF8?
  rw [String.toUTF8_eq_toByteArray, dif_pos s.isValidUTF8]
  rfl

/-- The bytes of a text. -/
def ByteString.ofText (text : String) : ByteString := text.toUTF8.data.toList

theorem ByteString.length_ofText {text : String} :
    (ByteString.ofText text).length = text.utf8ByteSize := by
  unfold ByteString.ofText
  rw [Array.length_toList]
  rfl

/-- A string that is written to nothing is all that there is. -/
theorem ByteString.overwrite_nil {src : ByteString} : ByteString.overwrite [] 0 src = src := by
  unfold ByteString.overwrite
  split
  · next none => rw [none]
  · simp [ByteString.resize]

/-- The number was given to a symlink with this target, which may be gone by now. -/
structure World.Leads (w : World) (n : NodeId) (target : String) : Prop where
  born : n < w.nodes.nextId
  symlink : ∀ {x}, w.nodes.get? n = some x → x.kind = .symlink ∧ x.mode = Action.symlinkMode
  shows : ∀ {x}, w.nodes.get? n = some x → x.content.Shows (.ofText target)

namespace World.Leads

open World

variable {w v : World} {n : NodeId} {target : String}

/-! ## One change -/

/-- The symlink is as it was, or gone. -/
theorem mono (h : w.Leads n target) (born : w.nodes.nextId ≤ v.nodes.nextId)
    (kept : ∀ {x}, v.nodes.get? n = some x → w.nodes.get? n = some x) : v.Leads n target where
  born := Nat.lt_of_lt_of_le h.born born
  symlink hx := h.symlink (kept hx)
  shows hx := h.shows (kept hx)

/-- A node is changed, but the content of a symlink is not. -/
theorem modifyNode (h : w.Leads n target) {m : NodeId} {f : Node → Node}
    (kept : ∀ x, w.nodes.get? m = some x → x.kind = .symlink →
      (f x).kind = x.kind ∧ (f x).mode = x.mode ∧ (f x).content = x.content) :
    (w.modifyNode m f).Leads n target := by
  have before : ∀ {y}, (w.modifyNode m f).nodes.get? n = some y → ∃ x,
      w.nodes.get? n = some x ∧ y.kind = x.kind ∧ y.mode = x.mode ∧ y.content = x.content := by
    intro y hy
    rcases Table.get?_of_modify hy with ⟨rfl, x, hx, rfl⟩ | ⟨-, hy⟩
    · exact ⟨x, hx, kept x hx (h.symlink hx).1⟩
    · exact ⟨y, hy, rfl, rfl, rfl⟩
  refine ⟨Nat.lt_of_lt_of_eq h.born Table.nextId_modify.symm, fun hy => ?_, fun hy => ?_⟩
  · obtain ⟨x, hx, kind, mode, -⟩ := before hy
    rw [kind, mode]
    exact h.symlink hx
  · obtain ⟨x, hx, -, -, content⟩ := before hy
    rw [content]
    exact h.shows hx

theorem change {writes : Prop} (c : Change writes w v) (h : w.Leads n target) :
    v.Leads n target := by
  cases c.onNodes with
  | same nodes => exact h.mono c.nodes_kept.next fun hx => nodes ▸ hx
  | push _ nodes =>
      refine h.mono c.nodes_kept.next fun hx => ?_
      rw [nodes, Table.get?_push_of_ne (Nat.ne_of_lt h.born)] at hx
      exact hx
  | modify rest _ written nodes =>
      refine (h.modifyNode fun x hx link => ⟨?_, ?_, ?_⟩).mono (Nat.le_of_eq (nodes ▸ rfl))
        fun hx => nodes ▸ hx
      · rw [rest x]
      · rw [rest x]
      · -- content that is written to is that of a regular node
        refine (written x hx).resolve_right fun ⟨_, regular⟩ => ?_
        cases link.symm.trans regular
  | erase nodes =>
      refine h.mono c.nodes_kept.next fun hx => ?_
      rw [nodes] at hx
      exact Table.get?_of_erase hx

theorem changes {writes : Prop} (c : Changes writes w v) (h : w.Leads n target) :
    v.Leads n target :=
  c.keeps (P := (·.Leads n target)) (fun last h => h.change last) h

/-! ## Making and reading -/

/-- The closing zero is written with the target, and left out by the length. -/
theorem of_newSymlink {home : InstanceId} {dir : Option NodeId} {v' : World}
    (made : Action.newNode home dir Action.symlinkMode .none w = .ok n v)
    (stored : Action.storeTarget n (target.toUTF8.data.push 0) v = .ok () v') :
    v'.Leads n target := by
  obtain ⟨rfl, host, ino, time, _, rfl, flags, before, after, content, written, rfl⟩ :=
    Action.newSymlink_ok made stored
  have all : content.Shows (ByteString.ofText target ++ List.replicate 1 0) := by
    have shown := PageMap.Shows.write .empty written
    rw [ByteString.overwrite_nil, Array.toList_push] at shown
    exact shown
  have cut : (content.setSize ((target.toUTF8.data.push 0).size - 1)).Shows (.ofText target) := by
    rw [Array.size_push, Nat.add_sub_cancel, ← Array.length_toList]
    exact all.setSize
  refine ⟨Nat.lt_of_lt_of_eq (Nat.lt_succ_self _) Table.nextId_push.symm, fun hx => ?_,
    fun hx => ?_⟩
  · cases Table.get?_push_self.symm.trans hx
    exact ⟨rfl, rfl⟩
  · cases Table.get?_push_self.symm.trans hx
    exact cut

theorem size (h : w.Leads n target) {x : Node} (hx : w.nodes.get? n = some x) :
    x.size = target.utf8ByteSize :=
  (h.shows hx).size.trans ByteString.length_ofText

/-- Every binding of the symlink reads as the target. -/
theorem readlink (h : w.Leads n target) {c : BindingId} (there : w.nodes.has n = true)
    (bound : w.nodeOf c = some n) : w.readlink c = .ok target := by
  obtain ⟨x, hx⟩ := Table.has_iff.1 there
  have link : w.bindsSymlink c = true := by
    unfold bindsSymlink
    rw [bound, Option.bind_some, hx, Option.any_some, (h.symlink hx).2]
    decide
  have bytes : x.content.read 0 x.size = target.toUTF8.data := by
    refine Array.toList_inj.1 (((h.shows hx).read 0 x.size).trans ?_)
    rw [h.size hx, ← ByteString.length_ofText, ByteString.slice, List.drop_zero,
      List.take_length]
    rfl
  unfold World.readlink World.target
  simp only [bound, link, if_true, hx, bytes]
  rw [show (⟨target.toUTF8.data⟩ : ByteArray) = target.toUTF8 from rfl, String.fromUTF8?_toUTF8]

end World.Leads

/-! ## After any run -/

open World

variable {w w' : World}

/-- The binding that is handed out stands for a symlink with the target. -/
theorem Sound.leads_of_symlink (s : Sound w []) {dir b : BindingId} {name target : String}
    (done : Action.symlink dir name target w = .ok b w') :
    ∃ n, w'.nodeOf b = some n ∧ w'.nodes.has n = true ∧ w'.Leads n target := by
  obtain ⟨checked, d, hd, hdir, made⟩ := Action.symlink_ok done
  obtain ⟨free, v, fresh, made⟩ := Action.makeName_ok made
  obtain ⟨sv, vacant⟩ := s.newBinding hd hdir checked free fresh
  obtain ⟨home, n, u, u', -, node, stored, rfl⟩ := Action.makeSymlinkAt_ok made
  obtain ⟨-, -, -, same⟩ := sv.newNode node
  obtain ⟨kept, -⟩ := Action.storeTarget_frame stored
  have bound : (((u'.instantiate b n).pin b).touch d).nodeOf b = some n := by
    have pinned : ((u'.instantiate b n).pin b).nodeOf b = (u'.instantiate b n).nodeOf b :=
      SameTree.pin.nodeOf
    rw [SameTree.touch.nodeOf, pinned, (vacant.of_bindings (kept.trans same)).nodeOf_instantiate,
      if_pos rfl]
  refine ⟨n, bound, (s.symlink done).tended.there (owned_of_nodeOf bound), ?_⟩
  have placed : Changes False u' (((u'.instantiate b n).pin b).touch d) :=
    Changes.refl.instantiate.pin.now.written
  exact .changes placed (.of_newSymlink node stored)

/-- Whatever was called before and is called later: as long as the node of a symlink is
there, its size is the length of the target in bytes, and each of its bindings reads as
the target. -/
theorem readlink_run (clock : Clock) (before : List Call) {dir b : BindingId}
    {name target : String}
    (done : Action.symlink dir name target ((World.fresh clock).run before) = .ok b w') :
    ∃ n, w'.nodeOf b = some n ∧ w'.nodes.has n = true ∧
      ∀ (later : List Call) (x : Node), (w'.run later).nodes.get? n = some x →
        x.size = target.utf8ByteSize ∧
          ∀ c, (w'.run later).nodeOf c = some n → (w'.run later).readlink c = .ok target := by
  have s : Sound ((World.fresh clock).run before) [] := Sound.fresh.run before
  obtain ⟨n, bound, there, leads⟩ := s.leads_of_symlink done
  refine ⟨n, bound, there, fun later x hx => ?_⟩
  have leads : (w'.run later).Leads n target := .changes (run_changes (s.symlink done) later) leads
  exact ⟨leads.size hx, fun c => leads.readlink (Table.has_of_get? hx)⟩

/-- The symlink is linked, moved and opened for cutting and writing, and its first name is
removed. The other name still reads as before. -/
theorem readlink_run_renamed :
    let before : List Call := [.register builtInType, .mount "tagfs" ""]
    let later : List Call := [.operate (.link 1 0 "b"), .operate (.rename 0 "a" 0 "c" ⟨0⟩),
      .operate (.openFile 1 (.union .writing .truncating)), .operate (.writeAt 0 0 #[120]),
      .operate (.setLength 0 0), .operate (.unlink 0 "c")]
    ∃ w', Action.symlink 0 "a" "x/y" ((World.fresh (.steady 0 0 1)).run before) = .ok 1 w' ∧
      (w'.run later).child? 0 "b" = some 2 ∧ (w'.run later).readlink 2 = .ok "x/y" := by
  intro before later
  have seen : (match Action.symlink 0 "a" "x/y" ((World.fresh (.steady 0 0 1)).run before) with
      | .ok b w' => some (b, w'.nodeOf b, (w'.run later).child? 0 "b", (w'.run later).nodeOf 2,
          (w'.run later).nodes.has 1)
      | .error _ _ => none) = some (1, some 1, some 2, some 1, true) := by decide +kernel
  cases done : Action.symlink 0 "a" "x/y" ((World.fresh (.steady 0 0 1)).run before) with
  | error e w' =>
      rw [done] at seen
      cases seen
  | ok b w' =>
      rw [done] at seen
      simp only [Option.some.injEq, Prod.mk.injEq] at seen
      obtain ⟨rfl, bound, name, other, there⟩ := seen
      obtain ⟨n, same, -, leads⟩ := readlink_run (.steady 0 0 1) before done
      cases bound.symm.trans same
      obtain ⟨x, hx⟩ := Table.has_iff.1 there
      exact ⟨w', rfl, name, (leads later x hx).2 2 other⟩

end Memfs
