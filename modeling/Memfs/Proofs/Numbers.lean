import Memfs.Proofs.Housekeeping

/-!
# Inode numbers

The counter goes through all words but zero before it comes to one again: the number after
the greatest is one. So of fewer than `2 ^ 64` numbers that are drawn one after another no two
are equal, wherever the counter stood (`Host.inos_nodup`).

`Numbered` carries this over to nodes. It says of two worlds which numbers were drawn on the
way from one to the other, that a node that was made on the way has one of them, in the order
in which nodes were made, and that all others have the number that they had. The numbers are
looked up in the journal, where each that was drawn to make a node is noticed, whether the
node was made or not. A step is looked at once for each sort (`Noticed.quiet`,
`Noticed.housekeeping`); only the making of a node draws a number.
-/

namespace Memfs

/-! ## The counter -/

namespace Host

variable {host host' : Host} {j k : Nat}

/-- The next `k` inode numbers. -/
def inos (host : Host) : Nat → List UInt64
  | 0 => []
  | k + 1 => host.drawIno.1 :: host.drawIno.2.inos k

/-- The host after `k` inode numbers were drawn. -/
def drawn (host : Host) : Nat → Host
  | 0 => host
  | k + 1 => host.drawIno.2.drawn k

theorem drawIno_congr (same : host'.nextIno = host.nextIno) :
    host'.drawIno.1 = host.drawIno.1 ∧ host'.drawIno.2.nextIno = host.drawIno.2.nextIno := by
  unfold drawIno
  rw [same]
  exact ⟨rfl, rfl⟩

/-- Nothing counts but the counter. -/
theorem inos_congr (same : host'.nextIno = host.nextIno) :
    host'.inos k = host.inos k ∧ (host'.drawn k).nextIno = (host.drawn k).nextIno := by
  induction k generalizing host host' with
  | zero => exact ⟨rfl, same⟩
  | succ k ih =>
      obtain ⟨ino, next⟩ := drawIno_congr same
      obtain ⟨inos, after⟩ := ih next
      exact ⟨congrArg₂ List.cons ino inos, after⟩

theorem inos_add : host.inos (j + k) = host.inos j ++ (host.drawn j).inos k := by
  induction j generalizing host with
  | zero => rw [Nat.zero_add]; rfl
  | succ j ih => rw [Nat.succ_add, inos, ih]; rfl

theorem drawn_add : host.drawn (j + k) = (host.drawn j).drawn k := by
  induction j generalizing host with
  | zero => rw [Nat.zero_add]; rfl
  | succ j ih => rw [Nat.succ_add, drawn, ih]; rfl

theorem drawIno_pos : 0 < host.drawIno.1.toNat := by
  unfold drawIno
  simp only
  split
  · decide
  · next some => exact Nat.pos_of_ne_zero fun none => some (UInt64.toNat_inj.1 none)

/-- The number after the greatest is one. -/
theorem toNat_drawIno_next :
    host.drawIno.2.drawIno.1.toNat = host.drawIno.1.toNat % (UInt64.size - 1) + 1 := by
  have positive : 0 < host.drawIno.1.toNat := drawIno_pos
  have bounded : host.drawIno.1.toNat < UInt64.size := UInt64.toNat_lt_size _
  have next : host.drawIno.2.nextIno = host.drawIno.1 + 1 := rfl
  have sum : (host.drawIno.1 + 1).toNat = (host.drawIno.1.toNat + 1) % UInt64.size :=
    UInt64.toNat_add ..
  rw [drawIno, next]
  simp only
  by_cases last : host.drawIno.1.toNat = UInt64.size - 1
  · have wrapped : host.drawIno.1 + 1 = 0 := by
      rw [← UInt64.toNat_inj, sum, last]
      rfl
    rw [if_pos wrapped, last, Nat.mod_self]
    rfl
  · rw [Nat.mod_eq_of_lt (by omega)] at sum
    have some : host.drawIno.1 + 1 ≠ 0 := fun none => by
      rw [none] at sum
      cases sum
    rw [if_neg some, sum, Nat.mod_eq_of_lt (by omega)]

/-- The numbers go round, from where they begin. -/
theorem toNat_inos : (host.inos k).map UInt64.toNat = (List.range k).map fun j =>
    (host.drawIno.1.toNat - 1 + j) % (UInt64.size - 1) + 1 := by
  induction k generalizing host with
  | zero => rfl
  | succ k ih =>
      have positive : 0 < host.drawIno.1.toNat := drawIno_pos
      have bounded : host.drawIno.1.toNat < UInt64.size := UInt64.toNat_lt_size _
      rw [inos, List.map_cons, ih, List.range_succ_eq_map, List.map_cons, List.map_map,
        toNat_drawIno_next]
      congr 1
      · rw [Nat.add_zero, Nat.mod_eq_of_lt (by omega)]
        omega
      · refine List.map_congr_left fun j _ => ?_
        show (_ % _ + 1 - 1 + j) % _ + 1 = (_ + (j + 1)) % _ + 1
        rw [Nat.add_sub_cancel, Nat.mod_add_mod]
        congr 2
        omega

/-- Of fewer than `2 ^ 64` numbers in a row no two are equal. -/
theorem inos_nodup (few : k < UInt64.size) : (host.inos k).Nodup := by
  refine List.Nodup.of_map UInt64.toNat ?_
  rw [toNat_inos]
  refine List.Nodup.map_on (fun i hi j hj same => ?_) List.nodup_range
  have hi := List.mem_range.1 hi
  have hj := List.mem_range.1 hj
  unfold UInt64.size at few same
  omega

/-- No number is zero. -/
theorem zero_notMem_inos : 0 ∉ host.inos k := by
  induction k generalizing host with
  | zero => exact List.not_mem_nil
  | succ k ih =>
      have some : 0 ≠ host.drawIno.1 := fun none => by
        have positive : 0 < host.drawIno.1.toNat := drawIno_pos
        rw [← none] at positive
        cases positive
      rw [inos, List.mem_cons, not_or]
      exact ⟨some, ih⟩

end Host

/-! ## Numbers of nodes -/

/-- The numbers that nodes were made with. -/
def madeInos (log : List Draw) : List UInt64 := (log.filter (·.node)).map (·.ino)

theorem madeInos_append {log log' : List Draw} :
    madeInos (log ++ log') = madeInos log ++ madeInos log' := by
  rw [madeInos, List.filter_append, List.map_append]
  rfl

namespace World

variable {w v u : World} {log log' : List Draw}

/-- The inode number that a node ought to have: the one that it had, or the one that it was made
with. -/
def inoFrom (w : World) (made : List UInt64) (n : NodeId) : Option UInt64 :=
  if n < w.nodes.nextId then (w.nodes.get? n).map (·.ino) else made[n - w.nodes.nextId]?

/-- The numbers were drawn on the way from one world to the other. -/
structure Numbered (w v : World) (log : List Draw) : Prop where
  inos : log.map (·.ino) = w.host.inos log.length
  nextIno : v.host.nextIno = (w.host.drawn log.length).nextIno
  nextId : v.nodes.nextId = w.nodes.nextId + (madeInos log).length
  nodes : ∀ n x, v.nodes.get? n = some x → w.inoFrom (madeInos log) n = some x.ino

namespace Numbered

theorem refl : w.Numbered w [] where
  inos := rfl
  nextIno := rfl
  nextId := rfl
  nodes n x hx := by
    rw [inoFrom, if_pos (Table.get?_lt hx), hx]
    rfl

theorem trans (h : w.Numbered v log) (h' : v.Numbered u log') : w.Numbered u (log ++ log') where
  inos := by
    rw [List.map_append, List.length_append, Host.inos_add, h.inos, h'.inos,
      (Host.inos_congr h.nextIno).1]
  nextIno := by
    rw [List.length_append, Host.drawn_add, h'.nextIno, (Host.inos_congr h.nextIno).2]
  nextId := by
    rw [madeInos_append, List.length_append, h'.nextId, h.nextId, Nat.add_assoc]
  nodes n x hx := by
    have now := h'.nodes n x hx
    rw [madeInos_append]
    by_cases known : n < v.nodes.nextId
    · rw [inoFrom, if_pos known] at now
      obtain ⟨y, hy, same⟩ := Option.map_eq_some_iff.1 now
      have before := h.nodes n y hy
      rw [h.nextId] at known
      rw [inoFrom] at before ⊢
      split
      · next old => rw [← same, ← before, if_pos old]
      · next new =>
          have place : n - w.nodes.nextId < (madeInos log).length :=
            Nat.sub_lt_left_of_lt_add (Nat.le_of_not_lt new) known
          rw [if_neg new] at before
          rw [List.getElem?_append_left place, before, same]
    · rw [inoFrom, if_neg known, h.nextId, ← Nat.sub_sub] at now
      rw [h.nextId] at known
      have place : (madeInos log).length ≤ n - w.nodes.nextId :=
        Nat.le_sub_of_add_le' (Nat.le_of_not_lt known)
      have new : ¬ n < w.nodes.nextId := fun old => known (Nat.lt_add_right _ old)
      rw [inoFrom, if_neg new, List.getElem?_append_right place, now]

/-- No number was drawn, and the nodes that are left have the numbers that they had. -/
theorem undrawn (nextIno : v.host.nextIno = w.host.nextIno)
    (nextId : v.nodes.nextId = w.nodes.nextId)
    (nodes : ∀ n x, v.nodes.get? n = some x → ∃ y, w.nodes.get? n = some y ∧ x.ino = y.ino) :
    w.Numbered v [] where
  inos := rfl
  nextIno := nextIno
  nextId := nextId
  nodes n x hx := by
    obtain ⟨y, hy, same⟩ := nodes n x hx
    rw [inoFrom, if_pos (Table.get?_lt hy), hy, same]
    rfl

theorem same (nextIno : v.host.nextIno = w.host.nextIno) (nodes : v.nodes = w.nodes) :
    w.Numbered v [] :=
  undrawn nextIno (nodes ▸ rfl) fun _ x hx => ⟨x, nodes ▸ hx, rfl⟩

/-- A number was drawn, and no node is made with it. -/
theorem drew (nextIno : v.host.nextIno = w.host.drawIno.2.nextIno) (nodes : v.nodes = w.nodes) :
    w.Numbered v [⟨w.host.drawIno.1, false⟩] where
  inos := rfl
  nextIno := nextIno
  nextId := nodes ▸ rfl
  nodes n x hx := by
    rw [nodes] at hx
    rw [inoFrom, if_pos (Table.get?_lt hx), hx]
    rfl

/-- A number was drawn, and a node is made with it. -/
theorem made {node : Node} (nextIno : v.host.nextIno = w.host.drawIno.2.nextIno)
    (ino : node.ino = w.host.drawIno.1) (nodes : v.nodes = w.nodes.push node) :
    w.Numbered v [⟨w.host.drawIno.1, true⟩] where
  inos := rfl
  nextIno := nextIno
  nextId := nodes ▸ Table.nextId_push
  nodes n x hx := by
    rw [nodes] at hx
    rcases Table.get?_of_push hx with ⟨rfl, rfl⟩ | ⟨-, hx⟩
    · rw [inoFrom, if_neg (Nat.lt_irrefl _), Nat.sub_self, ino]
      rfl
    · rw [inoFrom, if_pos (Table.get?_lt hx), hx]
      rfl

end Numbered

/-- The journal tells which numbers were drawn on the way. -/
def Noticed (w v : World) : Prop :=
  ∃ log, v.host.draws = w.host.draws ++ log ∧ w.Numbered v log

namespace Noticed

theorem refl : w.Noticed w := ⟨[], (List.append_nil _).symm, .refl⟩

theorem trans (h : w.Noticed v) (h' : v.Noticed u) : w.Noticed u := by
  obtain ⟨log, draws, numbered⟩ := h
  obtain ⟨log', draws', numbered'⟩ := h'
  refine ⟨log ++ log', ?_, numbered.trans numbered'⟩
  rw [draws', draws, List.append_assoc]

theorem undrawn (host : w.host.Undrawn v.host) (nextId : v.nodes.nextId = w.nodes.nextId)
    (nodes : ∀ n x, v.nodes.get? n = some x → ∃ y, w.nodes.get? n = some y ∧ x.ino = y.ino) :
    w.Noticed v :=
  ⟨[], host.draws.trans (List.append_nil _).symm, .undrawn host.nextIno nextId nodes⟩

theorem same (host : w.host.Undrawn v.host) (nodes : v.nodes = w.nodes) : w.Noticed v :=
  ⟨[], host.draws.trans (List.append_nil _).symm, .same host.nextIno nodes⟩

theorem modifyNode {n : NodeId} {f : Node → Node} (ino : ∀ x, (f x).ino = x.ino) :
    w.Noticed (w.modifyNode n f) := by
  refine undrawn .refl Table.nextId_modify fun m x hx => ?_
  rcases Table.get?_of_modify hx with ⟨-, y, hy, rfl⟩ | ⟨-, hx⟩
  · exact ⟨y, hy, ino y⟩
  · exact ⟨x, hx, rfl⟩

theorem eraseNode {n : NodeId} : w.Noticed { w with nodes := w.nodes.erase n } :=
  undrawn .refl Table.nextId_erase fun _ x hx => ⟨x, Table.get?_of_erase hx, rfl⟩

/-- A number was drawn, which is noticed, and no node is made with it. -/
theorem drew {host : Host} (nextIno : host.nextIno = w.host.drawIno.2.nextIno)
    (draws : host.draws = w.host.draws ++ [⟨w.host.drawIno.1, false⟩]) :
    w.Noticed { w with host } :=
  ⟨_, draws, .drew nextIno rfl⟩

theorem made {host : Host} {node : Node} (nextIno : host.nextIno = w.host.drawIno.2.nextIno)
    (draws : host.draws = w.host.draws ++ [⟨w.host.drawIno.1, true⟩])
    (ino : node.ino = w.host.drawIno.1) :
    w.Noticed { w with host, nodes := w.nodes.push node } :=
  ⟨_, draws, .made nextIno ino rfl⟩

/-- The number is drawn before the type is looked at, so it is lost if no node has the type. -/
theorem newNode {home : InstanceId} {dir : Option NodeId} {mode : Mode} {device : DeviceNumber} :
    Action.Ends w.Noticed (Action.newNode home dir mode device) w := by
  have taken : w.Noticed { w with host := (w.host.acquire .node).2 } := same (.acquire .node) rfl
  refine .seq_onHost (.ite (fun _ => ?_) fun _ => ?_)
  · refine .mono ?_ fun _ => taken.trans
    generalize ({ w with host := (w.host.acquire .node).2 } : World) = v
    refine .seq_onHost (.seq_onHost ?_)
    refine .seq (fun _ _ failed => absurd failed Action.get_eq_error) fun _ _ done => ?_
    obtain ⟨rfl, rfl⟩ := Action.get_eq_ok.1 done
    simp only
    cases NodeKind.ofMode mode device with
    | none =>
        refine .seq (fun _ _ failed => absurd failed Action.modify_eq_error) fun _ _ done => ?_
        obtain rfl := Action.note_eq_ok.1 done
        exact .bind (.modify (drew rfl Host.draws_note)) fun _ _ _ h => .throw h _
    | some kind =>
        refine .seq (fun _ _ failed => absurd failed Action.modify_eq_error) fun _ _ done => ?_
        obtain rfl := Action.note_eq_ok.1 done
        exact .bind (.modify (made rfl Host.draws_note rfl)) fun _ _ _ h => .pure h _
  · exact .bind (.modify (taken.trans (same (.note rfl) rfl))) fun _ _ _ h => .stop h

/-- Operations draw numbers in no other way. -/
theorem quiet : Quiet w.Noticed where
  host still h := h.trans (same still.toUndrawn rfl)
  modifyNode ino h := h.trans (modifyNode ino)
  eraseNode h := h.trans eraseNode
  newNode h := newNode.mono fun _ => h.trans
  bindings h := h.trans (same .refl rfl)
  files h := h.trans (same .refl rfl)

theorem disposeData (h : w.Noticed v) {data : PrivateData} : w.Noticed (v.disposeData data) := by
  have put : ∀ {u : World} {sort} {device : Option Device}, w.Noticed u →
      w.Noticed (device.elim u (u.put sort)) := by
    intro u sort device h
    cases device with
    | none => exact h
    | some device =>
        simp only [Option.elim_some, World.put]
        split
        · exact h.trans (same (.note rfl) rfl)
        · exact h.trans (same (.note rfl) rfl)
  cases data with
  | foreign => exact h
  | config c => exact (put (put h)).trans (same ⟨rfl, rfl⟩ rfl)

theorem settling : Settling fun v _ => w.Noticed v where
  disposed h := h.disposeData
  unpinned h := quiet.unpin h
  dissolved _ h := quiet.bindings h
  absent _ h := h
  kept _ h := h
  evicted _ _ h := quiet.evict h
  removedBinding _ _ h := quiet.removeBinding h
  removedInstance _ _ h := h.trans (same .refl rfl)

/-- All else that draws a number is a mount, which makes a root. -/
theorem housekeeping : Housekeeping w.Noticed where
  aside h _ undrawn nodes _ := h.trans (same undrawn nodes)
  settled h := settling.settle_all h
  made made h := (quiet.newNode h).ok made
  rooted made acquired h := by
    have paid := quiet.host (.of_acquire acquired nofun) ((quiet.newNode h).ok made)
    exact quiet.bindings (quiet.bindings (quiet.bindings paid))

theorem after {call : Call} (kept : ∀ ino, call ≠ .resetIno ino) : w.Noticed (w.after call) := by
  by_cases operation : ∃ op, call = .operate op
  · obtain ⟨op, rfl⟩ := operation
    exact (quiet.operate .refl op).into
  · exact housekeeping.after .refl (fun op same => operation ⟨op, same⟩)
      (fun _ _ => .same ⟨rfl, rfl⟩ rfl) fun ino same => absurd same (kept ino)

end Noticed

end World

end Memfs
