import Memfs.Proofs.Devices.Deeds
import Memfs.Proofs.Numbers

/-!
# No inode number is given twice

Whatever is done on a machine, in whichever of its instances, the numbers come from one
counter. `World.drawnBy` lists those that were drawn in a run, the ones that callers drew for
themselves among them, and a run is `Numbered` by this list: each errand is, and the lists of
one errand and of the next make up the list of both. As long as the counter is not set anew,
and has not gone round, no two nodes that were ever made have the same number, even if they
were never there together.
-/

namespace Memfs

open World

/-- What may happen on one machine. -/
inductive Errand where
  | deed (deed : Deed)
  /-- A caller draws a number for itself. -/
  | draw
  /-- A node is made that no binding stands for, and a caller holds it. -/
  | make (home : InstanceId) (dir : Option NodeId) (mode : Mode) (device : DeviceNumber)
  /-- An instance is made that no context made, and a caller holds it. -/
  | found (type : FilesystemType) (source : Option String) (flags : MountFlags)
  /-- An instance is filled by hand, whatever was done before. -/
  | fill (i : InstanceId)

/-- Is the counter set anew? -/
def Errand.setsCounter : Errand → Bool
  | deed (.request (.call (.resetIno _))) => true
  | _ => false

namespace World

/-- The world after an errand. -/
def pursue (w : World) : Errand → World
  | .deed deed => w.undergo deed
  | .draw => { w with host := w.host.drawIno.2 }
  | .make home dir mode device =>
    match Action.newNode home dir mode device w with
    | .ok n v => v.hold (.node n)
    | .error _ v => v
  | .found type source flags =>
    let (i, v) := w.newInstance type source flags
    v.hold (.inst i)
  | .fill i => (Action.fillBuiltIn i).into w

/-- The world after a list of errands. -/
def pursueAll (w : World) (errands : List Errand) : World := errands.foldl pursue w

/-- The numbers that are drawn on an errand. Of those that are drawn to make a node the journal
tells. -/
def drawnOn (w : World) : Errand → List Draw
  | .draw => [⟨w.host.drawIno.1, false⟩]
  | errand => (w.pursue errand).host.draws.drop w.host.draws.length

/-- The numbers that are drawn on the errands. -/
def drawnBy (w : World) : List Errand → List Draw
  | [] => []
  | errand :: errands => w.drawnOn errand ++ (w.pursue errand).drawnBy errands

variable {w v : World} {deed : Deed} {errand : Errand} {errands before later : List Errand}
  {made more : List UInt64} {n m : NodeId} {x y : Node}

theorem drawnBy_append :
    w.drawnBy (before ++ later) = w.drawnBy before ++ (w.pursueAll before).drawnBy later := by
  induction before generalizing w with
  | nil => rfl
  | cons errand before ih =>
      rw [List.cons_append, drawnBy, drawnBy, ih, List.append_assoc]
      rfl

/-! ## One errand -/

namespace Noticed

theorem replaceData (h : w.Noticed v) {data : Option PrivateData} {p : Place} :
    w.Noticed (v.replaceData data p) := by
  cases p with
  | context c => exact settling.settle_all (housekeeping.onContexts h)
  | inst i => exact settling.settle_all (housekeeping.modifyInstance h fun _ => .inl rfl)
  | nowhere => exact h

theorem displace {p : Place} {other : Replacement} : w.Noticed (w.displace p other) := by
  cases other with
  | nothing | foreign => exact refl.replaceData
  | fresh =>
      have paid : w.Noticed { w with host := (w.host.acquire .config).2 } :=
        same (.acquire .config) rfl
      unfold World.displace
      simp only
      split
      · split
        · exact paid.replaceData
        · exact paid
      · exact refl

theorem undergo (kept : (Errand.deed deed).setsCounter = false) : w.Noticed (w.undergo deed) := by
  cases deed with
  | request step =>
      cases step with
      | options c text => exact (housekeeping.configuring.applyOptions refl).into
      | call call =>
          refine after fun ino same => ?_
          subst same
          cases kept
  | displace p other => exact displace
  | dissolve i => exact housekeeping.ending.dissolveBuiltIn refl

theorem pursue (kept : errand.setsCounter = false) (told : errand ≠ .draw) :
    w.Noticed (w.pursue errand) := by
  cases errand with
  | deed deed => exact undergo kept
  | draw => exact absurd rfl told
  | make home dir mode device =>
      have made : Action.Ends w.Noticed (Action.newNode home dir mode device) w := newNode
      unfold World.pursue
      simp only
      split
      · next done => exact (made.ok done).trans (same .refl rfl)
      · next failed => exact made.error failed
  | found type source flags => exact same .refl rfl
  | fill i =>
      have filled : Action.Ends w.Noticed (Action.fill i .freshRoot) w := housekeeping.fill refl
      exact filled.into

end Noticed

theorem Numbered.pursue (kept : errand.setsCounter = false) :
    w.Numbered (w.pursue errand) (w.drawnOn errand) := by
  by_cases own : errand = .draw
  · subst own
    exact .drew rfl rfl
  · obtain ⟨log, draws, numbered⟩ := Noticed.pursue (w := w) kept own
    have told : w.drawnOn errand = log := by
      have dropped : w.drawnOn errand = (w.pursue errand).host.draws.drop w.host.draws.length := by
        cases errand with
        | draw => exact absurd rfl own
        | deed | make | found | fill => rfl
      rw [dropped, draws, List.drop_left]
    rwa [told]

/-! ## Whole runs -/

theorem Numbered.pursueAll (kept : ∀ errand ∈ errands, errand.setsCounter = false) :
    w.Numbered (w.pursueAll errands) (w.drawnBy errands) := by
  induction errands generalizing w with
  | nil => exact .refl
  | cons errand errands ih =>
      have first := Numbered.pursue (w := w) (kept errand List.mem_cons_self)
      exact first.trans (ih fun later mem => kept later (List.mem_cons_of_mem _ mem))

/-- The numbers of nodes that are made later are of no concern. -/
theorem inoFrom_append {ino : UInt64} (h : w.inoFrom made n = some ino) :
    w.inoFrom (made ++ more) n = some ino := by
  unfold inoFrom at h ⊢
  split
  · next old => rwa [if_pos old] at h
  · next new =>
      rw [if_neg new] at h
      rw [List.getElem?_append_left (List.getElem?_eq_some_iff.1 h).1, h]

/-- Nodes that were made since then have the same number only if they are the same. -/
theorem inoFrom_inj (nodup : made.Nodup) {ino : UInt64} (hn : w.nodes.nextId ≤ n)
    (hm : w.nodes.nextId ≤ m) (first : w.inoFrom made n = some ino)
    (second : w.inoFrom made m = some ino) : n = m := by
  unfold inoFrom at first second
  rw [if_neg (Nat.not_lt.2 hn)] at first
  rw [if_neg (Nat.not_lt.2 hm)] at second
  obtain ⟨here, first⟩ := List.getElem?_eq_some_iff.1 first
  obtain ⟨there, second⟩ := List.getElem?_eq_some_iff.1 second
  have place : n - w.nodes.nextId = m - w.nodes.nextId :=
    (nodup.getElem_inj_iff).1 (first.trans second.symm)
  rw [← Nat.sub_add_cancel hn, place, Nat.sub_add_cancel hm]

end World

/-! ## All runs -/

/-- What is true of the numbers that are drawn on errands. -/
structure World.Unrepeated (w : World) (errands : List Errand) : Prop where
  /-- They follow each other in the counter. -/
  drawn : (w.drawnBy errands).map (·.ino) = w.host.inos (w.drawnBy errands).length
  /-- Of those that are given to nodes no two are equal. -/
  nodup : (madeInos (w.drawnBy errands)).Nodup
  /-- None of them is zero. -/
  positive : 0 ∉ madeInos (w.drawnBy errands)
  /-- Every node that is made is given one of its own, whether it is to stay or is gone before
  the errand ends. -/
  each : (w.pursueAll errands).nodes.nextId
    = w.nodes.nextId + (madeInos (w.drawnBy errands)).length
  /-- Whenever a node is looked at, it has the number that it was given, or that it had before. -/
  fixed : ∀ before later, errands = before ++ later → ∀ n x,
    (w.pursueAll before).nodes.get? n = some x →
      w.inoFrom (madeInos (w.drawnBy errands)) n = some x.ino
  /-- Whenever two of those that were made are looked at, their numbers are the same if and only
  if the nodes are. -/
  apart : ∀ before later before' later', errands = before ++ later → errands = before' ++ later' →
    ∀ n m x y, (w.pursueAll before).nodes.get? n = some x →
      (w.pursueAll before').nodes.get? m = some y →
      w.nodes.nextId ≤ n → w.nodes.nextId ≤ m → (x.ino = y.ino ↔ n = m)

theorem World.unrepeated {w : World} {errands : List Errand}
    (kept : ∀ errand ∈ errands, errand.setsCounter = false)
    (few : (w.drawnBy errands).length < 2 ^ 64) : w.Unrepeated errands := by
  have numbered : w.Numbered (w.pursueAll errands) (w.drawnBy errands) := .pursueAll kept
  have sub : (madeInos (w.drawnBy errands)).Sublist (w.host.inos (w.drawnBy errands).length) := by
    rw [← numbered.inos]
    exact List.filter_sublist.map _
  have nodup : (madeInos (w.drawnBy errands)).Nodup := (Host.inos_nodup few).sublist sub
  have given : ∀ before later, errands = before ++ later → ∀ n x,
      (w.pursueAll before).nodes.get? n = some x →
        w.inoFrom (madeInos (w.drawnBy errands)) n = some x.ino := by
    rintro before later rfl n x hx
    have first : w.Numbered (w.pursueAll before) (w.drawnBy before) :=
      .pursueAll fun errand mem => kept errand (List.mem_append_left _ mem)
    rw [drawnBy_append, madeInos_append]
    exact inoFrom_append (first.nodes n x hx)
  refine ⟨numbered.inos, nodup, fun mem => Host.zero_notMem_inos (sub.subset mem),
    numbered.nextId, given, ?_⟩
  intro before later before' later' split split' n m x y hx hy hn hm
  have first := given before later split n x hx
  have second := given before' later' split' m y hy
  constructor
  · intro same
    exact inoFrom_inj nodup hn hm first (same ▸ second)
  · rintro rfl
    exact Option.some.inj (first.symm.trans second)

/-- Fewer than `2 ^ 64` numbers in a row, wherever the counter is set to, are not zero and no
two are equal. So it is with the numbers that are drawn in a run, if the counter is not set
anew. -/
theorem numbers_never_repeat :
    (∀ (host : Host) (nextIno : UInt64) (k : Nat), k < 2 ^ 64 →
      (({ host with nextIno } : Host).inos k).Nodup ∧ 0 ∉ ({ host with nextIno } : Host).inos k) ∧
    ∀ (w : World) (errands : List Errand), (∀ errand ∈ errands, errand.setsCounter = false) →
      (w.drawnBy errands).length < 2 ^ 64 → w.Unrepeated errands :=
  ⟨fun _ _ _ few => ⟨Host.inos_nodup few, Host.zero_notMem_inos⟩, fun _ _ => unrepeated⟩

/-- Two instances are mounted just before the counter goes round, and a number is drawn by a
caller. Then a node of no type is asked for, a symlink is made that there is no page for, and a
file without a name and a file with one are made. -/
theorem numbers_never_repeat_around_zero :
    let w := (World.fresh (.steady 0 0 1)).after (.resetIno 18446744073709551614)
    let call : Call → Errand := fun call => .deed (.request (.call call))
    let errands : List Errand := [call (.register builtInType), call (.mount "tagfs" ""),
      call (.mount "tagfs" ""), .draw, .make 0 none ⟨0⟩ .none,
      call (.setBudget .page (some 0)), call (.operate (.symlink 0 "l" "target")),
      call (.operate (.openUnnamed 0 ⟨0o600⟩ .writing)),
      call (.operate (.create 1 "f" ⟨0o644⟩))]
    let made := madeInos (w.drawnBy errands)
    (∀ errand ∈ errands, errand.setsCounter = false) ∧ (w.drawnBy errands).length < 2 ^ 64 ∧
      w.host.inos 7 = [18446744073709551614, 18446744073709551615, 1, 2, 3, 4, 5] ∧
      made = [18446744073709551614, 18446744073709551615, 3, 4, 5] ∧ made.Nodup ∧ 0 ∉ made ∧
      (w.pursueAll errands).nodes.nextId = 5 := by
  intro w call errands made
  have kept : ∀ errand ∈ errands, errand.setsCounter = false := by decide
  have log : w.drawnBy errands = [⟨18446744073709551614, true⟩, ⟨18446744073709551615, true⟩,
      ⟨1, false⟩, ⟨2, false⟩, ⟨3, true⟩, ⟨4, true⟩, ⟨5, true⟩] := by decide +kernel
  have few : (w.drawnBy errands).length < 2 ^ 64 := by
    rw [log]
    decide
  have unrepeated : w.Unrepeated errands := numbers_never_repeat.2 w errands kept few
  have inos := unrepeated.drawn
  have numbers : made = [18446744073709551614, 18446744073709551615, 3, 4, 5] := by
    show madeInos (w.drawnBy errands) = _
    rw [log]
    rfl
  rw [log] at inos
  refine ⟨kept, few, inos.symm, numbers, unrepeated.nodup, unrepeated.positive,
    unrepeated.each.trans ?_⟩
  show 0 + made.length = 5
  rw [numbers]
  rfl

end Memfs
