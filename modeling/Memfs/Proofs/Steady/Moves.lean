import Memfs.Proofs.Steady.Names

/-!
# Steady counters: moving names

A directory that moves takes its link from the directory that it leaves to the one that
it comes to, and what it replaces is removed like a directory that is removed by its own
name.
-/

namespace Memfs

open World

variable {w w' v : World} {rs more : List Removed} {most : NodeId → Nat}
  {a b dirA dirB : BindingId} {n m d nodeA nodeB source : NodeId} {nameA nameB : String}
  {flags : RenameFlags}

namespace Steady

/-- No name was taken out of a directory that has one, so it was not left alone. -/
theorem filled_apart (h : Steady w most rs) (ha : w.child? dirA nameA = some a) :
    ∀ r ∈ rs, r.alone → r.binding ≠ dirA := by
  rintro r mem alone rfl
  exact (h.gone r mem).empty alone a ⟨nameA, ha⟩

/-- Before a binding comes to another directory, no more is shown than will be due. -/
theorem shifted (h : Steady v w.due rs) (f : Forest w) (hA : w.nodeOf dirA = some nodeA)
    (hB : w.nodeOf dirB = some nodeB) (ha : w.child? dirA nameA = some a)
    (hn : w.nodeOf a = some n) (apart : ∀ r ∈ rs, r.alone → r.node ≠ nodeB) : ∃ most,
      Steady (if w.isDirectory n then v.shiftLink nodeA nodeB else v) most rs ∧
        ∀ m, most m + w.given a dirA m = w.due m + w.given a dirB m := by
  have due := given_le_due (n := nodeA) f ⟨nameA, ha⟩
  rw [given_of_nodeOf hA, if_pos rfl, bindsDirectory_of_nodeOf hn] at due
  simp only [given_of_nodeOf hA, given_of_nodeOf hB, bindsDirectory_of_nodeOf hn]
  cases kind : w.isDirectory n with
  | true =>
      rw [kind, if_pos rfl] at due
      refine ⟨_, h.dropLink.addLink apart, fun m => ?_⟩
      simp only [if_true]
      by_cases e : m = nodeA
      · subst e
        simp only [if_true]
        omega
      · simp only [if_neg e]
        omega
  | false => exact ⟨_, h, fun m => by simp⟩

/-- The same for two bindings that change places. -/
theorem exchangeLinks (h : Steady w w.due rs) (f : Forest w) (hA : w.nodeOf dirA = some nodeA)
    (hB : w.nodeOf dirB = some nodeB) (ha : w.child? dirA nameA = some a)
    (hb : w.child? dirB nameB = some b) (hn : w.nodeOf a = some n) (hd : w.nodeOf b = some d) :
    ∃ most, Steady (w.exchangeLinks nodeA n nodeB d) most rs ∧ ∀ m,
      most m + w.given a dirA m + w.given b dirB m
        = w.due m + w.given a dirB m + w.given b dirA m := by
  have apartA := h.node_apart hA (h.filled_apart ha)
  have apartB := h.node_apart hB (h.filled_apart hb)
  have shiftA := h.shifted f hA hB ha hn apartB
  have shiftB := h.shifted f hB hA hb hd apartA
  simp only [given_of_nodeOf hA, given_of_nodeOf hB, bindsDirectory_of_nodeOf hn,
    bindsDirectory_of_nodeOf hd] at shiftA shiftB ⊢
  rcases w.exchangeLinks_cases nodeA n nodeB d with
    ⟨kindA, kindB, links⟩ | ⟨kindA, kindB, links⟩ | ⟨same | same, links⟩
  · rw [links]
    rw [kindA] at shiftA
    obtain ⟨most, steady, shows⟩ := shiftA
    exact ⟨most, steady, fun m => by simpa [kindA, kindB] using shows m⟩
  · rw [links]
    rw [kindB] at shiftB
    obtain ⟨most, steady, shows⟩ := shiftB
    exact ⟨most, steady, fun m => by simpa [kindA, kindB] using shows m⟩
  · rw [links, same]
    exact ⟨_, h, fun m => by omega⟩
  · rw [links, same]
    exact ⟨_, h, fun m => by omega⟩

theorem exchangeNames (h : Steady w w.due rs) (s : Sound w []) (hA : w.nodeOf dirA = some nodeA)
    (hB : w.nodeOf dirB = some nodeB) (ha : w.child? dirA nameA = some a)
    (hb : w.child? dirB nameB = some b) (hne : a ≠ b) (exchange : flags.has .exchange = true)
    (done : Action.exchangeNames dirA nodeA a dirB nodeB b flags w = .ok () w') :
    Steady w' w'.due rs := by
  obtain ⟨apartA, apartB, n, d, hn, hd, rfl⟩ := Action.exchangeNames_ok exchange done
  have tree : SameTree w ((w.exchangeLinks nodeA n nodeB d).touchRenamed nodeA a nodeB b) :=
    SameTree.exchangeLinks.trans .touchRenamed
  have shape : SameShape w ((w.exchangeLinks nodeA n nodeB d).touchRenamed nodeA a nodeB b) :=
    SameShape.exchangeLinks.trans .touchRenamed
  have given : ∀ c e m, ((w.exchangeLinks nodeA n nodeB d).touchRenamed nodeA a nodeB b).given c e m
      = w.given c e m := fun _ _ _ => given_congr tree.bindsDirectory tree.nodeOf
  have apart : ∀ {c top}, w.isBelow c top = false → c ≠ top := by
    rintro c top apart rfl
    exact s.forest.not_above_of_isBelow_eq_false apart .refl
  obtain ⟨most, steady, shows⟩ := h.exchangeLinks s.forest hA hB ha hb hn hd
  obtain ⟨moved, due⟩ := steady.touchRenamed.exchangeBindings s.exchangeLinks.touchRenamed
    (tree.child?.trans ha) (tree.child?.trans hb) hne (apart apartA) (apart apartB)
  refine moved.mono fun m _ => ?_
  have due := due m
  have shows := shows m
  simp only [given, shape.due] at due
  omega

/-- What had the place is gone, with its links and the one that it gave. -/
theorem moveOnto (h : Steady w w.due rs) (s : Sound w []) (hA : w.nodeOf dirA = some nodeA)
    (hB : w.nodeOf dirB = some nodeB) (ha : w.child? dirA nameA = some a)
    (hb : w.child? dirB nameB = some b) (hne : b ≠ a) (hsource : w.nodeOf a = some source)
    (hn : w.nodeOf b = some n) (kinds : w.bindsDirectory b = w.isDirectory source)
    (leaf : w.hasChildren b = false) (apart : ¬ w.Above a dirB)
    (gone : ∀ r ∈ more, r.binding = b ∧ r.node = n ∧ w.isDirectory n = true) :
    Steady (((w.replaced nodeA source nodeB b n).touchRenamed nodeA a nodeB b).moveBinding a
      dirB nameB) (((w.replaced nodeA source nodeB b n).touchRenamed nodeA a nodeB b).moveBinding a
      dirB nameB).due (more ++ rs) := by
  have f := s.forest
  have enteredB : w.Entered dirB b := ⟨nameB, hb⟩
  obtain ⟨places, empty, kindN, other⟩ := f.replaceable hA ha hb hne hn kinds leaf
  -- the counts of links go first
  obtain ⟨v, most, hv, lowered, sv, shape, tree, shows⟩ : ∃ v most,
      (if w.isDirectory source then (w.dropLink n).dropLink nodeA else w) = v ∧
      Steady v most rs ∧ Sound v [] ∧ SameShape w v ∧ SameTree w v ∧ ∀ m, most m
        = w.due m - (if m = n then if w.isDirectory source then 1 else 0 else 0)
          - if m = nodeA then if w.isDirectory source then 1 else 0 else 0 := by
    cases w.isDirectory source with
    | true =>
        exact ⟨_, _, if_pos rfl, (h.dropLink (n := n)).dropLink (n := nodeA), s.dropLink.dropLink,
          SameShape.dropLink.trans .dropLink, SameTree.dropLink.trans .dropLink, fun m => rfl⟩
    | false => exact ⟨_, _, if_neg nofun, h, s, .refl, .refl, fun m => by simp⟩
  unfold World.replaced
  rw [hv]
  have entryB : v.child? dirB nameB = some b := tree.child?.trans hb
  have spent : ∀ r ∈ more, r.binding = b ∧ r.node = n ∧ v.isDirectory n = true ∧
      (∀ c, ¬ v.Entered b c) ∧ most n ≤ 1 := by
    intro r mem
    obtain ⟨hr, hm, isDir⟩ := gone r mem
    refine ⟨hr, hm, (tree.directory hn).trans isDir,
      fun c inside => empty c ((shape.entered _ c).1 inside), ?_⟩
    rw [shows, if_pos rfl, if_neg other, due_of_empty s enteredB hn isDir empty,
      kindN.symm.trans isDir, if_pos rfl]
  obtain ⟨out, dueOut⟩ := lowered.unlinked (d := nodeB) sv entryB (tree.nodeOf.trans hn) spent
  have touched : SameShape (v.unlinked nodeB b n)
      ((v.unlinked nodeB b n).touchRenamed nodeA a nodeB b) := .touchRenamed
  have cleared : w.Cleared ((v.unlinked nodeB b n).touchRenamed nodeA a nodeB b) dirB nameB :=
    tree.cleared sv.forest entryB
  obtain ⟨moved, due⟩ := out.touchRenamed.moveBinding (sv.unlinked entryB).touchRenamed.forest
    (cleared.kept ha places)
    (has_of_bindsDirectory ((cleared.binds dirB).trans (bindsDirectory_of_entered f enteredB)))
    (fun same => apart (same ▸ .refl)) cleared.free fun r mem alone => by
      rcases List.mem_append.1 mem with mem | mem
      · obtain ⟨hr, -⟩ := gone r mem
        rintro rfl
        exact empty _ (hr ▸ enteredB)
      · exact h.filled_apart hb r mem alone
  refine moved.mono fun m _ => ?_
  have due := due m
  have dueOut := dueOut m
  rw [cleared.given, cleared.given, touched.due] at due
  rw [shape.own (.inl (placed_of_entered enteredB)), shape.given enteredB, shape.due] at dueOut
  simp only [shows]
  rw [given_of_nodeOf hA, given_of_nodeOf hB, bindsDirectory_of_nodeOf hsource] at due
  rw [own_of_nodeOf hn, given_of_nodeOf hB, kindN, kinds] at dueOut
  cases kind : w.isDirectory source with
  | true =>
      rw [kind] at due dueOut
      simp only [if_true] at due dueOut ⊢
      by_cases e : m = n
      · simp only [if_pos e] at dueOut ⊢
        omega
      · simp only [if_neg e] at dueOut ⊢
        omega
  | false =>
      rw [kind] at due dueOut
      simp only [Bool.false_eq_true, if_false, ite_self] at due dueOut ⊢
      omega

/-- The place is free, and the link that a directory gives moves to the directory that
it comes to. -/
theorem moveInto {u : World} (h : Steady u most rs) (ha : w.child? dirA nameA = some a)
    (free : w.child? dirB nameB = none) (isDirB : w.bindsDirectory dirB = true)
    (left : ∀ r ∈ rs, r.alone → r.binding ≠ dirB) (apart : ¬ w.Above a dirB)
    (made : Action.newBinding dirB nameB w = .ok b v) (shape : SameShape w u) (f : Forest u)
    (tree : SameTree v u)
    (shows : ∀ m, most m + w.given a dirA m = w.due m + w.given a dirB m) :
    Steady (u.moveBinding a dirB nameB) (u.moveBinding a dirB nameB).due rs := by
  obtain ⟨child, node, binds⟩ := Sound.unseen made tree
  have given : ∀ e m, u.given a e m = w.given a e m := fun e m => given_congr (binds a) (node e)
  obtain ⟨moved, due⟩ := h.moveBinding f ((child dirA nameA).trans ha)
    (has_of_bindsDirectory ((binds dirB).trans isDirB)) (fun same => apart (same ▸ .refl))
    ((child dirB nameB).trans free) left
  refine moved.mono fun m _ => ?_
  have due := due m
  have shows := shows m
  rw [given, given, shape.due] at due
  omega

theorem moveName (h : Steady w w.due rs) (s : Sound w [])
    (left : ∀ r ∈ rs, r.alone → r.binding ≠ dirB) (hA : w.nodeOf dirA = some nodeA)
    (hB : w.nodeOf dirB = some nodeB) (kindB : w.isDirectory nodeB = true)
    (ha : w.child? dirA nameA = some a) (hsource : w.nodeOf a = some source)
    (checked : checkName nameB = .ok ()) (hne : ∀ b, w.child? dirB nameB = some b → b ≠ a)
    (move : flags.has .exchange = false)
    (gone : ∀ r ∈ more, w.child? dirB nameB = some r.binding ∧ w.nodeOf r.binding = some r.node ∧
      w.isDirectory r.node = true)
    (done : Action.moveName nodeA a source dirB nodeB nameB (w.child? dirB nameB) flags w
      = .ok () w') : Steady w' w'.due (more ++ rs) := by
  have isDirB : w.bindsDirectory dirB = true := bindsDirectory_iff.2 ⟨nodeB, hB, kindB⟩
  obtain ⟨apart, ⟨b, n, hb, hn, kinds, leaf, rfl⟩ | ⟨b, v, u, free, made, hu, su, tree, rfl⟩⟩ :=
    s.moveName_cases hsource hB kindB checked move done
  · refine letGo_binding (h.moveOnto s hA hB ha hb (hne b hb) hsource hn kinds leaf apart
      fun r mem => ?_) (s.moveOnto ha hb (hne b hb) isDirB apart)
    obtain ⟨hr, hm, isDir⟩ := gone r mem
    cases hb.symm.trans hr
    cases hn.symm.trans hm
    exact ⟨rfl, rfl, isDir⟩
  · have none : more = [] := List.eq_nil_iff_forall_not_mem.2 fun r mem => by
      cases free.symm.trans (gone r mem).1
    obtain ⟨pushed, hv⟩ : SameShape w v ∧ Steady v w.due rs := by
      obtain ⟨host, -, -, rfl⟩ := Action.newBinding_eq_ok.1 made
      exact ⟨.pushBinding s, h.pushBinding s⟩
    have shape : SameShape v u := by
      rw [hu]
      split
      · exact .shiftLink
      · exact .refl
    obtain ⟨most, shifted, shows⟩ := hv.shifted s.forest hA hB ha hsource (h.node_apart hB left)
    rw [← hu] at shifted
    rw [none]
    exact letGo_binding (shifted.touchRenamed.moveInto ha free isDirB left apart made
        ((pushed.trans shape).trans .touchRenamed) su.touchRenamed.forest
        (tree.trans .touchRenamed) shows)
      (s.moveInto ha free isDirB apart checked made su.touchRenamed (tree.trans .touchRenamed))

/-- What is removed is the directory that was replaced. -/
theorem rename (h : Steady w w.due rs) (s : Sound w [])
    (left : ∀ r ∈ rs, r.alone → r.binding ≠ dirB)
    (gone : ∀ r ∈ more, flags.has .exchange = false ∧ w.child? dirB nameB = some r.binding ∧
      w.child? dirA nameA ≠ some r.binding ∧ w.nodeOf r.binding = some r.node ∧
      w.isDirectory r.node = true)
    (done : Action.rename dirA nameA dirB nameB flags w = .ok () w') :
    Steady w' w'.due (more ++ rs) := by
  obtain ⟨-, checked, nodeA, nodeB, a, source, hA, -, hB, isDirB, -, ha, hsource, outcome⟩ :=
    Action.rename_ok done
  have kept : (∀ r ∈ more, False) → more = [] := fun none =>
    List.eq_nil_iff_forall_not_mem.2 none
  rcases outcome with ⟨⟨b, hb, same⟩, rfl⟩ | ⟨differ, ⟨exchange, b, hb, done⟩ | ⟨move, done⟩⟩
  · rw [kept fun r mem => ?_]
    · exact h
    · obtain ⟨-, hr, other, hn, isDir⟩ := gone r mem
      cases hb.symm.trans hr
      rcases same with same | same
      · exact other (same ▸ ha)
      · cases same.symm.trans hn
        exact other (s.forest.once hsource hn isDir ▸ ha)
  · rw [kept fun r mem => ?_]
    · exact h.exchangeNames s hA hB ha hb (differ b hb).1.symm exchange done
    · cases exchange.symm.trans (gone r mem).1
  · refine h.moveName s left hA hB isDirB ha hsource checked (fun b hb => (differ b hb).1) move
      (fun r mem => ?_) done
    obtain ⟨-, hr, -, hn, isDir⟩ := gone r mem
    exact ⟨hr, hn, isDir⟩

end Steady

end Memfs
