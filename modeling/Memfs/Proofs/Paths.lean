import Memfs.Proofs.Cuts
import Memfs.Proofs.Headed
import Memfs.Proofs.Walks
import Memfs.Proofs.WellNamed

/-!
# Paths lead back

The path of a binding is made by going up from parent to parent, and it is resolved by
cutting it at its slashes and going down from entry to entry. That the two undo each
other takes three things. The names on the way must survive the cutting, which is what
`checkName` is for. The climb must end at the root and take no other binding for it,
which is `Headed`. And what a name leads to must point back, which is `Forest`.

Both directions are compared with `descend`, the going down by a list of names. It is a
function, so bindings with one path are one.
-/

namespace Memfs

/-! ## The text of a path -/

/-- A path that names were joined to leads through these names. -/
theorem pathNames_intercalate {names : List String}
    (h : ∀ name ∈ names, checkName name = .ok ()) :
    pathNames (rootName ++ "/".intercalate names) = names := by
  unfold pathNames rootName
  rw [Text.segments_intercalate, List.filter_eq_self]
  · intro name hname
    obtain ⟨-, noDot, -⟩ := checkName_eq_ok (h name hname)
    exact bne_iff_ne.2 noDot
  · intro name hname
    obtain ⟨⟨long, -⟩, -, -, noSlash, -⟩ := checkName_eq_ok (h name hname)
    refine ⟨fun empty => ?_, noSlash⟩
    subst empty
    exact absurd long (by decide)

theorem checkPath_intercalate {names : List String}
    (h : ∀ name ∈ names, checkName name = .ok ())
    (short : (rootName ++ "/".intercalate names).utf8ByteSize ≤ pathLimit) :
    checkPath (rootName ++ "/".intercalate names) = .ok () := by
  have noZero : (rootName ++ "/".intercalate names).toList.contains '\x00' = false := by
    rw [List.contains_eq_mem, decide_eq_false_iff_not, String.toList_append,
      String.toList_intercalate, List.mem_append]
    rintro (slash | inside)
    · exact absurd slash (by decide)
    · refine Text.not_mem_intercalate (by decide) (fun cs hcs => ?_) inside
      obtain ⟨name, hname, rfl⟩ := List.mem_map.1 hcs
      exact (checkName_eq_ok (h name hname)).2.2.2.2
  unfold checkPath
  rw [if_neg (Nat.not_lt.2 short), noZero]
  rfl

open World

variable {w : World} {i : InstanceId} {inst : Instance} {root cur d : BindingId}
  {names : List String}

/-! ## The climb -/

/-- What is shown of a climb: all but roots. -/
theorem filter_of_parentOf {p : BindingId} (h : w.parentOf d = some p) {above : List BindingId} :
    (d :: above).filter (!w.isRoot ·) = d :: above.filter (!w.isRoot ·) := by
  refine List.filter_cons_of_pos ?_
  unfold isRoot
  rw [h]
  rfl

theorem filter_of_root (top : w.parentOf root = none) (named : w.nameOf root = rootName)
    {above : List BindingId} :
    (root :: above).filter (!w.isRoot ·) = above.filter (!w.isRoot ·) := by
  refine List.filter_cons_of_neg ?_
  unfold isRoot
  rw [top, named]
  decide

/-- Going up from where names lead to meets the same names in reverse, and then the root. -/
theorem lineage_of_descend (f : Forest w) (top : w.parentOf root = none)
    (named : w.nameOf root = rootName) (led : w.descend root names = some d) :
    (((w.lineage d).filter (!w.isRoot ·)).map w.nameOf).reverse = names := by
  induction names using List.reverseRecOn generalizing d with
  | nil =>
      cases led
      have alone : w.ancestors w.bindings.nextId root = [] := by
        cases w.bindings.nextId with
        | zero => rfl
        | succ fuel => rw [ancestors, top]
      rw [lineage, alone, filter_of_root top named]
      rfl
  | append_singleton names name ih =>
      obtain ⟨b, led, entry⟩ := descend_snoc.1 led
      obtain ⟨bears, parent⟩ := f.entry entry
      have up : w.lineage d = d :: w.lineage b := by
        rw [lineage, f.ancestors_of_parentOf parent, lineage]
      rw [up, filter_of_parentOf parent, List.map_cons, List.reverse_cons, ih led, bears]

/-- The path of what names lead to is made of these names. -/
theorem path_of_descend (f : Forest w) (top : w.parentOf root = none)
    (named : w.nameOf root = rootName) (led : w.descend root names = some d) :
    w.path d = rootName ++ "/".intercalate names := by
  have climbed := lineage_of_descend f top named led
  rw [lineage] at climbed
  unfold path
  rcases names.eq_nil_or_concat' with rfl | ⟨names, name, rfl⟩
  · cases led
    rw [filter_of_root top named, List.reverse_eq_nil_iff, List.map_eq_nil_iff] at climbed
    simp only [climbed, List.map_cons, List.map_nil, List.reverse_singleton, named]
    rfl
  · obtain ⟨b, -, entry⟩ := descend_snoc.1 led
    rw [filter_of_parentOf (f.entry entry).2] at climbed
    -- A binding that bore the name of a root would be shown as one.
    have other : names ++ [name] ≠ [rootName] := by
      intro same
      have checked : checkName rootName = .ok () :=
        checked_of_descend f led rootName (same ▸ List.mem_singleton_self rootName)
      exact absurd checked (by decide)
    simp only [climbed, if_neg other]

/-! ## The walk -/

/-- A walk that follows no symlink at its end goes where the names lead. It meets no
symlink on the way, for symlinks have no entries. -/
theorem walkNames_of_descend (f : Forest w) (h : Headed w)
    {follow : BindingId → BindingId → List String → Except Error BindingId}
    (led : w.descend cur names = some d) :
    w.walkNames root false follow cur names = .ok d := by
  induction names generalizing cur with
  | nil =>
      cases led
      rfl
  | cons name rest ih =>
      rw [descend, Option.bind_eq_some_iff] at led
      obtain ⟨b, entry, led⟩ := led
      obtain ⟨⟨-, short⟩, noDot, noDots, -, -⟩ := checkName_eq_ok (f.checked entry)
      have dir : w.bindsDirectory cur = true := f.above (f.entry entry).2
      have next : w.step root cur name = .ok b := by
        unfold step
        rw [if_neg fun climbs => noDots climbs.1]
        exact lookup_eq_ok.2 ⟨dir, .inr (.inr ⟨⟨noDot, noDots⟩, short, entry⟩)⟩
      have stays : (w.bindsSymlink b && (false || !rest.isEmpty)) = false := by
        cases rest with
        | nil => exact Bool.and_false _
        | cons following rest =>
            rw [descend, Option.bind_eq_some_iff] at led
            obtain ⟨c, below, -⟩ := led
            have isDir : w.bindsDirectory b = true := f.above (f.entry below).2
            rw [h.not_symlink isDir]
            rfl
      rw [walkNames, next]
      show (if _ then _ else _) = _
      rw [stays]
      exact ih led

/-- What names lead to is found by its path, unless the path is too long. -/
theorem resolve_of_descend (f : Forest w) (h : Headed w) (led : w.descend root names = some d)
    (short : (rootName ++ "/".intercalate names).utf8ByteSize ≤ pathLimit) :
    w.resolve root (rootName ++ "/".intercalate names) false = .ok d := by
  have checked := checked_of_descend f led
  unfold resolve
  rw [checkPath_intercalate checked short, pathNames_intercalate checked]
  exact walkNames_of_descend f h led

/-- After any run, what is in the tree of an instance is found by its path from the
root, also where it is a symlink, and nothing else in the tree has this path. -/
theorem resolve_path (clock : Clock) (calls : List Call)
    (hi : ((World.fresh clock).run calls).instances.get? i = some inst)
    (hroot : inst.root = some root)
    (hd : Relation.ReflTransGen ((World.fresh clock).run calls).Entered root d) :
    let w := (World.fresh clock).run calls
    ((w.path d).utf8ByteSize ≤ pathLimit → w.resolve root (w.path d) false = .ok d) ∧
      ∀ e, Relation.ReflTransGen w.Entered root e → w.path e = w.path d → e = d := by
  intro w
  have f : Forest w := (Sound.fresh.run calls).forest
  have h : Headed w := .run clock calls
  obtain ⟨top, named⟩ := h.of_root hi hroot
  obtain ⟨names, led⟩ := exists_descend hd
  have path : w.path d = rootName ++ "/".intercalate names := path_of_descend f top named led
  refine ⟨fun short => ?_, fun e he same => ?_⟩
  · rw [path] at short ⊢
    exact resolve_of_descend f h led short
  · obtain ⟨others, there⟩ := exists_descend he
    rw [path, path_of_descend f top named there] at same
    have sameNames : others = names := by
      rw [← pathNames_intercalate (checked_of_descend f there), same,
        pathNames_intercalate (checked_of_descend f led)]
    subst sameNames
    exact Option.some.inj (there.symm.trans led)

/-- A symlink in a directory that changed places with one higher up, under names that
are odd. -/
theorem resolve_path_exchanged :
    let calls : List Call := [.register builtInType, .mount "tagfs" "",
      .operate (.mkdir 0 "d" ⟨0o755⟩), .operate (.mkdir 1 "..." ⟨0o755⟩),
      .operate (.symlink 2 "a\\\n" ".."), .operate (.mkdir 0 " " ⟨0o755⟩),
      .operate (.rename 1 "..." 0 " " .exchange)]
    let w := (World.fresh (.steady 0 0 1)).run calls
    w.path 3 = "/ /a\\\n" ∧ w.resolve 0 (w.path 3) false = .ok 3 ∧
      ∀ e, Relation.ReflTransGen w.Entered 0 e → w.path e = w.path 3 → e = 3 := by
  intro calls w
  have mounted : (w.instances.get? 0).bind (·.root) = some 0 := by decide +kernel
  obtain ⟨inst, hi, hroot⟩ := Option.bind_eq_some_iff.1 mounted
  have entered : Relation.ReflTransGen w.Entered 0 3 :=
    (Relation.ReflTransGen.single ⟨" ", by decide +kernel⟩).tail
      (b := 2) ⟨"a\\\n", by decide +kernel⟩
  have path : w.path 3 = "/ /a\\\n" := by decide +kernel
  have found := resolve_path (.steady 0 0 1) calls hi hroot entered
  exact ⟨path, found.1 (by rw [path]; decide), found.2⟩

end Memfs
