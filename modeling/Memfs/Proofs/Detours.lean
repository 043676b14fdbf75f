import Memfs.Proofs.Routes

/-!
# A followed symlink is transparent

To write the target of a symlink into a path, in the place of the symlink, changes nothing
about where the path leads. In the names of the path this is a matter of cutting the route
at the symlink and joining what is left: the directory that the names before it lead to is
the only one that they can lead to, and the names of the target are not the last ones,
neither in the target nor in the path. A target that begins with a slash takes the place of
the names before it as well.

The new path follows one symlink less and walks no text that the old one did not walk, but
for the path itself. That may have become too long, which is the one condition.
-/

namespace Memfs

/-! ## Joining texts -/

theorem components_append {a b : String} :
    components (a ++ "/" ++ b) = components a ++ components b := by
  have chars : (a ++ "/" ++ b).toList = a.toList ++ '/' :: b.toList := by
    rw [String.toList_append, String.toList_append, List.append_assoc]
    rfl
  unfold components
  rw [chars, List.splitOn_append_cons_self, List.map_append, List.filter_append]

/-- A name that a binding may bear is one component. -/
theorem components_of_checkName {name : String} (h : checkName name = .ok ()) :
    components name = [name] := by
  have proper : ∀ other ∈ [name], checkName other = .ok () := fun other same => by
    rwa [List.mem_singleton.1 same]
  have joined : pathNames ("" ++ "/" ++ name) = [name] := by
    have := pathNames_intercalate proper
    rwa [String.intercalate_singleton] at this
  rw [pathNames_eq_components, components_append] at joined
  exact joined

theorem zero_not_mem_join {a b : String} : '\x00' ∉ (a ++ "/" ++ b).toList ↔
    '\x00' ∉ a.toList ∧ '\x00' ∉ b.toList := by
  simp [String.toList_append, not_or]

namespace World

variable {w : World} {root dir link d : BindingId} {last : Bool} {name target : String}
  {names rest : List String} {before links : List BindingId}

/-! ## Routes -/

/-- A route through a symlink that is followed, from there on: it is a route through the
names of the target and the names that are left. -/
theorem Route.expand (route : w.Route root last root (names ++ name :: rest) links d)
    (toDir : w.Route root true root names before dir) (step : w.Advances root dir name link)
    (expands : w.Expands last rest link) (reads : w.readlink link = .ok target) :
    ∃ after, links = before ++ link :: after ∧
      w.Route root last (if target.toList.head? = some '/' then root else dir)
        (components target ++ rest) after d := by
  obtain ⟨mid, _, _, first, second, rfl⟩ := route_append.1 route
  rw [List.isEmpty_cons, Bool.not_false, Bool.or_true] at first
  obtain ⟨rfl, rfl⟩ := first.unique toDir
  obtain ⟨_, _, _, _, reads', inside, onward, rfl⟩ := second.of_expands step expands
  cases reads.symm.trans reads'
  rw [← expands.goesOn] at inside
  exact ⟨_, rfl, route_append.2 ⟨_, _, _, inside, onward, rfl⟩⟩

/-- The names before a symlink lead to where a target begins that has no slash in front. -/
theorem Route.prepend {more : List String} {after : List BindingId}
    (toDir : w.Route root true root names before dir) (goesOn : more ≠ [] ∨ last = true)
    (route : w.Route root last dir more after d) :
    w.Route root last root (names ++ more) (before ++ after) d := by
  have goesOn : (last || !more.isEmpty) = true := by
    rw [Bool.or_eq_true, Bool.not_eq_true', List.isEmpty_eq_false_iff]
    exact goesOn.symm
  rw [← goesOn] at toDir
  exact route_append.2 ⟨dir, before, after, toDir, route, rfl⟩

/-! ## Paths -/

/-- The paths `A/name/B`, `A/target/B` and `target/B`. -/
theorem resolve_expand (f : Forest w) {A B : String} (led : w.resolve root A true = .ok dir)
    (entry : w.child? dir name = some link) (symlink : w.bindsSymlink link = true)
    (reads : w.readlink link = .ok target) (goesOn : components B ≠ [] ∨ last = true)
    (done : w.resolve root (A ++ "/" ++ name ++ "/" ++ B) last = .ok d) :
    (target.toList.head? ≠ some '/' → (A ++ "/" ++ target ++ "/" ++ B).utf8ByteSize ≤ 4096 →
      w.resolve root (A ++ "/" ++ target ++ "/" ++ B) last = .ok d) ∧
    (target.toList.head? = some '/' → (target ++ "/" ++ B).utf8ByteSize ≤ 4096 →
      w.resolve root (target ++ "/" ++ B) last = .ok d) := by
  obtain ⟨before, toDir, -, ⟨-, zeroA⟩, -⟩ := (resolve_eq_ok_iff f).1 led
  obtain ⟨links, route, few, ⟨-, zero⟩, readable⟩ := (resolve_eq_ok_iff f).1 done
  have checked := f.checked entry
  obtain ⟨-, -, down, -⟩ := checkName_eq_ok checked
  have isDir : w.bindsDirectory dir = true := f.above (f.entry entry).2
  rw [components_append, components_append, components_of_checkName checked, List.append_assoc,
    List.singleton_append] at route
  obtain ⟨after, rfl, through⟩ :=
    route.expand toDir (.enter down isDir entry) ⟨symlink, goesOn⟩ reads
  rw [zero_not_mem_join] at zero
  rw [List.length_append, List.length_cons] at few
  have readableBefore : w.Readable before := fun l h => readable l (List.mem_append_left _ h)
  have readableAfter : w.Readable after := fun l h =>
    readable l (List.mem_append_right _ (List.mem_cons_of_mem _ h))
  have zeroTarget : '\x00' ∉ target.toList := by
    obtain ⟨text, reads', -, zeroText⟩ :=
      readable link (List.mem_append_right _ List.mem_cons_self)
    cases reads.symm.trans reads'
    exact zeroText
  constructor
  · intro relative short
    rw [if_neg relative] at through
    have goesOn : components target ++ components B ≠ [] ∨ last = true :=
      goesOn.imp_left fun some none => some (List.append_eq_nil_iff.1 none).2
    refine (resolve_eq_ok_iff f).2 ⟨before ++ after, ?_, ?_, ⟨short, ?_⟩, ?_⟩
    · rw [components_append, components_append, List.append_assoc]
      exact toDir.prepend goesOn through
    · rw [List.length_append]
      omega
    · rw [zero_not_mem_join, zero_not_mem_join]
      exact ⟨⟨zeroA, zeroTarget⟩, zero.2⟩
    · exact fun l h => (List.mem_append.1 h).elim (readableBefore l) (readableAfter l)
  · intro absolute short
    rw [if_pos absolute] at through
    refine (resolve_eq_ok_iff f).2 ⟨after, ?_, by omega, ⟨short, ?_⟩, readableAfter⟩
    · rw [components_append]
      exact through
    · rw [zero_not_mem_join]
      exact ⟨zeroTarget, zero.2⟩

end World

/-! ## After any run -/

/-- After any run: where a path leads through a symlink that it follows, the target can be
written into the path. -/
theorem resolve_expand_run (clock : Clock) (calls : List Call) {root dir link d : BindingId}
    {A B name target : String} {last : Bool}
    (led : ((World.fresh clock).run calls).resolve root A true = .ok dir)
    (entry : ((World.fresh clock).run calls).child? dir name = some link)
    (symlink : ((World.fresh clock).run calls).bindsSymlink link = true)
    (reads : ((World.fresh clock).run calls).readlink link = .ok target)
    (goesOn : components B ≠ [] ∨ last = true)
    (done : ((World.fresh clock).run calls).resolve root (A ++ "/" ++ name ++ "/" ++ B) last
      = .ok d) :
    (target.toList.head? ≠ some '/' → (A ++ "/" ++ target ++ "/" ++ B).utf8ByteSize ≤ 4096 →
      ((World.fresh clock).run calls).resolve root (A ++ "/" ++ target ++ "/" ++ B) last
        = .ok d) ∧
    (target.toList.head? = some '/' → (target ++ "/" ++ B).utf8ByteSize ≤ 4096 →
      ((World.fresh clock).run calls).resolve root (target ++ "/" ++ B) last = .ok d) :=
  World.resolve_expand (Sound.fresh.run calls).forest led entry symlink reads goesOn done

/-- A target that climbs further than the root is deep and ends in another symlink, and one
that begins with a slash and ends in the first. -/
theorem resolve_expand_run_chained :
    let calls : List Call := [.register builtInType, .mount "tagfs" "",
      .operate (.mkdir 0 "d" ⟨0o755⟩), .operate (.symlink 1 "up" "../.././top"),
      .operate (.symlink 0 "top" "/d/"), .operate (.symlink 1 "self" "/d/up")]
    let w := (World.fresh (.steady 0 0 1)).run calls
    w.resolve 0 ("d" ++ "/" ++ "../.././top" ++ "/" ++ "./") true = .ok 1 ∧
      w.resolve 0 ("/d/up" ++ "/" ++ "up") false = .ok 2 := by
  intro calls w
  have led : w.resolve 0 "d" true = .ok 1 := by decide +kernel
  constructor
  · have entry : w.child? 1 "up" = some 2 := by decide +kernel
    have reads : w.readlink 2 = .ok "../.././top" := by decide +kernel
    have done : w.resolve 0 ("d" ++ "/" ++ "up" ++ "/" ++ "./") true = .ok 1 := by decide +kernel
    exact (resolve_expand_run (.steady 0 0 1) calls led entry (by decide +kernel) reads (.inr rfl)
      done).1 (by decide +kernel) (by decide +kernel)
  · have entry : w.child? 1 "self" = some 4 := by decide +kernel
    have reads : w.readlink 4 = .ok "/d/up" := by decide +kernel
    have goesOn : components "up" ≠ [] := by decide +kernel
    have done : w.resolve 0 ("d" ++ "/" ++ "self" ++ "/" ++ "up") false = .ok 2 := by
      decide +kernel
    exact (resolve_expand_run (.steady 0 0 1) calls led entry (by decide +kernel) reads
      (.inl goesOn) done).2 (by decide +kernel) (by decide +kernel)

end Memfs
