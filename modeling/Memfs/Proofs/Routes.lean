import Memfs.Proofs.Paths

/-!
# Symlinks are expanded faithfully

What a path means is said here without any bound. A *route* takes the names one by one;
where it comes to a symlink that is to be followed it takes a route through the names of
the target, and goes on from where that ends. It lists the symlinks that it follows, in
the order in which it comes to them and at whatever depth. Symlinks that lead to each other
in a circle have no route.

The walk of a path does not nest: it puts the names of a target before the names that are
left and goes on with all of them, which is where its one counter comes from. What makes
the two agree is that routes can be cut and joined (`route_append`). The one thing that is
different for the names before the cut is that none of them is the last name of all, so a
symlink among them is followed in any case.

A route is found by the walk if and only if it follows no more than forty symlinks and all
texts on it can be walked. For walks that do not end there is `Follows`, which lists what
is followed up to some point. It is a prefix of every route, so a walk that comes to its
forty-first symlink fails.
-/

namespace Memfs

/-! ## Texts -/

/-- The names between the slashes of a path, without the empty ones and `.`. -/
def components (path : String) : List String :=
  ((path.toList.splitOn '/').map String.ofList).filter fun name => name != "" && name != "."

/-- A text that may be walked. -/
def Walkable (path : String) : Prop := path.utf8ByteSize ≤ 4096 ∧ '\x00' ∉ path.toList

theorem pathNames_eq_components {path : String} : pathNames path = components path := by
  unfold pathNames components Text.segments
  rw [Text.partsOf_eq_splitOn, List.filter_map, List.filter_map, List.filter_filter]
  refine congrArg _ (List.filter_congr fun part _ => ?_)
  cases part with
  | nil => rfl
  | cons c cs => simp [Bool.and_comm]

theorem ne_dot_of_mem_components {path name : String} (h : name ∈ components path) :
    name ≠ "." := by
  have kept := (List.mem_filter.1 h).2
  rw [Bool.and_eq_true, bne_iff_ne, bne_iff_ne] at kept
  exact kept.2

theorem checkPath_eq_ok_iff {path : String} : checkPath path = .ok () ↔ Walkable path := by
  unfold checkPath Walkable pathLimit
  by_cases long : 4096 < path.utf8ByteSize
  · simp [long]
  · by_cases zero : '\x00' ∈ path.toList
    · simp [long, zero]
    · simp [long, zero, Nat.le_of_not_lt long]

theorem not_walkable_of_error {path : String} {e : Error} (h : checkPath path = .error e) :
    ¬ Walkable path := by
  rw [← checkPath_eq_ok_iff, h]
  simp

namespace World

/-! ## What a path means -/

/-- One name: an entry of a directory, or `..`, which leads up but not above the root. -/
inductive Advances (w : World) (root : BindingId) : BindingId → String → BindingId → Prop
  | stay : Advances w root root ".." root
  | climb {cur : BindingId} (below : cur ≠ root) (dir : w.bindsDirectory cur = true) :
      Advances w root cur ".." ((w.parentOf cur).getD cur)
  | enter {cur b : BindingId} {name : String} (down : name ≠ "..")
      (dir : w.bindsDirectory cur = true) (entry : w.child? cur name = some b) :
      Advances w root cur name b

/-- A symlink is followed if a name comes after it, or if the last one is followed too. -/
def Expands (w : World) (last : Bool) (rest : List String) (b : BindingId) : Prop :=
  w.bindsSymlink b = true ∧ (rest ≠ [] ∨ last = true)

/-- A route through names, with the symlinks that it follows. `last` says whether a symlink
is followed that is the last name; it is if the names are those of a target. A target that
begins with a slash is taken from the root, and another one from the directory that the
symlink is in. -/
inductive Route (w : World) (root : BindingId) :
    (last : Bool) → BindingId → List String → List BindingId → BindingId → Prop
  | arrive {last : Bool} {cur : BindingId} : Route w root last cur [] [] cur
  | pass {last : Bool} {cur next d : BindingId} {name : String} {rest : List String}
      {links : List BindingId} (step : w.Advances root cur name next)
      (plain : ¬ w.Expands last rest next) (onward : Route w root last next rest links d) :
      Route w root last cur (name :: rest) links d
  | follow {last : Bool} {cur link back d : BindingId} {name target : String} {rest : List String}
      {inner outer : List BindingId} (step : w.Advances root cur name link)
      (expands : w.Expands last rest link) (reads : w.readlink link = .ok target)
      (inside : Route w root true (if target.toList.head? = some '/' then root else cur)
        (components target) inner back)
      (onward : Route w root last back rest outer d) :
      Route w root last cur (name :: rest) (link :: (inner ++ outer)) d

/-- The symlinks that are followed on the way up to one of them, whether the way has an end
or not. -/
inductive Follows (w : World) (root : BindingId) :
    (last : Bool) → BindingId → List String → List BindingId → Prop
  | here {last : Bool} {cur link : BindingId} {name : String} {rest : List String}
      (step : w.Advances root cur name link) (expands : w.Expands last rest link) :
      Follows w root last cur (name :: rest) [link]
  | pass {last : Bool} {cur next : BindingId} {name : String} {rest : List String}
      {links : List BindingId} (step : w.Advances root cur name next)
      (plain : ¬ w.Expands last rest next) (onward : Follows w root last next rest links) :
      Follows w root last cur (name :: rest) links
  | inside {last : Bool} {cur link : BindingId} {name target : String} {rest : List String}
      {links : List BindingId} (step : w.Advances root cur name link)
      (expands : w.Expands last rest link) (reads : w.readlink link = .ok target)
      (inside : Follows w root true (if target.toList.head? = some '/' then root else cur)
        (components target) links) :
      Follows w root last cur (name :: rest) (link :: links)
  | behind {last : Bool} {cur link back : BindingId} {name target : String} {rest : List String}
      {inner outer : List BindingId} (step : w.Advances root cur name link)
      (expands : w.Expands last rest link) (reads : w.readlink link = .ok target)
      (inside : Route w root true (if target.toList.head? = some '/' then root else cur)
        (components target) inner back)
      (onward : Follows w root last back rest outer) :
      Follows w root last cur (name :: rest) (link :: (inner ++ outer))

/-- The symlinks have targets that may be walked. -/
def Readable (w : World) (links : List BindingId) : Prop :=
  ∀ link ∈ links, ∃ target, w.readlink link = .ok target ∧ Walkable target

variable {w : World} {root cur b c d e : BindingId} {last : Bool} {name : String}
  {names rest more : List String} {links others : List BindingId}

theorem expands_iff :
    (w.bindsSymlink b && (last || !rest.isEmpty)) = true ↔ w.Expands last rest b := by
  unfold Expands
  rw [Bool.and_eq_true, Bool.or_eq_true, Bool.not_eq_true', List.isEmpty_eq_false_iff, or_comm]

/-- Then no name of the target is the last one of all. -/
theorem Expands.goesOn (h : w.Expands last rest b) : (last || !rest.isEmpty) = true := by
  have := expands_iff.2 h
  rw [Bool.and_eq_true] at this
  exact this.2

/-! ## Routes are cut and joined -/

/-- Of names before others none is the last. -/
theorem expands_append :
    w.Expands last (rest ++ more) b ↔ w.Expands (last || !more.isEmpty) rest b := by
  unfold Expands
  cases more with
  | nil => simp
  | cons name more => simp

theorem route_append : w.Route root last cur (names ++ more) links d ↔
    ∃ mid before after, w.Route root (last || !more.isEmpty) cur names before mid ∧
      w.Route root last mid more after d ∧ links = before ++ after := by
  induction names generalizing cur links with
  | nil =>
      constructor
      · intro route
        exact ⟨cur, [], links, .arrive, route, rfl⟩
      · rintro ⟨mid, before, after, ⟨⟩, route, rfl⟩
        exact route
  | cons name rest ih =>
      -- The route through a target is not cut, so no hypothesis about it is needed.
      constructor
      · intro route
        cases route with
        | pass step plain onward =>
            obtain ⟨mid, before, after, first, second, rfl⟩ := ih.1 onward
            exact ⟨mid, before, after, .pass step (mt expands_append.2 plain) first, second, rfl⟩
        | follow step expands reads inside onward =>
            obtain ⟨mid, before, after, first, second, rfl⟩ := ih.1 onward
            refine ⟨mid, _, after, .follow step (expands_append.1 expands) reads inside first,
              second, ?_⟩
            rw [List.cons_append, List.append_assoc]
      · rintro ⟨mid, before, after, first, second, rfl⟩
        cases first with
        | pass step plain onward =>
            exact .pass step (mt expands_append.1 plain) (ih.2 ⟨mid, _, after, onward, second, rfl⟩)
        | follow step expands reads inside onward =>
            rw [List.cons_append, List.cons_append, List.append_assoc]
            exact .follow step (expands_append.2 expands) reads inside
              (ih.2 ⟨mid, _, after, onward, second, rfl⟩)

/-! ## There is one route -/

theorem Advances.unique (h : w.Advances root cur name b) (h' : w.Advances root cur name c) :
    b = c := by
  cases h with
  | stay =>
      cases h' with
      | stay => rfl
      | climb below => exact absurd rfl below
      | enter down => exact absurd rfl down
  | climb below =>
      cases h' with
      | stay => exact absurd rfl below
      | climb => rfl
      | enter down => exact absurd rfl down
  | enter down _ entry =>
      cases h' with
      | stay => exact absurd rfl down
      | climb => exact absurd rfl down
      | enter _ _ entry' => exact Option.some.inj (entry.symm.trans entry')

/-- Which of the two things a route does next is seen from what the name leads to. -/
theorem Route.of_pass (step : w.Advances root cur name b) (plain : ¬ w.Expands last rest b)
    (h : w.Route root last cur (name :: rest) links d) : w.Route root last b rest links d := by
  cases h with
  | pass step' _ onward =>
      cases step.unique step'
      exact onward
  | follow step' expands =>
      cases step.unique step'
      exact absurd expands plain

theorem Route.of_expands (step : w.Advances root cur name b) (expands : w.Expands last rest b)
    (h : w.Route root last cur (name :: rest) links d) : ∃ target inner back outer,
      w.readlink b = .ok target ∧
      w.Route root true (if target.toList.head? = some '/' then root else cur)
        (components target) inner back ∧
      w.Route root last back rest outer d ∧ links = b :: (inner ++ outer) := by
  cases h with
  | pass step' plain =>
      cases step.unique step'
      exact absurd expands plain
  | follow step' _ reads inside onward =>
      cases step.unique step'
      exact ⟨_, _, _, _, reads, inside, onward, rfl⟩

theorem Route.unique (h : w.Route root last cur names links d)
    (h' : w.Route root last cur names others e) : links = others ∧ d = e := by
  induction h generalizing others e with
  | arrive =>
      cases h'
      exact ⟨rfl, rfl⟩
  | pass step plain onward ih => exact ih (h'.of_pass step plain)
  | follow step expands reads inside onward ihInside ihOnward =>
      obtain ⟨_, _, _, _, reads', inside', onward', rfl⟩ := h'.of_expands step expands
      cases reads.symm.trans reads'
      obtain ⟨rfl, rfl⟩ := ihInside inside'
      obtain ⟨rfl, rfl⟩ := ihOnward onward'
      exact ⟨rfl, rfl⟩

/-- What is followed up to some point begins what is followed in all. -/
theorem Follows.prefix_of_route (h : w.Follows root last cur names others)
    (route : w.Route root last cur names links d) : others <+: links := by
  induction h generalizing links d with
  | here step expands =>
      obtain ⟨_, inner, _, outer, -, -, -, rfl⟩ := route.of_expands step expands
      exact ⟨inner ++ outer, rfl⟩
  | pass step plain onward ih => exact ih (route.of_pass step plain)
  | inside step expands reads inside ih =>
      obtain ⟨_, inner, _, outer, reads', inside', -, rfl⟩ := route.of_expands step expands
      cases reads.symm.trans reads'
      exact (List.prefix_cons_inj _).2 ((ih inside').trans (List.prefix_append inner outer))
  | behind step expands reads inside onward ih =>
      obtain ⟨_, inner, _, outer, reads', inside', onward', rfl⟩ := route.of_expands step expands
      cases reads.symm.trans reads'
      obtain ⟨rfl, rfl⟩ := inside.unique inside'
      exact (List.prefix_cons_inj _).2 ((List.prefix_append_right_inj _).2 (ih onward'))

/-! ## The walk finds routes -/

/-- A step of the walk. In a directory there are no names that are too long to be looked up. -/
theorem step_eq_ok_iff (f : Forest w) (proper : name ≠ ".") :
    w.step root cur name = .ok b ↔ w.Advances root cur name b := by
  unfold step
  by_cases up : name = ".." ∧ cur = root
  · obtain ⟨rfl, rfl⟩ := up
    rw [if_pos ⟨rfl, rfl⟩]
    constructor
    · rintro ⟨⟩
      exact .stay
    · intro h
      rw [h.unique .stay]
  · rw [if_neg up, lookup_eq_ok]
    constructor
    · rintro ⟨dir, ⟨self, -⟩ | ⟨rfl, rfl⟩ | ⟨⟨-, down⟩, -, entry⟩⟩
      · exact absurd self proper
      · exact .climb (fun top => up ⟨rfl, top⟩) dir
      · exact .enter down dir entry
    · intro h
      cases h with
      | stay => exact absurd ⟨rfl, rfl⟩ up
      | climb _ dir => exact ⟨dir, .inr (.inl ⟨rfl, rfl⟩)⟩
      | enter down dir entry =>
          obtain ⟨⟨-, short⟩, -⟩ := checkName_eq_ok (f.checked entry)
          exact ⟨dir, .inr (.inr ⟨⟨proper, down⟩, short, entry⟩)⟩

theorem walk_nil {hops : Nat} : w.walk root last hops cur [] = .ok cur := by
  cases hops with
  | zero => rfl
  | succ hops => rfl

theorem walk_cons_eq_ok {hops : Nat} : w.walk root last hops cur (name :: rest) = .ok d ↔
    ∃ b, w.step root cur name = .ok b ∧
      (¬ w.Expands last rest b ∧ w.walk root last hops b rest = .ok d ∨
        w.Expands last rest b ∧ ∃ left target, hops = left + 1 ∧ w.readlink b = .ok target ∧
          Walkable target ∧
          w.walk root last left (if target.toList.head? = some '/' then root else cur)
            (components target ++ rest) = .ok d) := by
  have unfolded : ∀ {follow}, w.walkNames root last follow cur (name :: rest) = .ok d ↔
      ∃ b, w.step root cur name = .ok b ∧
        (¬ w.Expands last rest b ∧ w.walkNames root last follow b rest = .ok d ∨
          w.Expands last rest b ∧ follow cur b rest = .ok d) := by
    intro follow
    rw [walkNames]
    cases w.step root cur name with
    | error e => simp [bind, Except.bind]
    | ok b =>
        simp only [bind, Except.bind, Except.ok.injEq, exists_eq_left']
        split
        · next expands => simp [expands_iff.1 expands]
        · next plain => simp [mt expands_iff.2 plain]
  cases hops with
  | zero => simp [walk, unfolded]
  | succ hops =>
      rw [walk, unfolded]
      refine exists_congr fun b => and_congr_right' (or_congr_right (and_congr_right' ?_))
      simp only [pathNames_eq_components, pathStart]
      cases w.readlink b with
      | error e => simp [bind, Except.bind]
      | ok target =>
          cases checked : checkPath target with
          | error e =>
              simp [bind, Except.bind, checked, not_walkable_of_error checked]
          | ok u =>
              have walkable : Walkable target := checkPath_eq_ok_iff.1 checked
              simp [bind, Except.bind, checked, walkable]

/-- The walk ends where the route does, if there is one that it has the hops for. -/
theorem walk_eq_ok_iff (f : Forest w) : ∀ {hops : Nat} {names : List String} {cur : BindingId},
    (∀ name ∈ names, name ≠ ".") → (w.walk root last hops cur names = .ok d ↔
      ∃ links, w.Route root last cur names links d ∧ links.length ≤ hops ∧ w.Readable links) := by
  intro hops
  -- Where a symlink is followed there may be more names than before, but one hop less.
  induction hops using Nat.strongRecOn with
  | ind hops fewer =>
      intro names
      induction names with
      | nil =>
          intro cur _
          rw [walk_nil]
          constructor
          · rintro ⟨⟩
            exact ⟨[], .arrive, Nat.zero_le _, nofun⟩
          · rintro ⟨links, ⟨⟩, -, -⟩
            rfl
      | cons name rest ih =>
          intro cur proper
          have steps : ∀ {b}, w.step root cur name = .ok b ↔ w.Advances root cur name b :=
            step_eq_ok_iff f (proper name List.mem_cons_self)
          have properRest : ∀ name ∈ rest, name ≠ "." := fun name h =>
            proper name (List.mem_cons_of_mem _ h)
          have properAll : ∀ target, ∀ name ∈ components target ++ rest, name ≠ "." :=
            fun target name h => (List.mem_append.1 h).elim ne_dot_of_mem_components
              (properRest name)
          rw [walk_cons_eq_ok]
          constructor
          · rintro ⟨b, hb, ⟨plain, onward⟩ | ⟨expands, left, target, rfl, reads, walkable, onward⟩⟩
            · obtain ⟨links, route, short, readable⟩ := (ih properRest).1 onward
              exact ⟨links, .pass (steps.1 hb) plain route, short, readable⟩
            · obtain ⟨links, route, short, readable⟩ :=
                (fewer left (Nat.lt_succ_self _) (properAll target)).1 onward
              obtain ⟨back, inner, outer, inside, after, rfl⟩ := route_append.1 route
              rw [expands.goesOn] at inside
              exact ⟨_, .follow (steps.1 hb) expands reads inside after, Nat.succ_le_succ short,
                List.forall_mem_cons.2 ⟨⟨target, reads, walkable⟩, readable⟩⟩
          · rintro ⟨links, route, short, readable⟩
            cases route with
            | pass step plain onward =>
                exact ⟨_, steps.2 step, .inl ⟨plain, (ih properRest).2 ⟨_, onward, short, readable⟩⟩⟩
            | follow step expands reads inside onward =>
                obtain ⟨⟨target, reads', walkable⟩, readable⟩ := List.forall_mem_cons.1 readable
                cases reads.symm.trans reads'
                obtain ⟨left, rfl⟩ := Nat.exists_eq_add_of_le' (Nat.le_trans (Nat.succ_pos _) short)
                rw [← expands.goesOn] at inside
                exact ⟨_, steps.2 step, .inr ⟨expands, left, _, rfl, reads, walkable,
                  (fewer left (Nat.lt_succ_self _) (properAll _)).2
                    ⟨_, route_append.2 ⟨_, _, _, inside, onward, rfl⟩, Nat.le_of_succ_le_succ short,
                      readable⟩⟩⟩

theorem resolve_eq_ok_iff (f : Forest w) {path : String} : w.resolve root path last = .ok d ↔
    ∃ links, w.Route root last root (components path) links d ∧ links.length ≤ 40 ∧
      Walkable path ∧ w.Readable links := by
  have walked : w.walk root last hopLimit root (components path) = .ok d ↔ _ :=
    walk_eq_ok_iff f fun name => ne_dot_of_mem_components
  unfold resolve
  rw [pathNames_eq_components]
  cases checked : checkPath path with
  | error e =>
      simp [bind, Except.bind, not_walkable_of_error checked]
  | ok u =>
      have walkable : Walkable path := checkPath_eq_ok_iff.1 checked
      simp only [bind, Except.bind, walkable, true_and]
      exact walked

end World

/-! ## After any run -/

/-- What fails to lead anywhere leads to an error. -/
theorem exists_error_of_ne_ok {ε α : Type} {x : Except ε α} (h : ∀ a, x ≠ .ok a) :
    ∃ e, x = .error e := by
  cases x with
  | error e => exact ⟨e, rfl⟩
  | ok a => exact absurd rfl (h a)

/-- After any run, and whatever symlinks there are: a path is resolved to where its route
ends, if that follows no more than forty symlinks and comes by no text that may not be
walked. A path on which a forty-first symlink is to be followed is refused, and so is one
that has no route. -/
theorem resolve_run (clock : Clock) (calls : List Call) (root : BindingId) (path : String)
    (last : Bool) :
    (∀ d, ((World.fresh clock).run calls).resolve root path last = .ok d ↔
      ∃ links, ((World.fresh clock).run calls).Route root last root (components path) links d ∧
        links.length ≤ 40 ∧ Walkable path ∧ ((World.fresh clock).run calls).Readable links) ∧
    (∀ links, ((World.fresh clock).run calls).Follows root last root (components path) links →
      40 < links.length →
        ∃ e, ((World.fresh clock).run calls).resolve root path last = .error e) ∧
    ((∀ links d, ¬ ((World.fresh clock).run calls).Route root last root (components path) links d) →
      ∃ e, ((World.fresh clock).run calls).resolve root path last = .error e) := by
  have f : Forest ((World.fresh clock).run calls) := (Sound.fresh.run calls).forest
  refine ⟨fun d => World.resolve_eq_ok_iff f, fun links follows many => ?_, fun lost => ?_⟩
  · refine exists_error_of_ne_ok fun d led => ?_
    obtain ⟨all, route, few, -⟩ := (World.resolve_eq_ok_iff f).1 led
    exact absurd ((follows.prefix_of_route route).length_le.trans few) (Nat.not_le.2 many)
  · refine exists_error_of_ne_ok fun d led => ?_
    obtain ⟨links, route, -⟩ := (World.resolve_eq_ok_iff f).1 led
    exact lost links d route

/-- A symlink to itself is followed for ever if it is followed at all. A target that begins
with a slash is taken from the root, though the symlink is in a directory that has no entry of
that name. -/
theorem resolve_run_circling :
    let calls : List Call :=
      [.register builtInType, .mount "tagfs" "", .operate (.symlink 0 "l" "./l"),
        .operate (.mkdir 0 "d" ⟨0o755⟩), .operate (.symlink 2 "top" "/d")]
    let w := (World.fresh (.steady 0 0 1)).run calls
    w.resolve 0 "/l" false = .ok 1 ∧ w.Follows 0 true 0 (components "/l") (List.replicate 41 1) ∧
      (∀ links d, ¬ w.Route 0 true 0 (components "/l") links d) ∧
      (∃ e, w.resolve 0 "/l" true = .error e) ∧
      w.child? 2 "d" = none ∧ w.resolve 0 "d/top" true = .ok 2 := by
  intro calls w
  have dir : w.bindsDirectory 0 = true := by decide +kernel
  have entry : w.child? 0 "l" = some 1 := by decide +kernel
  have symlink : w.bindsSymlink 1 = true := by decide +kernel
  have reads : w.readlink 1 = .ok "./l" := by decide +kernel
  have step : w.Advances 0 0 "l" 1 := .enter (by decide) dir entry
  have path : components "/l" = ["l"] := by decide +kernel
  have target : components "./l" = ["l"] := by decide +kernel
  have turns : ∀ n, w.Follows 0 true 0 (components "/l") (List.replicate (n + 1) 1) := by
    intro n
    rw [path]
    induction n with
    | zero => exact .here step ⟨symlink, .inr rfl⟩
    | succ n ih =>
        refine .inside step ⟨symlink, .inr rfl⟩ reads ?_
        rw [target, if_neg (by decide)]
        exact ih
  have lost : ∀ links d, ¬ w.Route 0 true 0 (components "/l") links d := by
    intro links d route
    have longer := ((turns links.length).prefix_of_route route).length_le
    rw [List.length_replicate] at longer
    exact absurd longer (Nat.not_succ_le_self _)
  have found : w.Route 0 false 0 (components "/l") [] 1 := by
    rw [path]
    exact .pass step (fun expands => by simpa using expands.2) .arrive
  have down : w.Advances 0 0 "d" 2 := .enter (by decide) dir (by decide +kernel)
  have other : ¬ w.bindsSymlink 2 = true := by decide +kernel
  have restarts : w.Route 0 true 0 (components "d/top") [3] 2 := by
    have names : components "d/top" = ["d", "top"] := by decide +kernel
    have there : components "/d" = ["d"] := by decide +kernel
    have inner : w.Advances 0 2 "top" 3 :=
      .enter (by decide) (by decide +kernel) (by decide +kernel)
    have leads : w.readlink 3 = .ok "/d" := by decide +kernel
    have inside : w.Route 0 true (if "/d".toList.head? = some '/' then 0 else 2)
        (components "/d") [] 2 := by
      rw [there, if_pos (by decide)]
      exact .pass down (fun expands => other expands.1) .arrive
    have onward : w.Route 0 true 2 ["top"] (3 :: ([] ++ [])) 2 :=
      .follow inner ⟨by decide +kernel, .inr rfl⟩ leads inside .arrive
    rw [names]
    exact .pass down (fun expands => other expands.1) onward
  refine ⟨((resolve_run (.steady 0 0 1) calls 0 "/l" false).1 1).2
    ⟨[], found, Nat.zero_le _, ⟨by decide, by decide⟩, nofun⟩, turns 40, lost, ?_,
    by decide +kernel, ?_⟩
  · exact (resolve_run (.steady 0 0 1) calls 0 "/l" true).2.1 _ (turns 40) (by decide)
  · refine ((resolve_run (.steady 0 0 1) calls 0 "d/top" true).1 2).2
      ⟨[3], restarts, by decide, ⟨by decide, by decide⟩, fun link mem => ?_⟩
    rw [List.mem_singleton.1 mem]
    exact ⟨"/d", by decide +kernel, by decide, by decide⟩

end Memfs
