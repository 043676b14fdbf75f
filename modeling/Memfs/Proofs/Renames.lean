import Memfs.Proofs.Changes.Mounts
import Memfs.Proofs.Links.Idle

/-!
# What a rename does to the names

The names of a world are a map from addresses to bindings, an address being a directory and
a name in it. A rename that succeeds changes this map at the two addresses that it is asked
about and nowhere else, whatever stands there: files or directories, in one directory or
in two, at an address that is free or one that is taken.

The equation of the map is read off the entries. What remains is that no node that has
a name is lost with what is replaced, which is empty, and that the directories whose
entries change lie outside of what moves.

A rename may be told to keep its target. It then fails where the name is taken, but for one
case: the names of one node are left alone before the flag is looked at, and that counts as
a success.
-/

namespace Memfs

/-! ## Nodes -/

/-- `y` is `x` with other times and another count of links. -/
def Node.Restamped (x y : Node) : Prop :=
  y = { x with
    atime := y.atime
    mtime := y.mtime
    ctime := y.ctime
    links := y.links
    linkable := y.linkable }

theorem Node.Restamped.trans {x y z : Node} (h : x.Restamped y) (h' : y.Restamped z) :
    x.Restamped z := by
  refine Eq.trans h' ?_
  rw [h]

namespace World

variable {w v : World} {n : NodeId} {x y : Node}

/-- The number was given to the node `x`, of which the times and the links may change. -/
structure Keeps (w : World) (n : NodeId) (x : Node) : Prop where
  born : n < w.nodes.nextId
  same : ∀ {y}, w.nodes.get? n = some y → x.Restamped y

namespace Keeps

/-- Operations on names write to no content. -/
theorem change (c : Change False w v) (h : w.Keeps n x) : v.Keeps n x := by
  refine ⟨h.born.trans_le c.nodes_kept.next, fun hy => ?_⟩
  cases c.onNodes with
  | same nodes => exact h.same (nodes ▸ hy)
  | push _ nodes =>
      rw [nodes, Table.get?_push_of_ne (Nat.ne_of_lt h.born)] at hy
      exact h.same hy
  | modify rest _ written nodes =>
      rw [nodes] at hy
      rcases Table.get?_of_modify hy with ⟨rfl, z, hz, rfl⟩ | ⟨-, hy⟩
      · refine (h.same hz).trans ((rest z).trans ?_)
        rw [(written z hz).resolve_right And.left]
      · exact h.same hy
  | erase nodes =>
      rw [nodes] at hy
      exact h.same (Table.get?_of_erase hy)

end Keeps

theorem restamped_of_changes (c : Changes False w v) (hx : w.nodes.get? n = some x)
    (hy : v.nodes.get? n = some y) : x.Restamped y := by
  have before : w.Keeps n x := ⟨Table.get?_lt hx, fun hy => by
    cases hx.symm.trans hy
    rfl⟩
  exact (c.keeps (P := (·.Keeps n x)) (fun last h => h.change last) before).same hy

end World

/-! ## The map of names -/

/-- A directory and a name in it. -/
abbrev Address := NodeId × String

namespace World

/-- The address is that of the binding. -/
def Names (w : World) (p : Address) (b : BindingId) : Prop :=
  ∃ d, w.nodeOf d = some p.1 ∧ w.child? d p.2 = some b

/-- The names below `top` lead where they led, to nodes with the same content. -/
structure Carries (w v : World) (top : BindingId) : Prop where
  paths : ∀ names, v.descend top names = w.descend top names
  nodes : ∀ {names c}, w.descend top names = some c → ∃ n x y, w.nodeOf c = some n ∧
    v.nodeOf c = some n ∧ w.nodes.get? n = some x ∧ v.nodes.get? n = some y ∧ x.Restamped y

/-- What is in place in `v` stands for the same nodes as in `w`. -/
structure Preserves (w v : World) : Prop where
  node : ∀ {p c}, v.Names p c → v.nodeOf c = w.nodeOf c
  nodes : ∀ {n x y}, w.nodes.get? n = some x → v.nodes.get? n = some y → x.Restamped y

/-- The bindings at the two addresses have changed places. -/
structure Swapped (w v : World) (p q : Address) (a b : BindingId) : Prop where
  names : ∀ {r c}, v.Names r c ↔ if r = q then c = a else if r = p then c = b else w.Names r c
  carries : w.Carries v a ∧ w.Carries v b
  rest : w.Preserves v

/-- The binding `a` has come from the first address to the second. What was there is a
directory if and only if `a` is one, it is empty, and it has no address any more. -/
structure Moved (w v : World) (p q : Address) (a : BindingId) : Prop where
  names : ∀ {r c}, v.Names r c ↔ if r = q then c = a else r ≠ p ∧ w.Names r c
  replaced : ∀ {b}, w.Names q b → w.bindsDirectory b = w.bindsDirectory a ∧
    (∀ c, ¬ w.Entered b c) ∧ ∀ r, ¬ v.Names r b
  carries : w.Carries v a
  rest : w.Preserves v

/-- Two names of one node stay as they are. Of other names the first moves, or the two are
swapped on demand. -/
def Renamed (w v : World) (dirA : BindingId) (nameA : String) (dirB : BindingId) (nameB : String)
    (exchange : Bool) : Prop :=
  ∃ nodeA nodeB a, w.nodeOf dirA = some nodeA ∧ w.nodeOf dirB = some nodeB ∧
    w.child? dirA nameA = some a ∧
    ((∃ b, w.child? dirB nameB = some b ∧ w.nodeOf b = w.nodeOf a) ∧ v = w ∨
      (∀ b, w.child? dirB nameB = some b → w.nodeOf b ≠ w.nodeOf a) ∧
        if exchange then
          ∃ b, w.child? dirB nameB = some b ∧ w.Swapped v (nodeA, nameA) (nodeB, nameB) a b
        else w.Moved v (nodeA, nameA) (nodeB, nameB) a)

end World

open World

variable {w v w' : World} {a b d dirA dirB top : BindingId} {nodeA nodeB source : NodeId}
  {name nameA nameB : String} {flags : RenameFlags}

namespace Forest

/-- A directory has one binding, so an address is a name in the entries of that. -/
theorem at_address_iff (f : Forest w) (hB : w.nodeOf dirB = some nodeB)
    (kind : w.isDirectory nodeB = true) {r : Address} (hd : w.nodeOf d = some r.1) :
    d = dirB ∧ r.2 = nameB ↔ r = (nodeB, nameB) := by
  constructor
  · rintro ⟨rfl, rfl⟩
    cases hB.symm.trans hd
    rfl
  · rintro rfl
    exact ⟨f.once hd hB kind, rfl⟩

/-- One binding stands for a directory. -/
theorem exists_at (f : Forest w) (hB : w.nodeOf dirB = some nodeB)
    (kind : w.isDirectory nodeB = true) {P : BindingId → Prop} :
    (∃ d, w.nodeOf d = some nodeB ∧ P d) ↔ P dirB := by
  constructor
  · rintro ⟨d, hd, h⟩
    rwa [f.once hd hB kind] at h
  · exact fun h => ⟨dirB, hB, h⟩

theorem names_iff (f : Forest w) (hB : w.nodeOf dirB = some nodeB)
    (kind : w.isDirectory nodeB = true) :
    w.Names (nodeB, nameB) b ↔ w.child? dirB nameB = some b :=
  f.exists_at hB kind

/-- A binding has one address. -/
theorem address_unique (f : Forest w) {p q : Address} (hp : w.Names p b) (hq : w.Names q b) :
    p = q := by
  obtain ⟨d, hd, hb⟩ := hp
  obtain ⟨e, he, hb'⟩ := hq
  obtain ⟨nameD, parentD⟩ := f.entry hb
  obtain ⟨nameE, parentE⟩ := f.entry hb'
  cases parentD.symm.trans parentE
  exact Prod.ext (Option.some.inj (hd.symm.trans he)) (nameD.symm.trans nameE)

/-- Who is in a directory is not above it. -/
theorem not_above_parent (f : Forest w) (ha : w.child? dirA nameA = some a) : ¬ w.Above a dirA :=
  fun above => f.not_above_self (.tail' above (f.entry ha).2)

theorem above_of_descend (f : Forest w) {names : List String} {c : BindingId}
    (bound : ∃ n, w.nodeOf top = some n) (h : w.descend top names = some c) :
    w.Above top c ∧ ∃ n, w.nodeOf c = some n := by
  have general : ∀ (names : List String) (b : BindingId), w.Above top b →
      (∃ n, w.nodeOf b = some n) → w.descend b names = some c →
        w.Above top c ∧ ∃ n, w.nodeOf c = some n := by
    intro names
    induction names with
    | nil =>
        rintro b above bound ⟨⟩
        exact ⟨above, bound⟩
    | cons name rest ih =>
        intro b above _ h
        obtain ⟨d, hd, h⟩ := Option.bind_eq_some_iff.1 h
        exact ih d (above.tail (f.entry hd).2) (f.bound hd) h
  exact general names top .refl bound h

end Forest

/-- What is below a binding is carried along if none of the directories there lose or gain
an entry. -/
theorem World.Carries.of_entries (s : Sound w []) (s' : Sound v []) (c : Changes False w v)
    (bound : ∃ n, w.nodeOf top = some n)
    (same : ∀ d, w.Above top d → v.nodeOf d = w.nodeOf d ∧ ∀ name, v.child? d name = w.child? d name) :
    w.Carries v top where
  paths names := by
    have general : ∀ (names : List String) (b : BindingId), w.Above top b →
        v.descend b names = w.descend b names := by
      intro names
      induction names with
      | nil => exact fun b _ => rfl
      | cons name rest ih =>
          intro b above
          rw [descend, descend, (same b above).2]
          cases hd : w.child? b name with
          | none => rfl
          | some d => exact ih d (above.tail (s.forest.entry hd).2)
    exact general names top .refl
  nodes {names d} h := by
    obtain ⟨above, n, hn⟩ := s.forest.above_of_descend bound h
    have hn' := (same d above).1.trans hn
    obtain ⟨x, hx⟩ := Table.has_iff.1 (s.tended.there (owned_of_nodeOf hn))
    obtain ⟨y, hy⟩ := Table.has_iff.1 (s'.tended.there (owned_of_nodeOf hn'))
    exact ⟨n, x, y, hn, hn', hx, hy, restamped_of_changes c hx hy⟩

/-- The names, if no directory with an entry in it loses its node. -/
theorem World.names_iff_of_kept (kept : ∀ {d name c}, v.child? d name = some c →
    v.nodeOf d = w.nodeOf d) {r : Address} {c : BindingId} :
    v.Names r c ↔ ∃ d, w.nodeOf d = some r.1 ∧ v.child? d r.2 = some c := by
  refine exists_congr fun d => and_congr_left fun hc => ?_
  rw [kept hc]

/-! ## From entries to names -/

/-- The binding `a` has come from one entry to another, and no other entry has changed. What
had the entry before may have lost its node. -/
structure World.Shifted (w v : World) (dirA : BindingId) (nameA : String) (dirB : BindingId)
    (nameB : String) (a : BindingId) : Prop where
  child : ∀ d k, v.child? d k = if d = dirB ∧ k = nameB then some a
    else if d = dirA ∧ k = nameA then none else w.child? d k
  node : ∀ d, v.nodeOf d = w.nodeOf d ∨ w.child? dirB nameB = some d

namespace World.Shifted

variable (shifted : w.Shifted v dirA nameA dirB nameB a) (f : Forest w)
  (apartA : ¬ w.Above a dirB) (target : ∀ b, w.child? dirB nameB = some b → b ≠ a ∧
    w.bindsDirectory b = w.bindsDirectory a ∧ ∀ c, ¬ w.Entered b c)
include shifted f apartA target

/-- What may lose its node is neither a directory with entries nor below `a`. -/
theorem node_kept {d : BindingId} (h : w.Above a d ∨ d = dirB ∨ ∃ k c, w.child? d k = some c) :
    v.nodeOf d = w.nodeOf d := by
  refine (shifted.node d).resolve_right fun hd => ?_
  rcases h with above | rfl | ⟨k, c, inside⟩
  · rcases (above_iff_of_parentOf (f.entry hd).2).1 above with same | above
    · exact (target d hd).1 same.symm
    · exact apartA above
  · exact f.not_above_parent hd .refl
  · exact (target d hd).2.2 c ⟨k, inside⟩

theorem names (hA : w.nodeOf dirA = some nodeA) (hB : w.nodeOf dirB = some nodeB)
    (kindA : w.isDirectory nodeA = true) (kindB : w.isDirectory nodeB = true) {r : Address}
    {c : BindingId} : v.Names r c ↔
      if r = (nodeB, nameB) then c = a else r ≠ (nodeA, nameA) ∧ w.Names r c := by
  have kept : ∀ {d k c}, v.child? d k = some c → v.nodeOf d = w.nodeOf d := by
    intro d k c inside
    rw [shifted.child] at inside
    split at inside
    · next h => exact shifted.node_kept f apartA target (.inr (.inl h.1))
    · split at inside
      · cases inside
      · exact shifted.node_kept f apartA target (.inr (.inr ⟨k, c, inside⟩))
  rw [names_iff_of_kept kept]
  by_cases atB : r = (nodeB, nameB)
  · subst atB
    rw [if_pos rfl, f.exists_at hB kindB, shifted.child, if_pos ⟨rfl, rfl⟩]
    exact Option.some_inj.trans eq_comm
  · rw [if_neg atB]
    unfold Names
    rw [← exists_and_left]
    refine exists_congr fun d => ?_
    rw [and_left_comm]
    refine and_congr_right fun hd => ?_
    rw [shifted.child, if_neg (mt (f.at_address_iff hB kindB hd).1 atB)]
    simp only [f.at_address_iff hA kindA hd]
    split
    · next atA => simp [atA]
    · next other => simp [other]

end World.Shifted

section Entries

variable (s : Sound w []) (s' : Sound v []) (c : Changes False w v)
  (hA : w.nodeOf dirA = some nodeA) (hB : w.nodeOf dirB = some nodeB)
  (kindA : w.isDirectory nodeA = true) (kindB : w.isDirectory nodeB = true)
  (ha : w.child? dirA nameA = some a) (apartA : ¬ w.Above a dirB)
include s s' c hA hB kindA kindB ha apartA

theorem World.Swapped.of_entries (hb : w.child? dirB nameB = some b) (apartB : ¬ w.Above b dirA)
    (child : ∀ d k, v.child? d k = if d = dirA ∧ k = nameA then some b
      else if d = dirB ∧ k = nameB then some a else w.child? d k)
    (node : ∀ d, v.nodeOf d = w.nodeOf d) (hne : a ≠ b) :
    w.Swapped v (nodeA, nameA) (nodeB, nameB) a b where
  names {r c} := by
    have places := places_ne hb ha hne.symm
    rw [names_iff_of_kept fun _ => node _]
    by_cases atB : r = (nodeB, nameB)
    · subst atB
      rw [if_pos rfl, s.forest.exists_at hB kindB, child, if_neg places, if_pos ⟨rfl, rfl⟩]
      exact Option.some_inj.trans eq_comm
    · by_cases atA : r = (nodeA, nameA)
      · subst atA
        rw [if_neg atB, if_pos rfl, s.forest.exists_at hA kindA, child, if_pos ⟨rfl, rfl⟩]
        exact Option.some_inj.trans eq_comm
      · rw [if_neg atB, if_neg atA]
        refine exists_congr fun d => and_congr_right fun hd => ?_
        rw [child, if_neg (mt (s.forest.at_address_iff hA kindA hd).1 atA),
          if_neg (mt (s.forest.at_address_iff hB kindB hd).1 atB)]
  carries := by
    have carried : ∀ top, (∃ n, w.nodeOf top = some n) → ¬ w.Above top dirA →
        ¬ w.Above top dirB → w.Carries v top := fun top bound outA outB =>
      .of_entries s s' c bound fun d above => ⟨node d, fun k => by
        rw [child, if_neg (fun h : d = dirA ∧ _ => outA (h.1 ▸ above)),
          if_neg (fun h : d = dirB ∧ _ => outB (h.1 ▸ above))]⟩
    exact ⟨carried a (s.forest.bound ha) (s.forest.not_above_parent ha) apartA,
      carried b (s.forest.bound hb) apartB (s.forest.not_above_parent hb)⟩
  rest := ⟨fun _ => node _, restamped_of_changes c⟩

theorem World.Moved.of_shifted (shifted : w.Shifted v dirA nameA dirB nameB a)
    (target : ∀ b, w.child? dirB nameB = some b → b ≠ a ∧
      w.bindsDirectory b = w.bindsDirectory a ∧ ∀ c, ¬ w.Entered b c) :
    w.Moved v (nodeA, nameA) (nodeB, nameB) a := by
  have f := s.forest
  have names : ∀ {r c}, v.Names r c ↔
      if r = (nodeB, nameB) then c = a else r ≠ (nodeA, nameA) ∧ w.Names r c :=
    shifted.names f apartA target hA hB kindA kindB
  refine ⟨names, fun {b} hb => ?_, ?_, fun {r c} hc => ?_, restamped_of_changes c⟩
  · obtain ⟨other, kinds, empty⟩ := target b ((f.names_iff hB kindB).1 hb)
    refine ⟨kinds, empty, fun r hr => ?_⟩
    rw [names] at hr
    split at hr
    · exact other hr
    · next elsewhere => exact elsewhere (f.address_unique hr.2 hb)
  · refine .of_entries s s' c (f.bound ha) fun d above =>
      ⟨shifted.node_kept f apartA target (.inl above), fun k => ?_⟩
    rw [shifted.child, if_neg (fun h : d = dirB ∧ _ => apartA (h.1 ▸ above)),
      if_neg (fun h : d = dirA ∧ _ => f.not_above_parent ha (h.1 ▸ above))]
  · rcases shifted.node c with same | gone
    · exact same
    · rw [names] at hc
      split at hc
      · exact absurd hc (target c gone).1
      · next elsewhere =>
          exact absurd (f.address_unique hc.2 ((f.names_iff hB kindB).2 gone)) elsewhere

end Entries

/-! ## What the operation does to the entries -/

/-- A binding comes to a free place, and one that is in no place and has no entries is let
go of. -/
theorem Forest.entries_move (f : Forest v) (ha : v.child? dirA nameA = some a)
    (hd : v.bindings.has dirB = true) (free : v.child? dirB nameB = none)
    (other : b ≠ dirB) (empty : ∀ c, ¬ v.Entered b c) :
    (∀ d k, ((v.moveBinding a dirB nameB).settle [.letGo (.binding b)]).child? d k
      = if d = dirB ∧ k = nameB then some a else if d = dirA ∧ k = nameA then none
        else v.child? d k) ∧
    ∀ d, ((v.moveBinding a dirB nameB).settle [.letGo (.binding b)]).nodeOf d = v.nodeOf d ∨
      d = b ∧ ((v.moveBinding a dirB nameB).settle [.letGo (.binding b)]).nodeOf d = none := by
  have leaf : ∀ c, ¬ (v.moveBinding a dirB nameB).Entered b c := by
    rintro c ⟨k, inside⟩
    rw [f.child?_moveBinding ha hd free, if_neg fun h => other h.1] at inside
    split at inside
    · cases inside
    · exact empty c ⟨k, inside⟩
  refine ⟨fun d k => ?_, fun d => ?_⟩
  · rw [child?_letGo_leaf leaf, f.child?_moveBinding ha hd free]
  · rw [← f.nodeOf_moveBinding ha hd free]
    exact nodeOf_letGo_leaf leaf

namespace Sound

/-- The place was taken out of use before. -/
theorem shifted_onto (s : Sound w []) (ha : w.child? dirA nameA = some a)
    (hb : w.child? dirB nameB = some b) (hne : b ≠ a) (isDirB : w.bindsDirectory dirB = true)
    (empty : ∀ c, ¬ w.Entered b c) {target : NodeId} :
    w.Shifted ((((w.replaced nodeA source nodeB b target).touchRenamed nodeA a nodeB b).moveBinding
      a dirB nameB).settle [.letGo (.binding b)]) dirA nameA dirB nameB a := by
  obtain ⟨out, cleared⟩ := s.replaced hb nodeA source nodeB target a
  obtain ⟨child, node⟩ := out.forest.entries_move (b := b)
    (cleared.kept ha (places_ne ha hb hne.symm))
    (has_of_bindsDirectory ((cleared.binds dirB).trans isDirB)) cleared.free
    (fun same => s.forest.not_above_parent hb (same ▸ .refl)) fun c ⟨k, inside⟩ => by
      rw [cleared.child] at inside
      split at inside
      · cases inside
      · exact empty c ⟨k, inside⟩
  refine ⟨fun d k => ?_, fun d => ?_⟩
  · rw [child, cleared.child]
    split
    · rfl
    · rfl
  · rw [← cleared.node]
    rcases node d with kept | ⟨rfl, -⟩
    · exact .inl kept
    · exact .inr hb

/-- The place was free, and the binding that was made for it had no node. -/
theorem shifted_into (ha : w.child? dirA nameA = some a) (free : w.child? dirB nameB = none)
    (isDirB : w.bindsDirectory dirB = true)
    (made : Action.newBinding dirB nameB w = .ok b v) {u : World} (f : Forest u)
    (tree : SameTree v u) :
    w.Shifted ((u.moveBinding a dirB nameB).settle [.letGo (.binding b)]) dirA nameA dirB nameB
      a := by
  obtain ⟨host, -, rfl, rfl⟩ := Action.newBinding_eq_ok.1 made
  have hasB := has_of_bindsDirectory isDirB
  have same : ∀ d k, u.child? d k = w.child? d k := fun d k =>
    tree.child?.trans Forest.child?_pushBinding
  have sameNode : ∀ d, u.nodeOf d = w.nodeOf d := fun d =>
    tree.nodeOf.trans Forest.nodeOf_pushBinding
  have unborn : w.bindings.get? w.bindings.nextId = none := Table.get?_nextId
  obtain ⟨child, node⟩ := f.entries_move (b := w.bindings.nextId) ((same dirA nameA).trans ha)
    (tree.has.trans (Table.has_push.2 (.inl hasB))) ((same dirB nameB).trans free)
    (fun e => by
      obtain ⟨x, hx⟩ := Table.has_iff.1 hasB
      cases unborn.symm.trans (e ▸ hx))
    fun c ⟨k, inside⟩ => by
      rw [same] at inside
      obtain ⟨x, hx, -⟩ := child?_eq_some_iff.1 inside
      cases unborn.symm.trans hx
  refine ⟨fun d k => ?_, fun d => .inl ?_⟩
  · rw [child, same]
  · rw [← sameNode]
    rcases node d with kept | ⟨rfl, gone⟩
    · exact kept
    · rw [gone, sameNode]
      unfold World.nodeOf
      rw [unborn]
      rfl

/-- A directory replaces a directory, and what is no directory no directory. -/
theorem moveName_shifted (s : Sound w []) (hB : w.nodeOf dirB = some nodeB)
    (kindB : w.isDirectory nodeB = true) (ha : w.child? dirA nameA = some a)
    (hsource : w.nodeOf a = some source) (checked : checkName nameB = .ok ())
    (differ : ∀ b, w.child? dirB nameB = some b → b ≠ a) (move : flags.has .exchange = false)
    (done : Action.moveName nodeA a source dirB nodeB nameB (w.child? dirB nameB) flags w
      = .ok () w') :
    ¬ w.Above a dirB ∧ w.Shifted w' dirA nameA dirB nameB a ∧
    ∀ b, w.child? dirB nameB = some b → b ≠ a ∧
      w.bindsDirectory b = w.bindsDirectory a ∧ ∀ c, ¬ w.Entered b c := by
  have isDirB : w.bindsDirectory dirB = true := bindsDirectory_iff.2 ⟨nodeB, hB, kindB⟩
  obtain ⟨apart, ⟨b, n, hb, -, kinds, leaf, rfl⟩ | ⟨b, v, u, free, made, -, su, tree, rfl⟩⟩ :=
    s.moveName_cases hsource hB kindB checked move done
  · have empty : ∀ c, ¬ w.Entered b c := fun c => not_entered_of_hasChildren leaf
    refine ⟨apart, s.shifted_onto ha hb (differ b hb) isDirB empty, fun c hc => ?_⟩
    cases hb.symm.trans hc
    exact ⟨differ b hb, kinds.trans (bindsDirectory_of_nodeOf hsource).symm, empty⟩
  · refine ⟨apart, shifted_into ha free isDirB made su.touchRenamed.forest
      (tree.trans .touchRenamed), fun c hc => ?_⟩
    cases free.symm.trans hc

theorem renamed (s : Sound w []) (done : Action.rename dirA nameA dirB nameB flags w = .ok () w') :
    w.Renamed w' dirA nameA dirB nameB (flags.has .exchange) := by
  have f := s.forest
  have s' := s.rename done
  have c : Changes False w w' := (Changes.refl.rename f).ok done
  obtain ⟨-, checked, nodeA, nodeB, a, source, hA, kindA, hB, kindB, -, ha, hsource, outcome⟩ :=
    Action.rename_ok done
  refine ⟨nodeA, nodeB, a, hA, hB, ha, ?_⟩
  rw [hsource]
  rcases outcome with ⟨⟨b, hb, same⟩, rfl⟩ | ⟨differ, outcome⟩
  · refine .inl ⟨⟨b, hb, ?_⟩, rfl⟩
    rcases same with rfl | same
    · exact hsource
    · exact same
  refine .inr ⟨fun b hb => (differ b hb).2, ?_⟩
  rcases outcome with ⟨exchange, b, hb, done⟩ | ⟨move, done⟩
  · rw [if_pos exchange]
    obtain ⟨apartA, apartB, m, n, -, -, rfl⟩ := Action.exchangeNames_ok exchange done
    have tree : SameTree w ((w.exchangeLinks nodeA m nodeB n).touchRenamed nodeA a nodeB b) :=
      SameTree.exchangeLinks.trans .touchRenamed
    have hne := (differ b hb).1.symm
    obtain ⟨child, node⟩ := (f.congr tree).entries_exchangeBindings (tree.child?.trans ha)
      (tree.child?.trans hb) hne
    refine ⟨b, hb, .of_entries s s' c hA hB kindA kindB ha
      (f.not_above_of_isBelow_eq_false apartA) hb (f.not_above_of_isBelow_eq_false apartB)
      (fun d k => ?_) (fun d => (node d).trans tree.nodeOf) hne⟩
    rw [child, tree.child?]
  · rw [if_neg (Bool.eq_false_iff.1 move)]
    obtain ⟨apart, shifted, target⟩ := s.moveName_shifted hB kindB ha hsource checked
      (fun b hb => (differ b hb).1) move done
    exact .of_shifted s s' c hA hB kindA kindB ha apart shifted target

end Sound

/-! ## After any run -/

/-- Whatever was called before, a rename that succeeds does what it is asked for. -/
theorem rename_run (clock : Clock) (calls : List Call)
    (done : Action.rename dirA nameA dirB nameB flags ((World.fresh clock).run calls)
      = .ok () w') :
    ((World.fresh clock).run calls).Renamed w' dirA nameA dirB nameB (flags.has .exchange) := by
  have s : Sound ((World.fresh clock).run calls) [] := Sound.fresh.run calls
  exact s.renamed done

/-- A directory with a directory in it replaces an empty one in another directory. -/
theorem rename_run_replacing :
    let calls : List Call := [.register builtInType, .mount "tagfs" "",
      .operate (.mkdir 0 "a" ⟨0o755⟩), .operate (.mkdir 1 "x" ⟨0o755⟩),
      .operate (.mkdir 0 "b" ⟨0o755⟩), .operate (.mkdir 3 "c" ⟨0o755⟩)]
    let w := (World.fresh (.steady 0 0 1)).run calls
    ∃ w', Action.rename 0 "a" 3 "c" ⟨0⟩ w = .ok () w' ∧ w.Moved w' (0, "a") (3, "c") 1 := by
  intro calls w
  have seen : (match Action.rename 0 "a" 3 "c" ⟨0⟩ w with
      | .ok _ _ => true
      | .error _ _ => false) = true ∧ w.nodeOf 0 = some 0 ∧ w.nodeOf 3 = some 3 ∧
      w.child? 0 "a" = some 1 ∧ w.child? 3 "c" = some 4 ∧ w.nodeOf 4 ≠ w.nodeOf 1 := by
    decide +kernel
  obtain ⟨succeeds, hA, hB, ha, hb, differ⟩ := seen
  cases done : Action.rename 0 "a" 3 "c" ⟨0⟩ w with
  | error e w' =>
      rw [done] at succeeds
      cases succeeds
  | ok u w' =>
      obtain ⟨nodeA, nodeB, a, hA', hB', ha', outcome⟩ := rename_run (.steady 0 0 1) calls done
      cases hA.symm.trans hA'
      cases hB.symm.trans hB'
      cases ha.symm.trans ha'
      refine ⟨w', rfl, ?_⟩
      rcases outcome with ⟨⟨b, hb', same⟩, -⟩ | ⟨-, moved⟩
      · cases hb.symm.trans hb'
        exact absurd same differ
      · exact moved

/-! ## Targets that are to be kept -/

/-- A rename that is to keep its target swaps nothing. -/
theorem Action.no_exchange_of_rename_ok {u : Unit} (keep : flags.has .keepTarget = true)
    (done : Action.rename dirA nameA dirB nameB flags w = .ok u w') :
    flags.has .exchange = false := by
  unfold Action.rename at done
  simp only [bind_eq_ok, ite_eq_ok, test_eq_ok, throw_eq_ok, keep, Bool.true_and, false_and,
    exists_false, and_false, false_or] at done
  obtain ⟨-, -, -, -, -, -, move, -⟩ := done
  exact Bool.eq_false_iff.2 move

/-- Where such a rename succeeds it has done nothing, the names being those of one node, or it
has moved the binding to a name that was free. -/
theorem Sound.renamed_keeping (s : Sound w []) (keep : flags.has .keepTarget = true)
    (done : Action.rename dirA nameA dirB nameB flags w = .ok () w') :
    ∃ a, w.child? dirA nameA = some a ∧
      ((∃ b, w.child? dirB nameB = some b ∧ w.nodeOf b = w.nodeOf a) ∧ w' = w ∨
        w.child? dirB nameB = none ∧ w.Shifted w' dirA nameA dirB nameB a) := by
  obtain ⟨-, checked, nodeA, nodeB, a, source, -, -, hB, kindB, -, ha, hsource, outcome⟩ :=
    Action.rename_ok done
  refine ⟨a, ha, ?_⟩
  rcases outcome with ⟨⟨b, hb, same⟩, rfl⟩ | ⟨differ, ⟨exchange, -⟩ | ⟨move, done⟩⟩
  · refine .inl ⟨⟨b, hb, ?_⟩, rfl⟩
    rcases same with rfl | same
    · rfl
    · exact same.trans hsource.symm
  · rw [Action.no_exchange_of_rename_ok keep done] at exchange
    cases exchange
  · obtain ⟨-, b, v, v', ⟨-, -, replacing, -⟩ | ⟨free, -⟩, -⟩ := Action.moveName_ok move done
    · cases keep.symm.trans replacing
    · exact .inr ⟨free, (s.moveName_shifted hB kindB ha hsource checked
        (fun b hb => (differ b hb).1) move done).2.1⟩

/-- Whatever was called before, a rename that is to keep its target changes nothing if there is
one, and it fails unless the target is a name of the very node that was to be moved. If there
is none and it succeeds, the new name is taken by what had the old one, and the old one is
free. -/
theorem rename_keepTarget_run (clock : Clock) (calls : List Call)
    (keep : flags.has .keepTarget = true) :
    let w := (World.fresh clock).run calls
    (∀ b, w.child? dirB nameB = some b →
      (∃ e v, Action.rename dirA nameA dirB nameB flags w = .error e v ∧ Unchanged w v) ∨
        Action.rename dirA nameA dirB nameB flags w = .ok () w ∧
          ∃ a, w.child? dirA nameA = some a ∧ w.nodeOf b = w.nodeOf a) ∧
      ∀ v, Action.rename dirA nameA dirB nameB flags w = .ok () v → w.child? dirB nameB = none →
        ∃ a, w.child? dirA nameA = some a ∧ v.child? dirA nameA = none ∧
          v.child? dirB nameB = some a := by
  intro w
  have s : Sound w [] := Sound.fresh.run calls
  refine ⟨fun b hb => ?_, fun v done free => ?_⟩
  · cases outcome : Action.rename dirA nameA dirB nameB flags w with
    | error e v => exact .inl ⟨e, v, rfl, Action.rename_clean s e v outcome⟩
    | ok u v =>
        obtain ⟨a, ha, ⟨⟨c, hc, same⟩, rfl⟩ | ⟨free, -⟩⟩ := s.renamed_keeping keep outcome
        · cases hb.symm.trans hc
          exact .inr ⟨rfl, a, ha, same⟩
        · cases free.symm.trans hb
  · obtain ⟨a, ha, ⟨⟨c, hc, -⟩, -⟩ | ⟨-, shifted⟩⟩ := s.renamed_keeping keep done
    · cases free.symm.trans hc
    · have places : ¬ (dirA = dirB ∧ nameA = nameB) := by
        rintro ⟨rfl, rfl⟩
        cases free.symm.trans ha
      refine ⟨a, ha, ?_, ?_⟩
      · rw [shifted.child, if_neg places, if_pos ⟨rfl, rfl⟩]
      · rw [shifted.child, if_pos ⟨rfl, rfl⟩]

/-- Two files: the name of one is no place for the other, and a free name is. -/
theorem rename_keepTarget_run_taken :
    let calls : List Call := [.register builtInType, .mount "tagfs" "",
      .operate (.create 0 "a" ⟨0o644⟩), .operate (.create 0 "b" ⟨0o644⟩)]
    let w := (World.fresh (.steady 0 0 1)).run calls
    (∃ e v, Action.rename 0 "a" 0 "b" .keepTarget w = .error e v ∧ Unchanged w v) ∧
      ∃ v, Action.rename 0 "a" 0 "c" .keepTarget w = .ok () v ∧ v.child? 0 "a" = none ∧
        v.child? 0 "c" = some 1 := by
  intro calls w
  have keep : RenameFlags.keepTarget.has .keepTarget = true := by decide
  have seen : w.child? 0 "a" = some 1 ∧ w.child? 0 "b" = some 2 ∧ w.child? 0 "c" = none ∧
      w.nodeOf 2 ≠ w.nodeOf 1 := by decide +kernel
  obtain ⟨ha, hb, free, differ⟩ := seen
  constructor
  · rcases (rename_keepTarget_run (.steady 0 0 1) calls keep).1 2 hb with failed | ⟨-, a, ha', same⟩
    · exact failed
    · cases ha.symm.trans ha'
      exact absurd same differ
  · have succeeds : (match Action.rename 0 "a" 0 "c" .keepTarget w with
        | .ok _ _ => true
        | .error _ _ => false) = true := by decide +kernel
    cases done : Action.rename 0 "a" 0 "c" .keepTarget w with
    | error e v =>
        rw [done] at succeeds
        cases succeeds
    | ok u v =>
        obtain ⟨a, ha', gone, there⟩ :=
          (rename_keepTarget_run (.steady 0 0 1) calls keep).2 v done free
        cases ha.symm.trans ha'
        exact ⟨v, rfl, gone, there⟩

/-- The two names of a file are found to be those of one node before the flag is looked at. -/
theorem keepTarget_not_refused :
    ¬ ∀ (calls : List Call) (dirA : BindingId) (nameA : String) (dirB : BindingId)
        (nameB : String) (b : BindingId),
      ((World.fresh (.steady 0 0 1)).run calls).child? dirB nameB = some b →
        ∃ e v, Action.rename dirA nameA dirB nameB .keepTarget
          ((World.fresh (.steady 0 0 1)).run calls) = .error e v := by
  intro claim
  let calls : List Call := [.register builtInType, .mount "tagfs" "",
    .operate (.create 0 "a" ⟨0o644⟩), .operate (.link 1 0 "b")]
  obtain ⟨e, v, failed⟩ := claim calls 0 "a" 0 "b" 2 (by decide +kernel)
  have succeeds :
      (match Action.rename 0 "a" 0 "b" .keepTarget ((World.fresh (.steady 0 0 1)).run calls) with
      | .ok _ _ => true
      | .error _ _ => false) = true := by decide +kernel
  rw [failed] at succeeds
  cases succeeds

end Memfs
