import Memfs.Proofs.Devices.Books

/-!
# Lives of configurations

The books say which devices were put back, but not whose. Configurations are values and have
no names, so `Annals` number them in the order in which they were allocated, and follow what
is entered in the books: where each one is and what it holds, and in which order they were
closed, with what they held then and how many were in use. A number is never given again, and
what is nowhere stays there.

That the annals agree with the books is kept by each entry (`Agree.enter`). All there is to it
is that no two configurations are in one place, so that what an entry does to the configuration
of a place is done to one life.
-/

namespace Memfs

/-- Where a configuration is, and the devices that it holds. -/
structure Life where
  place : Place
  backing : Backing := {}
  deriving DecidableEq, Repr

/-- A configuration was given back. -/
structure Closing where
  /-- Its number. -/
  life : Nat
  held : Backing
  /-- How many configurations were in use when its devices were put back. -/
  inUse : Nat
  deriving DecidableEq, Repr

/-- The configurations in the order in which they were allocated, and the order in which they
were closed. -/
structure Annals where
  lives : List Life := []
  closed : List Closing := []
  deriving DecidableEq, Repr

namespace Annals

/-- How many configurations were not given back. -/
def live (a : Annals) : Nat := a.lives.countP (·.place ≠ .nowhere)

/-- The configuration of a place: its number and its devices. -/
def find (a : Annals) (p : Place) : Option (Nat × Backing) :=
  (a.lives.findIdx? (·.place = p)).bind fun n => (a.lives[n]?).map fun l => (n, l.backing)

/-- The configuration of a place, if there is one, is given back. -/
def leave (a : Annals) (p : Place) (inUse : Nat) : Annals :=
  match a.find p with
  | none => a
  | some (n, x) =>
    { lives := a.lives.set n ⟨.nowhere, x⟩
      closed := a.closed ++ [⟨n, x, inUse⟩] }

/-- The configuration of a place, if there is one, goes to another place or gets devices. -/
def change (a : Annals) (p q : Place) (f : Backing → Backing) : Annals :=
  match a.find p with
  | none => a
  | some (n, x) => { a with lives := a.lives.set n ⟨q, f x⟩ }

/-- Follows an entry in the books. -/
def enter (a : Annals) : Books.Entry → Annals
  | .allot p =>
    let a := a.leave p (a.live + 1)
    { a with lives := a.lives ++ [⟨p, {}⟩] }
  | .attach p sort device => a.change p p (·.attach sort device)
  | .move c i => (a.leave (.inst i) a.live).change (.context c) (.inst i) id
  | .close p => a.leave p a.live

end Annals

variable {a : Annals} {b : Books} {p q : Place} {n m : Nat} {x y : Backing} {l : Life}
  {lives : List Life} {backing : Place → Option Backing}

/-! ## Where configurations are -/

/-- A configuration is in a place if and only if it has a life there, and one only. -/
structure Filed (lives : List Life) (backing : Place → Option Backing) : Prop where
  nowhere : backing .nowhere = none
  here : ∀ (n : Nat) (l : Life), lives[n]? = some l → l.place ≠ .nowhere →
    backing l.place = some l.backing
  kept : ∀ p x, backing p = some x → ∃ n : Nat, lives[n]? = some ⟨p, x⟩
  once : ∀ (n m : Nat) (l k : Life), lives[n]? = some l → lives[m]? = some k → l.place = k.place →
    l.place ≠ .nowhere → n = m

theorem getElem?_set_of (known : lives[n]? = some l) {k : Life} :
    (lives.set n k)[m]? = if m = n then some k else lives[m]? := by
  have bound := (List.getElem?_eq_some_iff.1 known).1
  rw [List.getElem?_set]
  by_cases e : m = n
  · rw [if_pos e, if_pos e.symm, if_pos bound]
  · rw [if_neg e, if_neg (Ne.symm e)]

theorem getElem?_concat_of :
    (lives ++ [l])[m]? = if m = lives.length then some l else lives[m]? := by
  by_cases e : m = lives.length
  · rw [if_pos e, e, List.getElem?_concat_length]
  · rw [if_neg e, List.getElem?_append]
    split
    · rfl
    · next past =>
        rw [List.getElem?_eq_none (Nat.le_of_not_lt past), List.getElem?_eq_none]
        simp only [List.length_singleton]
        omega

namespace Filed

/-- A configuration goes nowhere. -/
theorem left (h : Filed lives backing) (known : lives[n]? = some ⟨p, x⟩) (place : p ≠ .nowhere) :
    Filed (lives.set n ⟨.nowhere, x⟩) fun q => if q = p then none else backing q where
  nowhere := (if_neg place.symm).trans h.nowhere
  here m l hm there := by
    rw [getElem?_set_of known] at hm
    split at hm
    · cases hm
      exact absurd rfl there
    · next other =>
        refine (if_neg fun same => other ?_).trans (h.here m l hm there)
        exact h.once m n l _ hm known same there
  kept q y kept := by
    split at kept
    · cases kept
    · next other =>
        obtain ⟨m, hm⟩ := h.kept q y kept
        refine ⟨m, (getElem?_set_of known).trans ((if_neg ?_).trans hm)⟩
        rintro rfl
        exact other (congrArg Life.place (Option.some.inj (hm.symm.trans known)))
  once m k l l' hm hk same there := by
    rw [getElem?_set_of known] at hm hk
    split at hm
    · cases hm
      exact absurd rfl there
    · split at hk
      · cases hk
        exact absurd same there
      · exact h.once m k l l' hm hk same there

/-- A configuration goes to a place that is free, or is changed where it is. -/
theorem moved (h : Filed lives backing) (known : lives[n]? = some ⟨p, x⟩) (source : p ≠ .nowhere)
    (target : q ≠ .nowhere) (free : q = p ∨ backing q = none) : Filed (lives.set n ⟨q, y⟩)
      fun s => if s = q then some y else if s = p then none else backing s where
  nowhere := (if_neg target.symm).trans ((if_neg source.symm).trans h.nowhere)
  here m l hm there := by
    rw [getElem?_set_of known] at hm
    split at hm
    · cases hm
      exact if_pos rfl
    · next other =>
        have apart : l.place ≠ p := fun same => other (h.once m n l _ hm known same there)
        have kept := h.here m l hm there
        refine (if_neg fun same => ?_).trans ((if_neg apart).trans kept)
        rcases free with e | none
        · exact apart (same.trans e)
        · rw [same, none] at kept
          cases kept
  kept s z kept := by
    split at kept
    · next here =>
        cases kept
        exact ⟨n, (getElem?_set_of known).trans ((if_pos rfl).trans (by rw [here]))⟩
    · split at kept
      · cases kept
      · next other =>
          obtain ⟨m, hm⟩ := h.kept s z kept
          refine ⟨m, (getElem?_set_of known).trans ((if_neg ?_).trans hm)⟩
          rintro rfl
          exact other (congrArg Life.place (Option.some.inj (hm.symm.trans known)))
  once m k l l' hm hk same there := by
    -- another life at the target would have to be the one that moves
    have alone : ∀ (j : Nat) (l : Life), lives[j]? = some l → l.place = q → j = n := by
      intro j l hj here
      rcases free with e | none
      · exact h.once j n l _ hj known (here.trans e) (here ▸ target)
      · have kept := h.here j l hj (here ▸ target)
        rw [here, none] at kept
        cases kept
    rw [getElem?_set_of known] at hm hk
    split at hm
    · next em =>
        split at hk
        · next ek => rw [em, ek]
        · cases hm
          rw [em, alone k l' hk same.symm]
    · split at hk
      · next ek =>
          cases hk
          rw [ek, alone m l hm same]
      · exact h.once m k l l' hm hk same there

/-- A configuration begins in a place that is free. -/
theorem push (h : Filed lives backing) (place : p ≠ .nowhere) (free : backing p = none) :
    Filed (lives ++ [⟨p, x⟩]) fun q => if q = p then some x else backing q where
  nowhere := (if_neg place.symm).trans h.nowhere
  here m l hm there := by
    rw [getElem?_concat_of] at hm
    split at hm
    · cases hm
      exact if_pos rfl
    · have kept := h.here m l hm there
      refine (if_neg fun same => ?_).trans kept
      rw [same, free] at kept
      cases kept
  kept q y kept := by
    split at kept
    · next here =>
        cases kept
        exact ⟨lives.length, getElem?_concat_of.trans ((if_pos rfl).trans (by rw [here]))⟩
    · obtain ⟨m, hm⟩ := h.kept q y kept
      have old := (List.getElem?_eq_some_iff.1 hm).1
      exact ⟨m, getElem?_concat_of.trans ((if_neg (Nat.ne_of_lt old)).trans hm)⟩
  once m k l l' hm hk same there := by
    have absent : ∀ (j : Nat) (l : Life), lives[j]? = some l → l.place ≠ p := fun j l hj here => by
      have kept := h.here j l hj (here ▸ place)
      rw [here, free] at kept
      cases kept
    rw [getElem?_concat_of] at hm hk
    split at hm
    · next em =>
        split at hk
        · next ek => rw [em, ek]
        · cases hm
          exact absurd same.symm (absent k l' hk)
    · split at hk
      · cases hk
        exact absurd same (absent m l hm)
      · exact h.once m k l l' hm hk same there

end Filed

/-! ## Finding a configuration -/

namespace Annals

theorem getElem?_of_find (found : a.find p = some (n, x)) : a.lives[n]? = some ⟨p, x⟩ := by
  obtain ⟨m, index, h⟩ := Option.bind_eq_some_iff.1 found
  obtain ⟨l, hl, e⟩ := Option.map_eq_some_iff.1 h
  cases e
  obtain ⟨bound, here, -⟩ := List.findIdx?_eq_some_iff_getElem.1 index
  obtain ⟨_, same⟩ := List.getElem?_eq_some_iff.1 hl
  rw [same] at here
  rw [hl, ← of_decide_eq_true here]

theorem find_eq_none (f : Filed a.lives backing) (place : p ≠ .nowhere) (free : backing p = none) :
    a.find p = none := by
  have absent : a.lives.findIdx? (·.place = p) = none := by
    refine List.findIdx?_eq_none_iff.2 fun l mem => decide_eq_false fun here => ?_
    obtain ⟨n, hn⟩ := List.getElem?_of_mem mem
    have kept := f.here n l hn (here ▸ place)
    rw [here, free] at kept
    cases kept
  rw [find, absent]
  rfl

theorem find_eq_some (f : Filed a.lives backing) (backed : backing p = some x) :
    ∃ n, a.find p = some (n, x) := by
  have place : p ≠ .nowhere := by
    rintro rfl
    cases f.nowhere.symm.trans backed
  obtain ⟨m, hm⟩ := f.kept p x backed
  cases found : a.find p with
  | none =>
      cases index : a.lives.findIdx? (·.place = p) with
      | none =>
          have absent := List.findIdx?_eq_none_iff.1 index _ (List.mem_of_getElem? hm)
          exact absurd rfl (of_decide_eq_false absent)
      | some n =>
          obtain ⟨bound, -⟩ := List.findIdx?_eq_some_iff_getElem.1 index
          rw [find, index, Option.bind_some, List.getElem?_eq_getElem bound] at found
          cases found
  | some pair =>
      obtain ⟨n, y⟩ := pair
      have kept := f.here n _ (getElem?_of_find found) place
      cases backed.symm.trans kept
      exact ⟨n, rfl⟩

/-! ## How many are not closed -/

theorem countP_set_of (known : lives[n]? = some l) {k : Life} :
    (lives.set n k).countP (·.place ≠ .nowhere) + (if l.place ≠ .nowhere then 1 else 0)
      = lives.countP (·.place ≠ .nowhere) + if k.place ≠ .nowhere then 1 else 0 := by
  obtain ⟨bound, same⟩ := List.getElem?_eq_some_iff.1 known
  have present : l.place ≠ .nowhere → 0 < lives.countP (·.place ≠ .nowhere) := fun there =>
    List.countP_pos_iff.2 ⟨l, List.mem_of_getElem? known, decide_eq_true there⟩
  rw [List.countP_set bound, same]
  simp only [decide_eq_true_eq]
  split
  · next there =>
      have := present there
      omega
  · omega

end Annals

/-! ## Agreement -/

/-- The annals say what the books say, `extra` configurations apart that are in nobody's
place. -/
structure Annals.Agree (a : Annals) (extra : Nat) (b : Books) : Prop where
  filed : Filed a.lives b.backing
  releases : b.releases = a.closed.flatMap (·.held.releases)
  puts : b.puts = a.closed.flatMap fun e => e.held.puts e.inUse
  inUse : b.inUse = a.live + extra
  single : (a.closed.map (·.life)).Nodup
  closed : ∀ (n : Nat) x, a.lives[n]? = some ⟨.nowhere, x⟩ ↔ ∃ k, ⟨n, x, k⟩ ∈ a.closed

namespace Annals.Agree

variable {extra : Nat}

/-- What is in a place was not closed. -/
theorem unclosed (h : a.Agree extra b) (known : a.lives[n]? = some l) (there : l.place ≠ .nowhere)
    {k : Nat} : ⟨n, x, k⟩ ∉ a.closed := fun mem => by
  have gone := (h.closed n x).2 ⟨k, mem⟩
  cases known.symm.trans gone
  exact there rfl

/-- The configuration of a place is closed, if there is one. -/
theorem leave (h : a.Agree extra b) (place : p ≠ .nowhere) :
    (a.leave p (a.live + extra)).Agree extra (b.close p) := by
  cases backed : b.backing p with
  | none =>
      rw [Books.close_of_none backed, Annals.leave, find_eq_none h.filed place backed]
      exact h
  | some x =>
      obtain ⟨n, found⟩ := find_eq_some h.filed backed
      have known := getElem?_of_find found
      have fewer := countP_set_of known (k := ⟨.nowhere, x⟩)
      rw [if_pos place, if_neg (not_not_intro rfl)] at fewer
      have count : b.inUse.toNat = a.live + extra := by
        rw [h.inUse]
        omega
      rw [Books.close, backed, Annals.leave, found]
      refine ⟨h.filed.left known place, ?_, ?_, ?_, ?_, fun m y => ?_⟩
      · rw [List.flatMap_append, ← h.releases]
        exact congrArg (b.releases ++ ·) (List.append_nil _).symm
      · rw [List.flatMap_append, ← h.puts, ← count]
        exact congrArg (b.puts ++ ·) (List.append_nil _).symm
      · show b.inUse - 1 = ((a.lives.set n ⟨.nowhere, x⟩).countP (·.place ≠ .nowhere) : Nat) + extra
        have before : b.inUse = (a.lives.countP (·.place ≠ .nowhere) : Nat) + extra := h.inUse
        omega
      · rw [List.map_append]
        refine List.nodup_append.2 ⟨h.single, List.nodup_singleton _, fun m mem k last same => ?_⟩
        obtain ⟨⟨life, y, count⟩, closed, rfl⟩ := List.mem_map.1 mem
        cases (same.trans (List.mem_singleton.1 last) : life = n)
        exact h.unclosed known place closed
      · rw [getElem?_set_of known]
        by_cases e : m = n
        · rw [if_pos e, e]
          constructor
          · rintro ⟨⟩
            exact ⟨_, List.mem_append_right _ List.mem_cons_self⟩
          · rintro ⟨k, mem⟩
            rcases List.mem_append.1 mem with mem | mem
            · exact absurd mem (h.unclosed known place)
            · cases List.mem_singleton.1 mem
              rfl
        · rw [if_neg e, h.closed]
          refine exists_congr fun k => ⟨List.mem_append_left _, fun mem => ?_⟩
          refine (List.mem_append.1 mem).resolve_right fun mem => e ?_
          exact congrArg Closing.life (List.mem_singleton.1 mem)

/-- The configuration of a place is changed, or goes to a place that is free. -/
theorem change (h : a.Agree extra b) (backed : b.backing p = some x) (target : q ≠ .nowhere)
    (free : q = p ∨ b.backing q = none) {f : Backing → Backing} :
    (a.change p q f).Agree extra ((b.without p).keep q (f x)) := by
  have place : p ≠ .nowhere := by
    rintro rfl
    cases h.filed.nowhere.symm.trans backed
  obtain ⟨n, found⟩ := find_eq_some h.filed backed
  have known := getElem?_of_find found
  have count := countP_set_of known (k := ⟨q, f x⟩)
  rw [if_pos place, if_pos target] at count
  rw [Annals.change, found]
  refine ⟨h.filed.moved known place target free, h.releases, h.puts, ?_, h.single, fun m y => ?_⟩
  · show b.inUse = ((a.lives.set n ⟨q, f x⟩).countP (·.place ≠ .nowhere) : Nat) + extra
    have before : b.inUse = (a.lives.countP (·.place ≠ .nowhere) : Nat) + extra := h.inUse
    omega
  · rw [getElem?_set_of known]
    by_cases e : m = n
    · rw [if_pos e, e]
      constructor
      · intro same
        exact absurd (congrArg Life.place (Option.some.inj same)) target
      · rintro ⟨k, mem⟩
        exact absurd mem (h.unclosed known place)
    · rw [if_neg e]
      exact h.closed m y

/-- A configuration that was in nobody's place gets one. -/
theorem push (h : a.Agree 1 b) (place : p ≠ .nowhere) (free : b.backing p = none) :
    Agree { a with lives := a.lives ++ [⟨p, x⟩] } 0 (b.keep p x) where
  filed := h.filed.push place free
  releases := h.releases
  puts := h.puts
  inUse := by
    show b.inUse = ((a.lives ++ [(⟨p, x⟩ : Life)]).countP (·.place ≠ .nowhere) : Nat) + 0
    have before : b.inUse = (a.lives.countP (·.place ≠ .nowhere) : Nat) + 1 := h.inUse
    rw [List.countP_append, List.countP_singleton, if_pos (decide_eq_true place)]
    omega
  single := h.single
  closed m y := by
    rw [getElem?_concat_of]
    split
    · next new =>
        constructor
        · intro same
          exact absurd (congrArg Life.place (Option.some.inj same)) place
        · intro old
          have known := (List.getElem?_eq_some_iff.1 ((h.closed m y).2 old)).1
          exact absurd new (Nat.ne_of_lt known)
    · exact h.closed m y

end Annals.Agree

/-- The entry is about a context or an instance. -/
def Books.Entry.Sited : Books.Entry → Prop
  | .allot p => p ≠ .nowhere
  | .attach p _ _ => p ≠ .nowhere
  | .move _ _ => True
  | .close p => p ≠ .nowhere

/-- A configuration leaves the place where it is. -/
def Books.Entry.Departs : Books.Entry → Prop
  | .allot _ | .attach .. => False
  | .move _ _ => True
  | .close p => p ≠ .nowhere

theorem Books.Entry.Departs.sited {e : Books.Entry} (departs : e.Departs) : e.Sited := by
  cases e with
  | allot | attach => exact departs.elim
  | move => trivial
  | close => exact departs

/-- The annals follow the books. -/
theorem Annals.Agree.enter {e : Books.Entry} (h : a.Agree 0 b) (sited : e.Sited) :
    (a.enter e).Agree 0 (b.enter e) := by
  cases e with
  | allot p =>
      have begun : a.Agree 1 { b with inUse := b.inUse + 1 } :=
        ⟨h.filed, h.releases, h.puts, congrArg (· + 1) h.inUse, h.single, h.closed⟩
      exact (begun.leave sited).push sited (Books.backing_close.trans (if_pos rfl))
  | attach p sort device =>
      show (a.change p p _).Agree 0 (b.attach p sort device)
      cases backed : b.backing p with
      | none =>
          rw [Books.attach_of_none backed, Annals.change, find_eq_none h.filed sited backed]
          exact h
      | some x =>
          rw [Books.attach_of_some backed, ← Books.without_keep]
          exact h.change backed sited (.inl rfl)
  | move c i =>
      have left : (a.leave (.inst i) a.live).Agree 0 (b.close (.inst i)) :=
        h.leave Place.noConfusion
      show ((a.leave (.inst i) a.live).change _ _ _).Agree 0 (b.move c i)
      rw [Books.move]
      cases backed : (b.close (.inst i)).backing (.context c) with
      | none =>
          rw [Annals.change, find_eq_none left.filed Place.noConfusion backed]
          exact left
      | some x =>
          exact left.change backed Place.noConfusion
            (.inr (Books.backing_close.trans (if_pos rfl)))
  | close p => exact h.leave sited

theorem Annals.Agree.enterAll {entries : List Books.Entry} (h : a.Agree 0 b)
    (sited : ∀ e ∈ entries, e.Sited) :
    (entries.foldl Annals.enter a).Agree 0 (entries.foldl Books.enter b) := by
  induction entries generalizing a b with
  | nil => exact h
  | cons e rest ih =>
      obtain ⟨here, later⟩ := List.forall_mem_cons.1 sited
      exact ih (h.enter here) later

/-! ## Where a configuration goes -/

/-- Where the configuration of a place is after the entry. -/
def Books.Entry.carry : Books.Entry → Place → Place
  | .allot q, p | .close q, p => if p = q then .nowhere else p
  | .attach .., p => p
  | .move c i, p => if p = .inst i then .nowhere else if p = .context c then .inst i else p

/-- Where it is after all of them. -/
def Books.carry (entries : List Books.Entry) (p : Place) : Place :=
  entries.foldl (fun p e => e.carry p) p

/-- If configurations are given back, and nothing else happens, then one is where it was
unless it is given back. -/
theorem Books.carry_closes {entries : List Books.Entry}
    (closes : ∀ e ∈ entries, ∃ q, e = .close q) :
    Books.carry entries p = if .close p ∈ entries then .nowhere else p := by
  induction entries generalizing p with
  | nil => rfl
  | cons e rest ih =>
      obtain ⟨⟨q, rfl⟩, later⟩ := List.forall_mem_cons.1 closes
      refine (ih later).trans ?_
      by_cases here : p = q
      · subst here
        rw [if_pos List.mem_cons_self]
        show (if _ then _ else if p = p then Place.nowhere else p) = _
        rw [if_pos rfl, ite_self]
      · have carried : (Books.Entry.close q).carry p = p := if_neg here
        have mem : Books.Entry.close p ∈ .close q :: rest ↔ .close p ∈ rest :=
          List.mem_cons.trans (or_iff_right (mt Books.Entry.close.inj here))
        simp only [carried, mem]

namespace Annals

theorem place_change (f : Filed a.lives backing) (place : p ≠ .nowhere)
    (known : a.lives[n]? = some l) {g : Backing → Backing} :
    ∃ l', (a.change p q g).lives[n]? = some l' ∧ l'.place = if l.place = p then q else l.place := by
  rw [Annals.change]
  cases found : a.find p with
  | none =>
      refine ⟨l, known, (if_neg fun same => ?_).symm⟩
      obtain ⟨m, found'⟩ := find_eq_some f (f.here n l known (same ▸ place))
      cases found.symm.trans (same ▸ found')
  | some pair =>
      obtain ⟨m, x⟩ := pair
      have here := getElem?_of_find found
      simp only
      rw [getElem?_set_of here]
      by_cases e : n = m
      · subst e
        cases here.symm.trans known
        exact ⟨_, if_pos rfl, (if_pos rfl).symm⟩
      · refine ⟨l, (if_neg e).trans known, (if_neg fun same => e ?_).symm⟩
        exact f.once n m l _ known here same (same ▸ place)

/-- What is given back goes nowhere. -/
theorem place_leave (f : Filed a.lives backing) (place : p ≠ .nowhere)
    (known : a.lives[n]? = some l) {k : Nat} : ∃ l', (a.leave p k).lives[n]? = some l' ∧
      l'.place = if l.place = p then .nowhere else l.place := by
  have same : (a.leave p k).lives = (a.change p .nowhere id).lives := by
    rw [leave, change]
    cases a.find p with
    | none => rfl
    | some pair => rfl
  rw [same]
  exact place_change f place known

/-- Where an entry carries the configurations of the books, there it carries those of the
annals. -/
theorem Agree.place_enter {e : Books.Entry} (h : a.Agree 0 b) (sited : e.Sited)
    (known : a.lives[n]? = some l) :
    ∃ l', (a.enter e).lives[n]? = some l' ∧ l'.place = e.carry l.place := by
  cases e with
  | allot p =>
      obtain ⟨l', known', place⟩ := place_leave h.filed sited known (k := a.live + 1)
      have old := (List.getElem?_eq_some_iff.1 known').1
      exact ⟨l', (List.getElem?_append_left old).trans known', place⟩
  | attach p sort device =>
      obtain ⟨l', known', place⟩ := place_change (q := p) (g := (·.attach sort device))
        h.filed sited known
      refine ⟨l', known', place.trans ?_⟩
      split
      · next here => exact here.symm
      · rfl
  | move c i =>
      have left : (a.leave (.inst i) a.live).Agree 0 (b.close (.inst i)) :=
        h.leave Place.noConfusion
      obtain ⟨l₁, known₁, place₁⟩ := place_leave h.filed Place.noConfusion known (p := .inst i)
        (k := a.live)
      obtain ⟨l₂, known₂, place₂⟩ := place_change (p := .context c) (q := .inst i) (g := id)
        left.filed Place.noConfusion known₁
      refine ⟨l₂, known₂, place₂.trans ?_⟩
      rw [place₁]
      show _ = if l.place = .inst i then _ else _
      split
      · exact if_neg nofun
      · rfl
  | close p => exact place_leave h.filed sited known

theorem Agree.place_enterAll {entries : List Books.Entry} (h : a.Agree 0 b)
    (sited : ∀ e ∈ entries, e.Sited) (known : a.lives[n]? = some l) :
    ∃ l', (entries.foldl Annals.enter a).lives[n]? = some l' ∧
      l'.place = Books.carry entries l.place := by
  induction entries generalizing a b l with
  | nil => exact ⟨l, known, rfl⟩
  | cons e rest ih =>
      obtain ⟨here, later⟩ := List.forall_mem_cons.1 sited
      obtain ⟨l₁, known₁, place₁⟩ := h.place_enter here known
      obtain ⟨l₂, known₂, place₂⟩ := ih (h.enter here) later known₁
      exact ⟨l₂, known₂, by rw [place₂, place₁]; rfl⟩

end Annals

/-! ## What does not change, and what is added -/

/-- The devices of a configuration after an attempt to attach one. -/
def Life.attempted (l : Life) (attempt : Option (Place × DeviceSort × Device)) : Backing :=
  attempt.elim l.backing fun (p, sort, device) =>
    if l.place = p then l.backing.attach sort device else l.backing

/-- Every configuration has its number still, and the devices that it had, with one more if one
was attached to it. Nothing happens any more to one that was closed. -/
def Annals.Lasts (a : Annals) (attempt : Option (Place × DeviceSort × Device)) (a' : Annals) :
    Prop :=
  ∀ (n : Nat) l, a.lives[n]? = some l → ∃ l', a'.lives[n]? = some l' ∧
    l'.backing = l.attempted attempt ∧ (l.place = .nowhere → l' = l)

/-- Between two states of the annals, with `begun` configurations that are new, some were
closed, and they are entered after those that were closed before. Each of them was in use
when its devices were put back, and so were those that were closed after it. -/
def Annals.Closes (a : Annals) (begun : Nat) (a' : Annals) : Prop :=
  ∃ new : List Closing, a'.closed = a.closed ++ new ∧ a.live + begun = a'.live + new.length ∧
    new.map (·.inUse) = (List.range' (a'.live + 1) new.length).reverse

namespace Annals

variable {a' a'' : Annals} {attempt : Option (Place × DeviceSort × Device)} {begun : Nat}

theorem Lasts.refl : a.Lasts none a := fun _ l known => ⟨l, known, rfl, fun _ => rfl⟩

theorem Lasts.trans (h : a.Lasts attempt a') (h' : a'.Lasts none a'') : a.Lasts attempt a'' := by
  intro n l known
  obtain ⟨l', known', held, closed⟩ := h n l known
  obtain ⟨l'', known'', held', closed'⟩ := h' n l' known'
  refine ⟨l'', known'', held'.trans held, fun gone => ?_⟩
  have same := closed gone
  exact (closed' (same ▸ gone)).trans same

/-- One configuration has changed. -/
theorem Lasts.set {k : Life} {closed : List Closing} (known : a.lives[n]? = some l)
    (held : k.backing = l.attempted attempt) (gone : l.place = .nowhere → k = l)
    (others : ∀ (m : Nat) l', m ≠ n → a.lives[m]? = some l' → l'.backing = l'.attempted attempt) :
    a.Lasts attempt { lives := a.lives.set n k, closed } := by
  intro m l' hm
  simp only
  rw [getElem?_set_of known]
  by_cases e : m = n
  · rw [e, known] at hm
    cases hm
    exact ⟨k, if_pos e, held, gone⟩
  · exact ⟨l', (if_neg e).trans hm, others m l' e hm, fun _ => rfl⟩

theorem Lasts.leave {k : Nat} : a.Lasts none (a.leave p k) := by
  rw [Annals.leave]
  cases found : a.find p with
  | none => exact .refl
  | some pair =>
      refine .set (getElem?_of_find found) rfl (fun gone => ?_) fun _ _ _ _ => rfl
      rw [show p = .nowhere from gone]

theorem Lasts.change (place : p ≠ .nowhere) : a.Lasts none (a.change p q id) := by
  rw [Annals.change]
  cases found : a.find p with
  | none => exact .refl
  | some pair =>
      exact .set (getElem?_of_find found) rfl (fun gone => absurd gone place) fun _ _ _ _ => rfl

/-- Only the configuration of the place gets the device. -/
theorem Lasts.attach {sort : DeviceSort} {device : Device} (f : Filed a.lives backing)
    (place : p ≠ .nowhere) :
    a.Lasts (some (p, sort, device)) (a.change p p (·.attach sort device)) := by
  have elsewhere : ∀ l : Life, l.place ≠ p → l.backing = l.attempted (some (p, sort, device)) :=
    fun l other => (if_neg other).symm
  rw [Annals.change]
  cases found : a.find p with
  | none =>
      intro m l known
      refine ⟨l, known, elsewhere l fun same => ?_, fun _ => rfl⟩
      obtain ⟨n, found'⟩ := find_eq_some f (f.here m l known (same ▸ place))
      cases found.symm.trans (same ▸ found')
  | some pair =>
      have here := getElem?_of_find found
      refine .set here (if_pos rfl).symm (fun gone => absurd gone place) fun m l other known =>
        elsewhere l fun same => other ?_
      exact f.once m _ l _ known here same (same ▸ place)

theorem Closes.refl : a.Closes 0 a := ⟨[], (List.append_nil _).symm, rfl, rfl⟩

theorem Closes.trans (h : a.Closes begun a') (h' : a'.Closes 0 a'') : a.Closes begun a'' := by
  obtain ⟨first, closed, count, inUse⟩ := h
  obtain ⟨rest, closed', count', inUse'⟩ := h'
  refine ⟨first ++ rest, ?_, ?_, ?_⟩
  · rw [closed', closed, List.append_assoc]
  · rw [List.length_append]
    omega
  · have next : a'.live + 1 = a''.live + 1 + 1 * rest.length := by omega
    rw [List.map_append, inUse, inUse', next, ← List.reverse_append, List.range'_append,
      List.length_append, Nat.add_comm rest.length]

/-- One configuration was closed, or none. -/
theorem Closes.leave (place : p ≠ .nowhere) {k : Nat} : ∃ new : List Closing,
    (a.leave p k).closed = a.closed ++ new ∧ a.live = (a.leave p k).live + new.length ∧
      (new = [] ∨ ∃ c, new = [c] ∧ c.inUse = k) := by
  rw [Annals.leave]
  cases found : a.find p with
  | none => exact ⟨[], (List.append_nil _).symm, rfl, .inl rfl⟩
  | some pair =>
      obtain ⟨n, x⟩ := pair
      have fewer := countP_set_of (getElem?_of_find found) (k := ⟨.nowhere, x⟩)
      rw [if_pos place, if_neg (not_not_intro rfl)] at fewer
      exact ⟨[⟨n, x, k⟩], rfl, fewer.symm, .inr ⟨_, rfl, rfl⟩⟩

theorem Closes.close (place : p ≠ .nowhere) : a.Closes 0 (a.leave p a.live) := by
  obtain ⟨new, closed, count, rfl | ⟨c, rfl, inUse⟩⟩ := Closes.leave (a := a) (k := a.live) place
  · exact ⟨[], closed, count, rfl⟩
  · refine ⟨[c], closed, count, ?_⟩
    rw [List.map_singleton, inUse]
    exact congrArg (fun m => [m]) count

/-- What is closed to make room for a new configuration is closed when that one is in use. -/
theorem Closes.allot (place : p ≠ .nowhere) : a.Closes 1 (a.enter (.allot p)) := by
  have more : (a.enter (.allot p)).live = (a.leave p (a.live + 1)).live + 1 := by
    show ((a.leave p (a.live + 1)).lives ++ [(⟨p, {}⟩ : Life)]).countP (·.place ≠ .nowhere) = _
    rw [List.countP_append, List.countP_singleton, if_pos (decide_eq_true place)]
    rfl
  obtain ⟨new, closed, count, one⟩ := Closes.leave (a := a) (k := a.live + 1) place
  refine ⟨new, closed, by omega, ?_⟩
  rcases one with rfl | ⟨c, rfl, inUse⟩
  · rfl
  · rw [List.map_singleton, inUse, more]
    exact congrArg (fun m => [m + 1]) count

theorem Closes.change (source : p ≠ .nowhere) (target : q ≠ .nowhere) {f : Backing → Backing} :
    a.Closes 0 (a.change p q f) := by
  rw [Annals.change]
  cases found : a.find p with
  | none => exact .refl
  | some pair =>
      obtain ⟨n, x⟩ := pair
      have same := countP_set_of (getElem?_of_find found) (k := ⟨q, f x⟩)
      rw [if_pos source, if_pos target] at same
      exact ⟨[], (List.append_nil _).symm, (Nat.add_right_cancel same).symm, rfl⟩

theorem length_leave {k : Nat} : (a.leave p k).lives.length = a.lives.length := by
  rw [Annals.leave]
  cases a.find p with
  | none => rfl
  | some pair => exact List.length_set

theorem length_change {f : Backing → Backing} :
    (a.change p q f).lives.length = a.lives.length := by
  rw [Annals.change]
  cases a.find p with
  | none => rfl
  | some pair => exact List.length_set

/-- A configuration that is new has the next number and no devices. -/
theorem getElem?_allot :
    (a.enter (.allot p)).lives[a.lives.length]? = some ⟨p, {}⟩ := by
  show ((a.leave p (a.live + 1)).lives ++ [_])[_]? = _
  rw [← length_leave, List.getElem?_concat_length]

theorem Lasts.allot : a.Lasts none (a.enter (.allot p)) :=
  Lasts.leave.trans fun _ l known => ⟨l, (List.getElem?_append_left
    (List.getElem?_eq_some_iff.1 known).1).trans known, rfl, fun _ => rfl⟩

/-- Those that depart keep their devices, and are closed one after the other. -/
theorem lasts_departures {departures : List Books.Entry} (departs : ∀ e ∈ departures, e.Departs) :
    a.Lasts none (departures.foldl Annals.enter a) ∧ a.Closes 0 (departures.foldl Annals.enter a) ∧
      (departures.foldl Annals.enter a).lives.length = a.lives.length := by
  induction departures generalizing a with
  | nil => exact ⟨.refl, .refl, rfl⟩
  | cons e rest ih =>
      obtain ⟨here, later⟩ := List.forall_mem_cons.1 departs
      obtain ⟨lasts, closes, length⟩ := ih (a := a.enter e) later
      cases e with
      | allot | attach => exact here.elim
      | move c i =>
          have left : (a.leave (.inst i) a.live).Closes 0 (a.enter (.move c i)) :=
            .change Place.noConfusion Place.noConfusion
          refine ⟨(Lasts.leave.trans (.change Place.noConfusion)).trans lasts,
            ((Closes.close Place.noConfusion).trans left).trans closes, length.trans ?_⟩
          exact length_change.trans length_leave
      | close p =>
          exact ⟨Lasts.leave.trans lasts, (Closes.close here).trans closes,
            length.trans length_leave⟩

end Annals

end Memfs
