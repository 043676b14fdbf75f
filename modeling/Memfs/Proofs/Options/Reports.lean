import Memfs.Proofs.Options.Mounting

/-!
# The options that a mount reports

What is reported of a mount is a text for its mode, which is empty for the usual mode and
else one option behind a comma. The comma makes an empty part in front, which is no
parameter, so that the text can be mounted with as it is, and can be put behind any other
options. There it comes last and is the mode that counts.

The digits that are printed are a numeral for the same number (`Text.denotes_toDigits`), and
a mode that was configured has no more bits than the mask, so that reading takes back what
printing did.
-/

namespace Memfs

namespace Options

variable {params : List Parameter} {s : Settings} {mode : Mode}

/-! ## Option strings one after the other -/

theorem parameters_append (options rest : String) :
    parameters (options ++ "," ++ rest) = parameters options ++ parameters rest := by
  unfold parameters
  rw [String.toList_append, String.toList_append, List.append_assoc]
  show (((options.toList ++ ',' :: rest.toList).splitOn ',').filter _).map _ = _
  rw [List.splitOn_append_cons_self, List.filter_append, List.map_append]

/-- One option without a comma in it. -/
theorem parameters_single {key value : String} (plain : ',' ∉ key.toList ∧ '=' ∉ key.toList)
    (whole : ',' ∉ value.toList) : parameters (key ++ "=" ++ value) = [⟨key, some value⟩] := by
  have chars : (key ++ "=" ++ value).toList = key.toList ++ '=' :: value.toList := by
    rw [String.toList_append, String.toList_append, List.append_assoc]
    rfl
  have one : (key.toList ++ '=' :: value.toList).splitOn ','
      = [key.toList ++ '=' :: value.toList] := by
    refine List.splitOn_eq_singleton fun mem => ?_
    rcases List.mem_append.1 mem with mem | mem
    · exact plain.1 mem
    · rcases List.mem_cons.1 mem with e | mem
      · exact absurd e (by decide)
      · exact whole mem
  have passed : ∀ c ∈ key.toList, decide (c ≠ '=') = true := fun c mem =>
    decide_eq_true fun e => plain.2 (e ▸ mem)
  have before : (key.toList ++ '=' :: value.toList).takeWhile (· ≠ '=') = key.toList := by
    rw [List.takeWhile_append_of_pos passed]
    exact List.append_nil _
  have after : (key.toList ++ '=' :: value.toList).dropWhile (· ≠ '=') = '=' :: value.toList := by
    rw [List.dropWhile_append_of_pos passed]
    rfl
  have mem : '=' ∈ key.toList ++ '=' :: value.toList := by simp
  have some : ([key.toList ++ '=' :: value.toList]).filter (· ≠ [])
      = [key.toList ++ '=' :: value.toList] := by simp
  unfold parameters
  rw [chars, one, some, List.map_singleton, before, after, if_pos mem, List.tail_cons,
    String.ofList_toList, String.ofList_toList]

/-- What is reported of a mode that is not the usual one is an option behind a comma. -/
theorem parameters_append_options (options : String) (special : mode ≠ defaultRootMode) :
    parameters (options ++ Config.options { mode })
      = parameters options ++ [⟨"mode", some mode.octal⟩] := by
  have digits : ',' ∉ mode.octal.toList := fun mem => by
    unfold Mode.octal Text.octal at mem
    rw [String.toList_ofList] at mem
    exact absurd (Nat.isDigit_of_mem_toDigits (by decide) (by decide) mem) (by decide)
  unfold Config.options
  rw [if_neg special, show ",mode=" = "," ++ ("mode" ++ "=") by decide, String.append_assoc,
    ← String.append_assoc, parameters_append, parameters_single (by decide) digits]

namespace Settings

/-- The mode that is reported is read again. -/
theorem take_reported (plain : mode.permissions = mode.bits) :
    s.take ⟨"mode", some mode.octal⟩ = .ok { s with mode } := by
  have number : number? ⟨"mode", some mode.octal⟩ = some mode.bits.toNat := by
    refine number?_eq_some.2 ⟨mode.octal, rfl, ?_, ?_⟩
    · unfold Mode.octal Text.octal
      rw [String.toList_ofList]
      exact Text.denotes_toDigits (by decide) (by decide) _
    · exact Nat.lt_trans mode.bits.toNat_lt (by decide)
  have masked : mode.bits.toNat.toUInt16 &&& Mode.permissionMask = mode.bits := by
    rw [show mode.bits.toNat.toUInt16 = mode.bits from UInt16.ofNat_toNat]
    exact plain
  have named : "mode" ≠ "" := by decide
  unfold take
  rw [if_neg named, if_pos rfl, number]
  simp only [masked]

theorem takeAll_append_options (plain : mode.permissions = mode.bits) {options : String}
    (special : mode ≠ defaultRootMode) (h : takeAll (parameters options) = .ok s) :
    takeAll (parameters (options ++ Config.options { mode })) = .ok { s with mode } := by
  rw [parameters_append_options options special]
  exact takeAll_concat_eq_ok.2 ⟨s, h, take_reported plain⟩

/-- What is reported is accepted, and asks for the mode and for nothing else. -/
theorem takeAll_options (plain : mode.permissions = mode.bits) :
    takeAll (parameters (Config.options { mode })) = .ok { mode } := by
  by_cases special : mode = defaultRootMode
  · subst special
    rfl
  · have alone := takeAll_append_options plain special
      (show takeAll (parameters "") = .ok {} from rfl)
    rwa [String.empty_append] at alone

/-- Modes that are reported alike are the same. -/
theorem options_inj {mode' : Mode} (plain : mode.permissions = mode.bits)
    (plain' : mode'.permissions = mode'.bits) :
    Config.options { mode } = Config.options { mode := mode' } ↔ mode = mode' := by
  refine ⟨fun same => ?_, fun same => same ▸ rfl⟩
  have read := takeAll_options plain
  rw [same, takeAll_options plain'] at read
  cases read
  rfl

end Settings

end Options

/-! ## Mounts -/

namespace World

/-- The mode that an instance was configured with. -/
def storedMode (w : World) (i : InstanceId) : Option Mode :=
  ((w.instances.get? i).bind (·.config?)).map (·.mode)

/-- The mode of the root directory of an instance. -/
def rootMode (w : World) (i : InstanceId) : Option Mode :=
  ((((w.instances.get? i).bind (·.root)).bind w.nodeOf).bind w.nodes.get?).map (·.mode)

end World

open Options

variable {w v : World} {i : InstanceId} {options text : String} {s : Settings} {mode root : Mode}

namespace World

theorem storedMode_mountedBy {journal : Array Notice} :
    ((w.mountedBy s).withJournal journal).storedMode w.instances.nextId = some s.mode := by
  unfold storedMode
  rw [show ((w.mountedBy s).withJournal journal).instances.get? w.instances.nextId = _ from
    Table.get?_push_self]
  rfl

theorem nodeOf_mountedBy {journal : Array Notice} :
    ((w.mountedBy s).withJournal journal).nodeOf w.bindings.nextId = some w.nodes.nextId :=
  nodeOf_of_get? (w := w.mountedBy s) Table.get?_push_self

theorem rootMode_mountedBy {journal : Array Notice} :
    ((w.mountedBy s).withJournal journal).rootMode w.instances.nextId
      = some (s.mode.withType Mode.directoryType) := by
  unfold rootMode
  rw [show ((w.mountedBy s).withJournal journal).instances.get? w.instances.nextId = _ from
    Table.get?_push_self, Option.bind_some,
    show (s.instance w.bindings.nextId).root = some w.bindings.nextId from rfl, Option.bind_some,
    nodeOf_mountedBy, Option.bind_some,
    show ((w.mountedBy s).withJournal journal).nodes.get? w.nodes.nextId = _ from
    Table.get?_push_self]
  rfl

theorem options_mountedBy {journal : Array Notice} :
    ((w.mountedBy s).withJournal journal).options w.instances.nextId
      = .ok (Config.options { mode := s.mode }) := by
  have inst : ((w.mountedBy s).withJournal journal).instances.get? w.instances.nextId
      = some (s.instance w.bindings.nextId) := Table.get?_push_self
  have node : ((w.mountedBy s).withJournal journal).nodes.get? w.nodes.nextId
      = some (w.rootNode s) := Table.get?_push_self
  unfold options
  rw [inst]
  show optionsAt _ w.bindings.nextId = _
  unfold optionsAt
  rw [nodeOf_mountedBy, Option.bind_some, node]
  simp only
  rw [show (w.rootNode s).home = w.instances.nextId from rfl, inst]
  rfl

end World

/-- A mount of the built-in type has exactly one outcome that succeeds, up to notices. -/
theorem mount_ok (known : w.findType builtInType.name = some builtInType) (allowed : w.Allows)
    (mounted : Action.mount builtInType.name options w = .ok i v) : ∃ s journal,
      Settings.takeAll (parameters options) = .ok s ∧ i = w.instances.nextId ∧
        v = (w.mountedBy s).withJournal journal := by
  obtain ⟨s, taken⟩ := Settings.exists_takeAll_eq_ok.2
    ((mount_options known allowed options).2.1.1 ⟨i, v, mounted⟩)
  obtain ⟨journal, done⟩ := Action.mount_taken known allowed taken
  cases mounted.symm.trans done
  exact ⟨s, journal, taken, rfl, rfl⟩

/-- The text tells the mode of a mount: it can be mounted with, alone or behind other
options, and no other mode is told so. -/
structure Tells (text : String) (mode root : Mode) : Prop where
  again : ∀ {w : World}, w.findType builtInType.name = some builtInType → w.Allows →
    ∃ i v, Action.mount builtInType.name text w = .ok i v ∧ v.storedMode i = some mode ∧
      v.rootMode i = some root ∧ v.options i = .ok text
  same : ∀ {w v : World} {options i}, w.findType builtInType.name = some builtInType → w.Allows →
    Action.mount builtInType.name options w = .ok i v →
      (v.options i = .ok text ↔ v.storedMode i = some mode)
  last : text ≠ "" → ∀ {w : World} {options}, w.findType builtInType.name = some builtInType →
    w.Allows → (∃ i v, Action.mount builtInType.name options w = .ok i v) →
      ∃ i v, Action.mount builtInType.name (options ++ text) w = .ok i v ∧
        v.storedMode i = some mode ∧ v.rootMode i = some root

theorem tells_options (plain : mode.permissions = mode.bits) :
    Tells (Config.options { mode }) mode (mode.withType Mode.directoryType) where
  again known allowed := by
    obtain ⟨journal, done⟩ :=
      Action.mount_taken known allowed (Settings.takeAll_options plain)
    exact ⟨_, _, done, World.storedMode_mountedBy, World.rootMode_mountedBy,
      World.options_mountedBy⟩
  same known allowed mounted := by
    obtain ⟨s, journal, taken, rfl, rfl⟩ := mount_ok known allowed mounted
    rw [World.options_mountedBy, World.storedMode_mountedBy, Except.ok.injEq, Option.some.injEq]
    exact Settings.options_inj (Settings.permissions_of_takeAll taken) plain
  last some := by
    intro w options known allowed ⟨i, v, mounted⟩
    obtain ⟨s, journal, taken, -, -⟩ := mount_ok known allowed mounted
    have special : mode ≠ defaultRootMode := by
      rintro rfl
      exact some rfl
    obtain ⟨journal, done⟩ := Action.mount_taken known allowed
      (Settings.takeAll_append_options plain special taken)
    exact ⟨_, _, done, World.storedMode_mountedBy, World.rootMode_mountedBy⟩

/-- A mount reports its options by a text that tells its mode. -/
theorem options_tells (known : w.findType builtInType.name = some builtInType)
    (allowed : w.Allows) (mounted : Action.mount builtInType.name options w = .ok i v) :
    ∃ text mode root, v.options i = .ok text ∧ v.storedMode i = some mode ∧
      v.rootMode i = some root ∧ Tells text mode root := by
  obtain ⟨s, journal, taken, rfl, rfl⟩ := mount_ok known allowed mounted
  exact ⟨_, s.mode, _, World.options_mountedBy, World.storedMode_mountedBy,
    World.rootMode_mountedBy, tells_options (Settings.permissions_of_takeAll taken)⟩

/-- A mode of more than sixteen bits is cut before it is reported. -/
theorem options_tells_cut :
    let w := (World.fresh (.steady 0 0 1)).run [.register builtInType]
    let options := "mode=4001755"
    w.findType builtInType.name = some builtInType ∧ w.Allows ∧
      ∃ i v, Action.mount builtInType.name options w = .ok i v ∧
        ∃ text mode root, v.options i = .ok text ∧ v.storedMode i = some mode ∧
          v.rootMode i = some root ∧ Tells text mode root := by
  intro w options
  have known : w.findType builtInType.name = some builtInType := by decide +kernel
  have allowed : w.Allows := by
    unfold World.Allows Host.Allows
    decide +kernel
  have taken : Settings.takeAll (parameters options) = .ok { mode := ⟨0o1755⟩ } := by
    decide +kernel
  obtain ⟨journal, mounted⟩ := Action.mount_taken known allowed taken
  exact ⟨known, allowed, _, _, mounted, options_tells known allowed mounted⟩

end Memfs
