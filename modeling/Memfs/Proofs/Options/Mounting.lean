import Memfs.Proofs.Creation
import Memfs.Proofs.Mounting
import Memfs.Proofs.Options.Grammar

/-!
# Mounting with options

A mount of the built-in type with an option string is followed from end to end. While the
parameters are taken, everything about the context is told by the settings so far:
`World.prepared` is the world with such a context in it, and each parameter leads from one
prepared world to another as `Settings.take` leads from settings to settings, or fails with
the same error. After that nothing is asked of the string. What is built is `mountedBy` the
settings, stage by stage, and the context is gone.

So a mount has one outcome for each option string, up to the notices that it leaves, and
what is said of it here is said of the settings.
-/

namespace Memfs

open Options

/-! ## A context that is given parameters -/

/-- The context of a mount of the built-in type with these settings. -/
def Options.Settings.context (s : Settings) : Context where
  type := builtInType
  data := some (.config { mode := s.mode })
  source := s.source

/-- A context is new and has these settings. -/
def World.prepared (w : World) (host : Host) (s : Settings) : World :=
  { w with host, contexts := w.contexts.push s.context }

namespace World

variable {w : World}

/-- A context that was just entered is changed where it was entered. -/
theorem modifyContext_push {contexts : Table Context} {x : Context} {g : Context → Context}
    (h : w.contexts = contexts.push x) :
    w.modifyContext contexts.nextId g = { w with contexts := contexts.push (g x) } := by
  unfold modifyContext
  rw [h, Table.modify_push]

theorem modifyInstance_push {instances : Table Instance} {x : Instance} {g : Instance → Instance}
    (h : w.instances = instances.push x) :
    w.modifyInstance instances.nextId g = { w with instances := instances.push (g x) } := by
  unfold modifyInstance
  rw [h, Table.modify_push]

end World

namespace Action

open World

variable {w : World} {host : Host} {s t : Settings} {param : Parameter} {e : Error}

theorem context_prepared :
    context w.contexts.nextId (w.prepared host s) = .ok s.context (w.prepared host s) :=
  context_of_get? Table.get?_push_self

/-- Only the mode is in the table of the built-in type. -/
theorem decode_builtIn : param.decode builtInType.parameters =
    if param.key = "mode" then
      (ParameterForm.octal.read param.value).map fun value => some ⟨modeTag, value⟩
    else .ok none := by
  unfold Parameter.decode
  by_cases key : param.key = "mode"
  · have found : builtInType.parameters.find? (·.name == param.key)
        = some ⟨"mode", .octal, modeTag⟩ := by
      rw [key]
      rfl
    rw [found, if_pos key]
    rfl
  · have absent : builtInType.parameters.find? (·.name == param.key) = none := by
      refine List.find?_eq_none.2 fun spec mem => ?_
      cases List.mem_singleton.1 mem
      simpa using Ne.symm key
    rw [absent, if_neg key]

theorem read_octal {n : Nat} (number : number? param = some n) :
    ParameterForm.octal.read param.value = .ok (.number n) := by
  obtain ⟨text, value, decoded⟩ := Option.bind_eq_some_iff.1 number
  rw [value]
  show ParameterForm.read.ofNumeral _ = _
  rw [decoded]
  rfl

theorem read_octal_refused (number : number? param = none) :
    ∃ fault, ParameterForm.octal.read param.value = .error fault := by
  unfold number? at number
  cases value : param.value with
  | none => exact ⟨_, rfl⟩
  | some text =>
      rw [value, Option.bind_some] at number
      refine ⟨.malformed, ?_⟩
      show ParameterForm.read.ofNumeral _ = _
      rw [number]
      rfl

theorem decode_prepared {setting : Option Setting}
    (decoded : param.decode builtInType.parameters = .ok setting) :
    decode w.contexts.nextId param (w.prepared host s) = .ok setting (w.prepared host s) := by
  have decoded : param.decode s.context.type.parameters = .ok setting := decoded
  unfold decode
  rw [bind_of_ok context_prepared, decoded]
  rfl

theorem decode_refused {fault : ParameterFault}
    (decoded : param.decode builtInType.parameters = .error fault) : ∃ journal,
    decode w.contexts.nextId param (w.prepared host s)
      = .error .invalidOption (w.prepared { host with journal } s) := by
  have decoded : param.decode s.context.type.parameters = .error fault := decoded
  unfold decode
  rw [bind_of_ok context_prepared, decoded]
  cases fault with
  | malformed => exact ⟨host.journal, rfl⟩
  | misplaced => exact ⟨_, rfl⟩

theorem takeSource_prepared {text : String} (key : param.key = "source") (free : s.source = none)
    (value : param.value = some text) :
    takeSource w.contexts.nextId param (w.prepared host s)
      = .ok true (w.prepared host { s with source := some text }) := by
  have unset : ¬ s.context.source.isSome = true := by
    rw [show s.context.source = s.source from rfl, free]
    decide
  unfold takeSource
  rw [if_neg (not_not.2 key)]
  refine (bind_of_ok context_prepared).trans ?_
  rw [if_neg unset]
  refine (bind_of_ok (require_eq_ok.2 ⟨value, rfl⟩)).trans ?_
  refine (bind_of_ok (a := ()) (modify_eq_ok.2 rfl)).trans ?_
  rw [modifyContext_push rfl]
  rfl

theorem takeSource_refused (key : param.key = "source")
    (bad : s.source.isSome = true ∨ param.value = none) : ∃ journal,
    takeSource w.contexts.nextId param (w.prepared host s)
      = .error .invalidOption (w.prepared { host with journal } s) := by
  unfold takeSource
  rw [if_neg (not_not.2 key), bind_of_ok context_prepared]
  by_cases given : s.context.source.isSome = true
  · rw [if_pos given]
    exact ⟨_, rfl⟩
  · rw [if_neg given]
    have absent : param.value = none := bad.resolve_left given
    exact ⟨host.journal, bind_of_error (require_eq_error.2 ⟨absent, rfl, rfl⟩)⟩

/-- The context of a mount of the built-in type passes over what it does not know. -/
theorem applyParameter_eq (named : param.key ≠ "") :
    applyParameter w.contexts.nextId param (w.prepared host s)
      = applyLenient w.contexts.nextId param (w.prepared host s) := by
  unfold applyParameter
  rw [if_neg named]
  exact bind_of_ok context_prepared

/-- A parameter is taken as the settings take it. -/
theorem applyParameter_taken (host : Host) (taken : s.take param = .ok t) : ∃ journal,
    applyParameter w.contexts.nextId param (w.prepared host s)
      = .ok () (w.prepared { host with journal } t) := by
  have named : param.key ≠ "" := fun nameless => by
    rw [Settings.take, if_pos nameless] at taken
    cases taken
  rw [applyParameter_eq named]
  unfold applyLenient
  rcases Settings.take_ok taken with ⟨mode, n, number, rfl⟩ | ⟨key, free, text, value, rfl⟩ |
    ⟨mode, other, e⟩
  · have decoded : param.decode builtInType.parameters = .ok (some ⟨modeTag, .number n⟩) := by
      rw [decode_builtIn, if_pos mode, read_octal number]
      rfl
    refine ⟨host.journal, ?_⟩
    refine (bind_of_ok (decode_prepared decoded)).trans ?_
    refine (bind_of_ok context_prepared).trans ?_
    refine (bind_of_ok (require_eq_ok.2 ⟨rfl, rfl⟩)).trans ?_
    refine (bind_of_ok (require_eq_ok.2 ⟨rfl, rfl⟩)).trans ?_
    exact modify_eq_ok.2 ((modifyContext_push rfl).trans rfl)
  · have decoded : param.decode builtInType.parameters = .ok none := by
      rw [decode_builtIn, if_neg (by rw [key]; decide)]
    refine ⟨host.journal, ?_⟩
    refine (bind_of_ok (decode_prepared decoded)).trans ?_
    exact bind_of_ok (takeSource_prepared key free value)
  · have decoded : param.decode builtInType.parameters = .ok none := by
      rw [decode_builtIn, if_neg mode]
    have left : takeSource w.contexts.nextId param (w.prepared host s)
        = .ok false (w.prepared host s) := by
      unfold takeSource
      rw [if_pos other]
      rfl
    cases e
    refine ⟨host.journal.push (.optionIgnored param.key), ?_⟩
    refine (bind_of_ok (decode_prepared decoded)).trans ?_
    exact bind_of_ok left

theorem applyParameter_refused (host : Host) (refused : s.take param = .error e) :
    ∃ journal,
    applyParameter w.contexts.nextId param (w.prepared host s)
      = .error e (w.prepared { host with journal } s) := by
  rcases Settings.take_error refused with ⟨nameless, rfl⟩ | ⟨mode, wrong, rfl⟩ | ⟨key, bad, rfl⟩
  · refine ⟨host.journal, ?_⟩
    unfold applyParameter
    rw [if_pos nameless]
    rfl
  · rw [applyParameter_eq (by rw [mode]; decide)]
    obtain ⟨fault, unread⟩ := read_octal_refused wrong
    have decoded : param.decode builtInType.parameters = .error fault := by
      rw [decode_builtIn, if_pos mode, unread]
      rfl
    obtain ⟨journal, failed⟩ := decode_refused decoded
    exact ⟨journal, bind_of_error failed⟩
  · rw [applyParameter_eq (by rw [key]; decide)]
    have decoded : param.decode builtInType.parameters = .ok none := by
      rw [decode_builtIn, if_neg (by rw [key]; decide)]
    obtain ⟨journal, failed⟩ := takeSource_refused key bad
    exact ⟨journal, (bind_of_ok (decode_prepared decoded)).trans (bind_of_error failed)⟩

/-! ## All parameters -/

theorem forM_prepared {params : List Parameter} (host : Host)
    (taken : params.foldlM Settings.take s = .ok t) : ∃ journal,
    params.forM (applyParameter w.contexts.nextId) (w.prepared host s)
      = .ok () (w.prepared { host with journal } t) := by
  induction params generalizing host s with
  | nil =>
      cases taken
      exact ⟨host.journal, rfl⟩
  | cons param rest ih =>
      cases one : s.take param with
      | error e =>
          rw [List.foldlM_cons, one] at taken
          cases taken
      | ok u =>
          rw [List.foldlM_cons, one] at taken
          obtain ⟨_, first⟩ := applyParameter_taken (w := w) host one
          obtain ⟨journal, second⟩ := ih _ taken
          exact ⟨journal, (bind_of_ok first).trans second⟩

theorem forM_refused {params : List Parameter} (host : Host)
    (refused : params.foldlM Settings.take s = .error e) : ∃ journal t,
    params.forM (applyParameter w.contexts.nextId) (w.prepared host s)
      = .error e (w.prepared { host with journal } t) := by
  induction params generalizing host s with
  | nil => cases refused
  | cons param rest ih =>
      cases one : s.take param with
      | error e' =>
          rw [List.foldlM_cons, one] at refused
          cases refused
          obtain ⟨journal, failed⟩ := applyParameter_refused (w := w) host one
          exact ⟨journal, s, bind_of_error failed⟩
      | ok u =>
          rw [List.foldlM_cons, one] at refused
          obtain ⟨_, first⟩ := applyParameter_taken (w := w) host one
          obtain ⟨journal, t, second⟩ := ih _ refused
          exact ⟨journal, t, (bind_of_ok first).trans second⟩

end Action

/-! ## The instance that is made -/

/-- The account after one more allocation. -/
def Tally.charged (t : Tally) : Tally := t.charge.getD t

/-- The host after one more allocation. -/
def Host.spend (host : Host) (kind : Resource) : Host :=
  { host with ledger := host.ledger.set kind (host.ledger.get kind).charged }

/-- The host grants one more allocation of the kind. -/
def Host.Allows (host : Host) (kind : Resource) : Prop := (host.ledger.get kind).budget ≠ some 0

namespace Host

variable {host : Host} {kind other : Resource}

theorem acquire_of_allows (h : host.Allows kind) : host.acquire kind = (true, host.spend kind) := by
  unfold acquire spend Tally.charged Tally.charge
  unfold Allows at h
  cases budget : (host.ledger.get kind).budget with
  | none => rfl
  | some n =>
      cases n with
      | zero => exact absurd budget h
      | succ n => rfl

/-- An allocation of one kind is no matter to the others. -/
theorem allows_spend (apart : other ≠ kind) :
    (host.spend kind).Allows other ↔ host.Allows other := by
  unfold Allows spend
  rw [Ledger.get_set, if_neg apart]

end Host

namespace Action

variable {w : World} {host : Host} {s : Settings} {i : InstanceId} {c : ContextId} {n : NodeId}

theorem newNode_granted (mode : Mode) (allowed : w.host.Allows .node) :
    ∃ journal, newNode i none (mode.withType Mode.directoryType) .none w = .ok w.nodes.nextId
      { w with
        host := { (w.host.spend .node).drawIno.2.readClock.2 with journal }
        nodes := w.nodes.push (Node.make (w.host.spend .node).drawIno.1 .directory
          (mode.withType Mode.directoryType) w.host.uid w.host.gid
          ((w.host.spend .node).drawIno.2.readClock.1.truncate
            (((w.instances.get? i).map (·.geometry.timeGrain)).getD 1)) i) } := by
  have granted : onHost (·.acquire .node) w = .ok true { w with host := w.host.spend .node } := by
    rw [onHost_eq_ok, Host.acquire_of_allows allowed]
    exact ⟨rfl, rfl⟩
  unfold newNode
  refine ⟨w.host.journal.push (.newNode (w.host.spend .node).drawIno.1 .directory), ?_⟩
  refine (bind_of_ok granted).trans ?_
  simp only [NodeKind.ofMode_withType_directory]
  rfl

theorem newRoot_granted (allowed : w.host.Allows .binding) :
    newRoot n w = .ok w.bindings.nextId
      { w with
        host := w.host.spend .binding
        bindings := w.bindings.push
          { name := rootName, parent := none, node := some n, pins := 1 } } := by
  have made : total (·.newBinding none rootName) w = .ok (some w.bindings.nextId)
      { w with
        host := w.host.spend .binding
        bindings := w.bindings.push { name := rootName, parent := none } } := by
    unfold World.newBinding
    rw [total_eq_ok, Host.acquire_of_allows allowed]
    exact ⟨rfl, rfl⟩
  unfold newRoot
  refine (bind_of_ok made).trans ?_
  show EStateM.Result.ok _ _ = _
  unfold World.pin World.modifyBinding
  simp only [Table.modify_push]
  rfl

end Action

/-- The instance of a mount of the built-in type with these settings. -/
def Options.Settings.instance (s : Settings) (root : BindingId) : Instance where
  type := builtInType
  source := s.source
  geometry := { maxBytes := builtInMaxBytes, magic := builtInMagic }
  reports := true
  root := some root
  data := some (.config { mode := s.mode })

/-- The directory that a mount with these settings has as its root. -/
def World.rootNode (w : World) (s : Settings) : Node :=
  let host := (w.host.spend .config).spend .node
  Node.make host.drawIno.1 .directory (s.mode.withType Mode.directoryType) host.uid host.gid
    (host.drawIno.2.readClock.1.truncate 1) w.instances.nextId

/-- The world after a mount with these settings: an instance, a root, a node for it and an
owner, and the number of a context that is gone. -/
def World.mountedBy (w : World) (s : Settings) : World where
  host := ((w.host.spend .config).spend .node).drawIno.2.readClock.2.spend .binding
  nodes := w.nodes.push (w.rootNode s)
  bindings := w.bindings.push
    { name := rootName, parent := none, node := some w.nodes.nextId, pins := 1 }
  files := w.files
  instances := w.instances.push (s.instance w.bindings.nextId)
  contexts := (w.contexts.push { type := builtInType }).erase w.contexts.nextId
  held := .inst w.instances.nextId :: w.held
  types := w.types
  puts := w.puts

/-- The world with other notices. -/
def World.withJournal (w : World) (journal : Array Notice) : World :=
  { w with host := { w.host with journal } }

/-- A mount can have what it needs. -/
def World.Allows (w : World) : Prop :=
  w.host.Allows .config ∧ w.host.Allows .node ∧ w.host.Allows .binding

namespace Action

open World

variable {w : World} {host : Host} {s : Settings} {journal : Array Notice}

/-- The instance is there, and the context has nothing left but its settings. -/
def started (w : World) (host : Host) (s : Settings) : World :=
  { w with
    host
    instances := w.instances.push
      { type := builtInType, source := s.source, geometry := {}
        data := some (.config { mode := s.mode }) }
    contexts := w.contexts.push { s.context with data := none } }

/-- The instance has its tree. -/
def filled (w : World) (s : Settings) (journal : Array Notice) : World :=
  { (w.mountedBy s).withJournal journal with
    contexts := w.contexts.push { s.context with data := none }
    held := w.held }

/-- The instance has come to the context. -/
def raised (w : World) (s : Settings) (journal : Array Notice) : World :=
  { filled w s journal with
    contexts := w.contexts.push
      { s.context with
        data := none, root := some w.bindings.nextId, made := some w.instances.nextId } }

theorem begun_prepared :
    (w.prepared host s).begun w.contexts.nextId s.context = started w host s := by
  unfold World.begun
  rw [modifyContext_push rfl, modifyInstance_push rfl]
  rfl

theorem fillBuiltIn_started (journal : Array Notice) (allowed : w.Allows) : ∃ journal',
    fillBuiltIn w.instances.nextId (started w { w.host.spend .config with journal } s)
      = .ok () (filled w s journal') := by
  obtain ⟨-, node, binding⟩ := allowed
  have node : (w.host.spend .config).Allows .node := (Host.allows_spend (by decide)).2 node
  have binding : ((w.host.spend .config).spend .node).Allows .binding :=
    (Host.allows_spend (by decide)).2 ((Host.allows_spend (by decide)).2 binding)
  let u := started w { w.host.spend .config with journal } s
  let v : World :=
    { u with instances := w.instances.push { s.instance w.bindings.nextId with root := none } }
  have config : (u.instances.get? w.instances.nextId).bind (·.config?)
      = some { mode := s.mode } := by
    show ((w.instances.push _).get? w.instances.nextId).bind _ = _
    rw [Table.get?_push_self]
    rfl
  have sized : u.sized w.instances.nextId = v := (modifyInstance_push rfl).trans rfl
  obtain ⟨journal', made⟩ :=
    newNode_granted (w := v) (i := w.instances.nextId) s.mode node
  rw [show v.instances.get? w.instances.nextId = _ from Table.get?_push_self] at made
  refine ⟨journal', ?_⟩
  unfold fillBuiltIn
  refine (bind_of_ok (get_eq_ok.2 ⟨rfl, rfl⟩)).trans ?_
  refine (bind_of_ok (require_eq_ok.2 ⟨config, rfl⟩)).trans ?_
  refine (bind_of_ok (a := ()) (modify_eq_ok.2 sized)).trans ?_
  refine (bind_of_ok (tryCatch_eq_ok.2 (.inl made))).trans ?_
  refine (bind_of_ok (newRoot_granted ?_)).trans (modify_eq_ok.2 ?_)
  · exact binding
  rw [setRoot_of_none]
  · exact (modifyInstance_push rfl).trans rfl
  · show ((w.instances.push _).get? w.instances.nextId).bind _ = _
    rw [Table.get?_push_self]
    rfl

theorem makeTree_prepared (journal : Array Notice) (allowed : w.Allows) : ∃ journal',
    makeTree w.contexts.nextId (w.prepared { w.host.spend .config with journal } s)
      = .ok () (raised w s journal') := by
  obtain ⟨journal', done⟩ := fillBuiltIn_started (s := s) journal allowed
  refine ⟨journal', ?_⟩
  have made : makeInstance w.contexts.nextId .freshRoot
      (w.prepared { w.host.spend .config with journal } s) = .ok () (raised w s journal') := by
    unfold makeInstance
    refine (bind_of_ok context_prepared).trans ?_
    refine (bind_of_ok (total_eq_ok.2 ⟨rfl, rfl⟩)).trans ?_
    refine (bind_of_ok (a := ()) (modify_eq_ok.2 begun_prepared)).trans ?_
    refine (bind_of_ok (onFailure_eq_ok.2 done)).trans ?_
    refine modify_eq_ok.2 (settle_nil.trans ((modifyContext_push rfl).trans ?_))
    have root : ((filled w s journal').instances.get? w.instances.nextId).bind (·.root)
        = some w.bindings.nextId := by
      rw [show (filled w s journal').instances.get? w.instances.nextId = _ from
        Table.get?_push_self]
      rfl
    unfold raised
    rw [← root]
    rfl
  have found : context w.contexts.nextId (raised w s journal') = .ok _ (raised w s journal') :=
    context_of_get? Table.get?_push_self
  unfold makeTree
  refine (bind_of_ok context_prepared).trans ?_
  refine (bind_of_ok (require_eq_ok.2 ⟨rfl, rfl⟩)).trans ?_
  refine (bind_of_ok made).trans ?_
  exact bind_of_ok found

/-- The instance is handed out, and the context has nothing left. -/
def taken (w : World) (s : Settings) (journal : Array Notice) : World :=
  { (w.mountedBy s).withJournal journal with
    contexts := w.contexts.push { s.context with data := none } }

theorem takeInstance_raised :
    (raised w s journal).takeInstance w.contexts.nextId
      = (some w.instances.nextId, taken w s journal) := by
  have found : (raised w s journal).contexts.get? w.contexts.nextId = some
      { s.context with
        data := none, root := some w.bindings.nextId, made := some w.instances.nextId } :=
    Table.get?_push_self
  have left : (raised w s journal).modifyContext w.contexts.nextId
      ({ · with root := none, made := none })
      = { raised w s journal with contexts := w.contexts.push { s.context with data := none } } :=
    (modifyContext_push rfl).trans rfl
  -- The instance owns the root, so the context can let go of it.
  have owned : (taken w s journal).Owned (.binding w.bindings.nextId) :=
    ⟨.inst w.instances.nextId, s.instance w.bindings.nextId, Table.get?_push_self, rfl⟩
  unfold World.takeInstance
  rw [found]
  simp only [left]
  refine Prod.ext rfl ?_
  exact (settle_letGo_owned owned).trans settle_nil

theorem dropContext_taken :
    (taken w s journal).dropContext w.contexts.nextId = (w.mountedBy s).withJournal journal := by
  have found : (taken w s journal).contexts.get? w.contexts.nextId
      = some { s.context with data := none } := Table.get?_push_self
  have freed : (taken w s journal).freeData w.contexts.nextId = taken w s journal := by
    unfold World.freeData
    rw [found]
    rfl
  have idle : s.context.made = none := rfl
  unfold World.dropContext
  simp only [freed, found, idle]
  refine settle_nil.trans ?_
  rw [show (taken w s journal).contexts.erase w.contexts.nextId = _ from
    Table.erase_push { type := builtInType }]
  rfl

theorem newContext_builtIn (allowed : w.Allows) : newContext builtInType w
    = .ok w.contexts.nextId (w.prepared (w.host.spend .config) {}) := by
  have granted : onHost (·.acquire .config) w
      = .ok true { w with host := w.host.spend .config } := by
    rw [onHost_eq_ok, Host.acquire_of_allows allowed.1]
    exact ⟨rfl, rfl⟩
  exact bind_of_ok (bind_of_ok granted)

variable {options : String}

/-- A mount whose parameters are all taken. -/
theorem mount_taken (known : w.findType builtInType.name = some builtInType) (allowed : w.Allows)
    (h : Settings.takeAll (parameters options) = .ok s) : ∃ journal,
    mount builtInType.name options w
      = .ok w.instances.nextId ((w.mountedBy s).withJournal journal) := by
  obtain ⟨before, applied⟩ := forM_prepared (w := w) (w.host.spend .config) h
  obtain ⟨journal, made⟩ := makeTree_prepared (s := s) before allowed
  rw [← ofOptions_eq] at applied
  have handed : total (·.takeInstance w.contexts.nextId) (raised w s journal)
      = .ok (some w.instances.nextId) (taken w s journal) := by
    rw [total_eq_ok, takeInstance_raised]
    exact ⟨rfl, rfl⟩
  let source :=
    (((taken w s journal).instances.get? w.instances.nextId).bind (·.source)).getD "none"
  let told := journal.push (.mounted builtInType.name source)
  refine ⟨told, ?_⟩
  rw [mount_of_found known]
  unfold mountType
  refine (bind_of_ok (newContext_builtIn allowed)).trans ?_
  refine bind_eq_ok.2 ⟨w.instances.nextId, taken w s told, onFailure_eq_ok.2 ?_, ?_⟩
  · refine (bind_of_ok applied).trans ?_
    refine (bind_of_ok made).trans ?_
    refine (bind_of_ok handed).trans ?_
    exact (bind_of_ok (require_eq_ok.2 ⟨rfl, rfl⟩)).trans rfl
  · exact (bind_of_ok (a := ()) (modify_eq_ok.2 dropContext_taken)).trans rfl

/-- A mount with a parameter that is refused. -/
theorem mount_refused (known : w.findType builtInType.name = some builtInType)
    (allowed : w.Allows) {e : Error} (h : Settings.takeAll (parameters options) = .error e) :
    ∃ v, mount builtInType.name options w = .error e v := by
  obtain ⟨before, t, failed⟩ := forM_refused (w := w) (w.host.spend .config) h
  rw [← ofOptions_eq] at failed
  let left := w.prepared { w.host.spend .config with journal := before } t
  refine ⟨left.dropContext w.contexts.nextId, ?_⟩
  rw [mount_of_found known]
  refine (bind_of_ok (newContext_builtIn allowed)).trans ?_
  exact bind_of_error (onFailure_eq_error.2 ⟨_, bind_of_error failed, rfl⟩)

end Action

/-! ## Mounts -/

variable {w v : World} {i : InstanceId} {options : String}

/-- The instance is set up as the parameters ask, and its root directory has the mode. -/
def World.Obeys (v : World) (i : InstanceId) (params : List Parameter) : Prop :=
  ∃ inst config root n x, v.instances.get? i = some inst ∧ inst.data = some (.config config) ∧
    Asked params ⟨config.mode, inst.source⟩ ∧
    inst.root = some root ∧ v.nodeOf root = some n ∧ v.nodes.get? n = some x ∧
    x.mode.fileType = Mode.directoryType ∧ x.mode.permissions = config.mode.bits

theorem World.obeys_mountedBy {params : List Parameter} {s : Settings}
    {journal : Array Notice} (h : Settings.takeAll params = .ok s) :
    ((w.mountedBy s).withJournal journal).Obeys w.instances.nextId params := by
  obtain ⟨-, asked, -⟩ := Settings.takeAll_ok h
  refine ⟨s.instance w.bindings.nextId, { mode := s.mode }, w.bindings.nextId, w.nodes.nextId,
    w.rootNode s, Table.get?_push_self, rfl, asked, rfl, ?_, Table.get?_push_self,
    Mode.fileType_withType, ?_⟩
  · exact World.nodeOf_of_get? (w := w.mountedBy s) Table.get?_push_self
  · exact Mode.permissions_withType.trans (Settings.permissions_of_takeAll h)

/-- Where the built-in type is registered and a mount can have what it needs, an option
string does what its grammar says: it is refused for its first parameter that is refused,
and else the instance is as the parameters ask. Parameters with other keys have no effect
but for notices. -/
theorem mount_options (known : w.findType builtInType.name = some builtInType)
    (allowed : w.Allows) (options : String) :
    (∀ e, (∃ v, Action.mount builtInType.name options w = .error e v) ↔
      FirstRefused (parameters options) e) ∧
    ((∃ i v, Action.mount builtInType.name options w = .ok i v) ↔
      Accepted (parameters options)) ∧
    ∀ i v, Action.mount builtInType.name options w = .ok i v →
      v.Obeys i (parameters options) ∧
      ∀ other, Accepted (parameters other) →
        relevant (parameters other) = relevant (parameters options) →
          ∃ journal, Action.mount builtInType.name other w = .ok i (v.withJournal journal) := by
  cases outcome : Settings.takeAll (parameters options) with
  | error e =>
      obtain ⟨v, failed⟩ := Action.mount_refused known allowed outcome
      refine ⟨fun e' => ?_, ?_, fun i v done => ?_⟩
      · rw [← Settings.takeAll_eq_error, outcome, failed]
        simp
      · rw [← Settings.exists_takeAll_eq_ok, outcome, failed]
        simp
      · rw [failed] at done
        cases done
  | ok s =>
      obtain ⟨journal, mounted⟩ := Action.mount_taken known allowed outcome
      refine ⟨fun e => ?_, ?_, fun i v done => ?_⟩
      · rw [← Settings.takeAll_eq_error, outcome, mounted]
        simp
      · rw [← Settings.exists_takeAll_eq_ok, outcome, mounted]
        simp
      · rw [mounted] at done
        cases done
        refine ⟨World.obeys_mountedBy outcome, fun other accepted same => ?_⟩
        obtain ⟨t, taken⟩ := Settings.exists_takeAll_eq_ok.2 accepted
        have one := Settings.takeAll_relevant taken
        rw [same, Settings.takeAll_relevant outcome] at one
        cases one
        exact Action.mount_taken known allowed taken

/-- Two modes, of which the second has more than sixteen bits, a source with an equals sign
in it, and parameters that are nothing to the built-in type. -/
theorem mount_options_repeated :
    let w := (World.fresh (.steady 0 0 1)).run [.register builtInType]
    let options := ",color=red,mode=700,,source=a=b,mode=+4001755,flag,"
    w.findType builtInType.name = some builtInType ∧ w.Allows ∧
      ∃ i v, Action.mount builtInType.name options w = .ok i v ∧
        v.Obeys i (parameters options) := by
  intro w options
  have known : w.findType builtInType.name = some builtInType := by decide +kernel
  have allowed : w.Allows := by
    unfold World.Allows Host.Allows
    decide +kernel
  obtain ⟨-, accepted, obeys⟩ := mount_options known allowed options
  obtain ⟨i, v, mounted⟩ := accepted.2 (Settings.exists_takeAll_eq_ok.1
    ⟨{ mode := ⟨0o1755⟩, source := some "a=b" }, by decide +kernel⟩)
  exact ⟨known, allowed, i, v, mounted, (obeys i v mounted).1⟩

end Memfs
