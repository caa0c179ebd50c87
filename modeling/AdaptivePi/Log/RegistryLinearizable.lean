import AdaptivePi.Log.RegistryHistory

namespace AdaptivePi.Log.Registry

open Foundation

variable {ThreadId : Type}

def inCriticalSection : Control → Bool
  | .link .. | .publish .. | .unlockRegister .. | .scan .. | .compare .. | .unlockFind .. => true
  | _ => false

def unpublished : Control → Option (RegisterCall × LoggerPtr)
  | .lockRegister call logger => some (call, logger)
  | .link call logger => some (call, logger)
  | .publish call logger => some (call, logger)
  | .deleteLogger call logger => some (call, logger)
  | _ => none

def Describes (entry : RegistryEntry) (node : LoggerNode) : Prop :=
  node.contextId = entry.contextId ∧ node.contextDescription = entry.description ∧
    node.threshold = entry.threshold

/-- The decisions that have let a call come this far. -/
def Allocated (call : RegisterCall) : Prop :=
  definedThreshold call.threshold = true ∧ call.idBufferAllocated = true ∧
    call.descriptionBufferAllocated = true

/-- What the place of a thread says about the status of its call. -/
def ControlMatches (published : List RegistryEntry) :
    Control → RegistrySpec.Status → Prop
  | .idle, status => status = .idle
  | .checkThreshold call, status => status = .pending (.register call)
  | .allocateIdBuffer call, status =>
      status = .pending (.register call) ∧ definedThreshold call.threshold = true
  | .allocateDescriptionBuffer call idBuffer, status =>
      status = .pending (.register call) ∧ definedThreshold call.threshold = true ∧
        call.idBufferAllocated = true ∧ idBuffer.length = contextBufferSize call.contextId
  | .copyId call idBuffer descriptionBuffer, status =>
      status = .pending (.register call) ∧ Allocated call ∧
        idBuffer.length = contextBufferSize call.contextId ∧
        descriptionBuffer.length = contextBufferSize call.description
  | .copyDescription call idBuffer descriptionBuffer, status =>
      status = .pending (.register call) ∧ Allocated call ∧
        idBuffer.take call.contextId.length = call.contextId ∧
        descriptionBuffer.length = contextBufferSize call.description
  | .allocateLogger call idBuffer descriptionBuffer, status =>
      status = .pending (.register call) ∧ Allocated call ∧
        idBuffer.take call.contextId.length = call.contextId ∧
        descriptionBuffer.take call.description.length = call.description
  | .lockRegister call _, status =>
      status = .pending (.register call) ∧ Allocated call ∧ call.loggerAllocated = true
  | .link call _, status =>
      status = .pending (.register call) ∧ definedThreshold call.threshold = true ∧ call.Succeeds
  | .publish call _, status =>
      status = .pending (.register call) ∧ definedThreshold call.threshold = true ∧ call.Succeeds
  | .unlockRegister call logger, status => status = .done (.register call) (some (.value logger))
  | .deleteLogger call _, status =>
      status = .pending (.register call) ∧ definedThreshold call.threshold = true ∧ ¬call.Succeeds
  | .returnRegister call (some logger), status =>
      status = .done (.register call) (some (.value logger))
  | .returnRegister call none, status =>
      status = .pending (.register call) ∧ definedThreshold call.threshold = true ∧ ¬call.Succeeds
  | .lockFind call, status => status = .pending (.find call)
  | .scan call current, status =>
      status = .pending (.find call) ∧ call.locked = true ∧
        ∃ before after, published = before ++ after ∧
          (∀ entry ∈ before, entry.contextId ≠ call.contextId) ∧
          current = (after.map RegistryEntry.logger).head?
  | .compare call found, status =>
      status = .pending (.find call) ∧ call.locked = true ∧
        found = (published.find? (·.contextId = call.contextId)).map RegistryEntry.logger
  | .unlockFind call found isMatch, status =>
      status = .pending (.find call) ∧
        findAnswer published call = if isMatch then found.map .found else none
  | .checkMatch call found isMatch, status =>
      status = .done (.find call) (if isMatch then found.map .found else none)

/-- Outside the critical section the published loggers do not matter. -/
theorem ControlMatches.outside {published published' : List RegistryEntry} {control : Control}
    {status : RegistrySpec.Status} (h : ControlMatches published control status)
    (houtside : inCriticalSection control = false) :
    ControlMatches published' control status := by
  cases control with
  | returnRegister call result => cases result <;> exact h
  | scan => cases houtside
  | compare => cases houtside
  | unlockFind => cases houtside
  | _ => exact h

/-- The memory and the threads of a registry, and the state that its callers
may think of. -/
structure Represents (registry : Registry ThreadId) (state : RegistrySpec.State ThreadId) :
    Prop where
  terminated_eq : registry.terminated = state.terminated
  chain : IsChain (fun logger => (registry.heap logger).map LoggerNode.next) registry.head
    (state.published.map RegistryEntry.logger)
  nodup : (state.published.map RegistryEntry.logger).Nodup
  nodes : ∀ entry ∈ state.published, ∃ node, registry.heap entry.logger = some node ∧
    Describes entry node
  critical : ∀ thread, inCriticalSection (registry.threads thread) = true ↔
    registry.owner = some thread
  control : registry.terminated = false → ∀ thread,
    ControlMatches state.published (registry.threads thread) (state.threads thread)
  unpublished_node : ∀ thread call logger,
    unpublished (registry.threads thread) = some (call, logger) →
      (∃ node, registry.heap logger = some node ∧ Describes (call.entry logger) node) ∧
        logger ∉ state.published.map RegistryEntry.logger
  unpublished_distinct : ∀ thread thread' call call' logger, thread ≠ thread' →
    unpublished (registry.threads thread) = some (call, logger) →
      unpublished (registry.threads thread') ≠ some (call', logger)
  linked : ∀ thread call logger, registry.threads thread = .publish call logger →
    ∀ node, registry.heap logger = some node → node.next = registry.head

variable {registry : Registry ThreadId} {state : RegistrySpec.State ThreadId} {thread : ThreadId}

private theorem find_eq_none {entries : List RegistryEntry} {contextId : Bytes}
    (h : ∀ entry ∈ entries, entry.contextId ≠ contextId) :
    entries.find? (·.contextId = contextId) = none :=
  List.find?_eq_none.mpr fun entry hentry => by simpa using h entry hentry

theorem take_copyContext {buffer value : Bytes} :
    (copyContext buffer value).take value.length = value := by
  unfold copyContext
  by_cases hempty : value = []
  · simp [hempty]
  · simp [hempty]

/-- The object that the scan has reached, and where its link leads. -/
private theorem Represents.scan_node (h : registry.Represents state)
    {before after : List RegistryEntry} {logger : LoggerPtr} {node : LoggerNode}
    (hpublished : state.published = before ++ after)
    (hcurrent : some logger = (after.map RegistryEntry.logger).head?)
    (hnode : registry.heap logger = some node) :
    ∃ entry rest, after = entry :: rest ∧ entry.logger = logger ∧ Describes entry node ∧
      node.next = (rest.map RegistryEntry.logger).head? := by
  cases after with
  | nil => cases hcurrent
  | cons entry rest =>
      have hlogger : entry.logger = logger := (Option.some.inj hcurrent).symm
      obtain ⟨node', hnode', hdescribes⟩ := h.nodes entry (by simp [hpublished])
      rw [hlogger, hnode, Option.some.injEq] at hnode'
      subst hnode'
      have hchain := h.chain
      rw [hpublished, List.map_append, List.map_cons] at hchain
      obtain ⟨link, hlink, hrest⟩ := hchain.tail
      rw [hlogger, hnode, Option.map_some, Option.some.injEq] at hlink
      exact ⟨entry, rest, rfl, hlogger, hdescribes, hlink.trans hrest.start_eq⟩

/-- A local step keeps the status of the call, the mutex and the objects. -/
private theorem Represents.localStep (h : registry.Represents state) {control : Control}
    {status : RegistrySpec.Status}
    (hlocal : LocalStep registry.heap (registry.threads thread) control)
    (hmatches : ControlMatches state.published (registry.threads thread) status) :
    ControlMatches state.published control status ∧
      inCriticalSection control = inCriticalSection (registry.threads thread) ∧
      (∀ call logger, unpublished control = some (call, logger) →
        unpublished (registry.threads thread) = some (call, logger)) ∧
      ∀ call logger, control ≠ .publish call logger := by
  obtain ⟨old, hold⟩ : ∃ old, old = registry.threads thread := ⟨_, rfl⟩
  rw [← hold] at hlocal hmatches ⊢
  cases hlocal with
  | thresholdDefined hdefined => exact ⟨⟨hmatches, hdefined⟩, rfl, by simp [unpublished], by simp⟩
  | idBuffer hallocated contents hsize =>
      obtain ⟨hstatus, hdefined⟩ := hmatches
      exact ⟨⟨hstatus, hdefined, hallocated, hsize⟩, rfl, by simp [unpublished], by simp⟩
  | noIdBuffer hfailed =>
      obtain ⟨hstatus, hdefined⟩ := hmatches
      refine ⟨⟨hstatus, hdefined, ?_⟩, rfl, by simp [unpublished], by simp⟩
      rintro ⟨hallocated, -⟩
      simp [hfailed] at hallocated
  | descriptionBuffer hallocated contents hsize =>
      obtain ⟨hstatus, hdefined, hid, hidSize⟩ := hmatches
      exact ⟨⟨hstatus, ⟨hdefined, hid, hallocated⟩, hidSize, hsize⟩, rfl, by simp [unpublished],
        by simp⟩
  | noDescriptionBuffer hfailed =>
      obtain ⟨hstatus, hdefined, -⟩ := hmatches
      refine ⟨⟨hstatus, hdefined, ?_⟩, rfl, by simp [unpublished], by simp⟩
      rintro ⟨-, hallocated, -⟩
      simp [hfailed] at hallocated
  | copyId =>
      obtain ⟨hstatus, hallocated, -, hsize⟩ := hmatches
      exact ⟨⟨hstatus, hallocated, take_copyContext, hsize⟩, rfl, by simp [unpublished], by simp⟩
  | copyDescription =>
      obtain ⟨hstatus, hallocated, hid, -⟩ := hmatches
      exact ⟨⟨hstatus, hallocated, hid, take_copyContext⟩, rfl, by simp [unpublished], by simp⟩
  | noLogger hfailed =>
      obtain ⟨hstatus, hallocated, -⟩ := hmatches
      refine ⟨⟨hstatus, hallocated.1, ?_⟩, rfl, by simp [unpublished], by simp⟩
      rintro ⟨-, -, hlogger, -⟩
      simp [hfailed] at hlogger
  | notLocked hfailed =>
      obtain ⟨hstatus, hallocated, -⟩ := hmatches
      refine ⟨⟨hstatus, hallocated.1, ?_⟩, rfl, fun _ _ hlogger => hlogger, by simp⟩
      rintro ⟨-, -, -, hlocked⟩
      simp [hfailed] at hlocked
  | skip hnode hdiffers =>
      obtain ⟨hstatus, hlocked, before, after, hpublished, hbefore, hcurrent⟩ := hmatches
      obtain ⟨entry, rest, rfl, hlogger, hdescribes, hnext⟩ :=
        h.scan_node hpublished hcurrent hnode
      refine ⟨⟨hstatus, hlocked, before ++ [entry], rest, by simp [hpublished], ?_, hnext⟩, rfl,
        by simp [unpublished], by simp⟩
      intro other hother
      rcases List.mem_append.mp hother with hmem | hmem
      · exact hbefore other hmem
      · obtain rfl := List.mem_singleton.mp hmem
        rw [← hdescribes.1]
        exact hdiffers
  | stop hnode hequal =>
      obtain ⟨hstatus, hlocked, before, after, hpublished, hbefore, hcurrent⟩ := hmatches
      obtain ⟨entry, rest, rfl, hlogger, hdescribes, -⟩ :=
        h.scan_node hpublished hcurrent hnode
      refine ⟨⟨hstatus, hlocked, ?_⟩, rfl, by simp [unpublished], by simp⟩
      have hentry : entry.contextId = _ := hdescribes.1.symm.trans hequal
      rw [hpublished, List.find?_append, find_eq_none hbefore]
      simp [hentry, hlogger]
  | exhaust =>
      obtain ⟨hstatus, hlocked, before, after, hpublished, hbefore, hcurrent⟩ := hmatches
      refine ⟨⟨hstatus, hlocked, ?_⟩, rfl, by simp [unpublished], by simp⟩
      have hafter : after = [] := by
        cases after with
        | nil => rfl
        | cons entry rest => cases hcurrent
      rw [hpublished, hafter, List.append_nil, find_eq_none hbefore]
      rfl
  | @compare call logger node hnode =>
      obtain ⟨hstatus, hlocked, hfound⟩ := hmatches
      refine ⟨⟨hstatus, ?_⟩, rfl, by simp [unpublished], by simp⟩
      obtain ⟨entry, hentry, hlogger⟩ := Option.map_eq_some_iff.mp hfound.symm
      obtain ⟨node', hnode', -, hdescription, hthreshold⟩ :=
        h.nodes entry (List.mem_of_find?_eq_some hentry)
      rw [hlogger, hnode, Option.some.injEq] at hnode'
      subst hnode'
      simp [findAnswer, hlocked, hentry, hdescription, hthreshold, hlogger]
  | compareNone =>
      obtain ⟨hstatus, hlocked, hfound⟩ := hmatches
      refine ⟨⟨hstatus, ?_⟩, rfl, by simp [unpublished], by simp⟩
      have hnone := Option.map_eq_none_iff.mp hfound.symm
      simp [findAnswer, hnone]

/-- An unpublished logger of this thread is unknown to the others. -/
private theorem Represents.unpublished_own (h : registry.Represents state)
    {call : RegisterCall} {logger : LoggerPtr}
    (hlogger : unpublished (registry.threads thread) = some (call, logger)) :
    logger ∉ state.published.map RegistryEntry.logger ∧
      ∀ other call', other ≠ thread →
        unpublished (registry.threads other) ≠ some (call', logger) :=
  ⟨(h.unpublished_node thread call logger hlogger).2, fun other call' hother =>
    h.unpublished_distinct thread other call call' logger hother.symm hlogger⟩

theorem represents_initial :
    (initial : Registry ThreadId).Represents (RegistrySpec.initial : RegistrySpec.State ThreadId) := by
  refine ⟨rfl, rfl, List.nodup_nil, by simp [RegistrySpec.initial], ?_, fun _ _ => rfl, ?_, ?_, ?_⟩
  · intro thread
    simp [initial, inCriticalSection]
  · intro thread call logger h
    cases h
  · intro thread thread' call call' logger _ h
    cases h
  · intro thread call logger h
    cases h

variable [DecidableEq ThreadId]

/-- The effect of a step of one thread on memory, stated for the memory and for
the other threads separately. -/
private theorem Represents.update (h : registry.Represents state) (control : Control)
    (status : RegistrySpec.Status) (heap : LoggerHeap) (head : Option LoggerPtr)
    (owner : Option ThreadId) (published : List RegistryEntry)
    (hchain : IsChain (fun logger => (heap logger).map LoggerNode.next) head
      (published.map RegistryEntry.logger))
    (hnodup : (published.map RegistryEntry.logger).Nodup)
    (hnodes : ∀ entry ∈ published, ∃ node, heap entry.logger = some node ∧ Describes entry node)
    (hcritical : inCriticalSection control = true ↔ owner = some thread)
    (howner : ∀ other, other ≠ thread → (owner = some other ↔ registry.owner = some other))
    (hcontrol : ControlMatches published control status)
    (hcontrols : ∀ other, other ≠ thread →
      ControlMatches published (registry.threads other) (state.threads other))
    (hunpublished : ∀ call logger, unpublished control = some (call, logger) →
      (∃ node, heap logger = some node ∧ Describes (call.entry logger) node) ∧
        logger ∉ published.map RegistryEntry.logger ∧
        ∀ other call', other ≠ thread →
          unpublished (registry.threads other) ≠ some (call', logger))
    (hothers : ∀ other call logger, other ≠ thread →
      unpublished (registry.threads other) = some (call, logger) →
        heap logger = registry.heap logger ∧ logger ∉ published.map RegistryEntry.logger)
    (hlinked : ∀ call logger, control = .publish call logger →
      ∀ node, heap logger = some node → node.next = head)
    (hhead : head = registry.head ∨ registry.owner = some thread) :
    Represents
      { heap := heap, head := head, owner := owner,
        threads := Function.update registry.threads thread control,
        terminated := registry.terminated }
      { published := published, threads := Function.update state.threads thread status,
        terminated := state.terminated } := by
  refine ⟨h.terminated_eq, hchain, hnodup, hnodes, ?_, ?_, ?_, ?_, ?_⟩
  · intro other
    by_cases hsame : other = thread
    · subst hsame
      simpa using hcritical
    · simp only [Function.update_of_ne hsame]
      rw [h.critical other, howner other hsame]
  · intro _ other
    by_cases hsame : other = thread
    · subst hsame
      simpa using hcontrol
    · simpa only [Function.update_of_ne hsame] using hcontrols other hsame
  · intro other call logger
    by_cases hsame : other = thread
    · subst hsame
      intro hlogger
      obtain ⟨hnode, hnew, -⟩ := hunpublished call logger (by simpa using hlogger)
      exact ⟨hnode, hnew⟩
    · simp only [Function.update_of_ne hsame]
      intro hlogger
      obtain ⟨hheap, hnew⟩ := hothers other call logger hsame hlogger
      obtain ⟨hnode, -⟩ := h.unpublished_node other call logger hlogger
      rw [hheap]
      exact ⟨hnode, hnew⟩
  · intro first second call call' logger hdifferent
    by_cases hfirst : first = thread
    · subst hfirst
      simp only [Function.update_self, Function.update_of_ne hdifferent.symm]
      intro hlogger
      exact (hunpublished call logger hlogger).2.2 second call' hdifferent.symm
    · by_cases hsecond : second = thread
      · subst hsecond
        simp only [Function.update_self, Function.update_of_ne hfirst]
        intro hlogger hlogger'
        exact (hunpublished call' logger hlogger').2.2 first call hfirst hlogger
      · simp only [Function.update_of_ne hfirst, Function.update_of_ne hsecond]
        exact h.unpublished_distinct first second call call' logger hdifferent
  · intro other call logger
    by_cases hsame : other = thread
    · subst hsame
      simpa using hlinked call logger
    · simp only [Function.update_of_ne hsame]
      intro hpublish node hnode
      have hlogger : unpublished (registry.threads other) = some (call, logger) := by
        rw [hpublish]
        rfl
      have hcritical' : registry.owner = some other := by
        rw [← h.critical other, hpublish]
        rfl
      rw [(hothers other call logger hsame hlogger).1] at hnode
      rcases hhead with rfl | howner'
      · exact h.linked other call logger hpublish node hnode
      · rw [howner', Option.some.injEq] at hcritical'
        exact absurd hcritical'.symm hsame

/-- A step that leaves memory and the mutex alone. -/
private theorem Represents.goto (h : registry.Represents state)
    (hrunning : registry.terminated = false) (control : Control) (status : RegistrySpec.Status)
    (hcritical : inCriticalSection control = inCriticalSection (registry.threads thread))
    (hunpublished : ∀ call logger, unpublished control = some (call, logger) →
      unpublished (registry.threads thread) = some (call, logger))
    (hpublish : ∀ call logger, control ≠ .publish call logger)
    (hcontrol : ControlMatches state.published control status) :
    Represents (registry.goto thread control) (RegistrySpec.goto state thread status) := by
  refine h.update control status registry.heap registry.head registry.owner state.published
    h.chain h.nodup h.nodes ?_ (fun _ _ => Iff.rfl) hcontrol (fun other _ => h.control hrunning other)
    ?_ ?_ ?_ (Or.inl rfl)
  · rw [hcritical]
    exact h.critical thread
  · intro call logger hlogger
    have hlogger' := hunpublished call logger hlogger
    obtain ⟨hnode, hnew⟩ := h.unpublished_node thread call logger hlogger'
    exact ⟨hnode, hnew, fun other call' hother =>
      h.unpublished_distinct thread other call call' logger hother.symm hlogger'⟩
  · intro other call logger _ hlogger
    exact ⟨rfl, (h.unpublished_node other call logger hlogger).2⟩
  · intro call logger heq
    exact absurd heq (hpublish call logger)

private theorem spec_step {status : RegistrySpec.Status}
    {event : Option (RegistryEvent ThreadId)} {state' : RegistrySpec.State ThreadId}
    (hrunning : state.terminated = false) (hstatus : state.threads thread = status)
    (hstep : RegistrySpec.ThreadStep state thread status event state') :
    RegistrySpec.Step state event state' := by
  subst hstatus
  exact .step hrunning thread hstep

/-- A failed call takes effect and ends in two steps. -/
private theorem spec_effect_then {call : RegistryCall} {answer : Option RegistryAnswer}
    {event : RegistryEvent ThreadId} {state' : RegistrySpec.State ThreadId}
    (hrunning : state.terminated = false) (hstatus : state.threads thread = .pending call)
    (heffect : RegistrySpec.Effect state.published call state.published answer)
    (hthen : RegistrySpec.ThreadStep (RegistrySpec.goto state thread (.done call answer)) thread
      (.done call answer) (some event) state') :
    Execution RegistrySpec.Step state [event] state' := by
  have hfirst : RegistrySpec.Step state none
      (RegistrySpec.goto state thread (.done call answer)) :=
    spec_step hrunning hstatus (.effect heffect)
  have hsecond : RegistrySpec.Step (RegistrySpec.goto state thread (.done call answer))
      (some event) state' :=
    spec_step hrunning (by simp [RegistrySpec.goto]) hthen
  exact (Execution.single hfirst).trans (Execution.single hsecond)

private theorem goto_status : RegistrySpec.goto state thread (state.threads thread) = state := by
  simp [RegistrySpec.goto]

private theorem Represents.terminate (h : registry.Represents state) (thread : ThreadId)
    (status : RegistrySpec.Status) :
    Represents { registry with terminated := true }
      { RegistrySpec.goto state thread status with terminated := true } :=
  ⟨rfl, h.chain, h.nodup, h.nodes, h.critical, fun hrunning => Bool.noConfusion hrunning,
    h.unpublished_node, h.unpublished_distinct, h.linked⟩

/-- Memory may change at an address that is neither published nor known to
another thread. -/
private theorem Represents.updateHeap (h : registry.Represents state)
    (hrunning : registry.terminated = false) (control : Control) (status : RegistrySpec.Status)
    (logger : LoggerPtr) (content : Option LoggerNode)
    (hnew : logger ∉ state.published.map RegistryEntry.logger)
    (hown : ∀ other call', other ≠ thread →
      unpublished (registry.threads other) ≠ some (call', logger))
    (hcritical : inCriticalSection control = inCriticalSection (registry.threads thread))
    (hcontrol : ControlMatches state.published control status)
    (hunpublished : ∀ call other, unpublished control = some (call, other) →
      other = logger ∧ ∃ node, content = some node ∧ Describes (call.entry logger) node)
    (hlinked : ∀ call other, control = .publish call other →
      ∀ node, content = some node → node.next = registry.head) :
    Represents
      { registry.goto thread control with
        heap := Function.update registry.heap logger content }
      (RegistrySpec.goto state thread status) := by
  have hpublished : ∀ other ∈ state.published.map RegistryEntry.logger, other ≠ logger :=
    fun other hother heq => hnew (heq ▸ hother)
  refine h.update control status (Function.update registry.heap logger content) registry.head
    registry.owner state.published ?_ h.nodup ?_ ?_ (fun _ _ => Iff.rfl) hcontrol
    (fun other _ => h.control hrunning other) ?_ ?_ ?_ (Or.inl rfl)
  · refine h.chain.congr fun other hother => ?_
    simp only [Function.update_of_ne (hpublished other hother)]
  · intro entry hentry
    obtain ⟨node, hnode, hdescribes⟩ := h.nodes entry hentry
    refine ⟨node, ?_, hdescribes⟩
    rw [Function.update_of_ne (hpublished _ (List.mem_map_of_mem hentry)), hnode]
  · rw [hcritical]
    exact h.critical thread
  · intro call other hother
    obtain ⟨rfl, node, hnode, hdescribes⟩ := hunpublished call other hother
    exact ⟨⟨node, by simp [hnode], hdescribes⟩, hnew, hown⟩
  · intro other call other' hother hlogger
    have hne : other' ≠ logger := by
      rintro rfl
      exact hown other call hother hlogger
    rw [Function.update_of_ne hne]
    exact ⟨rfl, (h.unpublished_node other call other' hlogger).2⟩
  · intro call other heq node hnode
    obtain ⟨rfl, -⟩ := hunpublished call other (by rw [heq]; rfl)
    rw [Function.update_self] at hnode
    exact hlinked call other heq node hnode

/-- Taking or releasing the mutex. -/
private theorem Represents.updateOwner (h : registry.Represents state)
    (hrunning : registry.terminated = false) (thread : ThreadId) (control : Control)
    (status : RegistrySpec.Status) (owner : Option ThreadId)
    (hcritical : inCriticalSection control = true ↔ owner = some thread)
    (howner : ∀ other, other ≠ thread → (owner = some other ↔ registry.owner = some other))
    (hcontrol : ControlMatches state.published control status)
    (hunpublished : ∀ call logger, unpublished control = some (call, logger) →
      unpublished (registry.threads thread) = some (call, logger))
    (hpublish : ∀ call logger, control ≠ .publish call logger) :
    Represents { registry.goto thread control with owner := owner }
      (RegistrySpec.goto state thread status) := by
  refine h.update control status registry.heap registry.head owner state.published
    h.chain h.nodup h.nodes hcritical howner hcontrol
    (fun other _ => h.control hrunning other) ?_ ?_ ?_ (Or.inl rfl)
  · intro call logger hlogger
    obtain ⟨hnode, hnew⟩ := h.unpublished_node thread call logger (hunpublished call logger hlogger)
    exact ⟨hnode, hnew, (h.unpublished_own (hunpublished call logger hlogger)).2⟩
  · intro other call logger _ hlogger
    exact ⟨rfl, (h.unpublished_node other call logger hlogger).2⟩
  · intro call logger heq
    exact absurd heq (hpublish call logger)

/-- Writing the head publishes a logger that is linked to the old head. -/
private theorem Represents.publish (h : registry.Represents state)
    (hrunning : registry.terminated = false) {call : RegisterCall} {logger : LoggerPtr}
    (hthread : registry.threads thread = .publish call logger) :
    Represents
      { registry.goto thread (.unlockRegister call logger) with head := some logger }
      { RegistrySpec.goto state thread (.done (.register call) (some (.value logger))) with
        published := call.entry logger :: state.published } := by
  have hlogger : unpublished (registry.threads thread) = some (call, logger) := by
    rw [hthread]
    rfl
  have howner : registry.owner = some thread := by
    rw [← h.critical thread, hthread]
    rfl
  obtain ⟨hnew, hown⟩ := h.unpublished_own hlogger
  obtain ⟨⟨node, hnode, hdescribes⟩, -⟩ := h.unpublished_node thread call logger hlogger
  have hnext := h.linked thread call logger hthread node hnode
  have hoperation (other : ThreadId) (hother : other ≠ thread) :
      inCriticalSection (registry.threads other) = false := by
    rw [Bool.eq_false_iff, ne_eq, h.critical other, howner, Option.some.injEq]
    exact hother.symm
  refine h.update (.unlockRegister call logger) (.done (.register call) (some (.value logger)))
    registry.heap (some logger) registry.owner (call.entry logger :: state.published)
    (h.chain.cons ?_) ?_ ?_ ?_ (fun _ _ => Iff.rfl) rfl
    (fun other hother => (h.control hrunning other).outside (hoperation other hother))
    (fun _ _ heq => by cases heq) ?_ (fun _ _ heq => by cases heq) (Or.inr howner)
  · rw [hnode, Option.map_some, hnext]
  · exact List.nodup_cons.mpr ⟨hnew, h.nodup⟩
  · intro entry hentry
    rcases List.mem_cons.mp hentry with rfl | hmem
    · exact ⟨node, hnode, hdescribes⟩
    · exact h.nodes entry hmem
  · simp [howner, inCriticalSection]
  · intro other call' logger' hother hlogger'
    refine ⟨rfl, ?_⟩
    rw [List.map_cons, List.mem_cons, not_or]
    refine ⟨?_, (h.unpublished_node other call' logger' hlogger').2⟩
    rintro rfl
    exact hown other call' hother hlogger'

/-- Each step is matched by steps of the specification with the same event. -/
theorem Represents.step {registry' : Registry ThreadId} {event : Option (RegistryEvent ThreadId)}
    (h : registry.Represents state) (hstep : Step registry event registry') :
    ∃ state', Execution RegistrySpec.Step state event.toList state' ∧
      registry'.Represents state' := by
  obtain ⟨hrunning, thread, hthread⟩ := hstep
  have hrunning' : state.terminated = false := by rw [← h.terminated_eq, hrunning]
  have hcontrol := h.control hrunning thread
  obtain ⟨control, hplace⟩ : ∃ control, control = registry.threads thread := ⟨_, rfl⟩
  rw [← hplace] at hthread hcontrol
  cases hthread with
  | call call =>
      refine ⟨_, Execution.single (spec_step hrunning' hcontrol (.call call)), ?_⟩
      refine h.goto hrunning (entry call) (.pending call) ?_ ?_ ?_ ?_
      · rw [← hplace]
        cases call <;> rfl
      · cases call <;> simp [entry, unpublished]
      · cases call <;> simp [entry]
      · cases call <;> rfl
  | silent hlocal =>
      rw [hplace] at hlocal hcontrol
      obtain ⟨hmatches, hcritical, hunpublished, hpublish⟩ := h.localStep hlocal hcontrol
      refine ⟨state, .refl, ?_⟩
      have hgoto := h.goto hrunning _ _ hcritical hunpublished hpublish hmatches
      rwa [goto_status] at hgoto
  | allocateLogger hallocated logger hfree =>
      obtain ⟨hstatus, hbuffers, hid, hdescription⟩ := hcontrol
      refine ⟨state, .refl, ?_⟩
      have hnew : logger ∉ state.published.map RegistryEntry.logger := by
        intro hmem
        obtain ⟨entry, hentry, rfl⟩ := List.mem_map.mp hmem
        obtain ⟨node, hnode, -⟩ := h.nodes entry hentry
        rw [hfree] at hnode
        cases hnode
      have hown : ∀ other call', other ≠ thread →
          unpublished (registry.threads other) ≠ some (call', logger) := by
        intro other call' _ hlogger
        obtain ⟨⟨node, hnode, -⟩, -⟩ := h.unpublished_node other call' logger hlogger
        rw [hfree] at hnode
        cases hnode
      have hrep := h.updateHeap hrunning (.lockRegister _ logger) (state.threads thread) logger
        (some (newLogger _ _ _)) hnew hown (by rw [← hplace]; rfl)
        ⟨hstatus, hbuffers, hallocated⟩
        (by
          rintro call other ⟨⟩
          exact ⟨rfl, _, rfl, hid, hdescription, rfl⟩)
        (by rintro _ _ ⟨⟩)
      rwa [goto_status] at hrep
  | lockRegister hlocked hfree =>
      obtain ⟨hstatus, ⟨hdefined, hid, hdescription⟩, hlogger⟩ := hcontrol
      refine ⟨state, .refl, ?_⟩
      have hrep := h.updateOwner hrunning thread (.link _ _) (state.threads thread) (some thread)
        (by simp [inCriticalSection]) (fun other hother => by simp [hfree, hother.symm])
        ⟨hstatus, hdefined, hid, hdescription, hlogger, hlocked⟩
        (by rw [← hplace]; exact fun _ _ hlogger => hlogger) (by simp)
      rwa [goto_status] at hrep
  | @link call logger node hnode =>
      refine ⟨state, .refl, ?_⟩
      have hlogger : unpublished (registry.threads thread) = some (call, logger) := by
        rw [← hplace]
        rfl
      obtain ⟨hnew, hown⟩ := h.unpublished_own hlogger
      obtain ⟨⟨node', hnode', hdescribes⟩, -⟩ := h.unpublished_node thread call logger hlogger
      rw [hnode, Option.some.injEq] at hnode'
      subst hnode'
      have hrep := h.updateHeap hrunning (.publish call logger) (state.threads thread) logger
        (some { node with next := registry.head }) hnew hown (by rw [← hplace]; rfl) hcontrol
        (by
          rintro call' other ⟨⟩
          exact ⟨rfl, _, rfl, hdescribes⟩)
        (by
          rintro call' other ⟨⟩ node' ⟨⟩
          rfl)
      rwa [goto_status] at hrep
  | @publish call logger =>
      obtain ⟨hstatus, hdefined, hsucceeds⟩ := hcontrol
      have hnew := (h.unpublished_node thread call logger (by rw [← hplace]; rfl)).2
      exact ⟨_, Execution.single (spec_step hrunning' hstatus
        (.effect (.register hdefined hsucceeds logger hnew))), h.publish hrunning hplace.symm⟩
  | unlockRegister =>
      refine ⟨state, .refl, ?_⟩
      have howner : registry.owner = some thread := by
        rw [← h.critical thread, ← hplace]
        rfl
      have hrep := h.updateOwner hrunning thread (.returnRegister _ (some _)) (state.threads thread)
        none (by simp [inCriticalSection]) (fun other hother => by simp [howner, hother.symm])
        hcontrol (by simp [unpublished]) (by simp)
      rwa [goto_status] at hrep
  | @deleteLogger call logger =>
      refine ⟨state, .refl, ?_⟩
      have hlogger : unpublished (registry.threads thread) = some (call, logger) := by
        rw [← hplace]
        rfl
      obtain ⟨hnew, hown⟩ := h.unpublished_own hlogger
      have hrep := h.updateHeap hrunning (.returnRegister call none) (state.threads thread) logger
        none hnew hown (by rw [← hplace]; rfl) hcontrol (by simp [unpublished]) (by simp)
      rwa [goto_status] at hrep
  | returnValue =>
      refine ⟨_, Execution.single (spec_step hrunning' hcontrol .respond), ?_⟩
      exact h.goto hrunning .idle .idle (by rw [← hplace]; rfl) (by simp [unpublished]) (by simp)
        rfl
  | returnFailure =>
      obtain ⟨hstatus, hdefined, hfails⟩ := hcontrol
      refine ⟨_, spec_effect_then hrunning' hstatus (.registerFailed hdefined hfails) .respond, ?_⟩
      have hrep := h.goto hrunning .idle .idle (by rw [← hplace]; rfl) (by simp [unpublished])
        (by simp) rfl
      simpa [RegistrySpec.goto] using hrep
  | lockFind hlocked hfree =>
      refine ⟨state, .refl, ?_⟩
      have hrep := h.updateOwner hrunning thread (.scan _ registry.head) (state.threads thread)
        (some thread) (by simp [inCriticalSection])
        (fun other hother => by simp [hfree, hother.symm])
        ⟨hcontrol, hlocked, [], state.published, rfl, by simp, h.chain.start_eq⟩
        (by simp [unpublished]) (by simp)
      rwa [goto_status] at hrep
  | unlockFind =>
      obtain ⟨hstatus, hanswer⟩ := hcontrol
      have howner : registry.owner = some thread := by
        rw [← h.critical thread, ← hplace]
        rfl
      refine ⟨_, Execution.single (spec_step hrunning' hstatus (.effect (.find _))), ?_⟩
      exact h.updateOwner hrunning thread (.checkMatch _ _ _) (.done (.find _) _) none
        (by simp [inCriticalSection]) (fun other hother => by simp [howner, hother.symm])
        (congrArg _ hanswer) (by simp [unpublished]) (by simp)
  | returnFound =>
      refine ⟨_, Execution.single (spec_step hrunning' hcontrol .respond), ?_⟩
      exact h.goto hrunning .idle .idle (by rw [← hplace]; rfl) (by simp [unpublished]) (by simp)
        rfl
  | terminateThreshold hundefined =>
      exact ⟨_, spec_effect_then hrunning' hcontrol (.registerUndefined hundefined) .terminate,
        h.terminate thread _⟩
  | @terminateNotLocked call hfailed =>
      have hanswer : findAnswer state.published call = none := by simp [findAnswer, hfailed]
      have heffect : RegistrySpec.Effect state.published (.find call) state.published
          (findAnswer state.published call) := .find call
      rw [hanswer] at heffect
      exact ⟨_, spec_effect_then hrunning' hcontrol heffect .terminate, h.terminate thread _⟩
  | terminateNoMatch =>
      refine ⟨_, Execution.single (spec_step hrunning' hcontrol .terminate), ?_⟩
      have hrep := h.terminate thread (state.threads thread)
      rwa [goto_status] at hrep

/-- No step writes to a published logger. -/
theorem Represents.published_unchanged {registry' : Registry ThreadId}
    {event : Option (RegistryEvent ThreadId)} (h : registry.Represents state)
    (hstep : Step registry event registry') :
    ∀ entry ∈ state.published, registry'.heap entry.logger = registry.heap entry.logger := by
  intro entry hentry
  obtain ⟨node, hnode, -⟩ := h.nodes entry hentry
  have hother : ∀ thread call logger,
      unpublished (registry.threads thread) = some (call, logger) → entry.logger ≠ logger := by
    rintro thread call logger hlogger rfl
    exact (h.unpublished_node thread call _ hlogger).2 (List.mem_map_of_mem hentry)
  obtain ⟨-, thread, hthread⟩ := hstep
  obtain ⟨control, hplace⟩ : ∃ control, control = registry.threads thread := ⟨_, rfl⟩
  rw [← hplace] at hthread
  cases hthread with
  | allocateLogger _ logger hfree =>
      apply Function.update_of_ne
      rintro rfl
      rw [hfree] at hnode
      cases hnode
  | @link call logger =>
      apply Function.update_of_ne
      exact hother thread call logger (by rw [← hplace]; rfl)
  | @deleteLogger call logger =>
      apply Function.update_of_ne
      exact hother thread call logger (by rw [← hplace]; rfl)
  | _ => rfl

/-- Only a successful registration writes the head of the list. -/
theorem Represents.head_changes {registry' : Registry ThreadId}
    {event : Option (RegistryEvent ThreadId)} (h : registry.Represents state)
    (hstep : Step registry event registry') :
    registry'.head = registry.head ∨ ∃ thread call logger,
      registry.threads thread = .publish call logger ∧ call.Succeeds ∧
        registry'.head = some logger := by
  obtain ⟨hrunning, thread, hthread⟩ := hstep
  have hcontrol := h.control hrunning thread
  obtain ⟨control, hplace⟩ : ∃ control, control = registry.threads thread := ⟨_, rfl⟩
  rw [← hplace] at hthread hcontrol
  cases hthread with
  | @publish call logger =>
      obtain ⟨-, -, hsucceeds⟩ := hcontrol
      exact Or.inr ⟨thread, call, logger, hplace.symm, hsucceeds, rfl⟩
  | _ => exact Or.inl rfl

private theorem step_at {registry' : Registry ThreadId} {control : Control}
    {event : Option (RegistryEvent ThreadId)} (hrunning : registry.terminated = false)
    (hplace : registry.threads thread = control)
    (hstep : ThreadStep registry thread control event registry') : Step registry event registry' :=
  .step hrunning thread (hplace ▸ hstep)

private theorem goto_threads_self (control : Control) :
    (registry.goto thread control).threads thread = control :=
  Function.update_self ..

/-- What a stage of one thread leaves: where the other threads stand, and the other
objects. -/
private structure Undisturbed (thread : ThreadId) (logger : LoggerPtr)
    (registry registry' : Registry ThreadId) : Prop where
  threads : ∀ other, other ≠ thread → registry'.threads other = registry.threads other
  heap : ∀ other, other ≠ logger → registry'.heap other = registry.heap other

omit [DecidableEq ThreadId] in
private theorem Undisturbed.trans {logger : LoggerPtr} {middle final : Registry ThreadId}
    (h : Undisturbed thread logger registry middle) (h' : Undisturbed thread logger middle final) :
    Undisturbed thread logger registry final :=
  ⟨fun other hother => (h'.threads other hother).trans (h.threads other hother),
    fun other hother => (h'.heap other hother).trans (h.heap other hother)⟩

/-- A registration whose allocations succeed comes to the lock with a new logger. -/
private theorem register_allocates {call : RegisterCall} {logger : LoggerPtr}
    (hrunning : registry.terminated = false) (hidle : registry.threads thread = .idle)
    (hdefined : definedThreshold call.threshold = true)
    (hid : call.idBufferAllocated = true) (hdescription : call.descriptionBufferAllocated = true)
    (hlogger : call.loggerAllocated = true) (hfree : registry.heap logger = none) :
    ∃ registry', Execution Step registry [.called thread (.register call)] registry' ∧
      registry'.terminated = false ∧ registry'.threads thread = .lockRegister call logger ∧
      registry'.owner = registry.owner ∧ registry'.head = registry.head ∧
      (∃ node, registry'.heap logger = some node ∧ Describes (call.entry logger) node) ∧
      Undisturbed thread logger registry registry' := by
  have hidSize := List.length_replicate (n := contextBufferSize call.contextId) (a := (0 : UInt8))
  have hdescriptionSize :=
    List.length_replicate (n := contextBufferSize call.description) (a := (0 : UInt8))
  have hcalled := Execution.refl.step (step_at hrunning hidle (.call (.register call)))
  have hcopied := ((((hcalled.silent
    (step_at hrunning (goto_threads_self _) (.silent (.thresholdDefined hdefined)))).silent
    (step_at hrunning (goto_threads_self _) (.silent (.idBuffer hid _ hidSize)))).silent
    (step_at hrunning (goto_threads_self _)
      (.silent (.descriptionBuffer hdescription _ hdescriptionSize)))).silent
    (step_at hrunning (goto_threads_self _) (.silent .copyId))).silent
    (step_at hrunning (goto_threads_self _) (.silent .copyDescription))
  have hallocated := hcopied.silent
    (step_at hrunning (goto_threads_self _) (.allocateLogger hlogger logger hfree))
  refine ⟨_, hallocated, hrunning, Function.update_self .., rfl, rfl, ?_, ?_, ?_⟩
  · exact ⟨_, Function.update_self .., take_copyContext, take_copyContext, rfl⟩
  · intro other hother
    simp [goto, Function.update_of_ne hother]
  · intro other hother
    exact Function.update_of_ne hother ..

/-- From the lock on, it publishes the logger and returns it. -/
private theorem register_publishes {call : RegisterCall} {logger : LoggerPtr} {node : LoggerNode}
    (hrunning : registry.terminated = false)
    (hplace : registry.threads thread = .lockRegister call logger)
    (hunowned : registry.owner = none) (hlocked : call.locked = true)
    (hnode : registry.heap logger = some node) :
    ∃ registry', Execution Step registry [.returned thread (.register call) (.value logger)]
        registry' ∧
      registry'.terminated = false ∧ registry'.threads thread = .idle ∧ registry'.owner = none ∧
      registry'.head = some logger ∧
      registry'.heap logger = some { node with next := registry.head } ∧
      Undisturbed thread logger registry registry' := by
  have hlock := Execution.refl.silent (step_at hrunning hplace (.lockRegister hlocked hunowned))
  have hlink := hlock.silent (step_at hrunning (Function.update_self ..) (.link hnode))
  have hpublish := hlink.silent (step_at hrunning (Function.update_self ..) .publish)
  have hunlock := hpublish.silent (step_at hrunning (Function.update_self ..) .unlockRegister)
  have hreturn := hunlock.step (step_at hrunning (Function.update_self ..) .returnValue)
  refine ⟨_, hreturn, hrunning, Function.update_self .., rfl, rfl, Function.update_self .., ?_, ?_⟩
  · intro other hother
    simp [goto, Function.update_of_ne hother]
  · intro other hother
    exact Function.update_of_ne hother ..

/-- A registration that does not get the lock deletes its logger again and fails. -/
private theorem register_not_locked {call : RegisterCall} {logger : LoggerPtr}
    (hrunning : registry.terminated = false)
    (hplace : registry.threads thread = .lockRegister call logger)
    (hlocked : call.locked = false) :
    ∃ registry', Execution Step registry [.returned thread (.register call) .operationFailed]
        registry' ∧
      registry'.terminated = false ∧ registry'.threads thread = .idle ∧
      registry'.owner = registry.owner ∧ registry'.head = registry.head ∧
      registry'.heap logger = none ∧ Undisturbed thread logger registry registry' := by
  have hfailed := Execution.refl.silent
    (step_at hrunning hplace (.silent (.notLocked hlocked)))
  have hdeleted := hfailed.silent (step_at hrunning (goto_threads_self _) .deleteLogger)
  have hreturn := hdeleted.step (step_at hrunning (Function.update_self ..) .returnFailure)
  refine ⟨_, hreturn, hrunning, Function.update_self .., rfl, rfl, Function.update_self .., ?_, ?_⟩
  · intro other hother
    simp [goto, Function.update_of_ne hother]
  · intro other hother
    exact Function.update_of_ne hother ..

/-- A lookup whose properties those of the head are returns it, and changes nothing. -/
private theorem find_head {call : FindCall} {logger : LoggerPtr} {node : LoggerNode}
    (hrunning : registry.terminated = false) (hidle : registry.threads thread = .idle)
    (hunowned : registry.owner = none) (hlocked : call.locked = true)
    (hhead : registry.head = some logger) (hnode : registry.heap logger = some node)
    (hid : node.contextId = call.contextId)
    (hdescription : node.contextDescription = call.description)
    (hthreshold : node.threshold = call.threshold) :
    ∃ registry', Execution Step registry [.called thread (.find call),
        .returned thread (.find call) (.found logger)] registry' ∧
      registry'.terminated = false ∧ registry'.threads thread = .idle ∧
      registry'.owner = none ∧ registry'.head = registry.head ∧ registry'.heap = registry.heap ∧
      ∀ other, other ≠ thread → registry'.threads other = registry.threads other := by
  have hcompare :
      (node.contextDescription = call.description && node.threshold = call.threshold) = true := by
    simp [hdescription, hthreshold]
  have hrun := ((((Execution.refl.step
    (step_at hrunning hidle (.call (.find call)))).step
    (step_at hrunning (goto_threads_self _) (.lockFind hlocked hunowned))).step
    (step_at hrunning ((goto_threads_self _).trans (congrArg _ hhead))
      (.silent (.stop hnode hid)))).step
    (step_at hrunning (goto_threads_self _) (.silent (.compare hnode)))).step
    (step_at hrunning (goto_threads_self _) .unlockFind)
  have hreturn := hrun.step
    (step_at hrunning ((goto_threads_self _).trans (congrArg _ hcompare)) .returnFound)
  refine ⟨_, hreturn, hrunning, Function.update_self .., rfl, rfl, rfl, ?_⟩
  intro other hother
  simp [goto, Function.update_of_ne hother]

/-- The calls and answers of two threads that register at the same time. The second
thread's first registration is denied the lock; its next one, which is at the lock
before the first thread is there, is published after that thread's and after a lookup. -/
def raceEvents (first second : ThreadId) (call denied rival : RegisterCall)
    (lookup : FindCall) : List (RegistryEvent ThreadId) :=
  [.called first (.register call), .called second (.register denied),
    .returned second (.register denied) .operationFailed, .called second (.register rival),
    .returned first (.register call) (.value 7), .called first (.find lookup),
    .returned first (.find lookup) (.found 7), .returned second (.register rival) (.value 8)]

/-- Two threads can race so; the logger that was published last is the head of the list
and links to the other. -/
theorem registrations_race {first second : ThreadId} (hne : first ≠ second)
    {call denied rival : RegisterCall} {lookup : FindCall}
    (hdefined : ∀ registered ∈ [call, denied, rival],
      definedThreshold registered.threshold = true ∧ registered.idBufferAllocated = true ∧
        registered.descriptionBufferAllocated = true ∧ registered.loggerAllocated = true)
    (hlocked : call.locked = true) (hrival : rival.locked = true)
    (hdenied : denied.locked = false) (hlookup : lookup.locked = true)
    (hid : call.contextId = lookup.contextId)
    (hdescription : call.description = lookup.description)
    (hthreshold : call.threshold = lookup.threshold) :
    ∃ final, Execution Step initial (raceEvents first second call denied rival lookup) final ∧
      final.threads first = .idle ∧ final.threads second = .idle ∧ final.head = some 8 ∧
      (∃ newer, final.heap 8 = some newer ∧ newer.next = some 7) ∧
      ∃ older, final.heap 7 = some older ∧ older.next = none := by
  obtain ⟨hdefined₁, hid₁, hdescription₁, hlogger₁⟩ := hdefined call (by simp)
  obtain ⟨hdefined₂, hid₂, hdescription₂, hlogger₂⟩ := hdefined denied (by simp)
  obtain ⟨hdefined₃, hid₃, hdescription₃, hlogger₃⟩ := hdefined rival (by simp)
  -- The first thread is at the lock.
  obtain ⟨atLock, hatLock, hrunning₁, hplace₁, howner₁, hhead₁, ⟨node, hnode, hdescribes⟩, hleft₁⟩ :=
    @register_allocates ThreadId initial first _ call 7 rfl rfl hdefined₁ hid₁ hdescription₁
      hlogger₁ rfl
  -- The second thread fails.
  obtain ⟨tried, htried, hrunning₂, hplace₂, howner₂, hhead₂, -, hleft₂⟩ :=
    @register_allocates ThreadId atLock second _ denied 8 hrunning₁
      (hleft₁.threads second hne.symm) hdefined₂ hid₂ hdescription₂ hlogger₂
      (hleft₁.heap 8 (by decide))
  obtain ⟨failed, hfailed, hrunning₃, hplace₃, howner₃, hhead₃, hheap₃, hleft₃⟩ :=
    register_not_locked hrunning₂ hplace₂ hdenied
  -- Both threads are at the lock.
  obtain ⟨both, hboth, hrunning₄, hplace₄, howner₄, hhead₄, ⟨other, hother, -⟩, hleft₄⟩ :=
    register_allocates hrunning₃ hplace₃ hdefined₃ hid₃ hdescription₃ hlogger₃ hheap₃
  have hleft := (hleft₂.trans hleft₃).trans hleft₄
  have howner : both.owner = none := by rw [howner₄, howner₃, howner₂, howner₁]; rfl
  have hhead : both.head = none := by rw [hhead₄, hhead₃, hhead₂, hhead₁]; rfl
  -- The first thread publishes, and finds its logger.
  obtain ⟨published, hpublished, hrunning₅, hplace₅, howner₅, hhead₅, hnode₅, hleft₅⟩ :=
    register_publishes hrunning₄ ((hleft.threads first hne).trans hplace₁) howner hlocked
      ((hleft.heap 7 (by decide)).trans hnode)
  obtain ⟨found, hfound, hrunning₆, hplace₆, howner₆, hhead₆, hheap₆, hthreads₆⟩ :=
    find_head hrunning₅ hplace₅ howner₅ hlookup hhead₅ hnode₅ (hdescribes.1.trans hid)
      (hdescribes.2.1.trans hdescription) (hdescribes.2.2.trans hthreshold)
  -- The second thread publishes.
  obtain ⟨final, hfinal, -, hplace₇, -, hhead₇, hnode₇, hleft₇⟩ :=
    register_publishes hrunning₆
      ((hthreads₆ second hne.symm).trans ((hleft₅.threads second hne.symm).trans hplace₄))
      howner₆ hrival ((congrFun hheap₆ 8).trans ((hleft₅.heap 8 (by decide)).trans hother))
  have hrun := ((((hatLock.trans htried).trans hfailed).trans hboth).trans hpublished).trans
    (hfound.trans hfinal)
  have holder := (hleft₇.heap 7 (by decide)).trans ((congrFun hheap₆ 7).trans hnode₅)
  exact ⟨final, hrun, (hleft₇.threads first hne).trans hplace₆, hplace₇, hhead₇,
    ⟨_, hnode₇, hhead₆.trans hhead₅⟩, _, holder, hhead⟩

/-- The calls of any number of threads take effect one at a time, each between
its invocation and its answer, on the published loggers. A registration that
succeeds is published once. A lookup has the answer of the most recently
published logger with its ID, and sees every registration that returned before
it was called; if no ID is registered twice it returns the registered object.
Published loggers are never written, and only successful registrations change
the head of the list. -/
theorem registry_linearizable {events : List (RegistryEvent ThreadId)}
    {final : Registry ThreadId} (hrun : Execution Step initial events final) :
    ∃ state, Execution RegistrySpec.Step RegistrySpec.initial events state ∧
      final.Represents state ∧
      (∀ thread call answer, RegistrySpec.endEvent thread (.register call) answer ∈ events →
        definedThreshold call.threshold = true →
          (call.Succeeds ∧ ∃ logger, answer = some (.value logger) ∧
            call.entry logger ∈ state.published ∧
            (state.published.map RegistryEntry.logger).count logger = 1) ∨
          (¬call.Succeeds ∧ answer = some .operationFailed)) ∧
      (∀ before thread call middle event after,
        events = before ++ .called thread (.find call) :: (middle ++ event :: after) →
        (∀ other ∈ middle, RegistrySpec.eventThread other ≠ thread) →
        RegistrySpec.eventThread event = thread →
          (∃ answer, event = RegistrySpec.endEvent thread (.find call) answer ∧
            RegistrySpec.Seen state.published before call answer) ∧
          ((RegistrySpec.registeredIds events).Nodup → ∀ caller registration logger,
            .returned caller (.register registration) (.value logger) ∈ before →
            registration.contextId = call.contextId →
            registration.description = call.description →
            registration.threshold = call.threshold → call.locked = true →
              event = .returned thread (.find call) (.found logger))) ∧
      ∀ event next, Step final event next →
        (∀ entry ∈ state.published, next.heap entry.logger = final.heap entry.logger) ∧
        (next.head = final.head ∨ ∃ thread call logger,
          final.threads thread = .publish call logger ∧ call.Succeeds ∧
            next.head = some logger) := by
  obtain ⟨state, hspec, hrep⟩ := hrun.simulate represents_initial
    fun _ _ _ _ hrep hstep => hrep.step hstep
  have hhistory := RegistrySpec.history hspec
  refine ⟨state, hspec, hrep, ?_, ?_, fun event next hstep =>
    ⟨hrep.published_unchanged hstep, hrep.head_changes hstep⟩⟩
  · intro thread call answer hmem hdefined
    have hanswer := hhistory.register_ended thread call answer hmem
    cases answer with
    | none => exact absurd (hdefined.symm.trans hanswer) (by simp)
    | some answer =>
        rcases hanswer with ⟨hsucceeds, logger, rfl, hpublished⟩ | ⟨hfails, rfl⟩
        · refine Or.inl ⟨hsucceeds, logger, rfl, hpublished, ?_⟩
          exact List.count_eq_one_of_mem hrep.nodup (List.mem_map_of_mem hpublished)
        · exact Or.inr ⟨hfails, rfl⟩
  · intro before thread call middle event after hevents hmiddle hevent
    obtain ⟨answer, hanswer, hseen⟩ :=
      hhistory.find_ended before thread call middle event after hevents hmiddle hevent
    refine ⟨⟨answer, hanswer, hseen⟩, ?_⟩
    intro hnodup caller registration logger hreturned hid hdescription hthreshold hlocked
    obtain ⟨seen, hsuffix, hall, rfl⟩ := hseen
    have hentry := hall (registration.entry logger) ⟨caller, registration, rfl, hreturned⟩
    rw [hanswer, RegistrySpec.findAnswer_of_mem
      (RegistrySpec.distinctIds hspec hnodup).published_nodup hsuffix hentry hlocked hid
      hdescription hthreshold]
    rfl

def registration (contextId : Bytes) (locked : Bool) : RegisterCall :=
  ⟨contextId, [], .verbose, true, true, true, locked⟩

/-- Two threads whose registrations overlap while a third registration fails: the lookup
sees what was registered before it, and each of the two loggers is published once. -/
theorem registry_linearizable_race :
    ∃ (final : Registry Bool) (state : RegistrySpec.State Bool),
      Execution Step initial (raceEvents false true (registration [65] true)
        (registration [66] false) (registration [67] true) ⟨[65], [], .verbose, true⟩) final ∧
      final.Represents state ∧
      (state.published.map RegistryEntry.logger).count 7 = 1 ∧
      (state.published.map RegistryEntry.logger).count 8 = 1 ∧
      RegistrySpec.Seen state.published
        ((raceEvents false true (registration [65] true) (registration [66] false)
          (registration [67] true) ⟨[65], [], .verbose, true⟩).take 5)
        ⟨[65], [], .verbose, true⟩ (some (.found 7)) := by
  obtain ⟨events, hevents⟩ : ∃ events, events = raceEvents false true (registration [65] true)
    (registration [66] false) (registration [67] true) ⟨[65], [], .verbose, true⟩ := ⟨_, rfl⟩
  obtain ⟨final, hrun, -⟩ := @registrations_race Bool _ false true (by decide)
    (registration [65] true) (registration [66] false) (registration [67] true)
    ⟨[65], [], .verbose, true⟩ (by decide) rfl rfl rfl rfl rfl rfl rfl
  rw [← hevents] at hrun ⊢
  obtain ⟨state, -, hrep, hanswers, hlookups, -⟩ := registry_linearizable hrun
  have hpublished : ∀ thread contextId logger,
      .returned thread (.register (registration contextId true)) (.value logger) ∈ events →
        (state.published.map RegistryEntry.logger).count logger = 1 := by
    intro thread contextId logger hmem
    rcases hanswers thread _ (some (.value logger)) hmem rfl with
      ⟨-, _, hlogger, -, hcount⟩ | ⟨-, hfailed⟩
    · cases hlogger
      exact hcount
    · cases hfailed
  have hfirst := hpublished false [65] 7 (by simp [hevents, raceEvents])
  have hsecond := hpublished true [67] 8 (by simp [hevents, raceEvents])
  have hsplit : events = events.take 5 ++ .called false (.find ⟨[65], [], .verbose, true⟩) ::
      ([] ++ .returned false (.find ⟨[65], [], .verbose, true⟩) (.found 7) ::
        events.drop 7) := by
    rw [hevents]
    rfl
  obtain ⟨⟨answer, hanswer, hseen⟩, -⟩ := hlookups _ _ _ _ _ _ hsplit (by simp) rfl
  cases answer with
  | none => cases hanswer
  | some answer =>
      cases hanswer
      exact ⟨final, state, hrun, hrep, hfirst, hsecond, hseen⟩

end AdaptivePi.Log.Registry
