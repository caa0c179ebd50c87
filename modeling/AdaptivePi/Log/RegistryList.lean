import AdaptivePi.Log.RegistryLinearizable

/-!
The intrusive list of the registry. Executions are recorded together with the
loggers that they have published, the newest first. In every state the links
from the head visit exactly these loggers, and every object in memory is one of
them or is still known to a single thread only. The search loop of `Find`
therefore ends, whatever the other threads do in the meantime.
-/

namespace AdaptivePi.Log.Registry

open Foundation

def links (heap : LoggerHeap) : LoggerPtr → Option (Option LoggerPtr) :=
  fun logger => (heap logger).map LoggerNode.next

def recordPublication : Control → List LoggerPtr → List LoggerPtr
  | .publish _ logger, published => logger :: published
  | _, published => published

variable {ThreadId : Type}

/-- Every object is published or known to a thread. -/
def Owned (heap : LoggerHeap) (threads : ThreadId → Control) (published : List LoggerPtr) : Prop :=
  ∀ logger, heap logger ≠ none →
    logger ∈ published ∨ ∃ thread call, unpublished (threads thread) = some (call, logger)

/-- What the memory has to do with the recorded publications. -/
structure Lists (registry : Registry ThreadId) (published : List LoggerPtr) : Prop where
  represents : ∃ state, registry.Represents state ∧
    state.published.map RegistryEntry.logger = published
  owned : Owned registry.heap registry.threads published

/-- How many loggers a search that stands at `current` has not passed yet. -/
def remaining (published : List LoggerPtr) (current : Option LoggerPtr) : Nat :=
  (published.dropWhile fun logger => some logger ≠ current).length

/-- The search loop of `Find` executed alone: at most `passes` objects are
compared, and reading an object that does not exist has no result. -/
def searchLoop (heap : LoggerHeap) (contextId : Bytes) :
    Nat → Option LoggerPtr → Option (Option LoggerPtr)
  | _, none => some none
  | 0, some _ => none
  | passes + 1, some current => do
      let node ← heap current
      if node.contextId = contextId then some (some current)
      else searchLoop heap contextId passes node.next

variable {registry registry' : Registry ThreadId} {published : List LoggerPtr}
  {state : RegistrySpec.State ThreadId} {thread : ThreadId}
  {event : Option (RegistryEvent ThreadId)}

theorem Represents.isChain (h : registry.Represents state) :
    IsChain (links registry.heap) registry.head (state.published.map RegistryEntry.logger) :=
  h.chain

theorem Lists.isChain (h : registry.Lists published) :
    IsChain (links registry.heap) registry.head published := by
  obtain ⟨state, hrep, rfl⟩ := h.represents
  exact hrep.isChain

/-- The loop needs at most one pass for each logger of the chain. -/
theorem searchLoop_ends {heap : LoggerHeap} {contextId : Bytes} {start : Option LoggerPtr}
    {loggers : List LoggerPtr} (hchain : IsChain (links heap) start loggers) :
    ∃ found, searchLoop heap contextId loggers.length start = some found := by
  induction loggers generalizing start with
  | nil =>
      obtain rfl : start = none := hchain
      exact ⟨none, rfl⟩
  | cons logger rest ih =>
      obtain ⟨rfl, link, hlink, hrest⟩ := hchain
      obtain ⟨node, hnode, rfl⟩ := Option.map_eq_some_iff.mp hlink
      by_cases hequal : node.contextId = contextId
      · exact ⟨some logger, by simp [searchLoop, hnode, hequal]⟩
      · obtain ⟨found, hfound⟩ := ih hrest
        exact ⟨found, by simpa [searchLoop, hnode, hequal] using hfound⟩

theorem remaining_append {before after : List LoggerPtr} (hnodup : (before ++ after).Nodup) :
    remaining (before ++ after) after.head? = after.length := by
  have hskip : ∀ logger ∈ before, decide (some logger ≠ after.head?) = true := by
    intro logger hlogger
    rw [decide_eq_true_eq]
    intro hhead
    have hmem := List.mem_of_head? hhead.symm
    exact (List.nodup_append.mp hnodup).2.2 logger hlogger logger hmem rfl
  unfold remaining
  rw [List.dropWhile_append_of_pos hskip]
  cases after with
  | nil => rfl
  | cons logger rest => simp

private theorem unpublished_of_localStep {heap : LoggerHeap} {control control' : Control}
    (hlocal : LocalStep heap control control') : unpublished control' = unpublished control := by
  cases hlocal <;> rfl

theorem lists_initial : (initial : Registry ThreadId).Lists [] :=
  ⟨⟨_, represents_initial, rfl⟩, fun _ hlogger => absurd rfl hlogger⟩

theorem recordPublication_eq {control : Control}
    (hother : ∀ call logger, control ≠ .publish call logger) :
    recordPublication control published = published := by
  cases control with
  | publish call logger => exact absurd rfl (hother call logger)
  | _ => rfl

/-- The place of a search in the list of published loggers. -/
private theorem Lists.scan_place (h : registry.Lists published)
    (hrunning : registry.terminated = false) {call : FindCall} {current : Option LoggerPtr}
    (hscan : registry.threads thread = .scan call current) :
    ∃ before after, published = before ++ after ∧ current = after.head? := by
  obtain ⟨state, hrep, rfl⟩ := h.represents
  have hcontrol := hrep.control hrunning thread
  rw [hscan] at hcontrol
  obtain ⟨-, -, before, after, hpublished, -, hcurrent⟩ := hcontrol
  exact ⟨before.map RegistryEntry.logger, after.map RegistryEntry.logger,
    by rw [hpublished, List.map_append], hcurrent⟩

/-- A search can always go on. -/
theorem Lists.scan_enabled (h : registry.Lists published)
    (hrunning : registry.terminated = false) {call : FindCall} {current : Option LoggerPtr}
    (hscan : registry.threads thread = .scan call current) :
    ∃ control, LocalStep registry.heap (.scan call current) control := by
  obtain ⟨before, after, rfl, rfl⟩ := h.scan_place hrunning hscan
  cases after with
  | nil => exact ⟨_, .exhaust⟩
  | cons logger rest =>
      obtain ⟨link, hlink, -⟩ := h.isChain.tail
      obtain ⟨node, hnode, -⟩ := Option.map_eq_some_iff.mp hlink
      by_cases hequal : node.contextId = call.contextId
      · exact ⟨_, .stop hnode hequal⟩
      · exact ⟨_, .skip hnode hequal⟩

/-- Each pass of a search leaves fewer loggers to pass. -/
theorem Lists.remaining_lt (h : registry.Lists published)
    (hrunning : registry.terminated = false) {call : FindCall} {current current' : Option LoggerPtr}
    (hscan : registry.threads thread = .scan call current)
    (hlocal : LocalStep registry.heap (.scan call current) (.scan call current')) :
    remaining published current' < remaining published current := by
  obtain ⟨before, after, rfl, rfl⟩ := h.scan_place hrunning hscan
  obtain ⟨place, hplace⟩ : ∃ place, place = after.head? := ⟨_, rfl⟩
  have hchain := h.isChain
  have hnodup := hchain.nodup
  rw [remaining_append hnodup]
  rw [← hplace] at hlocal
  cases hlocal with
  | @skip _ logger node hnode hdiffers =>
      cases after with
      | nil => cases hplace
      | cons first rest =>
          obtain rfl : logger = first := Option.some.inj hplace
          obtain ⟨link, hlink, hrest⟩ := hchain.tail
          unfold links at hlink
          rw [hnode, Option.map_some, Option.some.injEq] at hlink
          have hsplit : before ++ logger :: rest = (before ++ [logger]) ++ rest := by simp
          rw [hsplit] at hnodup ⊢
          rw [hlink, hrest.start_eq, remaining_append hnodup, List.length_cons]
          omega

variable [DecidableEq ThreadId]

private theorem threads_of_ne {other : ThreadId} {control : Control}
    (hstep : ThreadStep registry thread control event registry') (hne : other ≠ thread) :
    registry'.threads other = registry.threads other := by
  cases hstep with
  | terminateThreshold => rfl
  | terminateNotLocked => rfl
  | terminateNoMatch => rfl
  | _ => exact Function.update_of_ne hne ..

/-- A step of the registry, with the loggers that have been published. -/
inductive RecordedStep :
    StepRelation (Registry ThreadId × List LoggerPtr) (RegistryEvent ThreadId) where
  | step {registry registry' : Registry ThreadId} {published : List LoggerPtr}
      {event : Option (RegistryEvent ThreadId)} (hrunning : registry.terminated = false)
      (thread : ThreadId)
      (hstep : ThreadStep registry thread (registry.threads thread) event registry') :
      RecordedStep (registry, published) event
        (registry', recordPublication (registry.threads thread) published)

private theorem execution_of_recorded {events : List (RegistryEvent ThreadId)}
    {recorded : Registry ThreadId × List LoggerPtr}
    (hrun : Execution RecordedStep (initial, []) events recorded) :
    Execution Step initial events recorded.1 := by
  induction hrun with
  | refl => exact .refl
  | step _ hstep ih =>
      cases hstep with
      | step hrunning thread hthread => exact ih.step (.step hrunning thread hthread)

/-- Recording publications restricts nothing. -/
theorem execution_recorded_iff {events : List (RegistryEvent ThreadId)}
    {final : Registry ThreadId} :
    Execution Step initial events final ↔
      ∃ published, Execution RecordedStep (initial, []) events (final, published) := by
  constructor
  · intro hrun
    induction hrun with
    | refl => exact ⟨[], .refl⟩
    | step _ hstep ih =>
        obtain ⟨published, hrecorded⟩ := ih
        obtain ⟨hrunning, thread, hthread⟩ := hstep
        exact ⟨_, hrecorded.step (.step hrunning thread hthread)⟩
  · rintro ⟨published, hrun⟩
    exact execution_of_recorded hrun

/-- The owners after a step of one thread: the objects that it makes or keeps, and
those of the others. -/
private theorem Owned.update {threads : ThreadId → Control} {heap heap' : LoggerHeap}
    {published' : List LoggerPtr} (h : Owned heap threads published) (control : Control)
    (hobjects : ∀ logger, heap' logger ≠ none →
      heap logger ≠ none ∨ ∃ call, unpublished control = some (call, logger))
    (hkept : ∀ call logger, unpublished (threads thread) = some (call, logger) →
      heap' logger = none ∨ logger ∈ published' ∨
        ∃ call', unpublished control = some (call', logger))
    (hpublished : published ⊆ published') :
    Owned heap' (Function.update threads thread control) published' := by
  have hself : ∀ logger, (∃ call, unpublished control = some (call, logger)) →
      ∃ other call, unpublished (Function.update threads thread control other) =
        some (call, logger) := by
    rintro logger ⟨call, hcall⟩
    exact ⟨thread, call, by rw [Function.update_self, hcall]⟩
  intro logger hlogger
  rcases hobjects logger hlogger with hold | hnew
  · rcases h logger hold with hmem | ⟨other, call, hother⟩
    · exact Or.inl (hpublished hmem)
    · by_cases hthread : other = thread
      · subst hthread
        rcases hkept call logger hother with hnone | hmem | hnew
        · exact absurd hnone hlogger
        · exact Or.inl hmem
        · exact Or.inr (hself logger hnew)
      · exact Or.inr ⟨other, call, by rw [Function.update_of_ne hthread, hother]⟩
  · exact Or.inr (hself logger hnew)

/-- A thread that continues with the same knowledge. -/
private theorem Owned.goto {threads : ThreadId → Control} {heap : LoggerHeap}
    (h : Owned heap threads published) {control : Control}
    (hsame : unpublished control = unpublished (threads thread)) :
    Owned heap (Function.update threads thread control) published := by
  refine h.update control (fun _ hlogger => Or.inl hlogger) ?_ (List.Subset.refl _)
  intro call logger hcall
  exact Or.inr (Or.inr ⟨call, hsame.trans hcall⟩)

/-- An object is made, changed or deleted by the thread that knows it. -/
private theorem Owned.updateHeap {threads : ThreadId → Control} {heap : LoggerHeap}
    (h : Owned heap threads published) {control : Control} {logger : LoggerPtr}
    {content : Option LoggerNode}
    (hown : ∀ call other, unpublished (threads thread) = some (call, other) → other = logger)
    (hcontent : content = none ∨ ∃ call, unpublished control = some (call, logger)) :
    Owned (Function.update heap logger content) (Function.update threads thread control)
      published := by
  refine h.update control ?_ ?_ (List.Subset.refl _)
  · intro other hother
    by_cases hsame : other = logger
    · subst hsame
      rw [Function.update_self] at hother
      exact Or.inr (hcontent.resolve_left hother)
    · rw [Function.update_of_ne hsame] at hother
      exact Or.inl hother
  · intro call other hcall
    obtain rfl := hown call other hcall
    rw [Function.update_self]
    rcases hcontent with hnone | hnew
    · exact Or.inl hnone
    · exact Or.inr (Or.inr hnew)

/-- No step leaks an object. -/
private theorem Owned.step (h : Owned registry.heap registry.threads published)
    (hstep : ThreadStep registry thread (registry.threads thread) event registry') :
    Owned registry'.heap registry'.threads
      (recordPublication (registry.threads thread) published) := by
  obtain ⟨control, hplace⟩ : ∃ control, control = registry.threads thread := ⟨_, rfl⟩
  rw [← hplace] at hstep ⊢
  cases hstep with
  | call call =>
      refine h.goto ?_
      rw [← hplace]
      cases call <;> rfl
  | silent hlocal =>
      have hsame := unpublished_of_localStep hlocal
      have hrecord : recordPublication control published = published := by
        cases hlocal <;> rfl
      rw [hplace] at hsame
      rw [hrecord]
      exact h.goto hsame
  | @allocateLogger call idBuffer descriptionBuffer hallocated logger hfree =>
      refine h.updateHeap ?_ (Or.inr ⟨call, rfl⟩)
      rw [← hplace]
      rintro _ _ ⟨⟩
  | lockRegister hlocked hfree => exact h.goto (by rw [← hplace]; rfl)
  | @link call logger node hnode =>
      refine h.updateHeap ?_ (Or.inr ⟨call, rfl⟩)
      rw [← hplace]
      rintro _ _ ⟨⟩
      rfl
  | @publish call logger =>
      refine h.update _ (fun _ hlogger => Or.inl hlogger) ?_ (List.subset_cons_self _ _)
      rw [← hplace]
      rintro _ _ ⟨⟩
      exact Or.inr (Or.inl List.mem_cons_self)
  | unlockRegister => exact h.goto (by rw [← hplace]; rfl)
  | @deleteLogger call logger =>
      refine h.updateHeap ?_ (Or.inl rfl)
      rw [← hplace]
      rintro _ _ ⟨⟩
      rfl
  | returnValue => exact h.goto (by rw [← hplace]; rfl)
  | returnFailure => exact h.goto (by rw [← hplace]; rfl)
  | lockFind hlocked hfree => exact h.goto (by rw [← hplace]; rfl)
  | unlockFind => exact h.goto (by rw [← hplace]; rfl)
  | returnFound => exact h.goto (by rw [← hplace]; rfl)
  | terminateThreshold => exact h
  | terminateNotLocked => exact h
  | terminateNoMatch => exact h

/-- The links of published loggers stay, and publishing puts a logger in front
of them. -/
private theorem Represents.chain_step (h : registry.Represents state)
    (hstep : ThreadStep registry thread (registry.threads thread) event registry')
    (hrunning : registry.terminated = false) :
    IsChain (links registry'.heap) registry'.head
      (recordPublication (registry.threads thread)
        (state.published.map RegistryEntry.logger)) := by
  have hunchanged := h.published_unchanged (.step hrunning thread hstep)
  have hkept : IsChain (links registry'.heap) registry.head
      (state.published.map RegistryEntry.logger) := by
    refine h.isChain.congr fun logger hlogger => ?_
    obtain ⟨entry, hentry, rfl⟩ := List.mem_map.mp hlogger
    unfold links
    rw [hunchanged entry hentry]
  obtain ⟨control, hplace⟩ : ∃ control, control = registry.threads thread := ⟨_, rfl⟩
  rw [← hplace] at hstep ⊢
  cases hstep with
  | @publish call logger =>
      obtain ⟨⟨node, hnode, -⟩, -⟩ :=
        h.unpublished_node thread call logger (by rw [← hplace]; rfl)
      have hnext := h.linked thread call logger hplace.symm node hnode
      refine hkept.cons ?_
      change (registry.heap logger).map LoggerNode.next = some registry.head
      rw [hnode, Option.map_some, hnext]
  | silent hlocal =>
      have hrecord : ∀ loggers, recordPublication control loggers = loggers := by
        intro loggers
        cases hlocal <;> rfl
      rw [hrecord]
      exact hkept
  | _ => exact hkept

/-- A step links one more logger, or none. -/
theorem Lists.step (h : registry.Lists published)
    (hstep : ThreadStep registry thread (registry.threads thread) event registry')
    (hrunning : registry.terminated = false) :
    registry'.Lists (recordPublication (registry.threads thread) published) := by
  obtain ⟨⟨state, hrep, rfl⟩, howned⟩ := h
  obtain ⟨state', -, hrep'⟩ := hrep.step (.step hrunning thread hstep)
  refine ⟨⟨state', hrep', ?_⟩, howned.step hstep⟩
  exact hrep'.isChain.unique (hrep.chain_step hstep hrunning)

/-- In every run the list has the recorded loggers. -/
theorem lists_of_recorded {events : List (RegistryEvent ThreadId)} {final : Registry ThreadId}
    (hrun : Execution RecordedStep (initial, []) events (final, published)) :
    final.Lists published := by
  refine Execution.invariant
    (I := fun _ (recorded : Registry ThreadId × List LoggerPtr) => recorded.1.Lists recorded.2)
    lists_initial ?_ hrun
  rintro _ _ _ _ hlists ⟨hrunning, thread, hstep⟩
  exact hlists.step hstep hrunning

/-- A registration that has returned its logger has published it. -/
theorem returned_mem {events : List (RegistryEvent ThreadId)} {final : Registry ThreadId}
    (hrun : Execution RecordedStep (initial, []) events (final, published)) {call : RegisterCall}
    {logger : LoggerPtr}
    (hreturned : .returned thread (.register call) (.value logger) ∈ events) :
    logger ∈ published := by
  obtain ⟨state, hspec, hrep⟩ := (execution_of_recorded hrun).simulate represents_initial
    fun _ _ _ _ hrep hstep => hrep.step hstep
  have hanswer := (RegistrySpec.history hspec).register_ended thread call
    (some (.value logger)) hreturned
  have hchain := (lists_of_recorded hrun).isChain
  rw [← hrep.isChain.unique hchain]
  rcases hanswer with ⟨-, logger', hlogger, hmem⟩ | ⟨-, hfailed⟩
  · cases hlogger
    exact List.mem_map_of_mem hmem
  · cases hfailed

/-- While one thread searches, nothing is published, and the steps of the others
leave the search where it is. -/
theorem Lists.scan_step (h : registry.Lists published) {call : FindCall}
    {current : Option LoggerPtr} (hscan : registry.threads thread = .scan call current)
    {published' : List LoggerPtr}
    (hstep : RecordedStep (registry, published) event (registry', published')) :
    published' = published ∧ (registry'.threads thread = .scan call current ∨
      LocalStep registry.heap (.scan call current) (registry'.threads thread)) := by
  obtain ⟨⟨state, hrep, -⟩, -⟩ := h
  have howner : registry.owner = some thread := by
    rw [← hrep.critical thread, hscan]
    rfl
  cases hstep with
  | step hrunning other hother =>
      constructor
      · apply recordPublication_eq
        intro call' logger hpublish
        have hcritical : registry.owner = some other := by
          rw [← hrep.critical other, hpublish]
          rfl
        obtain rfl := Option.some.inj (howner.symm.trans hcritical)
        cases hscan.symm.trans hpublish
      · by_cases hsame : thread = other
        · subst hsame
          rw [hscan] at hother
          cases hother with
          | silent hlocal =>
              exact Or.inr (by simpa only [goto, Function.update_self] using hlocal)
        · exact Or.inl ((threads_of_ne hother hsame).trans hscan)

end AdaptivePi.Log.Registry
