import AdaptivePi.Log.RegistryList

namespace AdaptivePi.Log.Registry

open Foundation

inductive Access where
  | readNext (logger : LoggerPtr)
  | delete (logger : LoggerPtr)
  deriving DecidableEq

/-- The registry while it is torn down, and the accesses so far. -/
structure Teardown where
  heap : LoggerHeap
  head : Option LoggerPtr
  accesses : List Access

/-- The body of the loop; an object that does not exist can neither be read nor
deleted. -/
def deleteFirst (teardown : Teardown) (current : LoggerPtr) : Option Teardown := do
  let node ← teardown.heap current
  some
    { heap := Function.update teardown.heap current none
      head := node.next
      accesses := teardown.accesses ++ [.readNext current, .delete current] }

/-- The loop `while (head_ != nullptr)`, for at most `passes` passes. -/
def deleteLoggers : Nat → Teardown → Option Teardown
  | 0, teardown => if teardown.head = none then some teardown else none
  | passes + 1, teardown =>
      match teardown.head with
      | none => some teardown
      | some current => do
          let rest ← deleteFirst teardown current
          deleteLoggers passes rest

/-- `~LoggerRegistry`: the process terminates when the mutex cannot be destroyed. -/
def destructor (passes : Nat) (heap : LoggerHeap) (head : Option LoggerPtr)
    (mutexDestroyed : Bool) : Option (Teardown × Bool) := do
  let teardown ← deleteLoggers passes { heap := heap, head := head, accesses := [] }
  some (teardown, !mutexDestroyed)

def accessesOf (loggers : List LoggerPtr) : List Access :=
  loggers.flatMap fun logger => [.readNext logger, .delete logger]

def without (heap : LoggerHeap) (loggers : List LoggerPtr) : LoggerHeap :=
  fun logger => if logger ∈ loggers then none else heap logger

private theorem without_cons (heap : LoggerHeap) (logger : LoggerPtr) (rest : List LoggerPtr) :
    without (Function.update heap logger none) rest = without heap (logger :: rest) := by
  funext other
  unfold without
  by_cases hsame : other = logger
  · subst hsame
    simp
  · simp [hsame]

/-- One pass reads the link of a logger and deletes it. -/
private theorem deleteFirst_eq {heap : LoggerHeap} {head : Option LoggerPtr}
    {accesses : List Access} {current : LoggerPtr} {node : LoggerNode}
    (hnode : heap current = some node) :
    deleteFirst ⟨heap, head, accesses⟩ current =
      some ⟨Function.update heap current none, node.next,
        accesses ++ [.readNext current, .delete current]⟩ := by
  unfold deleteFirst
  simp only [hnode, Option.bind_eq_bind, Option.bind_some]

/-- The loop follows the chain from the head and deletes it. -/
theorem deleteLoggers_chain {heap : LoggerHeap} {head : Option LoggerPtr}
    {accesses : List Access} {loggers : List LoggerPtr}
    (hchain : IsChain (links heap) head loggers) :
    deleteLoggers loggers.length ⟨heap, head, accesses⟩ =
      some ⟨without heap loggers, none, accesses ++ accessesOf loggers⟩ := by
  induction loggers generalizing heap head accesses with
  | nil =>
      obtain rfl : head = none := hchain
      have hwithout : without heap [] = heap := by
        funext logger
        simp [without]
      simp [deleteLoggers, hwithout, accessesOf]
  | cons logger rest ih =>
      have hnodup := List.nodup_cons.mp hchain.nodup
      obtain ⟨rfl, link, hlink, hrest⟩ := hchain
      obtain ⟨node, hnode, rfl⟩ := Option.map_eq_some_iff.mp hlink
      have hkept : IsChain (links (Function.update heap logger none)) node.next rest := by
        refine hrest.congr fun other hother => ?_
        have hne : other ≠ logger := fun hsame => hnodup.1 (hsame ▸ hother)
        unfold links
        rw [Function.update_of_ne hne]
      simp only [List.length_cons, deleteLoggers, deleteFirst_eq hnode, Option.bind_eq_bind,
        Option.bind_some]
      rw [ih hkept, without_cons]
      simp [accessesOf]

/-- A logger is read before it is deleted. -/
private theorem readNext_split {loggers : List LoggerPtr} {before after : List Access}
    {logger : LoggerPtr} (h : accessesOf loggers = before ++ .readNext logger :: after) :
    ∃ earlier later, loggers = earlier ++ logger :: later ∧ before = accessesOf earlier := by
  induction loggers generalizing before with
  | nil => cases before <;> cases h
  | cons first rest ih =>
      have hcons : accessesOf (first :: rest) =
          .readNext first :: .delete first :: accessesOf rest := rfl
      rw [hcons] at h
      cases before with
      | nil =>
          obtain ⟨hfirst, -⟩ := List.cons.inj h
          cases hfirst
          exact ⟨[], rest, rfl, rfl⟩
      | cons access before =>
          obtain ⟨rfl, hdelete⟩ := List.cons.inj h
          cases before with
          | nil => cases (List.cons.inj hdelete).1
          | cons access' before =>
              obtain ⟨rfl, hrest⟩ := List.cons.inj hdelete
              obtain ⟨earlier, later, rfl, rfl⟩ := ih hrest
              exact ⟨first :: earlier, later, rfl, rfl⟩

/-- Exactly the loggers of the list are deleted. -/
private theorem delete_mem_iff {loggers : List LoggerPtr} {logger : LoggerPtr} :
    .delete logger ∈ accessesOf loggers ↔ logger ∈ loggers := by
  simp [accessesOf]

/-- Each logger is deleted as often as it is listed. -/
theorem count_delete (loggers : List LoggerPtr) (logger : LoggerPtr) :
    (accessesOf loggers).count (.delete logger) = loggers.count logger := by
  induction loggers with
  | nil => rfl
  | cons first rest ih =>
      have hcons : accessesOf (first :: rest) =
          .readNext first :: .delete first :: accessesOf rest := rfl
      rw [hcons, List.count_cons, List.count_cons, List.count_cons, ih]
      simp

/-- No link is read from a logger that is deleted. -/
theorem readNext_before_delete {loggers : List LoggerPtr} (hnodup : loggers.Nodup)
    {before after : List Access} {logger : LoggerPtr}
    (h : accessesOf loggers = before ++ .readNext logger :: after) : .delete logger ∉ before := by
  obtain ⟨earlier, later, rfl, rfl⟩ := readNext_split h
  rw [delete_mem_iff]
  intro hmem
  exact (List.nodup_append.mp hnodup).2.2 logger hmem logger List.mem_cons_self rfl

variable {ThreadId : Type} [DecidableEq ThreadId]

/-- Whatever registrations and lookups are going on, the links from the head
visit the published loggers, each once, the newest first; a registration that
has returned its logger has published it. A search ends: alone
after one pass for each of them at most, and among other threads because it can
always go on, its own passes bring it closer to the end of the list, and no
other thread moves it or publishes. When no operation is running, the destructor
reads and deletes each published logger once, leaves the head null, and no
object is left in memory. -/
theorem registry_list_and_teardown {events : List (RegistryEvent ThreadId)}
    {final : Registry ThreadId} {published : List LoggerPtr}
    (hrun : Execution RecordedStep (initial, []) events (final, published)) :
    IsChain (links final.heap) final.head published ∧ published.Nodup ∧
      (∀ thread call logger,
        .returned thread (.register call) (.value logger) ∈ events → logger ∈ published) ∧
      (∀ contextId, ∃ found,
        searchLoop final.heap contextId published.length final.head = some found) ∧
      (∀ thread call current, final.terminated = false →
        final.threads thread = .scan call current →
          (∃ control, LocalStep final.heap (.scan call current) control) ∧
          (∀ current', LocalStep final.heap (.scan call current) (.scan call current') →
            remaining published current' < remaining published current) ∧
          ∀ event next published', RecordedStep (final, published) event (next, published') →
            published' = published ∧ (next.threads thread = .scan call current ∨
              LocalStep final.heap (.scan call current) (next.threads thread))) ∧
      ((∀ thread, final.threads thread = .idle) → ∀ mutexDestroyed, ∃ accesses,
        destructor published.length final.heap final.head mutexDestroyed =
          some (⟨fun _ => none, none, accesses⟩, !mutexDestroyed) ∧
        (∀ logger, accesses.count (.delete logger) = if logger ∈ published then 1 else 0) ∧
        ∀ before after logger, accesses = before ++ .readNext logger :: after →
          .delete logger ∉ before) := by
  have hlists := lists_of_recorded hrun
  have hchain := hlists.isChain
  have hnodup := hchain.nodup
  refine ⟨hchain, hnodup, fun _ _ _ => returned_mem hrun, fun _ => searchLoop_ends hchain, ?_, ?_⟩
  · intro thread call current hrunning hscan
    exact ⟨hlists.scan_enabled hrunning hscan, fun _ => hlists.remaining_lt hrunning hscan,
      fun _ _ _ => hlists.scan_step hscan⟩
  · intro hidle mutexDestroyed
    have hempty : without final.heap published = fun _ => none := by
      funext logger
      unfold without
      split_ifs with hmem
      · rfl
      · by_contra hlogger
        rcases hlists.owned logger hlogger with hmem' | ⟨thread, call, hthread⟩
        · exact hmem hmem'
        · rw [hidle thread] at hthread
          cases hthread
    refine ⟨accessesOf published, ?_, ?_, fun _ _ _ => readNext_before_delete hnodup⟩
    · unfold destructor
      rw [deleteLoggers_chain hchain, hempty]
      rfl
    · intro logger
      rw [count_delete]
      split_ifs with hmem
      · exact List.count_eq_one_of_mem hnodup hmem
      · exact List.count_eq_zero_of_not_mem hmem

/-- Two threads race to publish a logger each while a third registration fails; the list
has the logger that was published last first, and the destructor follows its link. -/
theorem registry_list_and_teardown_race :
    ∃ (final : Registry Bool),
      Execution RecordedStep (initial, [])
        (raceEvents false true (registration [65] true) (registration [66] false)
          (registration [67] true) ⟨[65], [], .verbose, true⟩) (final, [8, 7]) ∧
      IsChain (links final.heap) (some 8) [8, 7] ∧
      ∃ accesses, destructor 2 final.heap (some 8) true =
          some (⟨fun _ => none, none, accesses⟩, false) ∧
        (∀ logger, accesses.count (.delete logger) = if logger ∈ [8, 7] then 1 else 0) ∧
        ∀ before after logger, accesses = before ++ .readNext logger :: after →
          .delete logger ∉ before := by
  obtain ⟨final, hrace, hfirst, hsecond, hhead, ⟨newer, hnewer, hlink⟩, older, holder, hlast⟩ :=
    @registrations_race Bool _ false true (by decide) (registration [65] true)
      (registration [66] false) (registration [67] true) ⟨[65], [], .verbose, true⟩ (by decide)
      rfl rfl rfl rfl rfl rfl rfl
  obtain ⟨published, hrun⟩ := execution_recorded_iff.mp hrace
  obtain ⟨hchain, -, -, -, -, hteardown⟩ := registry_list_and_teardown hrun
  have hlinks : IsChain (links final.heap) (some 8) [8, 7] :=
    ⟨rfl, some 7, by simp [links, hnewer, hlink], rfl, none, by simp [links, holder, hlast], rfl⟩
  rw [hhead] at hchain hteardown
  obtain rfl := hchain.unique hlinks
  have hidle : ∀ thread, final.threads thread = .idle := by
    intro thread
    cases thread
    · exact hfirst
    · exact hsecond
  obtain ⟨accesses, hdestructor, hdeleted, hread⟩ := hteardown hidle true
  exact ⟨final, hrun, hlinks, accesses, hdestructor, hdeleted, hread⟩

end AdaptivePi.Log.Registry
