import AdaptivePi.Foundation.Transition
import AdaptivePi.Log.ConsoleDecoder
import AdaptivePi.Log.Delivery

/-!
Threads that log concurrently. All streams live in one store, loggers are
shared, and every call of the provider or of the sink is one step with an
arbitrary answer; steps of different threads are interleaved freely. Threads
use only their own streams. What one thread does is then a function of the
answers to its own calls, so each thread makes the calls that it would make
alone, and the console receives a shuffle of the threads' records.
-/

namespace AdaptivePi.Log

open Foundation

/-- A thread with the rest of its current operation, if it is inside one, and
the operations that follow. -/
structure Thread (Params : Type) where
  current : Option (LogProgram Params (Updates LogStream))
  remaining : List Operation

structure System (ThreadId Params : Type) where
  store : Store LogStream
  threads : ThreadId → Thread Params

section

variable {ThreadId Params : Type} [DecidableEq ThreadId]

def System.initial (programs : ThreadId → List Operation) : System ThreadId Params :=
  { store := fun _ => none, threads := fun thread => ⟨none, programs thread⟩ }

/-- A thread begins an operation, makes one of its calls and gets an answer,
or finishes the operation. -/
inductive System.Step (loggers : LoggerPtr → Logger) :
    StepRelation (System ThreadId Params) (ThreadId × LogEvent Params) where
  | begin {system : System ThreadId Params} {thread : ThreadId} {operation : Operation}
      {rest : List Operation}
      (hthread : system.threads thread = ⟨none, operation :: rest⟩) :
      Step loggers system none
        { system with
          threads := Function.update system.threads thread
            ⟨some (operation.program loggers system.store), rest⟩ }
  | call {system : System ThreadId Params} {thread : ThreadId} {question : LogEffect Params}
      {next : question.Reply → LogProgram Params (Updates LogStream)} {rest : List Operation}
      (hthread : system.threads thread = ⟨some (.ask question next), rest⟩)
      (answer : question.Reply) :
      Step loggers system (some (thread, ⟨question, answer⟩))
        { system with
          threads := Function.update system.threads thread ⟨some (next answer), rest⟩ }
  | finish {system : System ThreadId Params} {thread : ThreadId}
      {updates : Updates LogStream} {rest : List Operation}
      (hthread : system.threads thread = ⟨some (.done updates), rest⟩) :
      Step loggers system none
        { store := system.store.apply updates
          threads := Function.update system.threads thread ⟨none, rest⟩ }

end

def Operation.streams : Operation → List StreamId
  | .withLevel stream _ _ => [stream]
  | .insert stream _ => [stream]
  | .flush stream => [stream]
  | .moveConstruct source destination => [source, destination]
  | .destroy stream => [stream]

section

variable {ThreadId : Type} [DecidableEq ThreadId] (owner : StreamId → ThreadId)

def Operation.OwnedBy (thread : ThreadId) (operation : Operation) : Prop :=
  ∀ stream ∈ operation.streams, owner stream = thread

def Store.own {α : Type} (thread : ThreadId) (store : Store α) : Store α :=
  fun stream => if owner stream = thread then store stream else none

/-- The updates concern streams of one thread only. -/
def Updates.OwnedBy {α : Type} (thread : ThreadId) (updates : Updates α) : Prop :=
  ∀ update ∈ updates, owner update.1 = thread

variable {owner} {thread : ThreadId}

private theorem own_update {α : Type} (store : Store α) {stream : StreamId} (content : Option α)
    (howned : owner stream = thread) :
    Store.own owner thread (Function.update store stream content) =
      Function.update (store.own owner thread) stream content := by
  funext other
  by_cases hsame : other = stream
  · subst hsame
    simp [Store.own, howned]
  · simp [Store.own, hsame]

/-- A thread changes its own streams only. -/
private theorem own_apply {α : Type} (store : Store α) {updates : Updates α}
    (howned : Updates.OwnedBy owner thread updates) :
    (store.apply updates).own owner thread = (store.own owner thread).apply updates := by
  induction updates generalizing store with
  | nil => rfl
  | cons update rest ih =>
      obtain ⟨stream, content⟩ := update
      have hstream : owner stream = thread := howned (stream, content) (by simp)
      simp only [Store.apply]
      rw [ih _ (fun other hother => howned other (by simp [hother])), own_update _ _ hstream]

/-- Updates of other threads are not visible. -/
private theorem own_apply_other {α : Type} (store : Store α) {updates : Updates α}
    {other : ThreadId} (hother : other ≠ thread)
    (howned : Updates.OwnedBy owner other updates) :
    (store.apply updates).own owner thread = store.own owner thread := by
  induction updates generalizing store with
  | nil => rfl
  | cons update rest ih =>
      obtain ⟨stream, content⟩ := update
      have hstream : owner stream = other := howned (stream, content) (by simp)
      simp only [Store.apply]
      rw [ih _ (fun update hupdate => howned update (by simp [hupdate]))]
      funext unchanged
      by_cases hsame : unchanged = stream
      · subst hsame
        simp [Store.own, hstream, hother]
      · simp [Store.own, hsame]

variable {Params : Type} {loggers : LoggerPtr → Logger}

/-- An operation depends on the streams of its thread and changes no others. -/
private theorem program_own (Params : Type) (loggers : LoggerPtr → Logger)
    (store : Store LogStream) {operation : Operation} (howned : operation.OwnedBy owner thread) :
    (operation.program loggers (store.own owner thread) :
        LogProgram Params (Updates LogStream)) = operation.program loggers store ∧
      (operation.program loggers store : LogProgram Params (Updates LogStream)).Returns
        (Updates.OwnedBy owner thread) := by
  have hview (stream : StreamId) (hstream : stream ∈ operation.streams) :
      store.own owner thread stream = store stream := if_pos (howned stream hstream)
  have hnone : Updates.OwnedBy owner thread ([] : Updates LogStream) := by
    simp [Updates.OwnedBy]
  have hone (stream : StreamId) (hstream : stream ∈ operation.streams)
      (content : Option LogStream) : Updates.OwnedBy owner thread [(stream, content)] := by
    simpa [Updates.OwnedBy] using howned stream hstream
  cases operation with
  | withLevel stream logger level =>
      have hmem : stream ∈ (Operation.withLevel stream logger level).streams := by
        simp [Operation.streams]
      simp only [Operation.program, hview stream hmem, true_and]
      cases store stream with
      | none => exact hone stream hmem _
      | some content => exact hnone
  | insert stream insertion =>
      have hmem : stream ∈ (Operation.insert stream insertion).streams := by
        simp [Operation.streams]
      simp only [Operation.program, hview stream hmem, true_and]
      cases store stream with
      | none => exact hnone
      | some content => exact hone stream hmem _
  | flush stream =>
      have hmem : stream ∈ (Operation.flush stream).streams := by simp [Operation.streams]
      simp only [Operation.program, hview stream hmem, true_and]
      cases store stream with
      | none => exact hnone
      | some content =>
          exact (Program.returns_true _).bind fun content' _ => hone stream hmem _
  | moveConstruct source destination =>
      have hsource : source ∈ (Operation.moveConstruct source destination).streams := by
        simp [Operation.streams]
      have hdestination :
          destination ∈ (Operation.moveConstruct source destination).streams := by
        simp [Operation.streams]
      simp only [Operation.program, hview source hsource, hview destination hdestination,
        true_and]
      cases store source with
      | none => exact hnone
      | some content =>
          cases store destination with
          | some content' => exact hnone
          | none =>
              intro update hupdate
              rcases List.mem_cons.mp hupdate with rfl | hlast
              · exact howned destination hdestination
              · exact hone source hsource _ update hlast
  | destroy stream =>
      have hmem : stream ∈ (Operation.destroy stream).streams := by simp [Operation.streams]
      simp only [Operation.program, hview stream hmem, true_and]
      cases store stream with
      | none => exact hnone
      | some content =>
          exact (Program.returns_true _).bind fun _ _ => hone stream hmem _

/-- What a thread would still execute if it were alone with its own streams. -/
def Thread.rest (loggers : LoggerPtr → Logger) (store : Store LogStream)
    (thread : Thread Params) : LogProgram Params (Store LogStream) :=
  match thread.current with
  | none => execute loggers store thread.remaining
  | some program => program.bind fun updates => execute loggers (store.apply updates) thread.remaining

/-- Every thread has got, from its own events alone, to the state it is in. -/
structure System.Invariant (owner : StreamId → ThreadId) (loggers : LoggerPtr → Logger)
    (programs : ThreadId → List Operation) (events : List (ThreadId × LogEvent Params))
    (system : System ThreadId Params) : Prop where
  after : ∀ thread, (execute loggers (fun _ => none) (programs thread)).After
    (projection thread events)
    ((system.threads thread).rest loggers (system.store.own owner thread))
  current_owned : ∀ thread program, (system.threads thread).current = some program →
    program.Returns (Updates.OwnedBy owner thread)
  remaining_owned : ∀ thread, ∀ operation ∈ (system.threads thread).remaining,
    operation.OwnedBy owner thread

/-- A step changes one thread, and what the others see of the store stays. -/
private theorem System.Invariant.update {programs : ThreadId → List Operation}
    {events events' : List (ThreadId × LogEvent Params)} {system : System ThreadId Params}
    (h : system.Invariant owner loggers programs events) (store' : Store LogStream)
    (state : Thread Params)
    (hprojection : ∀ other, other ≠ thread →
      projection other events' = projection other events)
    (hstore : ∀ other, other ≠ thread → store'.own owner other = system.store.own owner other)
    (hafter : (execute loggers (fun _ => none) (programs thread)).After
      (projection thread events') (state.rest loggers (store'.own owner thread)))
    (hcurrent : ∀ program, state.current = some program →
      program.Returns (Updates.OwnedBy owner thread))
    (hremaining : ∀ operation ∈ state.remaining, operation.OwnedBy owner thread) :
    (System.mk store' (Function.update system.threads thread state)).Invariant owner loggers
      programs events' := by
  refine ⟨fun other => ?_, fun other => ?_, fun other => ?_⟩
  · by_cases hsame : other = thread
    · subst hsame
      simpa using hafter
    · simp only [Function.update_of_ne hsame]
      rw [hprojection other hsame, hstore other hsame]
      exact h.after other
  · by_cases hsame : other = thread
    · subst hsame
      simpa using hcurrent
    · simpa only [Function.update_of_ne hsame] using h.current_owned other
  · by_cases hsame : other = thread
    · subst hsame
      simpa using hremaining
    · simpa only [Function.update_of_ne hsame] using h.remaining_owned other

/-- A step of one thread leaves the others where they are. -/
private theorem System.Invariant.step {programs : ThreadId → List Operation}
    {events : List (ThreadId × LogEvent Params)} {system system' : System ThreadId Params}
    {event : Option (ThreadId × LogEvent Params)}
    (h : system.Invariant owner loggers programs events)
    (hstep : System.Step loggers system event system') :
    system'.Invariant owner loggers programs (events ++ event.toList) := by
  cases hstep with
  | @begin _ thread operation rest hthread =>
      have hafter := h.after thread
      have hremaining := h.remaining_owned thread
      rw [hthread] at hafter hremaining
      have howned := hremaining operation (by simp)
      obtain ⟨hprogram, hreturns⟩ := program_own Params loggers system.store howned
      refine h.update system.store _ (by simp) (by simp) ?_ ?_ ?_
      · simpa [Thread.rest, execute, hprogram] using hafter
      · rintro program ⟨⟩
        exact hreturns
      · exact fun other hother => hremaining other (by simp [hother])
  | @call _ thread question next rest hthread answer =>
      have hafter := h.after thread
      have hcurrent := h.current_owned thread
      have hremaining := h.remaining_owned thread
      rw [hthread] at hafter hcurrent hremaining
      refine h.update system.store _ ?_ (by simp) ?_ ?_ hremaining
      · intro other hother
        rw [Option.toList_some, projection_append, projection_other (Ne.symm hother),
          List.append_nil]
      · rw [Option.toList_some, projection_append, projection_self]
        exact Program.after_snoc hafter answer
      · rintro program ⟨⟩
        exact hcurrent _ rfl answer
  | @finish _ thread updates rest hthread =>
      have hafter := h.after thread
      have hcurrent := h.current_owned thread
      have hremaining := h.remaining_owned thread
      rw [hthread] at hafter hcurrent hremaining
      have howned : Updates.OwnedBy owner thread updates := hcurrent _ rfl
      refine h.update (system.store.apply updates) _ (by simp) ?_ ?_ ?_ hremaining
      · exact fun other hother => own_apply_other system.store (Ne.symm hother) howned
      · rw [own_apply _ howned]
        simpa [Thread.rest] using hafter
      · rintro program ⟨⟩

/-- The invariant holds in every interleaving. -/
theorem System.Invariant.of_execution {programs : ThreadId → List Operation}
    (howner : ∀ thread, ∀ operation ∈ programs thread, operation.OwnedBy owner thread)
    {events : List (ThreadId × LogEvent Params)} {final : System ThreadId Params}
    (hrun : Execution (System.Step loggers) (System.initial programs) events final) :
    final.Invariant owner loggers programs events := by
  refine hrun.invariant ?_ fun _ _ _ _ hinv hstep => hinv.step hstep
  refine ⟨fun thread => ?_, fun thread program hprogram => ?_, howner⟩
  · have hown : Store.own owner thread (fun _ => none : Store LogStream) = fun _ => none := by
      funext stream
      simp [Store.own]
    simp [System.initial, Thread.rest, Program.After, hown]
  · cases hprogram

end

/-- Every write is the complete output of an accepted record, and the message
hooks are not called. -/
def WritesCompleteRecord {Params : Type} : LogEffect Params → Prop
  | .read => True
  | .write bytes => ∃ record : LogRecord, record.Accepted ∧ record.output = bytes
  | .render _ => False
  | .traceArti _ => False

section

variable {Params : Type} (loggers : LoggerPtr → Logger)

/-- A record is written whole or not at all. -/
private theorem submit_writes_complete (logger : Logger) (level : LogLevel) (message : Bytes) :
    (logger.submit level message : LogProgram Params Unit).Every WritesCompleteRecord := by
  unfold Logger.submit
  split_ifs
  · trivial
  · refine ⟨trivial, fun outcome => ?_⟩
    cases outcome with
    | threw => trivial
    | unavailable => trivial
    | acquired metadata =>
        rcases hrender : renderConsoleRecord metadata level logger.contextId message .empty with
          ⟨success, output⟩
        cases success with
        | false => simp only [hrender, Program.Every]
        | true =>
            have hcomplete : WritesCompleteRecord (.write output.view : LogEffect Params) := by
              refine ⟨⟨metadata, level, logger.contextId, message⟩, ?_, ?_⟩
              · simp [LogRecord.Accepted, LogRecord.render, hrender]
              · simp [LogRecord.output, LogRecord.render, hrender]
            simp only [hrender]
            refine ⟨hcomplete, fun status => ?_⟩
            cases status <;> trivial

private theorem flush_writes_complete (stream : LogStream) :
    (stream.flush loggers : LogProgram Params LogStream).Every WritesCompleteRecord := by
  unfold LogStream.flush
  cases stream.logger with
  | none => trivial
  | some logger =>
      simp only
      split_ifs
      · exact (submit_writes_complete _ _ _).bind fun _ => trivial
      · trivial

private theorem program_writes_complete (store : Store LogStream) (operation : Operation) :
    (operation.program loggers store : LogProgram Params (Updates LogStream)).Every
      WritesCompleteRecord := by
  cases operation with
  | withLevel stream logger level =>
      simp only [Operation.program]
      cases store stream <;> trivial
  | insert stream insertion =>
      simp only [Operation.program]
      cases store stream <;> trivial
  | flush stream =>
      simp only [Operation.program]
      cases store stream with
      | none => trivial
      | some content => exact (flush_writes_complete loggers content).bind fun _ => trivial
  | moveConstruct source destination =>
      simp only [Operation.program]
      cases store source <;> cases store destination <;> trivial
  | destroy stream =>
      simp only [Operation.program]
      cases store stream with
      | none => trivial
      | some content =>
          refine Program.Every.bind ?_ fun _ => trivial
          exact (flush_writes_complete loggers content).bind fun _ => trivial

theorem execute_writes_complete (store : Store LogStream) (operations : List Operation) :
    (execute loggers store operations : LogProgram Params (Store LogStream)).Every
      WritesCompleteRecord := by
  induction operations generalizing store with
  | nil => trivial
  | cons operation rest ih =>
      exact (program_writes_complete loggers store operation).bind fun updates => ih _

end

def written {Params : Type} : LogEvent Params → Option Bytes
  | ⟨.write bytes, _⟩ => some bytes
  | ⟨.read, _⟩ => none
  | ⟨.render _, _⟩ => none
  | ⟨.traceArti _, _⟩ => none

def consoleOutput {Params : Type} (events : List (LogEvent Params)) : List Bytes :=
  events.filterMap written

private theorem mem_consoleOutput {Params : Type} {events : List (LogEvent Params)}
    {bytes : Bytes} (h : bytes ∈ consoleOutput events) :
    ∃ event ∈ events, event.1 = .write bytes := by
  obtain ⟨⟨question, answer⟩, hmem, hwritten⟩ := List.mem_filterMap.mp h
  refine ⟨⟨question, answer⟩, hmem, ?_⟩
  cases question <;> cases hwritten
  rfl

/-- In every interleaving, each thread makes the calls that it makes when run
alone with the same answers, in order, up to the point where it stands; the
console receives an interleaving of what the threads write, and every element
is one complete record. -/
theorem concurrent_logging_interleaves {ThreadId Params : Type} [DecidableEq ThreadId]
    (loggers : LoggerPtr → Logger) (owner : StreamId → ThreadId)
    (programs : ThreadId → List Operation)
    (howner : ∀ thread, ∀ operation ∈ programs thread, operation.OwnedBy owner thread)
    (events : List (ThreadId × LogEvent Params)) (final : System ThreadId Params)
    (hrun : Execution (System.Step loggers) (System.initial programs) events final) :
    (∀ thread, ∀ env : LogEnvironment Params,
        Program.Answers env (projection thread events) →
        ∃ later, Program.trace env (execute loggers (fun _ => none) (programs thread)) =
            projection thread events ++ later ∧
          (final.threads thread = ⟨none, []⟩ → later = [])) ∧
      IsInterleaving (consoleOutput (events.map Prod.snd))
        (fun thread => consoleOutput (projection thread events)) ∧
      ∀ bytes ∈ consoleOutput (events.map Prod.snd),
        ∃ record : LogRecord, record.Accepted ∧ record.output = bytes := by
  have hinvariant := System.Invariant.of_execution howner hrun
  refine ⟨fun thread env hanswers => ?_, isInterleaving_filterMap events written, ?_⟩
  · have hafter := hinvariant.after thread
    rw [Program.trace, Program.run_of_after hafter hanswers]
    refine ⟨_, rfl, fun hfinished => ?_⟩
    rw [hfinished]
    rfl
  · intro bytes hbytes
    obtain ⟨event, hmem, hevent⟩ := mem_consoleOutput hbytes
    obtain ⟨⟨thread, event⟩, hmem', rfl⟩ := List.mem_map.mp hmem
    have hprojection : event ∈ projection thread events :=
      List.mem_map.mpr ⟨(thread, event), by simp [hmem'], rfl⟩
    have hcomplete := (execute_writes_complete loggers (fun _ => none)
      (programs thread)).after (hinvariant.after thread) event hprojection
    rw [hevent] at hcomplete
    exact hcomplete

section

variable {ThreadId Params : Type} [DecidableEq ThreadId] {loggers : LoggerPtr → Logger}
  {system : System ThreadId Params} {states : Store StreamState} {thread : ThreadId}
  {operation : Operation} {rest : List Operation}

/-- An operation that completes no record makes no call. -/
private theorem completes (hthread : system.threads thread = ⟨none, operation :: rest⟩)
    (hrep : RepresentsStore loggers system.store states) (hcut : (operation.step states).2 = []) :
    ∃ system', Execution (System.Step loggers) system [] system' ∧
      system'.threads = Function.update system.threads thread ⟨none, rest⟩ ∧
      RepresentsStore loggers system'.store (states.apply (operation.step states).1) := by
  obtain ⟨updates, hprogram, hrep'⟩ := @Operation.program_represents _ _ _ Params operation hrep
  have hdone : (operation.program loggers system.store : LogProgram Params _) =
      .done updates := by
    rw [hprogram, hcut]
    rfl
  have hbegin := Execution.refl.silent (@System.Step.begin _ _ _ loggers _ _ _ _ hthread)
  rw [hdone] at hbegin
  have hfinish := hbegin.silent (.finish (Function.update_self ..))
  exact ⟨_, hfinish, Function.update_idem .., hrep'⟩

/-- An operation that completes a record reads the metadata, and then writes. -/
private theorem waits {record : LogicalRecord} {message : Bytes}
    (hthread : system.threads thread = ⟨none, operation :: rest⟩)
    (hrep : RepresentsStore loggers system.store states)
    (hcut : (operation.step states).2 = [record])
    (hmessage : record.submission loggers = some message) :
    ∃ system' next, Execution (System.Step loggers) system [] system' ∧
      system'.threads = Function.update system.threads thread ⟨some (.ask .read next), rest⟩ ∧
      system'.store = system.store ∧
      ∀ metadata bytes,
        (loggers record.logger).recordOf metadata record.level message = some bytes →
          ∃ updates, next (.acquired metadata) =
            .ask (.write bytes) fun _ => .done updates := by
  obtain ⟨updates, hprogram, -⟩ := @Operation.program_represents _ _ _ Params operation hrep
  rw [hcut, LogicalRecord.deliverAll_singleton] at hprogram
  unfold LogicalRecord.deliver at hprogram
  rw [hmessage] at hprogram
  have hbegin := Execution.refl.silent (@System.Step.begin _ _ _ loggers _ _ _ _ hthread)
  rw [hprogram] at hbegin
  refine ⟨_, _, hbegin, rfl, rfl, fun metadata bytes hbytes => ⟨updates, ?_⟩⟩
  simp only [hbytes]
  rfl

def logCharacter (stream : StreamId) : List Operation :=
  [.withLevel stream 0 .fatal, .insert stream (.char 65), .flush stream]

/-- A thread that logs a character comes to its first call. -/
private theorem character_waits {stream : StreamId}
    (hthread : system.threads thread = ⟨none, logCharacter stream⟩)
    (hrep : RepresentsStore loggers system.store states) (hnew : states stream = none)
    (henabled : (loggers 0).isEnabled .fatal = true) :
    ∃ system' states' next, Execution (System.Step loggers) system [] system' ∧
      system'.threads = Function.update system.threads thread ⟨some (.ask .read next), []⟩ ∧
      RepresentsStore loggers system'.store states' ∧
      (∀ other, other ≠ stream → states' other = states other) ∧
      ∀ metadata bytes, (loggers 0).recordOf metadata .fatal [65] = some bytes →
        ∃ updates, next (.acquired metadata) = .ask (.write bytes) fun _ => .done updates := by
  have hcreate : (Operation.withLevel stream 0 .fatal).step states =
      ([(stream, some (.pending ⟨0, .fatal, []⟩))], []) := by
    simp [Operation.step, hnew]
  obtain ⟨created, hcreated, hthreads₁, hrep₁⟩ := completes hthread hrep (by rw [hcreate])
  rw [hcreate] at hrep₁
  have hinsert : (Operation.insert stream (.char 65)).step
      (states.apply [(stream, some (.pending ⟨0, .fatal, []⟩))]) =
        ([(stream, some (.pending ⟨0, .fatal, [.char 65]⟩))], []) := by
    simp [Operation.step, Store.apply, StreamState.insert]
  obtain ⟨inserted, hinserted, hthreads₂, hrep₂⟩ :=
    completes (by rw [hthreads₁, Function.update_self]) hrep₁ (by rw [hinsert])
  rw [hinsert] at hrep₂
  obtain ⟨system', next, hflushed, hthreads₃, hstore, hnext⟩ :=
    @waits _ _ _ _ inserted _ thread (.flush stream) [] ⟨0, .fatal, [.char 65]⟩ [65]
      (by rw [hthreads₂, Function.update_self]) hrep₂
      (by simp [Operation.step, Store.apply, StreamState.cut])
      (by simp [LogicalRecord.submission, henabled, messageText, concatenation,
        Insertion.rendered, messageCapacity])
  refine ⟨system', _, next, (hcreated.trans hinserted).trans hflushed, ?_, hstore ▸ hrep₂, ?_,
    hnext⟩
  · rw [hthreads₃, hthreads₂, hthreads₁, Function.update_idem, Function.update_idem]
  · intro other hother
    simp [Store.apply, Function.update_of_ne hother]

/-- The calls of two threads that log a character each: both read before one of them
writes, and the one that read last writes first. -/
def crossedEvents (first second : ThreadId) (early late : RuntimeMetadata)
    (earlyRecord lateRecord : Bytes) : List (ThreadId × LogEvent Params) :=
  [(first, ⟨.read, .acquired early⟩), (second, ⟨.read, .acquired late⟩),
    (second, ⟨.write lateRecord, .success⟩), (first, ⟨.write earlyRecord, .success⟩)]

/-- Two threads can be interleaved so. -/
theorem characters_cross {programs : ThreadId → List Operation} {first second : ThreadId}
    {stream stream' : StreamId} (hne : first ≠ second) (hstreams : stream' ≠ stream)
    (hfirst : programs first = logCharacter stream)
    (hsecond : programs second = logCharacter stream')
    (henabled : (loggers 0).isEnabled .fatal = true)
    {early late : RuntimeMetadata} {earlyRecord lateRecord : Bytes}
    (hearly : (loggers 0).recordOf early .fatal [65] = some earlyRecord)
    (hlate : (loggers 0).recordOf late .fatal [65] = some lateRecord) :
    ∃ final : System ThreadId Params,
      Execution (System.Step loggers) (System.initial programs)
        (crossedEvents first second early late earlyRecord lateRecord) final ∧
      final.threads first = ⟨none, []⟩ ∧ final.threads second = ⟨none, []⟩ := by
  have hrep : RepresentsStore loggers (fun _ => none) (fun _ => none) := fun _ => .none
  obtain ⟨started, states, next, hstarted, hthreads, hrep', hstates, hnext⟩ :=
    @character_waits _ Params _ loggers (System.initial programs) _ first stream
      (by rw [← hfirst]; rfl) hrep rfl henabled
  obtain ⟨both, _, next', hboth, hthreads', -, -, hnext'⟩ :=
    @character_waits _ Params _ loggers started _ second stream'
      (by rw [hthreads, Function.update_of_ne hne.symm, ← hsecond]; rfl) hrep'
      (hstates stream' hstreams) henabled
  obtain ⟨updates, hwrite⟩ := hnext early earlyRecord hearly
  obtain ⟨updates', hwrite'⟩ := hnext' late lateRecord hlate
  have hreads := ((hstarted.trans hboth).step
    (@System.Step.call _ _ _ _ _ first .read next []
      (by rw [hthreads', Function.update_of_ne hne, hthreads, Function.update_self])
      (.acquired early))).step
    (@System.Step.call _ _ _ _ _ second .read next' []
      (by simp [hne.symm, hthreads']) (.acquired late))
  have hwrites := (hreads.step
    (@System.Step.call _ _ _ _ _ second (.write lateRecord) (fun _ => .done updates') []
      (by simp [hwrite']) .success)).step
    (@System.Step.call _ _ _ _ _ first (.write earlyRecord) (fun _ => .done updates) []
      (by simp [hne, hwrite]) .success)
  have hfinished := (hwrites.step
    (@System.Step.finish _ _ _ _ _ first updates [] (by simp))).step
    (@System.Step.finish _ _ _ _ _ second updates' [] (by simp [hne.symm]))
  exact ⟨_, hfinished, by simp [hne], by simp⟩

end

def characterRecord (thread : Bool) : LogRecord :=
  ⟨⟨0, 1, if thread then 3 else 2⟩, .fatal, ascii "c", [65]⟩

def twoCharacters : List (Bool × LogEvent Unit) :=
  crossedEvents false true (characterRecord false).metadata (characterRecord true).metadata
    (characterRecord false).output (characterRecord true).output

private theorem characterRecord_accepted (thread : Bool) : (characterRecord thread).Accepted := by
  rw [LogRecord.accepted_iff]
  cases thread <;> decide +kernel

private theorem recordOf_character (thread : Bool) :
    (⟨ascii "c", .verbose⟩ : Logger).recordOf (characterRecord thread).metadata .fatal [65] =
      some (characterRecord thread).output := by
  have haccepted := characterRecord_accepted thread
  rw [LogRecord.output_eq haccepted]
  exact if_pos ((LogRecord.accepted_iff _).mp haccepted)

/-- Two threads log one character each over one logger, and the console gets the two
records in the order in which they are written. -/
theorem concurrent_logging_interleaves_two_threads :
    ∃ final, Execution (System.Step fun _ => ⟨ascii "c", .verbose⟩)
        (System.initial fun thread : Bool => logCharacter thread.toNat) twoCharacters final ∧
      IsInterleaving [(characterRecord true).output, (characterRecord false).output]
        (fun thread => [(characterRecord thread).output]) ∧
      ∀ thread : Bool, ∀ env : LogEnvironment Unit,
        Program.Answers env [⟨.read, .acquired (characterRecord thread).metadata⟩,
          ⟨.write (characterRecord thread).output, .success⟩] →
        Program.trace env (execute (fun _ => ⟨ascii "c", .verbose⟩) (fun _ => none)
          (logCharacter thread.toNat)) =
            [⟨.read, .acquired (characterRecord thread).metadata⟩,
              ⟨.write (characterRecord thread).output, .success⟩] := by
  obtain ⟨final, hrun, hfirst, hsecond⟩ :=
    @characters_cross Bool Unit _ (fun _ => ⟨ascii "c", .verbose⟩)
      (fun thread => logCharacter thread.toNat) false true 0 1 (by decide) (by decide) rfl rfl rfl
      _ _ _ _ (recordOf_character false) (recordOf_character true)
  change Execution _ _ twoCharacters final at hrun
  have howner : ∀ thread : Bool, ∀ operation ∈ logCharacter thread.toNat,
      operation.OwnedBy (fun stream => decide (stream = 1)) thread := by
    intro thread operation hoperation
    simp only [logCharacter, List.mem_cons, List.not_mem_nil, or_false] at hoperation
    rcases hoperation with rfl | rfl | rfl <;> cases thread <;>
      simp [Operation.OwnedBy, Operation.streams]
  obtain ⟨halone, hshuffle, -⟩ := concurrent_logging_interleaves _ _ _ howner _ final hrun
  refine ⟨final, hrun, ?_, fun thread env henv => ?_⟩
  · have hparts : (fun thread => consoleOutput (projection thread twoCharacters)) =
        fun thread => [(characterRecord thread).output] := by
      funext thread
      cases thread <;> rfl
    rw [hparts] at hshuffle
    exact hshuffle
  · have hfinished : final.threads thread = ⟨none, []⟩ := by
      cases thread
      · exact hfirst
      · exact hsecond
    have hprojection : projection thread twoCharacters =
        [⟨.read, .acquired (characterRecord thread).metadata⟩,
          ⟨.write (characterRecord thread).output, .success⟩] := by
      cases thread <;> rfl
    obtain ⟨later, htrace, hlater⟩ := halone thread env (by rw [hprojection]; exact henv)
    rw [htrace, hlater hfinished, hprojection, List.append_nil]

end AdaptivePi.Log
