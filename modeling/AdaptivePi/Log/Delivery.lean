import AdaptivePi.Log.LogicalRecord

/-!
Whole runs of stream operations. A client creates, fills, flushes, moves and
destroys any number of streams; an operation that the lifetime rules of the
language exclude (on a stream that does not exist, or a second creation of one
that does) is skipped. The calls that leave the logging code in such a run are
those of its logical records, delivered one after the other.
-/

namespace AdaptivePi.Log

open Foundation

abbrev StreamId := Nat

inductive Operation where
  | withLevel (stream : StreamId) (logger : LoggerPtr) (level : LogLevel)
  | insert (stream : StreamId) (insertion : Insertion)
  | flush (stream : StreamId)
  | moveConstruct (source destination : StreamId)
  | destroy (stream : StreamId)

abbrev Store (α : Type) := StreamId → Option α

abbrev Updates (α : Type) := List (StreamId × Option α)

def Store.apply {α : Type} (store : Store α) : Updates α → Store α
  | [] => store
  | (stream, content) :: rest => Store.apply (Function.update store stream content) rest

section

variable {Params : Type} (loggers : LoggerPtr → Logger)

def Operation.program (store : Store LogStream) :
    Operation → LogProgram Params (Updates LogStream)
  | .withLevel stream logger level =>
      match store stream with
      | some _ => .done []
      | none => .done [(stream, some (.construct loggers logger level))]
  | .insert stream insertion =>
      match store stream with
      | none => .done []
      | some content => .done [(stream, some (content.insert insertion))]
  | .flush stream =>
      match store stream with
      | none => .done []
      | some content => (content.flush loggers).bind fun content' => .done [(stream, some content')]
  | .moveConstruct source destination =>
      match store source, store destination with
      | some content, none =>
          .done [(destination, some content.moveConstruct.1),
            (source, some content.moveConstruct.2)]
      | _, _ => .done []
  | .destroy stream =>
      match store stream with
      | none => .done []
      | some content => (content.destroy loggers).bind fun _ => .done [(stream, none)]

def execute (store : Store LogStream) : List Operation → LogProgram Params (Store LogStream)
  | [] => .done store
  | operation :: rest =>
      (operation.program loggers store).bind fun updates => execute (store.apply updates) rest

end

/-- What an operation does to streams as their users see them, and the records
that it completes. -/
def Operation.step (states : Store StreamState) :
    Operation → Updates StreamState × List LogicalRecord
  | .withLevel stream logger level =>
      match states stream with
      | some _ => ([], [])
      | none => ([(stream, some (.pending ⟨logger, level, []⟩))], [])
  | .insert stream insertion =>
      match states stream with
      | none => ([], [])
      | some state => ([(stream, some (state.insert insertion))], [])
  | .flush stream =>
      match states stream with
      | none => ([], [])
      | some state => ([(stream, some state.reset)], state.cut)
  | .moveConstruct source destination =>
      match states source, states destination with
      | some state, none => ([(destination, some state), (source, some .movedFrom)], [])
      | _, _ => ([], [])
  | .destroy stream =>
      match states stream with
      | none => ([], [])
      | some state => ([(stream, none)], state.cut)

/-- The logical records of a run, in the order in which they are completed. -/
def logicalRecords (states : Store StreamState) : List Operation → List LogicalRecord
  | [] => []
  | operation :: rest =>
      (operation.step states).2 ++ logicalRecords (states.apply (operation.step states).1) rest

/-- Every live stream represents the state that its users see. -/
def RepresentsStore (loggers : LoggerPtr → Logger) (store : Store LogStream)
    (states : Store StreamState) : Prop :=
  ∀ stream, Option.Rel (fun content state => state.Represents loggers content)
    (store stream) (states stream)

variable {loggers : LoggerPtr → Logger} {store : Store LogStream} {states : Store StreamState}

private theorem RepresentsStore.update (h : RepresentsStore loggers store states)
    (stream : StreamId) {content : Option LogStream} {state : Option StreamState}
    (hrel : Option.Rel (fun content state => state.Represents loggers content) content state) :
    RepresentsStore loggers (Function.update store stream content)
      (Function.update states stream state) := by
  intro other
  by_cases hsame : other = stream
  · subst hsame
    simpa using hrel
  · simpa [hsame] using h other

private theorem RepresentsStore.cases (h : RepresentsStore loggers store states)
    (stream : StreamId) :
    (store stream = none ∧ states stream = none) ∨
      ∃ content state, store stream = some content ∧ states stream = some state ∧
        state.Represents loggers content := by
  have hrel := h stream
  cases hcontent : store stream with
  | none =>
      cases hstate : states stream with
      | none => exact Or.inl ⟨rfl, rfl⟩
      | some state =>
          rw [hcontent, hstate] at hrel
          cases hrel
  | some content =>
      cases hstate : states stream with
      | none =>
          rw [hcontent, hstate] at hrel
          cases hrel
      | some state =>
          rw [hcontent, hstate] at hrel
          cases hrel with
          | some hrepresents => exact Or.inr ⟨content, state, rfl, rfl, hrepresents⟩

/-- One operation makes the calls of the records that it completes, and its
effect on the streams is the one that users see. -/
theorem Operation.program_represents {Params : Type} (operation : Operation)
    (h : RepresentsStore loggers store states) :
    ∃ updates, (operation.program loggers store : LogProgram Params (Updates LogStream)) =
        (LogicalRecord.deliverAll loggers (operation.step states).2).bind
          (fun _ => .done updates) ∧
      RepresentsStore loggers (store.apply updates)
        (states.apply (operation.step states).1) := by
  cases operation with
  | withLevel stream logger level =>
      rcases h.cases stream with ⟨hcontent, hstate⟩ | ⟨content, state, hcontent, hstate, -⟩
      · simp only [Operation.program, Operation.step, hcontent, hstate]
        exact ⟨_, rfl, h.update stream (.some (StreamState.represents_construct logger level))⟩
      · simp only [Operation.program, Operation.step, hcontent, hstate]
        exact ⟨_, rfl, h⟩
  | insert stream insertion =>
      rcases h.cases stream with ⟨hcontent, hstate⟩ | ⟨content, state, hcontent, hstate, hrep⟩
      · simp only [Operation.program, Operation.step, hcontent, hstate]
        exact ⟨_, rfl, h⟩
      · simp only [Operation.program, Operation.step, hcontent, hstate]
        exact ⟨_, rfl, h.update stream (.some (hrep.insert insertion))⟩
  | flush stream =>
      rcases h.cases stream with ⟨hcontent, hstate⟩ | ⟨content, state, hcontent, hstate, hrep⟩
      · simp only [Operation.program, Operation.step, hcontent, hstate]
        exact ⟨_, rfl, h⟩
      · simp only [Operation.program, Operation.step, hcontent, hstate, hrep.flush,
          Program.bind_assoc, Program.done_bind]
        exact ⟨_, rfl, h.update stream (.some hrep.reset)⟩
  | moveConstruct source destination =>
      rcases h.cases source with ⟨hcontent, hstate⟩ | ⟨content, state, hcontent, hstate, hrep⟩
      · simp only [Operation.program, Operation.step, hcontent, hstate]
        exact ⟨_, rfl, h⟩
      · rcases h.cases destination with
          ⟨hcontent', hstate'⟩ | ⟨content', state', hcontent', hstate', -⟩
        · simp only [Operation.program, Operation.step, hcontent, hstate, hcontent', hstate']
          obtain ⟨hdestination, hsource⟩ := hrep.moveConstruct
          exact ⟨_, rfl, (h.update destination (.some hdestination)).update source
            (.some hsource)⟩
        · simp only [Operation.program, Operation.step, hcontent, hstate, hcontent', hstate']
          exact ⟨_, rfl, h⟩
  | destroy stream =>
      rcases h.cases stream with ⟨hcontent, hstate⟩ | ⟨content, state, hcontent, hstate, hrep⟩
      · simp only [Operation.program, Operation.step, hcontent, hstate]
        exact ⟨_, rfl, h⟩
      · simp only [Operation.program, Operation.step, hcontent, hstate, LogStream.destroy,
          hrep.flush, Program.bind_assoc, Program.done_bind]
        exact ⟨_, rfl, h.update stream .none⟩

/-- A run makes the calls of its logical records. -/
theorem execute_represents {Params : Type} (operations : List Operation)
    (h : RepresentsStore loggers store states) :
    ∃ store', (execute loggers store operations : LogProgram Params (Store LogStream)) =
      (LogicalRecord.deliverAll loggers (logicalRecords states operations)).bind
        fun _ => .done store' := by
  induction operations generalizing store states with
  | nil => exact ⟨store, rfl⟩
  | cons operation rest ih =>
      obtain ⟨updates, hprogram, hrep⟩ :=
        @Operation.program_represents loggers store states Params operation h
      obtain ⟨store', hrest⟩ := ih hrep
      refine ⟨store', ?_⟩
      simp only [execute, hprogram, Program.bind_assoc, Program.done_bind, hrest,
        logicalRecords, LogicalRecord.deliverAll_append]

/-- The calls that logical records cause in an environment: those of a delivery
for each record that is submitted. -/
def deliveries {Params : Type} (loggers : LoggerPtr → Logger) (env : LogEnvironment Params) :
    List (LogEvent Params) → List LogicalRecord → List (LogEvent Params)
  | _, [] => []
  | history, record :: rest =>
      match record.submission loggers with
      | none => deliveries loggers env history rest
      | some message =>
          let calls := (loggers record.logger).deliveryCalls env history record.level message
          calls ++ deliveries loggers env (history ++ calls) rest

/-- Delivering records causes the calls that are specified. -/
theorem run_deliverAll {Params : Type} (env : LogEnvironment Params)
    (history : List (LogEvent Params)) (records : List LogicalRecord) :
    (Program.run env history (LogicalRecord.deliverAll loggers records)).2 =
      deliveries loggers env history records := by
  induction records generalizing history with
  | nil => rfl
  | cons record rest ih =>
      simp only [LogicalRecord.deliverAll, Program.run_bind, ih, deliveries,
        LogicalRecord.deliver]
      cases record.submission loggers with
      | none => simp
      | some message => simp only [Logger.run_deliver]

/-- From no stream at all, every run of operations makes exactly the calls of
its logical records, in order and in every environment. -/
theorem execute_delivers_exactly {Params : Type} (loggers : LoggerPtr → Logger)
    (env : LogEnvironment Params) (operations : List Operation) :
    Program.trace env (execute loggers (fun _ => none) operations) =
      deliveries loggers env [] (logicalRecords (fun _ => none) operations) := by
  have hempty : RepresentsStore loggers (fun _ => none) (fun _ => none) := fun _ => .none
  obtain ⟨store', hrun⟩ := execute_represents operations hempty
  rw [hrun, Program.trace, Program.run_bind]
  simp [run_deliverAll]

end AdaptivePi.Log
