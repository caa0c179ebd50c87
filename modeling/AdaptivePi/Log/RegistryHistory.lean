import AdaptivePi.Log.RegistrySpec
import Mathlib.Data.List.Nodup

namespace AdaptivePi.Log.RegistrySpec

open Foundation

variable {ThreadId : Type}

def Registered (events : List (RegistryEvent ThreadId)) (entry : RegistryEntry) : Prop :=
  ∃ thread call, call.entry entry.logger = entry ∧
    .returned thread (.register call) (.value entry.logger) ∈ events

/-- A successful call has the logger that it published, a failed one the
error. Only an undefined threshold terminates. -/
def RegisterAnswer (published : List RegistryEntry) (call : RegisterCall) :
    Option RegistryAnswer → Prop
  | some answer =>
      (call.Succeeds ∧ ∃ logger, answer = .value logger ∧ call.entry logger ∈ published) ∨
        (¬call.Succeeds ∧ answer = .operationFailed)
  | none => Registry.definedThreshold call.threshold = false

def endEvent (thread : ThreadId) (call : RegistryCall) :
    Option RegistryAnswer → RegistryEvent ThreadId
  | some answer => .returned thread call answer
  | none => .terminated thread call

def eventThread : RegistryEvent ThreadId → ThreadId
  | .called thread _ => thread
  | .returned thread _ _ => thread
  | .terminated thread _ => thread

theorem eventThread_endEvent (thread : ThreadId) (call : RegistryCall)
    (answer : Option RegistryAnswer) : eventThread (endEvent thread call answer) = thread := by
  cases answer with
  | none => rfl
  | some answer => rfl

theorem endEvent_inj {thread thread' : ThreadId} {call call' : RegistryCall}
    {answer answer' : Option RegistryAnswer}
    (h : endEvent thread call answer = endEvent thread' call' answer') :
    thread = thread' ∧ call = call' ∧ answer = answer' := by
  cases answer with
  | none =>
      cases answer' with
      | none =>
          cases h
          exact ⟨rfl, rfl, rfl⟩
      | some answer' => cases h
  | some answer =>
      cases answer' with
      | none => cases h
      | some answer' =>
          cases h
          exact ⟨rfl, rfl, rfl⟩

/-- The published loggers that a lookup with this answer has seen: all that
were registered before it was called, and none that is not published now. -/
def Seen (published : List RegistryEntry) (before : List (RegistryEvent ThreadId))
    (call : FindCall) (answer : Option RegistryAnswer) : Prop :=
  ∃ seen, seen <:+ published ∧ (∀ entry, Registered before entry → entry ∈ seen) ∧
    answer = findAnswer seen call

theorem Seen.mono {published published' : List RegistryEntry}
    {before : List (RegistryEvent ThreadId)} {call : FindCall} {answer : Option RegistryAnswer}
    (h : Seen published before call answer) (hsuffix : published <:+ published') :
    Seen published' before call answer := by
  obtain ⟨seen, hseen, hall, hanswer⟩ := h
  exact ⟨seen, hseen.trans hsuffix, hall, hanswer⟩

theorem RegisterAnswer.mono {published published' : List RegistryEntry} {call : RegisterCall}
    {answer : Option RegistryAnswer} (h : RegisterAnswer published call answer)
    (hsuffix : published <:+ published') : RegisterAnswer published' call answer := by
  cases answer with
  | none => exact h
  | some answer =>
      rcases h with ⟨hsucceeds, logger, hanswer, hmem⟩ | h
      · exact Or.inl ⟨hsucceeds, logger, hanswer, hsuffix.subset hmem⟩
      · exact Or.inr h

/-- Loggers are published in front of those that are there. -/
theorem Effect.suffix {published published' : List RegistryEntry} {call : RegistryCall}
    {answer : Option RegistryAnswer} (h : Effect published call published' answer) :
    published <:+ published' := by
  cases h with
  | register => exact List.suffix_cons _ _
  | registerFailed => exact List.suffix_rfl
  | registerUndefined => exact List.suffix_rfl
  | find => exact List.suffix_rfl

theorem Effect.registerAnswer {published published' : List RegistryEntry} {call : RegisterCall}
    {answer : Option RegistryAnswer} (h : Effect published (.register call) published' answer) :
    RegisterAnswer published' call answer := by
  cases h with
  | register _ hsucceeds logger => exact Or.inl ⟨hsucceeds, logger, rfl, List.mem_cons_self⟩
  | registerFailed _ hfails => exact Or.inr ⟨hfails, rfl⟩
  | registerUndefined hundefined => exact hundefined

theorem Effect.find_eq {published published' : List RegistryEntry} {call : FindCall}
    {answer : Option RegistryAnswer} (h : Effect published (.find call) published' answer) :
    answer = findAnswer published call := by
  cases h
  rfl

theorem Effect.published_eq {published published' : List RegistryEntry} {call : RegistryCall}
    {answer : Option RegistryAnswer} (h : Effect published call published' answer) :
    published' = published ∨ ∃ registration logger, call = .register registration ∧
      published' = registration.entry logger :: published := by
  cases h with
  | register _ _ logger => exact Or.inr ⟨_, logger, rfl, rfl⟩
  | registerFailed => exact Or.inl rfl
  | registerUndefined => exact Or.inl rfl
  | find => exact Or.inl rfl

/-- What a history and the state after it have to do with each other. -/
structure History (events : List (RegistryEvent ThreadId)) (state : State ThreadId) : Prop where
  register_done : ∀ thread call answer,
    state.threads thread = .done (.register call) answer →
      RegisterAnswer state.published call answer
  register_ended : ∀ thread call answer,
    endEvent thread (.register call) answer ∈ events → RegisterAnswer state.published call answer
  find_running : ∀ before thread call middle,
    events = before ++ .called thread (.find call) :: middle →
    (∀ event ∈ middle, eventThread event ≠ thread) →
      state.threads thread = .pending (.find call) ∨
        ∃ answer, state.threads thread = .done (.find call) answer ∧
          Seen state.published before call answer
  find_ended : ∀ before thread call middle event after,
    events = before ++ .called thread (.find call) :: (middle ++ event :: after) →
    (∀ other ∈ middle, eventThread other ≠ thread) → eventThread event = thread →
      ∃ answer, event = endEvent thread (.find call) answer ∧
        Seen state.published before call answer

theorem Registered.mem_published {events : List (RegistryEvent ThreadId)}
    {state : State ThreadId} (h : History events state) {entry : RegistryEntry}
    (hentry : Registered events entry) : entry ∈ state.published := by
  obtain ⟨thread, call, hcall, hmem⟩ := hentry
  rcases h.register_ended thread call (some _) hmem with ⟨-, logger, hlogger, hpublished⟩ | ⟨-, h⟩
  · cases hlogger
    rwa [hcall] at hpublished
  · cases h

theorem history_initial : History ([] : List (RegistryEvent ThreadId)) initial := by
  refine ⟨?_, ?_, ?_, ?_⟩
  · intro thread call answer h
    cases h
  · intro thread call answer h
    cases h
  · intro before thread call middle h
    simp at h
  · intro before thread call middle event after h
    simp at h

/-- What a step does to the thread that makes it. -/
def Moves (state state' : State ThreadId) (event : Option (RegistryEvent ThreadId))
    (thread : ThreadId) : Prop :=
  (∃ call, event = some (.called thread call) ∧ state.threads thread = .idle ∧
      state'.threads thread = .pending call ∧ state'.published = state.published) ∨
    (∃ call answer, event = none ∧ state.threads thread = .pending call ∧
      state'.threads thread = .done call answer ∧
      Effect state.published call state'.published answer) ∨
    ∃ call answer, event = some (endEvent thread call answer) ∧
      state.threads thread = .done call answer ∧
      (state'.threads thread = .idle ∨ state'.threads thread = .done call answer) ∧
      state'.published = state.published

variable {state state' : State ThreadId} {event : Option (RegistryEvent ThreadId)}
  {thread : ThreadId} {events : List (RegistryEvent ThreadId)}

theorem Moves.suffix (h : Moves state state' event thread) :
    state.published <:+ state'.published := by
  rcases h with ⟨_, -, -, -, hpublished⟩ | ⟨_, _, -, -, -, heffect⟩ | ⟨_, _, -, -, -, hpublished⟩
  · exact ⟨[], hpublished.symm⟩
  · exact heffect.suffix
  · exact ⟨[], hpublished.symm⟩

theorem Moves.eventThread_eq (h : Moves state state' event thread)
    {visible : RegistryEvent ThreadId} (hvisible : event = some visible) :
    eventThread visible = thread := by
  rcases h with ⟨_, hevent, -⟩ | ⟨_, _, hevent, -⟩ | ⟨_, _, hevent, -⟩
  · cases hvisible.symm.trans hevent
    rfl
  · cases hvisible.symm.trans hevent
  · cases hvisible.symm.trans hevent
    exact eventThread_endEvent ..

/-- A lookup that has been called and has not ended is pending or done. -/
private theorem History.find_running_step (h : History events state)
    (hothers : ∀ other, other ≠ thread → state'.threads other = state.threads other)
    (hmoves : Moves state state' event thread)
    {before middle : List (RegistryEvent ThreadId)} {finder : ThreadId} {call : FindCall}
    (hevents : events ++ event.toList = before ++ .called finder (.find call) :: middle)
    (hmiddle : ∀ event ∈ middle, eventThread event ≠ finder) :
    state'.threads finder = .pending (.find call) ∨
      ∃ answer, state'.threads finder = .done (.find call) answer ∧
        Seen state'.published before call answer := by
  have hother : ∀ middle', events = before ++ .called finder (.find call) :: middle' →
      (∀ event ∈ middle', eventThread event ≠ finder) → finder ≠ thread →
      state'.threads finder = .pending (.find call) ∨
        ∃ answer, state'.threads finder = .done (.find call) answer ∧
          Seen state'.published before call answer := by
    intro middle' hevents' hmiddle' hne
    rw [hothers finder hne]
    rcases h.find_running before finder call middle' hevents' hmiddle' with
      hpending | ⟨answer, hdone, hseen⟩
    · exact Or.inl hpending
    · exact Or.inr ⟨answer, hdone, hseen.mono hmoves.suffix⟩
  cases event with
  | none =>
      rw [Option.toList_none, List.append_nil] at hevents
      by_cases hfinder : finder = thread
      · subst hfinder
        rcases hmoves with ⟨_, hevent, -⟩ | ⟨_, answer, -, hpending, hdone, heffect⟩ |
          ⟨_, _, hevent, -⟩
        · cases hevent
        · rcases h.find_running before finder call middle hevents hmiddle with
            hpending' | ⟨answer', hdone', -⟩
          · cases hpending.symm.trans hpending'
            refine Or.inr ⟨answer, hdone, state.published, heffect.suffix, ?_, heffect.find_eq⟩
            rintro entry ⟨caller, registration, hentry, hmem⟩
            refine Registered.mem_published h ⟨caller, registration, hentry, ?_⟩
            rw [hevents]
            exact List.mem_append_left _ hmem
          · cases hpending.symm.trans hdone'
        · cases hevent
      · exact hother middle hevents hmiddle hfinder
  | some visible =>
      rw [Option.toList_some] at hevents
      rcases List.eq_nil_or_concat middle with rfl | ⟨init, last, rfl⟩
      · obtain ⟨-, hlast⟩ := List.append_inj' hevents rfl
        rw [List.cons.injEq] at hlast
        have hfinder : finder = thread := by
          rw [← hmoves.eventThread_eq rfl, hlast.1]
          rfl
        subst hfinder
        rcases hmoves with ⟨_, hevent, -, hpending, -⟩ | ⟨_, _, hevent, -⟩ | ⟨_, answer, hevent, -⟩
        · rw [hlast.1] at hevent
          cases hevent
          exact Or.inl hpending
        · cases hevent
        · rw [hlast.1] at hevent
          cases answer <;> cases hevent
      · rw [List.concat_eq_append, ← List.cons_append, ← List.append_assoc] at hevents
        obtain ⟨hinit, hlast⟩ := List.append_inj' hevents rfl
        rw [List.cons.injEq] at hlast
        refine hother init hinit (fun event hevent => hmiddle event (by simp [hevent])) ?_
        rw [← hmoves.eventThread_eq rfl, hlast.1]
        exact (hmiddle last (by simp)).symm

/-- A lookup ends with the answer that it has from the loggers it has seen. -/
private theorem History.find_ended_step (h : History events state)
    (hmoves : Moves state state' event thread)
    {before middle after : List (RegistryEvent ThreadId)} {finder : ThreadId} {call : FindCall}
    {last : RegistryEvent ThreadId}
    (hevents : events ++ event.toList =
      before ++ .called finder (.find call) :: (middle ++ last :: after))
    (hmiddle : ∀ event ∈ middle, eventThread event ≠ finder) (hlast : eventThread last = finder) :
    ∃ answer, last = endEvent finder (.find call) answer ∧
      Seen state'.published before call answer := by
  have hearlier : ∀ after', events =
      before ++ .called finder (.find call) :: (middle ++ last :: after') →
      ∃ answer, last = endEvent finder (.find call) answer ∧
        Seen state'.published before call answer := by
    intro after' hevents'
    obtain ⟨answer, hanswer, hseen⟩ :=
      h.find_ended before finder call middle last after' hevents' hmiddle hlast
    exact ⟨answer, hanswer, hseen.mono hmoves.suffix⟩
  cases event with
  | none =>
      rw [Option.toList_none, List.append_nil] at hevents
      exact hearlier after hevents
  | some visible =>
      rw [Option.toList_some] at hevents
      rcases List.eq_nil_or_concat after with rfl | ⟨init, final, rfl⟩
      · rw [← List.cons_append, ← List.append_assoc] at hevents
        obtain ⟨hinit, hvisible⟩ := List.append_inj' hevents rfl
        rw [List.cons.injEq] at hvisible
        obtain rfl := hvisible.1
        have hfinder := hmoves.eventThread_eq rfl
        rw [hlast] at hfinder
        subst hfinder
        have hrunning := h.find_running before finder call middle hinit hmiddle
        rcases hmoves with ⟨_, -, hidle, -⟩ | ⟨_, _, hevent, -⟩ |
          ⟨_, answer, hevent, hdone, -, hpublished⟩
        · rcases hrunning with hpending | ⟨answer, hdone, -⟩
          · cases hidle.symm.trans hpending
          · cases hidle.symm.trans hdone
        · cases hevent
        · rw [hpublished]
          rcases hrunning with hpending | ⟨answer', hdone', hseen⟩
          · cases hdone.symm.trans hpending
          · cases hdone.symm.trans hdone'
            exact ⟨answer, Option.some.inj hevent, hseen⟩
      · rw [List.concat_eq_append, ← List.cons_append, ← List.append_assoc, ← List.cons_append,
          ← List.append_assoc] at hevents
        obtain ⟨hinit, -⟩ := List.append_inj' hevents rfl
        exact hearlier init (by rw [hinit, List.append_assoc, List.cons_append])

variable [DecidableEq ThreadId]

/-- A step is one of a thread, and the others stay where they are. -/
theorem Step.moves (hstep : Step state event state') :
    ∃ thread, (∀ other, other ≠ thread → state'.threads other = state.threads other) ∧
      Moves state state' event thread := by
  obtain ⟨-, thread, hthread⟩ := hstep
  obtain ⟨status, hstatus⟩ : ∃ status, status = state.threads thread := ⟨_, rfl⟩
  rw [← hstatus] at hthread
  refine ⟨thread, ?_⟩
  cases hthread with
  | call call =>
      refine ⟨fun other hother => Function.update_of_ne hother .., Or.inl ?_⟩
      exact ⟨call, rfl, hstatus.symm, Function.update_self .., rfl⟩
  | effect heffect =>
      refine ⟨fun other hother => Function.update_of_ne hother .., Or.inr (Or.inl ?_)⟩
      exact ⟨_, _, rfl, hstatus.symm, Function.update_self .., heffect⟩
  | respond =>
      refine ⟨fun other hother => Function.update_of_ne hother .., Or.inr (Or.inr ?_)⟩
      exact ⟨_, some _, rfl, hstatus.symm, Or.inl (Function.update_self ..), rfl⟩
  | terminate =>
      refine ⟨fun other _ => rfl, Or.inr (Or.inr ?_)⟩
      exact ⟨_, none, rfl, hstatus.symm, Or.inr hstatus.symm, rfl⟩

theorem History.step (h : History events state) (hstep : Step state event state') :
    History (events ++ event.toList) state' := by
  obtain ⟨thread, hothers, hmoves⟩ := hstep.moves
  refine ⟨?_, ?_, ?_, ?_⟩
  · intro caller call answer hdone
    by_cases hcaller : caller = thread
    · subst hcaller
      rcases hmoves with ⟨_, -, -, hpending, -⟩ | ⟨_, _, -, -, hdone', heffect⟩ |
        ⟨_, _, -, hdone', hnext, hpublished⟩
      · cases hdone.symm.trans hpending
      · cases hdone.symm.trans hdone'
        exact heffect.registerAnswer
      · rcases hnext with hidle | hsame
        · cases hdone.symm.trans hidle
        · cases hdone.symm.trans hsame
          rw [hpublished]
          exact h.register_done caller call answer hdone'
    · rw [hothers caller hcaller] at hdone
      exact (h.register_done caller call answer hdone).mono hmoves.suffix
  · intro caller call answer hmem
    rcases List.mem_append.mp hmem with hearlier | hlast
    · exact (h.register_ended caller call answer hearlier).mono hmoves.suffix
    · have hevent := Option.mem_toList.mp hlast
      rcases hmoves with ⟨_, hevent', -⟩ | ⟨_, _, hevent', -⟩ |
        ⟨_, _, hevent', hdone, -, hpublished⟩
      · rw [hevent'] at hevent
        cases answer <;> cases hevent
      · rw [hevent'] at hevent
        cases hevent
      · rw [hevent', Option.some.injEq] at hevent
        obtain ⟨rfl, rfl, rfl⟩ := endEvent_inj hevent
        rw [hpublished]
        exact h.register_done _ call _ hdone
  · intro before finder call middle hevents hmiddle
    exact h.find_running_step hothers hmoves hevents hmiddle
  · intro before finder call middle last after hevents hmiddle hlast
    exact h.find_ended_step hmoves hevents hmiddle hlast

/-- Every run has its history. -/
theorem history (hrun : Execution Step initial events state) : History events state :=
  hrun.invariant history_initial fun _ _ _ _ h hstep => h.step hstep

def registeredIds (events : List (RegistryEvent ThreadId)) : List Bytes :=
  events.filterMap fun
    | .called _ (.register call) => some call.contextId
    | _ => none

/-- No ID is published twice, or is about to be. -/
structure DistinctIds (events : List (RegistryEvent ThreadId)) (state : State ThreadId) :
    Prop where
  published_mem : ∀ entry ∈ state.published, entry.contextId ∈ registeredIds events
  published_nodup : (state.published.map RegistryEntry.contextId).Nodup
  pending_mem : ∀ thread call, state.threads thread = .pending (.register call) →
    call.contextId ∈ registeredIds events
  pending_new : ∀ thread call, state.threads thread = .pending (.register call) →
    call.contextId ∉ state.published.map RegistryEntry.contextId
  pending_distinct : ∀ thread thread' call call', thread ≠ thread' →
    state.threads thread = .pending (.register call) →
    state.threads thread' = .pending (.register call') → call.contextId ≠ call'.contextId

omit [DecidableEq ThreadId] in
theorem distinctIds_initial : DistinctIds ([] : List (RegistryEvent ThreadId)) initial := by
  refine ⟨by simp [initial], List.nodup_nil, ?_, ?_, ?_⟩
  · intro thread call h
    cases h
  · intro thread call h
    cases h
  · intro thread thread' call call' _ h
    cases h

omit [DecidableEq ThreadId] in
/-- Threads that are no longer pending, with the same loggers published. -/
private theorem DistinctIds.keep (h : DistinctIds events state)
    (hpending : ∀ thread call, state'.threads thread = .pending (.register call) →
      state.threads thread = .pending (.register call))
    (hpublished : state'.published = state.published) : DistinctIds events state' := by
  refine ⟨?_, ?_, ?_, ?_, ?_⟩
  · rw [hpublished]
    exact h.published_mem
  · rw [hpublished]
    exact h.published_nodup
  · intro thread call hthread
    exact h.pending_mem thread call (hpending thread call hthread)
  · intro thread call hthread
    rw [hpublished]
    exact h.pending_new thread call (hpending thread call hthread)
  · intro thread thread' call call' hne hthread hthread'
    exact h.pending_distinct thread thread' call call' hne (hpending thread call hthread)
      (hpending thread' call' hthread')

omit [DecidableEq ThreadId] in
private theorem DistinctIds.called (h : DistinctIds events state) {call : RegistryCall}
    (hothers : ∀ other, other ≠ thread → state'.threads other = state.threads other)
    (hthread : state'.threads thread = .pending call)
    (hpublished : state'.published = state.published)
    (hnodup : (registeredIds (events ++ [.called thread call])).Nodup) :
    DistinctIds (events ++ [.called thread call]) state' := by
  have happend : registeredIds (events ++ [.called thread call]) =
      registeredIds events ++ registeredIds [.called thread call] := List.filterMap_append ..
  rw [happend] at hnodup
  have hold : ∀ other registration, other ≠ thread →
      state'.threads other = .pending (.register registration) →
      state.threads other = .pending (.register registration) := by
    intro other registration hother hpending
    rwa [hothers other hother] at hpending
  have hnew : ∀ registration, state'.threads thread = .pending (.register registration) →
      registration.contextId ∉ registeredIds events ∧
        registeredIds [.called thread call] = [registration.contextId] := by
    intro registration hpending
    cases hthread.symm.trans hpending
    refine ⟨fun hmem => ?_, rfl⟩
    exact (List.nodup_append.mp hnodup).2.2 _ hmem _ (List.mem_singleton_self _) rfl
  refine ⟨?_, ?_, ?_, ?_, ?_⟩
  · intro entry hentry
    rw [hpublished] at hentry
    rw [happend]
    exact List.mem_append_left _ (h.published_mem entry hentry)
  · rw [hpublished]
    exact h.published_nodup
  · intro other registration hpending
    rw [happend, List.mem_append]
    by_cases hother : other = thread
    · subst hother
      rw [(hnew registration hpending).2]
      exact Or.inr (List.mem_singleton_self _)
    · exact Or.inl (h.pending_mem other registration (hold other registration hother hpending))
  · intro other registration hpending
    rw [hpublished]
    by_cases hother : other = thread
    · subst hother
      intro hmem
      obtain ⟨entry, hentry, hid⟩ := List.mem_map.mp hmem
      exact (hnew registration hpending).1 (hid ▸ h.published_mem entry hentry)
    · exact h.pending_new other registration (hold other registration hother hpending)
  · intro other other' registration registration' hne hpending hpending'
    by_cases hother : other = thread
    · subst hother
      intro hid
      refine (hnew registration hpending).1 ?_
      rw [hid]
      exact h.pending_mem other' registration' (hold other' registration' hne.symm hpending')
    · by_cases hother' : other' = thread
      · subst hother'
        intro hid
        refine (hnew registration' hpending').1 ?_
        rw [← hid]
        exact h.pending_mem other registration (hold other registration hother hpending)
      · exact h.pending_distinct other other' registration registration' hne
          (hold other registration hother hpending)
          (hold other' registration' hother' hpending')

omit [DecidableEq ThreadId] in
private theorem DistinctIds.published (h : DistinctIds events state) {call : RegisterCall}
    {logger : LoggerPtr}
    (hothers : ∀ other, other ≠ thread → state'.threads other = state.threads other)
    (hpending : state.threads thread = .pending (.register call))
    (hdone : ∀ registration, state'.threads thread ≠ .pending registration)
    (hpublished : state'.published = call.entry logger :: state.published) :
    DistinctIds events state' := by
  have hold : ∀ other registration, state'.threads other = .pending (.register registration) →
      other ≠ thread ∧ state.threads other = .pending (.register registration) := by
    intro other registration hother
    have hne : other ≠ thread := by
      rintro rfl
      exact hdone _ hother
    exact ⟨hne, hothers other hne ▸ hother⟩
  refine ⟨?_, ?_, ?_, ?_, ?_⟩
  · intro entry hentry
    rw [hpublished] at hentry
    rcases List.mem_cons.mp hentry with rfl | hmem
    · exact h.pending_mem thread call hpending
    · exact h.published_mem entry hmem
  · rw [hpublished]
    exact List.nodup_cons.mpr ⟨h.pending_new thread call hpending, h.published_nodup⟩
  · intro other registration hother
    exact h.pending_mem other registration (hold other registration hother).2
  · intro other registration hother
    obtain ⟨hne, hother⟩ := hold other registration hother
    rw [hpublished, List.map_cons, List.mem_cons, not_or]
    exact ⟨h.pending_distinct other thread registration call hne hother hpending,
      h.pending_new other registration hother⟩
  · intro other other' registration registration' hne hother hother'
    exact h.pending_distinct other other' registration registration' hne
      (hold other registration hother).2 (hold other' registration' hother').2

/-- No step publishes an ID for the second time. -/
theorem DistinctIds.step (h : DistinctIds events state) (hstep : Step state event state')
    (hnodup : (registeredIds (events ++ event.toList)).Nodup) :
    DistinctIds (events ++ event.toList) state' := by
  obtain ⟨thread, hothers, hmoves⟩ := hstep.moves
  have hkeep : (∀ call, state'.threads thread ≠ .pending call) →
      state'.published = state.published → DistinctIds events state' := by
    intro hthread hpublished
    refine h.keep (fun other call hother => ?_) hpublished
    by_cases hne : other = thread
    · subst hne
      exact absurd hother (hthread _)
    · rwa [hothers other hne] at hother
  rcases hmoves with ⟨call, rfl, -, hpending, hpublished⟩ | ⟨call, answer, rfl, hpending, hdone,
    heffect⟩ | ⟨call, answer, rfl, -, hnext, hpublished⟩
  · exact h.called hothers hpending hpublished hnodup
  · rw [Option.toList_none, List.append_nil]
    rcases heffect.published_eq with hpublished | ⟨registration, logger, rfl, hpublished⟩
    · exact hkeep (by simp [hdone]) hpublished
    · exact h.published hothers hpending (by simp [hdone]) hpublished
  · have hids : registeredIds (events ++ [endEvent thread call answer]) = registeredIds events := by
      cases answer <;> simp [registeredIds, endEvent]
    have hdistinct := hkeep (by rcases hnext with hnext | hnext <;> simp [hnext]) hpublished
    rw [Option.toList_some]
    refine ⟨?_, hdistinct.published_nodup, ?_, hdistinct.pending_new, hdistinct.pending_distinct⟩
    · rw [hids]
      exact hdistinct.published_mem
    · rw [hids]
      exact hdistinct.pending_mem

/-- If no ID is registered twice, none is published twice. -/
theorem distinctIds (hrun : Execution Step initial events state)
    (hnodup : (registeredIds events).Nodup) : DistinctIds events state := by
  refine hrun.invariant (I := fun events state => (registeredIds events).Nodup →
    DistinctIds events state) (fun _ => distinctIds_initial) ?_ hnodup
  intro events state event state' h hstep hnodup
  have hsplit : registeredIds (events ++ event.toList) =
      registeredIds events ++ registeredIds event.toList := List.filterMap_append ..
  have hearlier : (registeredIds events).Nodup := (List.nodup_append.mp (hsplit ▸ hnodup)).1
  exact (h hearlier).step hstep hnodup

omit [DecidableEq ThreadId] in
/-- With distinct IDs, a lookup that has seen a logger finds it by its own
properties. -/
theorem findAnswer_of_mem {published seen : List RegistryEntry} {entry : RegistryEntry}
    {call : FindCall} (hnodup : (published.map RegistryEntry.contextId).Nodup)
    (hseen : seen <:+ published) (hentry : entry ∈ seen) (hlocked : call.locked = true)
    (hid : entry.contextId = call.contextId) (hdescription : entry.description = call.description)
    (hthreshold : entry.threshold = call.threshold) :
    findAnswer seen call = some (.found entry.logger) := by
  have hnodup' := hnodup.sublist (hseen.sublist.map _)
  have hfind : seen.find? (·.contextId = call.contextId) = some entry := by
    obtain ⟨found, hfound⟩ : ∃ found, seen.find? (·.contextId = call.contextId) = some found := by
      apply Option.isSome_iff_exists.mp
      rw [List.find?_isSome]
      exact ⟨entry, hentry, by simpa using hid⟩
    have hfoundId : found.contextId = call.contextId := by simpa using List.find?_some hfound
    rw [hfound, List.inj_on_of_nodup_map hnodup' (List.mem_of_find?_eq_some hfound) hentry
      (hfoundId.trans hid.symm)]
  simp [findAnswer, hlocked, hfind, hdescription, hthreshold]

end AdaptivePi.Log.RegistrySpec
