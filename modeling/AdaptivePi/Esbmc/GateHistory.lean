import AdaptivePi.Esbmc.Fingerprint
import Mathlib.Data.List.Forall2
import Mathlib.Data.List.Induction

/-!
Histories of runs that share cached results. Every cached result comes from a
proof that an earlier run executed and passed, under a path that determines its
fingerprint, and so a result is reused only for the inputs it was obtained with.
-/

namespace AdaptivePi.Esbmc

open Foundation

namespace GateRun

variable (cmake : CMake) (run : GateRun)

def hashedTexts : List Text :=
  match run.manifest.cacheDirectory with
  | none => []
  | some _ =>
      hashedForInputs cmake.sha256 run.start (run.manifest.shared cmake) ++
        run.manifest.proofs.flatMap fun settings =>
          hashedForInputs cmake.sha256 (run.during settings.name)
              (settings.tracked (run.during settings.name)) ++
            [settings.fingerprintContent (run.sharedDigest cmake) (run.inputDigest cmake settings)]

def resultPath (settings : ProofSettings) : Option Text :=
  run.manifest.cacheDirectory.map fun directory =>
    cachedLog directory settings.name (run.fingerprint cmake settings)

/-- The checker has been executed with result 0, and has printed the line. -/
def Passes (name : ProofName) (execution : Option CheckerResult) : Prop :=
  execution = some (run.checker name) ∧ (run.checker name).result = "0".toList ∧
    (verificationSuccessful ∈ (run.checker name).output.splitOnP isBreak ∨
      verificationSuccessful ∈ (run.checker name).error.splitOnP isBreak)

/-- A record of a proof, in a run that has found `cache`. -/
structure Judged (cache : Cache) (settings : ProofSettings) (record : ProofRecord) : Prop where
  name : record.name = settings.name
  passed : record.verdict = .passed → run.Passes settings.name record.execution
  reused : record.verdict = .reused →
    ∃ path, run.resultPath cmake settings = some path ∧ (cache path).isSome = true

/-- One of the proofs has passed, and its result belongs under the path. -/
def PassedAt (proofs : List ProofSettings) (records : List ProofRecord) (path : Text) : Prop :=
  ∃ settings record, (settings, record) ∈ proofs.zip records ∧ record.verdict = .passed ∧
    run.resultPath cmake settings = some path

/-- What the loop keeps true after the proofs `done`. -/
structure LoopInvariant (cache : Cache) (done : List ProofSettings) (loop : Loop) : Prop where
  records : List.Forall₂ (run.Judged cmake cache) done loop.records
  failures : loop.failures = [] ↔ ∀ record ∈ loop.records, record.verdict ≠ .failed
  cache : ∀ path, (loop.cache path).isSome = true →
    (cache path).isSome = true ∨ run.PassedAt cmake done loop.records path

variable {cmake run}

/-- A success is result 0 and a whole line, in either stream. -/
theorem succeeded_iff (checker : CheckerResult) :
    checker.succeeded = true ↔ checker.result = "0".toList ∧
      (verificationSuccessful ∈ checker.output.splitOnP isBreak ∨
        verificationSuccessful ∈ checker.error.splitOnP isBreak) := by
  have hnewline : ∀ text : Text, "\n".toList ++ text = '\n' :: text := fun _ => rfl
  rw [CheckerResult.succeeded, Bool.and_eq_true, beq_iff_eq, List.append_assoc, hnewline,
    hasLine_append_newline, hasLine_iff, hasLine_iff]

/-- An execution appends a record that tells whether the checker succeeded. -/
theorem execute_cases (settings : ProofSettings) (fingerprint : Text) (path : Option Text)
    (loop : Loop) :
    ∃ record : ProofRecord, record.name = settings.name ∧
      (run.execute settings fingerprint path loop).records = loop.records ++ [record] ∧
      ((record.verdict = .passed ∧ run.Passes settings.name record.execution ∧
          (run.execute settings fingerprint path loop).failures = loop.failures ∧
          ∀ other, ((run.execute settings fingerprint path loop).cache other).isSome = true →
            (loop.cache other).isSome = true ∨ path = some other) ∨
        (record.verdict = .failed ∧
          (run.execute settings fingerprint path loop).failures =
            loop.failures ++ [settings.name] ∧
          (run.execute settings fingerprint path loop).cache = loop.cache)) := by
  unfold execute
  dsimp only
  cases hsucceeded : (run.checker settings.name).succeeded with
  | true =>
      refine ⟨_, rfl, rfl, .inl ⟨rfl, ⟨rfl, (succeeded_iff _).mp hsucceeded⟩, rfl, ?_⟩⟩
      intro other hother
      cases path with
      | none => exact .inl hother
      | some path =>
          by_cases heq : other = path
          · exact .inr (congrArg some heq.symm)
          · refine .inl ?_
            rw [if_pos rfl] at hother
            dsimp only at hother
            rwa [if_neg heq] at hother
  | false =>
      exact ⟨_, rfl, rfl, .inr ⟨rfl, rfl, rfl⟩⟩

/-- A proof is executed, or its cached result is reused. -/
theorem proofStep_cases (loop : Loop) (settings : ProofSettings) :
    (∃ fingerprint, run.proofStep cmake loop settings =
      run.execute settings fingerprint (run.resultPath cmake settings) loop) ∨
    (∃ record : ProofRecord, record.name = settings.name ∧ record.verdict = .reused ∧
      run.proofStep cmake loop settings = { loop with records := loop.records ++ [record] } ∧
      ∃ path, run.resultPath cmake settings = some path ∧ (loop.cache path).isSome = true) := by
  unfold proofStep resultPath
  cases run.manifest.cacheDirectory with
  | none => exact .inl ⟨_, rfl⟩
  | some directory =>
      cases hcached : loop.cache
          (cachedLog directory settings.name (run.fingerprint cmake settings)) with
      | none =>
          simp only [hcached]
          exact .inl ⟨_, rfl⟩
      | some cached =>
          cases hreusable : isReusable (run.fingerprint cmake settings) cached with
          | false =>
              simp only [hcached, hreusable]
              exact .inl ⟨_, rfl⟩
          | true =>
              simp only [hcached, hreusable]
              exact .inr ⟨_, rfl, rfl, rfl, _, rfl, by simp [hcached]⟩

theorem PassedAt.append {proofs : List ProofSettings} {records : List ProofRecord} {path : Text}
    (h : run.PassedAt cmake proofs records path) (settings : ProofSettings) (record : ProofRecord)
    (hlength : proofs.length = records.length) :
    run.PassedAt cmake (proofs ++ [settings]) (records ++ [record]) path := by
  obtain ⟨earlier, past, hmem, hpassed, hpath⟩ := h
  refine ⟨earlier, past, ?_, hpassed, hpath⟩
  rw [List.zip_append hlength]
  exact List.mem_append_left _ hmem

/-- Fingerprints have one length. -/
theorem fingerprint_length (settings settings' : ProofSettings) (run' : GateRun) :
    (run.fingerprint cmake settings).length = (run'.fingerprint cmake settings').length := by
  rw [fingerprint, fingerprint, cmake.sha256.length_digest, cmake.sha256.length_digest]

/-- The path of a result determines its proof and its fingerprint. -/
theorem resultPath_injective {run' : GateRun} {settings settings' : ProofSettings} {path : Text}
    (h : run.resultPath cmake settings = some path)
    (h' : run'.resultPath cmake settings' = some path) :
    settings.name = settings'.name ∧
      run.fingerprint cmake settings = run'.fingerprint cmake settings' := by
  obtain ⟨directory, -, rfl⟩ := Option.map_eq_some_iff.mp h
  obtain ⟨directory', -, hpath⟩ := Option.map_eq_some_iff.mp h'
  exact cachedLog_injective (fingerprint_length settings settings' run') hpath.symm

/-- The invariant after one more proof, whose name is new. -/
theorem LoopInvariant.proofStep {cache : Cache} {done : List ProofSettings} {loop : Loop}
    (h : run.LoopInvariant cmake cache done loop) {settings : ProofSettings}
    (hnew : settings.name ∉ done.map ProofSettings.name) :
    run.LoopInvariant cmake cache (done ++ [settings]) (run.proofStep cmake loop settings) := by
  have hlength := h.records.length_eq
  have hzip : ∀ record, (settings, record) ∈ (done ++ [settings]).zip (loop.records ++ [record]) := by
    intro record
    rw [List.zip_append hlength]
    simp
  have hverdicts : ∀ record : ProofRecord,
      (∀ other ∈ loop.records ++ [record], other.verdict ≠ .failed) ↔
        loop.failures = [] ∧ record.verdict ≠ .failed := by
    intro record
    rw [h.failures, List.forall_mem_append, List.forall_mem_singleton]
  rcases proofStep_cases loop settings with
    ⟨fingerprint, hstep⟩ | ⟨record, hname, hreused, hstep, path, hpath, hsome⟩
  · obtain ⟨record, hname, hrecords, hcases⟩ := execute_cases settings fingerprint
      (run.resultPath cmake settings) loop
    rw [← hstep] at hrecords hcases
    rcases hcases with ⟨hpassed, hpasses, hfailures, hcache⟩ | ⟨hfailed, hfailures, hcache⟩
    · refine ⟨?_, ?_, ?_⟩
      · rw [hrecords]
        refine List.rel_append h.records (.cons ⟨hname, fun _ => hpasses, ?_⟩ .nil)
        rw [hpassed]
        exact fun habsurd => nomatch habsurd
      · rw [hrecords, hfailures, hverdicts]
        simp [hpassed]
      · intro path hpath
        rw [hrecords]
        rcases hcache path hpath with hold | hnewPath
        · exact (h.cache path hold).imp id fun hpast => hpast.append settings record hlength
        · exact .inr ⟨settings, record, hzip record, hpassed, hnewPath⟩
    · refine ⟨?_, ?_, ?_⟩
      · rw [hrecords]
        refine List.rel_append h.records (.cons ⟨hname, ?_, ?_⟩ .nil)
        all_goals
          rw [hfailed]
          exact fun habsurd => nomatch habsurd
      · rw [hrecords, hfailures, hverdicts]
        simp [hfailed]
      · intro path hpath
        rw [hrecords]
        rw [hcache] at hpath
        exact (h.cache path hpath).imp id fun hpast => hpast.append settings record hlength
  · rw [hstep]
    refine ⟨?_, ?_, ?_⟩
    · refine List.rel_append h.records (.cons ⟨hname, ?_, fun _ => ?_⟩ .nil)
      · rw [hreused]
        exact fun habsurd => nomatch habsurd
      · refine ⟨path, hpath, (h.cache path hsome).resolve_right ?_⟩
        -- What this run has kept belongs to other proofs.
        rintro ⟨other, past, hmem, -, hother⟩
        rw [(resultPath_injective hpath hother).1] at hnew
        exact hnew (List.mem_map_of_mem (List.of_mem_zip hmem).1)
    · rw [hverdicts]
      simp [hreused]
    · intro path hpath
      exact (h.cache path hpath).imp id fun hpast => hpast.append settings record hlength

theorem LoopInvariant.foldl {cache : Cache} {done todo : List ProofSettings} {loop : Loop}
    (h : run.LoopInvariant cmake cache done loop)
    (hnodup : ((done ++ todo).map ProofSettings.name).Nodup) :
    run.LoopInvariant cmake cache (done ++ todo) (todo.foldl (run.proofStep cmake) loop) := by
  induction todo generalizing done loop with
  | nil => simpa using h
  | cons settings todo ih =>
      have hnew : settings.name ∉ done.map ProofSettings.name := by
        rw [List.map_append, List.nodup_append] at hnodup
        intro hmem
        exact hnodup.2.2 _ hmem _ (by simp) rfl
      rw [List.append_cons] at hnodup ⊢
      exact ih (h.proofStep hnew) hnodup

/-- What a whole run keeps true. -/
theorem execution_invariant (cache : Cache) :
    List.Forall₂ (run.Judged cmake cache) run.manifest.proofs (run.execution cmake cache).1.records ∧
      ((run.execution cmake cache).1.succeeded = true ↔
        ∀ record ∈ (run.execution cmake cache).1.records, record.verdict ≠ .failed) ∧
      ∀ path, ((run.execution cmake cache).2 path).isSome = true →
        (cache path).isSome = true ∨
          run.PassedAt cmake run.manifest.proofs (run.execution cmake cache).1.records path := by
  have hinitial : run.LoopInvariant cmake cache [] ⟨[], [], cache⟩ :=
    ⟨.nil, by simp, fun _ => .inl⟩
  have hfinal := hinitial.foldl run.manifest.names_nodup
  refine ⟨hfinal.records, Iff.trans ?_ hfinal.failures, hfinal.cache⟩
  simp [execution]

theorem hashed_shared_subset {settings : ProofSettings} {path : Text}
    (h : run.resultPath cmake settings = some path) :
    hashedForInputs cmake.sha256 run.start (run.manifest.shared cmake) ⊆ run.hashedTexts cmake := by
  obtain ⟨directory, hdirectory, -⟩ := Option.map_eq_some_iff.mp h
  unfold hashedTexts
  rw [hdirectory]
  exact List.subset_append_left _ _

theorem hashed_proof_subset {settings : ProofSettings} {path : Text}
    (h : run.resultPath cmake settings = some path) (hmem : settings ∈ run.manifest.proofs) :
    hashedForInputs cmake.sha256 (run.during settings.name)
          (settings.tracked (run.during settings.name)) ++
        [settings.fingerprintContent (run.sharedDigest cmake) (run.inputDigest cmake settings)] ⊆
      run.hashedTexts cmake := by
  obtain ⟨directory, hdirectory, -⟩ := Option.map_eq_some_iff.mp h
  unfold hashedTexts
  rw [hdirectory]
  intro text htext
  exact List.mem_append_right _ (List.mem_flatMap.mpr ⟨settings, hmem, htext⟩)

end GateRun

section History

variable (cmake : CMake)

/-- Two runs have a proof in common, with the same inputs. -/
structure SameProof (past run : GateRun) (settings' settings : ProofSettings) : Prop where
  name : settings'.name = settings.name
  command : settings'.command = settings.command
  timeout : settings'.timeout = settings.timeout
  directory : settings'.directory = settings.directory
  shared_paths : past.manifest.shared cmake = run.manifest.shared cmake
  shared : ∀ path ∈ run.manifest.shared cmake, past.start.SameTree run.start path
  tracked_paths : settings'.tracked (past.during settings'.name) =
    settings.tracked (run.during settings.name)
  tracked : ∀ path ∈ settings.tracked (run.during settings.name),
    (past.during settings'.name).SameTree (run.during settings.name) path

/-- A run of the history has executed the proof with the same inputs, and has
passed it. -/
def PassedBefore (earlier : List GateRun) (run : GateRun) (settings : ProofSettings) : Prop :=
  ∃ before past after settings' record, earlier = before ++ past :: after ∧
    (settings', record) ∈ past.manifest.proofs.zip (report cmake before past).records ∧
    record.verdict = .passed ∧ past.Passes settings'.name record.execution ∧
    SameProof cmake past run settings' settings

/-- What a verdict on a proof of a run has to mean. -/
structure Sound (earlier : List GateRun) (run : GateRun) (settings : ProofSettings)
    (record : ProofRecord) : Prop where
  name : record.name = settings.name
  passed : record.verdict = .passed → run.Passes settings.name record.execution
  reused : record.verdict = .reused → PassedBefore cmake earlier run settings

variable {cmake}

/-- Proofs whose results belong under the same path have the same inputs. -/
theorem sameProof_of_resultPath {texts : List Text} (hfree : cmake.sha256.CollisionFree texts)
    {past run : GateRun} {settings' settings : ProofSettings} {path : Text}
    (htexts' : past.hashedTexts cmake ⊆ texts) (htexts : run.hashedTexts cmake ⊆ texts)
    (hmem' : settings' ∈ past.manifest.proofs) (hmem : settings ∈ run.manifest.proofs)
    (hpath' : past.resultPath cmake settings' = some path)
    (hpath : run.resultPath cmake settings = some path) :
    SameProof cmake past run settings' settings := by
  have hproof' := List.Subset.trans (GateRun.hashed_proof_subset hpath' hmem') htexts'
  have hproof := List.Subset.trans (GateRun.hashed_proof_subset hpath hmem) htexts
  obtain ⟨hname, hfingerprint⟩ := GateRun.resultPath_injective hpath' hpath
  have hcontent := hfree _ (hproof' (by simp)) _ (hproof (by simp)) hfingerprint
  have hdigests : ∀ text text' : Text,
      (cmake.sha256.digest text).length = (cmake.sha256.digest text').length := by
    intro text text'
    rw [cmake.sha256.length_digest, cmake.sha256.length_digest]
  obtain ⟨hshared, hinput, hcommand, htimeout, hdirectory⟩ :=
    fingerprintContent_injective (hdigests _ _) (hdigests _ _) hcontent
  obtain ⟨hsharedPaths, hsharedSame⟩ := hashInputs_injective hfree
    (List.Subset.trans (GateRun.hashed_shared_subset hpath') htexts')
    (List.Subset.trans (GateRun.hashed_shared_subset hpath) htexts) hshared
  obtain ⟨htrackedPaths, htrackedSame⟩ := hashInputs_injective hfree
    (List.Subset.trans (List.subset_append_left _ _) hproof')
    (List.Subset.trans (List.subset_append_left _ _) hproof) hinput
  exact ⟨hname, hcommand, htimeout, hdirectory, hsharedPaths, hsharedPaths ▸ hsharedSame,
    htrackedPaths, htrackedPaths ▸ htrackedSame⟩

/-- Every cached result comes from a proof that a run of the history has passed. -/
theorem cacheAfter_sound {history : List GateRun} {path : Text}
    (h : (cacheAfter cmake history path).isSome = true) :
    ∃ before past after, history = before ++ past :: after ∧
      past.PassedAt cmake past.manifest.proofs (report cmake before past).records path := by
  induction history using List.reverseRecOn with
  | nil => cases h
  | append_singleton history last ih =>
      rw [cacheAfter, List.foldl_concat] at h
      obtain ⟨-, -, hcache⟩ := @GateRun.execution_invariant cmake last (cacheAfter cmake history)
      rcases hcache path h with hold | hnew
      · obtain ⟨before, past, after, hhistory, hpassed⟩ := ih hold
        exact ⟨before, past, after ++ [last], by simp [hhistory], hpassed⟩
      · exact ⟨history, last, [], rfl, hnew⟩

/-- In every run that follows a history, each proof gets one verdict, the run
succeeds if no verdict is `failed`, and a proof that passes has been verified:
in this run, or in an earlier one with the same inputs. -/
theorem gate_sound (cmake : CMake) (earlier : List GateRun) (run : GateRun)
    (hfree : cmake.sha256.CollisionFree
      ((earlier ++ [run]).flatMap fun each => each.hashedTexts cmake)) :
    List.Forall₂ (Sound cmake earlier run) run.manifest.proofs
        (report cmake earlier run).records ∧
      ((report cmake earlier run).succeeded = true ↔
        ∀ record ∈ (report cmake earlier run).records, record.verdict ≠ .failed) := by
  have htexts : ∀ each ∈ earlier ++ [run], each.hashedTexts cmake ⊆
      (earlier ++ [run]).flatMap fun each => each.hashedTexts cmake :=
    fun each heach text htext => List.mem_flatMap.mpr ⟨each, heach, htext⟩
  obtain ⟨hrecords, hsucceeded, -⟩ :=
    @GateRun.execution_invariant cmake run (cacheAfter cmake earlier)
  refine ⟨?_, hsucceeded⟩
  refine List.forall₂_iff_zip.mpr ⟨hrecords.length_eq, fun {settings record} hpair => ?_⟩
  have hmem := (List.of_mem_zip hpair).1
  have hjudged := (List.forall₂_iff_zip.mp hrecords).2 hpair
  refine ⟨hjudged.name, hjudged.passed, fun hreused => ?_⟩
  obtain ⟨path, hpath, hcached⟩ := hjudged.reused hreused
  obtain ⟨before, past, after, rfl, settings', record', hpair', hpassed', hpath'⟩ :=
    cacheAfter_sound hcached
  obtain ⟨hrecords', -, -⟩ :=
    @GateRun.execution_invariant cmake past (cacheAfter cmake before)
  have hjudged' := (List.forall₂_iff_zip.mp hrecords').2 hpair'
  exact ⟨before, past, after, settings', record', rfl, hpair', hpassed', hjudged'.passed hpassed',
    sameProof_of_resultPath hfree (htexts past (by simp)) (htexts run (by simp))
      (List.of_mem_zip hpair').1 hmem hpath' hpath⟩

section Example

def exampleHashes : List (Text × Nat) :=
  let harness := 0x00096d96da5299e65479678a8e79b07ab36e6185120e892a1360e1be25e84fbb
  let checker := 0x3f79bb7b435b05321651daefd374cdc681dc06faa65e374e38337b88ca046dea
  let shared := 0xc09938771c4d6173f90bc5ed4192ddf88d2d2304c55b9dfc6728508ca10c5811
  let tracked := 0xa0202719251be20aef2e264a7b4eb9e4f31f9cf047de99142686101d5bf58183
  [("int main() \x7b\x7d".toList, harness),
    ("e".toList, checker),
    ("path:/esbmc\n/esbmc:".toList ++ hexadecimal 64 checker ++
      "\npath://include\n//include:missing\n".toList, shared),
    ("path:/a\n/a:".toList ++ hexadecimal 64 harness ++ "\n".toList, tracked),
    ("v1;".toList ++ hexadecimal 64 shared ++ ";".toList ++ hexadecimal 64 tracked ++
      ";/esbmc;/a;--z3;9;/".toList,
      0xb9d5babb998ff0545d149de92bebc8b0dbc5477e734f88d34c4a7a5ef1163e78)]

def exampleCMake : CMake where
  sha256 := ⟨fun text => BitVec.ofNat 256 ((exampleHashes.lookup text).getD 0)⟩
  absolute path := if path.val = "/esbmc/../..".toList then .ofText ['/'] (by decide) else path

def exampleFiles : FileSystem where
  nodes := [(.ofText "/esbmc".toList (by decide), .file "e".toList),
    (.ofText "/a".toList (by decide), .file "int main() \x7b\x7d".toList)]
  distinct := by decide
  parents := by
    intro path hpath parent habove
    have htop : ∀ path ∈ [Path.ofText "/esbmc".toList (by decide), .ofText "/a".toList (by decide)],
        '/' ∉ path.val.tail := by
      decide
    exact absurd habove (Path.not_above_of_top parent (htop path hpath))

def exampleProof : ProofSettings where
  name := ⟨"a".toList, by decide, List.all_eq_true.mp (by decide)⟩
  command := "/esbmc;/a;--z3".toList
  timeout := ⟨"9".toList, by decide, List.all_eq_true.mp (by decide)⟩
  directory := .ofText "/".toList (by decide)
  inputs := [.ofText "/a".toList (by decide)]
  headerDirectories := [.ofText "/".toList (by decide)]

def exampleRun : GateRun where
  manifest := {
    proofs := [exampleProof]
    proofs_ne_nil := by decide
    names_nodup := by decide
    cacheDirectory := some (.ofText "/cache".toList (by decide))
    executable := .ofText "/esbmc".toList (by decide)
    sharedInputs := [] }
  start := exampleFiles
  during _ := exampleFiles
  checker _ := ⟨"0".toList, verificationSuccessful, []⟩

/-- A second run with the same files reuses the result of the first. -/
theorem gate_sound_second_run :
    (report exampleCMake [exampleRun] exampleRun).records.map ProofRecord.verdict = [.reused] ∧
      PassedBefore exampleCMake [exampleRun] exampleRun exampleProof := by
  have hverdicts : (report exampleCMake [exampleRun] exampleRun).records.map
      ProofRecord.verdict = [.reused] := by
    decide +kernel
  obtain ⟨hrecords, -⟩ := gate_sound exampleCMake [exampleRun] exampleRun (by decide +kernel)
  obtain ⟨record, hrecord, hreused⟩ := List.map_eq_singleton_iff.mp hverdicts
  rw [hrecord] at hrecords
  exact ⟨hverdicts, (List.forall₂_cons.mp hrecords).1.reused hreused⟩

end Example

end History

end AdaptivePi.Esbmc
