import AdaptivePi.Esbmc.RunEsbmcProofs
import AdaptivePi.Foundation.Pattern
import AdaptivePi.Foundation.PythonText

namespace AdaptivePi.Report

open Foundation Foundation.Pattern Foundation.PythonText

inductive Ending where
  | exited (code : Nat)
  | killed (signal : {number : Nat // 0 < number})
  | timedOut
  | notStarted (message : Text)

structure Process where
  ending : Ending
  stdout : Text
  stderr : Text

structure ErrorTexts where
  text : Ending → Text
  text_ne_zero : ∀ ending, text ending ≠ "0".toList

def ErrorTexts.resultVariable (errors : ErrorTexts) : Ending → Text
  | .exited code => Nat.toDigits 10 code
  | ending => errors.text ending

/-- What the gate sees of a process. -/
def Process.checkerResult (errors : ErrorTexts) (process : Process) : Esbmc.CheckerResult :=
  ⟨errors.resultVariable process.ending, process.stdout, process.stderr⟩

/-- The exit code that `execute` returns. -/
inductive ExitStatus where
  | code (value : Int)
  | timeout
  | executionError
  deriving DecidableEq

def ExitStatus.text : ExitStatus → Text
  | .code value => (if value < 0 then "-".toList else []) ++ Nat.toDigits 10 value.natAbs
  | .timeout => "timeout".toList
  | .executionError => "execution error".toList

/-- What `execute` returns for a process, unless `subprocess.run` cannot wait for it. -/
def Process.result (process : Process) : ExitStatus × Text :=
  let log := universalNewlines process.stdout ++ "\n".toList ++ universalNewlines process.stderr
  match process.ending with
  | .exited code => (.code code, log)
  | .killed signal => (.code (-signal.val), log)
  | .timedOut => (.timeout, process.stdout ++ process.stderr)
  | .notStarted message => (.executionError, message)

inductive ProofStatus where
  | passed
  | failed
  | unknown
  deriving DecidableEq

def proofStatus (code : ExitStatus) (log : Text) : ProofStatus :=
  if code = .code 0 ∧ (search true (lineOf isSpace "VERIFICATION SUCCESSFUL".toList) log).isSome then
    .passed
  else if (search true (lineOf isSpace "VERIFICATION FAILED".toList) log).isSome then .failed
  else .unknown

/-- A proof has passed if the checker has ended with 0, and a line says so. -/
theorem proofStatus_eq_passed_iff {code : ExitStatus} {log : Text} :
    proofStatus code log = .passed ↔ code = .code 0 ∧
      ∃ blanks, (∀ char ∈ blanks, isSpace char = true) ∧
        Esbmc.verificationSuccessful ++ blanks ∈ log.splitOnP (· == '\n') := by
  rw [← isSome_search_lineOf (by decide)]
  unfold proofStatus
  constructor
  · intro h
    split at h
    · rename_i hpassed
      exact hpassed
    · split at h <;> cases h
  · intro h
    exact if_pos h

/-- Exit code 0 is the only result that CMake gives as `0`. -/
theorem resultVariable_eq_zero_iff (errors : ErrorTexts) (ending : Ending) :
    errors.resultVariable ending = "0".toList ↔ ending = .exited 0 := by
  cases ending with
  | exited code =>
      constructor
      · intro h
        have hcode := congrArg (Nat.ofDigitChars 10 · 0) h
        simp only [ErrorTexts.resultVariable] at hcode
        rw [Nat.ofDigitChars_toDigits (by omega) (by omega)] at hcode
        rw [hcode]
        rfl
      · intro h
        cases h
        rfl
  | killed signal => exact iff_of_false (errors.text_ne_zero _) nofun
  | timedOut => exact iff_of_false (errors.text_ne_zero _) nofun
  | notStarted message => exact iff_of_false (errors.text_ne_zero _) nofun

/-- Code 0 is returned for an exit with code 0 only. -/
theorem result_code_zero {process : Process} (h : process.result.1 = .code 0) :
    process.ending = .exited 0 ∧
      process.result.2 = universalNewlines process.stdout ++
        '\n' :: universalNewlines process.stderr := by
  unfold Process.result at h ⊢
  cases hending : process.ending with
  | exited code =>
      simp_all
  | killed signal =>
      have hpos := signal.2
      simp [hending] at h
      omega
  | timedOut => simp [hending] at h
  | notStarted message => simp [hending] at h

/-- The lines of a log are those of the two streams. -/
private theorem mem_lines_log {line : Text} (hline : line ≠ []) (stdout stderr : Text) :
    line ∈ (universalNewlines stdout ++ '\n' :: universalNewlines stderr).splitOnP (· == '\n') ↔
      hasLine line (stdout ++ '\n' :: stderr) = true := by
  rw [List.splitOnP_append_cons _ _ rfl, List.mem_append, mem_lines_universalNewlines hline,
    mem_lines_universalNewlines hline, hasLine_append_newline, hasLine_iff, hasLine_iff]

/-- The report records `passed` when the gate passes the proof, and also when
the process exits with 0 and has a line `VERIFICATION SUCCESSFUL` with white
space after it. -/
theorem proofStatus_execute_passed_iff (errors : ErrorTexts) (process : Process) :
    proofStatus process.result.1 process.result.2 = .passed ↔
      (process.checkerResult errors).succeeded = true ∨
        process.ending = .exited 0 ∧ ∃ blanks, blanks ≠ [] ∧ (∀ char ∈ blanks, isSpace char = true) ∧
          hasLine (Esbmc.verificationSuccessful ++ blanks)
            (process.stdout ++ '\n' :: process.stderr) = true := by
  have hne : ∀ blanks : Text, Esbmc.verificationSuccessful ++ blanks ≠ [] :=
    fun blanks h => absurd (List.append_eq_nil_iff.mp h).1 (by decide)
  have hgate : (process.checkerResult errors).succeeded = true ↔ process.ending = .exited 0 ∧
      hasLine (Esbmc.verificationSuccessful ++ [])
        (process.stdout ++ '\n' :: process.stderr) = true := by
    rw [List.append_nil, ← resultVariable_eq_zero_iff errors]
    unfold Esbmc.CheckerResult.succeeded
    rw [Bool.and_eq_true, beq_iff_eq, List.append_assoc]
    rfl
  rw [proofStatus_eq_passed_iff, hgate, ← and_or_left]
  constructor
  · rintro ⟨hcode, blanks, hblanks, hline⟩
    obtain ⟨hending, hlog⟩ := result_code_zero hcode
    rw [hlog, mem_lines_log (hne blanks)] at hline
    refine ⟨hending, ?_⟩
    by_cases hnil : blanks = []
    · exact .inl (hnil ▸ hline)
    · exact .inr ⟨blanks, hnil, hblanks, hline⟩
  · rintro ⟨hending, hline⟩
    have hcode : process.result.1 = .code 0 := by
      unfold Process.result
      rw [hending]
      rfl
    refine ⟨hcode, ?_⟩
    rw [(result_code_zero hcode).2]
    rcases hline with hline | ⟨blanks, -, hblanks, hline⟩
    · exact ⟨[], by simp, (mem_lines_log (hne _) _ _).mpr hline⟩
    · exact ⟨blanks, hblanks, (mem_lines_log (hne _) _ _).mpr hline⟩

/-- With a blank after the text, the report passes what the gate fails. -/
theorem proofStatus_trailing_blank :
    ¬∀ (errors : ErrorTexts) (process : Process),
      proofStatus process.result.1 process.result.2 = .passed ↔
        (process.checkerResult errors).succeeded = true := by
  intro h
  have hpassed := h ⟨fun _ => "Process terminated".toList, fun _ => by decide⟩
    ⟨.exited 0, "VERIFICATION SUCCESSFUL \n".toList, []⟩
  exact absurd (hpassed.mp (by decide +kernel)) (by decide +kernel)

end AdaptivePi.Report
