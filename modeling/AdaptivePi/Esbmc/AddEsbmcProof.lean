import AdaptivePi.Esbmc.RunEsbmcProofs

/-!
`add_esbmc_proof` of `ESBMC.cmake`. A registration comes with the values that
`cmake_parse_arguments` has found for each keyword. It is rejected with an error
message, or the properties of its proof are recorded. The values of a keyword
are stored with escaped semicolons, but the command and the lists of inputs are
built with `list(APPEND)`, which escapes nothing.
-/

namespace AdaptivePi.Esbmc

open Foundation SemicolonList

/-- A full path. Unlike a `Path`, it may have any characters. -/
abbrev AbsolutePath := {text : Text // text.head? = some '/'}

/-- What all registrations of a project have in common, and the functions of
CMake that they call. -/
structure Configuration where
  executable : AbsolutePath
  exceptionsEnabled : Bool
  /-- `get_filename_component(... ABSOLUTE BASE_DIR ...)` -/
  absolute : AbsolutePath → Text → AbsolutePath
  /-- `get_filename_component(... DIRECTORY)` -/
  parent : AbsolutePath → Text
  /-- `EXISTS` -/
  isPresent : AbsolutePath → Bool

structure Registration where
  name : Text
  /-- `CMAKE_CURRENT_SOURCE_DIR` -/
  directory : AbsolutePath
  sources : List Text
  includeDirectories : List Text
  definitions : List Text
  options : List Text
  depends : List Text
  unwind : Text
  timeout : Text
  unparsedArguments : List Text
  keywordsMissingValues : List Text

structure Entry where
  name : Text
  command : Text
  timeout : Text
  directory : Text
  inputs : Text
  headerDirectories : Text
  deriving DecidableEq

def listAppend (list : Text) (elements : List Text) : Text :=
  if elements = [] then list
  else if list = [] then join elements
  else list ++ ';' :: join elements

def removeDuplicates (list : Text) : Text := join (forEach list).eraseDups

/-- `^[1-9][0-9]*$` -/
def isPositive : Text → Bool
  | [] => false
  | char :: rest => char.isDigit && char ≠ '0' && rest.all Char.isDigit

/-- `^[A-Za-z0-9_-]+$` -/
def isProofName (name : Text) : Bool := !name.isEmpty && name.all isNameChar

def macroName (definition : Text) : Text := definition.takeWhile (· ≠ '=')

/-- `^[A-Za-z_][A-Za-z0-9_]*(=.*)?$` -/
def isDefinition (definition : Text) : Bool :=
  match macroName definition with
  | [] => false
  | char :: rest =>
      (char.isAlpha || char = '_') && rest.all fun other => other.isAlphanum || other = '_'

/-- `^(NDEBUG|assert|ADAPTIVE_PI_EXCEPTIONS_ENABLED)$` and `^(__|_[A-Z])` -/
def isReserved (name : Text) : Bool :=
  ["NDEBUG", "assert", "ADAPTIVE_PI_EXCEPTIONS_ENABLED"].any (fun other => name = other.toList) ||
    match name with
    | '_' :: char :: _ => char = '_' || char.isUpper
    | _ => false

def isAllowedOption (option : Text) : Bool :=
  ["--overflow-check", "--unsigned-overflow-check"].any fun other => option = other.toList

/-- `if(NOT ...) message(FATAL_ERROR ...)` -/
def require (condition : Bool) (message : Text) : Except Text Unit :=
  if condition then pure () else throw message

namespace Configuration

variable (configuration : Configuration) (registration : Registration)

def absolutePath (path : Text) : Text := (configuration.absolute registration.directory path).val

/-- The solver, the language, the additional check, and the flag of the bound. -/
def checkArguments : List Text :=
  ["--z3".toList, "--std".toList, "c++17".toList, "--memory-leak-check".toList, "--unwind".toList]

def exceptionArguments : List Text :=
  if configuration.exceptionsEnabled then
    ["-fexceptions".toList, "-DADAPTIVE_PI_EXCEPTIONS_ENABLED=1".toList]
  else ["-fno-exceptions".toList, "-DADAPTIVE_PI_EXCEPTIONS_ENABLED=0".toList]

def command : Text :=
  let command := configuration.executable.val
  let command := (forEach (store registration.sources)).foldl (fun command source =>
    listAppend command [configuration.absolutePath registration source]) command
  let command := listAppend command (checkArguments ++ [registration.unwind])
  let command := listAppend command configuration.exceptionArguments
  let command := (forEach (store registration.includeDirectories)).foldl
    (fun command directory =>
      listAppend command ["-I".toList ++ configuration.absolutePath registration directory]) command
  let command := (forEach (store registration.definitions)).foldl (fun command definition =>
    listAppend command ["-D".toList ++ definition]) command
  listAppend command (expand (store registration.options))

def inputs : Text :=
  let appendPath (list path : Text) := listAppend list [configuration.absolutePath registration path]
  let component := configuration.absolutePath registration (registration.directory.val ++ "/..".toList)
  let inputs := registration.directory.val ++ "/CMakeLists.txt".toList
  let inputs := listAppend inputs [component ++ "/src".toList, component ++ "/include".toList]
  let inputs := (forEach (store registration.sources)).foldl appendPath inputs
  let inputs := (forEach (store registration.includeDirectories)).foldl appendPath inputs
  (forEach (store registration.depends)).foldl appendPath inputs

def headerDirectories : Text :=
  removeDuplicates ((forEach (store registration.sources)).foldl (fun directories source =>
    listAppend directories
      [configuration.parent (configuration.absolute registration.directory source)]) [])

def entry : Entry where
  name := registration.name
  command := configuration.command registration
  timeout := registration.timeout
  directory := registration.directory.val
  inputs := configuration.inputs registration
  headerDirectories := configuration.headerDirectories registration

/-- `add_esbmc_proof`, after the proofs that are registered already. -/
def addEsbmcProof (registered : List Entry) (registration : Registration) :
    Except Text (List Entry) := do
  let proof := "Proof ".toList ++ registration.name
  require (store registration.unparsedArguments = [] ∧ store registration.keywordsMissingValues = [] ∧
      store registration.sources ≠ [] ∧ isPositive registration.unwind ∧
      isPositive registration.timeout)
    (proof ++ (" requires SOURCES, positive UNWIND and TIMEOUT (seconds);" ++
      " check argument names.").toList)
  require (isProofName registration.name)
    ("ESBMC proof names must contain only letters, digits, underscores and hyphens.").toList
  require (registration.name ∉ registered.map Entry.name)
    ("Duplicate ESBMC proof: ".toList ++ registration.name)
  (forEach (store registration.sources)).forM fun source =>
    require (configuration.isPresent (configuration.absolute registration.directory source))
      (proof ++ ": missing source ".toList ++ configuration.absolutePath registration source)
  (forEach (store registration.options)).forM fun option =>
    require (isAllowedOption option)
      (proof ++ ": unsupported OPTIONS argument '".toList ++ option ++
        ("'. Only --overflow-check and --unsigned-overflow-check are allowed;" ++
          " solver and safety settings are runner-owned.").toList)
  (forEach (store registration.definitions)).forM fun definition => do
    require (isDefinition definition)
      (proof ++ ": DEFINITIONS requires NAME or NAME=value, without -D.".toList)
    require (!isReserved (macroName definition))
      (proof ++ ": reserved definition '".toList ++ macroName definition ++
        ("' cannot override assertions, compiler settings or the exception mode.").toList)
  (forEach (store registration.depends)).forM fun dependency =>
    require (configuration.isPresent (configuration.absolute registration.directory dependency))
      (proof ++ ": missing dependency ".toList ++ configuration.absolutePath registration dependency)
  pure (registered ++ [configuration.entry registration])

end Configuration

section Arguments

/-- Elements are appended to a list that is not empty as if they were joined to it. -/
theorem listAppend_join {first : Text} {others : List Text} (hfirst : first ≠ [])
    (elements : List Text) :
    listAppend (join (first :: others)) elements = join (first :: others ++ elements) := by
  have hne : join (first :: others) ≠ [] := by
    cases others with
    | nil => rwa [join_singleton]
    | cons second others => simp [join_cons_cons]
  unfold listAppend
  by_cases hempty : elements = []
  · rw [if_pos hempty, hempty, List.append_nil]
  · rw [if_neg hempty, if_neg hne, join_append (by simp) hempty]

theorem foldl_listAppend_join {first : Text} {others : List Text} (hfirst : first ≠ [])
    (argument : Text → Text) (elements : List Text) :
    elements.foldl (fun list element => listAppend list [argument element])
      (join (first :: others)) = join (first :: others ++ elements.map argument) := by
  induction elements generalizing others with
  | nil => simp
  | cons element elements ih =>
      rw [List.foldl_cons, listAppend_join hfirst, List.cons_append, ih, List.map_cons]
      simp

namespace Configuration

variable {configuration : Configuration} {registration : Registration}

def leadingArguments (configuration : Configuration) (registration : Registration)
    (sources includeDirectories : List Text) : List Text :=
  configuration.executable.val :: (sources.map (configuration.absolutePath registration) ++
    (checkArguments ++ [registration.unwind]) ++ configuration.exceptionArguments ++
    (includeDirectories.map (configuration.absolutePath registration)).map ("-I".toList ++ ·))

def arguments (configuration : Configuration) (registration : Registration)
    (sources includeDirectories definitions options : List Text) : List Text :=
  configuration.leadingArguments registration sources includeDirectories ++
    (definitions.map ("-D".toList ++ ·) ++ options)

/-- The command is joined from the arguments for the values that are visited. -/
theorem command_eq : configuration.command registration =
    join (configuration.arguments registration (forEach (store registration.sources))
      (forEach (store registration.includeDirectories))
      (forEach (store registration.definitions)) (expand (store registration.options))) := by
  have hexecutable : configuration.executable.val ≠ [] := by
    intro hnil
    have hhead := configuration.executable.property
    rw [hnil] at hhead
    cases hhead
  unfold command arguments leadingArguments
  dsimp only
  rw [← join_singleton configuration.executable.val, foldl_listAppend_join hexecutable]
  rw [List.cons_append, List.nil_append, listAppend_join hexecutable]
  rw [List.cons_append, listAppend_join hexecutable]
  rw [List.cons_append, foldl_listAppend_join hexecutable]
  rw [List.cons_append, foldl_listAppend_join hexecutable]
  rw [List.cons_append, listAppend_join hexecutable, List.map_map, join_singleton,
    List.cons_append, List.cons_append, List.append_assoc]
  rfl

theorem require_bind_eq_ok {α : Type} {condition : Bool} {message : Text}
    {next : Unit → Except Text α} {value : α}
    (h : (require condition message >>= next) = .ok value) :
    condition = true ∧ next () = .ok value := by
  cases condition with
  | true => exact ⟨rfl, h⟩
  | false => cases h

theorem check_bind_eq_ok {α β : Type} {check : Except Text α} {next : α → Except Text β} {value : β}
    (h : (check >>= next) = .ok value) : ∃ result, next result = .ok value := by
  cases check with
  | error message => cases h
  | ok result => exact ⟨result, h⟩

/-- What is checked of a registration that is accepted, and what is recorded. -/
theorem addEsbmcProof_eq_ok {registered entries : List Entry}
    (h : configuration.addEsbmcProof registered registration = .ok entries) :
    isPositive registration.unwind = true ∧ isProofName registration.name = true ∧
      registration.name ∉ registered.map Entry.name ∧
      entries = registered ++ [configuration.entry registration] := by
  unfold addEsbmcProof at h
  dsimp only at h
  obtain ⟨harguments, h⟩ := require_bind_eq_ok h
  obtain ⟨hname, h⟩ := require_bind_eq_ok h
  obtain ⟨hnew, h⟩ := require_bind_eq_ok h
  obtain ⟨-, h⟩ := check_bind_eq_ok h
  obtain ⟨-, h⟩ := check_bind_eq_ok h
  obtain ⟨-, h⟩ := check_bind_eq_ok h
  obtain ⟨-, h⟩ := check_bind_eq_ok h
  exact ⟨(of_decide_eq_true harguments).2.2.2.1, hname, of_decide_eq_true hnew,
    (Except.ok.inj h).symm⟩

/-- A registration that is accepted has a positive timeout. -/
theorem isPositive_timeout {registered entries : List Entry}
    (h : configuration.addEsbmcProof registered registration = .ok entries) :
    isPositive registration.timeout = true := by
  unfold addEsbmcProof at h
  exact (of_decide_eq_true (require_bind_eq_ok h).1).2.2.2.2

end Configuration

end Arguments

end AdaptivePi.Esbmc
