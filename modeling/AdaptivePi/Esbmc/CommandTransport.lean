import AdaptivePi.Esbmc.ManifestFile

namespace AdaptivePi.Esbmc

open Foundation SemicolonList BracketArgument

structure Registration.Conforms (registration : Registration) : Prop where
  definitions : ∀ definition ∈ registration.definitions,
    isDefinition definition = true ∧ isReserved (macroName definition) = false
  options : ∀ option ∈ registration.options, isAllowedOption option = true

/-- The arguments that a registration asks for. -/
def Configuration.expectedArguments (configuration : Configuration) (registration : Registration) :
    List Text :=
  configuration.arguments registration registration.sources registration.includeDirectories
    registration.definitions registration.options

/-- The condition under which the arguments arrive as they are. -/
structure Transportable (project : Project) (entries : List Entry) (registration : Registration) :
    Prop where
  sources : Kept registration.sources
  include_directories : Kept registration.includeDirectories
  separable : Separable (project.configuration.expectedArguments registration)
  uncut : ∀ argument ∈ project.configuration.expectedArguments registration, Uncut 0 argument
  unescaped : ∀ argument ∈ project.configuration.expectedArguments registration,
    ¬['\\', ';'] <:+: argument
  unix_lines : ∀ argument ∈ project.configuration.expectedArguments registration,
    ¬['\r', '\n'] <:+: argument
  closes : Closes (join (project.configuration.expectedArguments registration))
  others_close : ∀ setting ∈ project.settings entries,
    setting.1 ≠ proofVariable registration.name .command → Closes setting.2

variable {project : Project} {configuration : Configuration} {registration : Registration}
  {entries : List Entry}

/-- An option has no open bracket, and no backslash at its end. -/
theorem ne_nil_of_isAllowedOption {option : Text} (h : isAllowedOption option = true) :
    option ≠ [] ∧ nesting option = 0 ∧ option.getLast? ≠ some '\\' := by
  obtain ⟨other, hmem, heq⟩ := List.any_eq_true.mp h
  obtain rfl := of_decide_eq_true heq
  have hall : ∀ other ∈ ["--overflow-check", "--unsigned-overflow-check"],
      other.toList ≠ [] ∧ nesting other.toList = 0 ∧ other.toList.getLast? ≠ some '\\' := by
    decide
  exact hall other hmem

/-- Options that are allowed pass unchanged. -/
theorem expand_store_options (h : registration.Conforms) :
    expand (store registration.options) = registration.options := by
  have hoption := fun option hmem => ne_nil_of_isAllowedOption (h.options option hmem)
  have hkept : Kept registration.options := by
    refine ⟨fun heq => ?_, fun option hmem => (hoption option (List.dropLast_subset _ hmem)).2⟩
    exact (hoption [] (by rw [heq]; exact List.mem_singleton_self _)).1 rfl
  rw [expand_eq_filter, forEach_store hkept, List.filter_eq_self]
  intro option hmem
  exact decide_eq_true (hoption option hmem).1

/-- No argument is empty, and so none is dropped. -/
theorem expectedArguments_ne_nil (hunwind : isPositive registration.unwind = true)
    (h : registration.Conforms) :
    ∀ argument ∈ configuration.expectedArguments registration, argument ≠ [] := by
  have hpath : ∀ path : AbsolutePath, path.val ≠ [] := by
    intro path hnil
    have hhead := path.property
    rw [hnil] at hhead
    cases hhead
  have hcheck : ∀ argument ∈ Configuration.checkArguments, argument ≠ [] := by decide
  have hmode : ∀ argument ∈ configuration.exceptionArguments, argument ≠ [] := by
    unfold Configuration.exceptionArguments
    cases configuration.exceptionsEnabled with
    | true => decide
    | false => decide
  intro argument hmem
  unfold Configuration.expectedArguments Configuration.arguments
    Configuration.leadingArguments at hmem
  simp only [List.mem_cons, List.mem_append, List.mem_nil_iff, or_false] at hmem
  rcases hmem with (rfl | ((hmem | hmem | rfl) | hmem) | hmem) | hmem | hmem
  · exact hpath _
  · obtain ⟨source, -, rfl⟩ := List.mem_map.mp hmem
    exact hpath _
  · exact hcheck argument hmem
  · intro hnil
    rw [hnil] at hunwind
    cases hunwind
  · exact hmode argument hmem
  · obtain ⟨directory, -, rfl⟩ := List.mem_map.mp hmem
    exact List.append_ne_nil_of_left_ne_nil (by decide) _
  · obtain ⟨definition, -, rfl⟩ := List.mem_map.mp hmem
    exact List.append_ne_nil_of_left_ne_nil (by decide) _
  · exact (ne_nil_of_isAllowedOption (h.options argument hmem)).1

/-- More definitions, or longer ones, weigh more. -/
theorem weight_arguments_le {sources includeDirectories definitions visited options : List Text}
    (hlength : visited.length ≤ definitions.length) (hweight : weight visited ≤ weight definitions) :
    weight (configuration.arguments registration sources includeDirectories visited options) ≤
        weight (configuration.arguments registration sources includeDirectories definitions options) ∧
      (weight (configuration.arguments registration sources includeDirectories definitions options) ≤
        weight (configuration.arguments registration sources includeDirectories visited options) →
          visited.length = definitions.length) := by
  unfold Configuration.arguments
  rw [weight_append, weight_append, weight_append, weight_append, weight_map_append,
    weight_map_append, show "-D".toList.length = 2 from rfl]
  omega

/-- The command of a registration whose values are kept. -/
theorem command_eq_join (hconforms : registration.Conforms) (hsources : Kept registration.sources)
    (hinclude : Kept registration.includeDirectories) :
    configuration.command registration =
      join (configuration.arguments registration registration.sources
        registration.includeDirectories (forEach (store registration.definitions))
        registration.options) := by
  rw [Configuration.command_eq, forEach_store hsources, forEach_store hinclude,
    expand_store_options hconforms]

theorem kept_definitions (hconforms : registration.Conforms)
    (h : Separable (configuration.expectedArguments registration)) :
    Kept registration.definitions := by
  refine ⟨fun heq => ?_, fun definition hmem => ?_⟩
  · have hdefinition := hconforms.definitions [] (by rw [heq]; exact List.mem_singleton_self _)
    cases hdefinition.1
  · have hseparable : Separable (registration.definitions.map ("-D".toList ++ ·)) := h.of_append
    obtain ⟨hnesting, hlast⟩ := hseparable ("-D".toList ++ definition) (by
      rw [← List.map_dropLast]
      exact List.mem_map_of_mem hmem)
    rw [nesting_append, show nesting "-D".toList = 0 from rfl, Int.zero_add] at hnesting
    refine ⟨hnesting, fun hbackslash => hlast ?_⟩
    rw [List.getLast?_append, hbackslash]
    rfl

theorem content_command :
    content (configuration.command registration) =
      unixLines (configuration.command registration) := by
  refine content_of_slash ?_
  rw [Configuration.command_eq]
  exact head?_join configuration.executable.property

theorem expectedArguments_nonempty : configuration.expectedArguments registration ≠ [] :=
  List.cons_ne_nil _ _

/-- The arguments arrive under the condition. -/
theorem executedArguments_of_transportable (haccepted : project.register = .ok entries)
    (hmem : registration ∈ project.registrations) (hconforms : registration.Conforms)
    (h : Transportable project entries registration) :
    project.executedArguments entries registration.name =
      some (project.configuration.expectedArguments registration) := by
  obtain ⟨hentries, hnodup, hvalid⟩ := register_eq_ok haccepted
  have hentry : project.configuration.entry registration ∈ entries := by
    rw [hentries]
    exact List.mem_map_of_mem hmem
  have hcommand : project.configuration.command registration =
      join (project.configuration.expectedArguments registration) := by
    rw [command_eq_join hconforms h.sources h.include_directories,
      forEach_store (kept_definitions hconforms h.separable)]
    rfl
  have hcloses : ∀ setting ∈ project.settings entries, Closes setting.2 := by
    intro setting hsetting
    by_cases hname : setting.1 = proofVariable registration.name .command
    · have hvalue := eq_command_of_mem_settings hnodup hentry hsetting hname
      rw [hvalue]
      change Closes (project.configuration.command registration)
      rw [hcommand]
      exact h.closes
    · exact h.others_close setting hsetting hname
  have hlines : ¬['\r', '\n'] <:+: join (project.configuration.expectedArguments registration) := by
    rw [infix_join_iff (by decide) expectedArguments_nonempty]
    rintro ⟨argument, hargument, hinside⟩
    exact h.unix_lines argument hargument hinside
  have hexecuted := executedArguments_eq haccepted hcloses hentry
  refine hexecuted.trans (congrArg some ?_)
  change expand (content (project.configuration.command registration)) = _
  rw [content_command, hcommand, unixLines_eq_self hlines, expand,
    split_join expectedArguments_nonempty h.separable h.uncut h.unescaped, List.filter_eq_self]
  intro argument hargument
  exact decide_eq_true
    (expectedArguments_ne_nil (hvalid registration hmem).1 hconforms argument hargument)

/-- If the arguments arrive, the command is the text that they are joined to,
and reading and expanding it loses nothing. -/
theorem command_of_executedArguments (hconforms : registration.Conforms)
    (hsources : Kept registration.sources) (hinclude : Kept registration.includeDirectories)
    (h : expand (unixLines (configuration.command registration)) =
      configuration.expectedArguments registration) :
    configuration.command registration = join (configuration.expectedArguments registration) ∧
      ¬['\r', '\n'] <:+: configuration.command registration ∧
      ¬['\\', ';'] <:+: configuration.command registration ∧
      split 0 (configuration.command registration) =
        configuration.expectedArguments registration := by
  obtain ⟨hlength, hweight⟩ := forEach_store_le registration.definitions
  obtain ⟨hle, hequal⟩ := @weight_arguments_le configuration registration registration.sources
    registration.includeDirectories _ _ registration.options hlength hweight
  have hcommand := @command_eq_join configuration registration hconforms hsources hinclude
  have hjoined : (configuration.command registration).length + 1 =
      weight (configuration.arguments registration registration.sources
        registration.includeDirectories (forEach (store registration.definitions))
        registration.options) := by
    rw [hcommand]
    exact (weight_eq_length_join (List.cons_ne_nil _ _)).symm
  have hexpected : weight (configuration.expectedArguments registration) =
      weight (expand (unixLines (configuration.command registration))) := by
    rw [h]
  have hexpand := weight_expand_le (unixLines (configuration.command registration))
  have hunix := length_unixLines_le (configuration.command registration)
  have hkept : Kept registration.definitions := by
    refine kept_of_length (hequal ?_)
    change weight (configuration.expectedArguments registration) ≤ _
    omega
  have hlines : (unixLines (configuration.command registration)).length =
      (configuration.command registration).length := by
    change _ ≤ weight (configuration.expectedArguments registration) at hle
    omega
  have hnone := not_infix_of_length_unixLines hlines
  rw [unixLines_eq_self hnone] at h hexpected
  obtain ⟨hescape, hsplit⟩ := @expand_lossless (configuration.command registration) (by
    change _ ≤ weight (configuration.expectedArguments registration) at hle
    omega)
  refine ⟨?_, hnone, hescape, hsplit.trans h⟩
  rw [hcommand, forEach_store hkept]
  rfl

/-- If the arguments arrive, the condition holds. -/
theorem transportable_of_executedArguments (haccepted : project.register = .ok entries)
    (hmem : registration ∈ project.registrations) (hconforms : registration.Conforms)
    (hsources : Kept registration.sources) (hinclude : Kept registration.includeDirectories)
    (h : project.executedArguments entries registration.name =
      some (project.configuration.expectedArguments registration)) :
    Transportable project entries registration := by
  have hcloses : ∀ setting ∈ project.settings entries, Closes setting.2 := by
    by_contra hcut
    obtain ⟨setting, hsetting⟩ := not_forall.mp hcut
    obtain ⟨hsetting, hcloses⟩ := Classical.not_imp.mp hsetting
    rw [executedArguments_of_cut haccepted ⟨setting, hsetting, hcloses⟩] at h
    cases h
  have hentry : project.configuration.entry registration ∈ entries := by
    rw [(register_eq_ok haccepted).1]
    exact List.mem_map_of_mem hmem
  have hexecuted := executedArguments_eq haccepted hcloses hentry
  have hexpand : expand (content (project.configuration.command registration)) =
      project.configuration.expectedArguments registration :=
    Option.some.inj (hexecuted.symm.trans h)
  rw [content_command] at hexpand
  obtain ⟨hcommand, hlines, hescape, hsplit⟩ :=
    command_of_executedArguments hconforms hsources hinclude hexpand
  have hown := hcloses _ (mem_settings_command hentry)
  change Closes (project.configuration.command registration) at hown
  rw [hcommand] at hlines hescape hsplit hown
  obtain ⟨hseparable, hintact⟩ := intact_of_split_join hescape hsplit
  refine ⟨hsources, hinclude, hseparable, fun argument hargument => (hintact argument hargument).1,
    fun argument hargument => (hintact argument hargument).2, fun argument hargument hinside => ?_,
    hown, fun setting hsetting _ => hcloses setting hsetting⟩
  exact hlines ((infix_join_iff (by decide) expectedArguments_nonempty).mpr
    ⟨argument, hargument, hinside⟩)

/-- The checker is executed with the arguments that a registration asks for if
the condition holds, and only then unless its paths are changed by the lists
that they are stored in. -/
theorem arguments_transported (project : Project) (entries : List Entry) (registration : Registration)
    (haccepted : project.register = .ok entries) (hmem : registration ∈ project.registrations)
    (hconforms : registration.Conforms) :
    (Transportable project entries registration →
      project.executedArguments entries registration.name =
        some (project.configuration.expectedArguments registration)) ∧
    (Kept registration.sources → Kept registration.includeDirectories →
      project.executedArguments entries registration.name =
        some (project.configuration.expectedArguments registration) →
      Transportable project entries registration) :=
  ⟨executedArguments_of_transportable haccepted hmem hconforms,
    transportable_of_executedArguments haccepted hmem hconforms⟩

section Example

def exampleConfiguration : Configuration where
  executable := ⟨"/esbmc".toList, by decide⟩
  exceptionsEnabled := false
  absolute directory path :=
    if path = "/p/..".toList then ⟨['/'], rfl⟩
    else if habsolute : path.head? = some '/' then ⟨path, habsolute⟩
    else ⟨directory.val ++ '/' :: path, by rw [List.head?_append, directory.property]; rfl⟩
  parent path := (path.val.reverse.dropWhile (· ≠ '/')).tail.reverse
  isPresent path := path.val = "/p/proof.cpp".toList

def exampleRegistration (definitions : List Text) : Registration where
  name := "limits".toList
  directory := ⟨"/p".toList, by decide⟩
  sources := ["proof.cpp".toList]
  includeDirectories := ["include".toList]
  definitions := definitions
  options := ["--overflow-check".toList]
  depends := []
  unwind := "4".toList
  timeout := "60".toList
  unparsedArguments := []
  keywordsMissingValues := []

def exampleProject (definitions : List Text) : Project where
  configuration := exampleConfiguration
  registrations := [exampleRegistration definitions]
  logDirectory := "/b/esbmc/logs".toList
  cacheDirectory := []
  sharedInputs := ["/CMakeLists.txt".toList]

/-- A definition with an open bracket takes the check that was asked for into
its own argument. -/
theorem arguments_merged : ∃ (project : Project) (entries : List Entry) (registration : Registration),
    project.register = .ok entries ∧ registration ∈ project.registrations ∧
      registration.Conforms ∧
      project.executedArguments entries registration.name = some (
        ["/esbmc", "/p/proof.cpp", "--z3", "--std", "c++17", "--memory-leak-check", "--unwind", "4",
          "-fno-exceptions", "-DADAPTIVE_PI_EXCEPTIONS_ENABLED=0", "-I/p/include",
          "-DX=[;--overflow-check"].map String.toList) ∧
      project.configuration.expectedArguments registration =
        ["/esbmc", "/p/proof.cpp", "--z3", "--std", "c++17", "--memory-leak-check", "--unwind", "4",
          "-fno-exceptions", "-DADAPTIVE_PI_EXCEPTIONS_ENABLED=0", "-I/p/include",
          "-DX=[", "--overflow-check"].map String.toList ∧
      project.executedArguments entries registration.name ≠
        some (project.configuration.expectedArguments registration) := by
  refine ⟨exampleProject ["X=[".toList],
    [exampleConfiguration.entry (exampleRegistration ["X=[".toList])],
    exampleRegistration ["X=[".toList], by decide +kernel, List.mem_singleton_self _,
    ⟨by decide, by decide⟩, ?_⟩
  have hexecuted : (exampleProject ["X=[".toList]).executedArguments
      [exampleConfiguration.entry (exampleRegistration ["X=[".toList])] "limits".toList = some (
        ["/esbmc", "/p/proof.cpp", "--z3", "--std", "c++17", "--memory-leak-check", "--unwind", "4",
          "-fno-exceptions", "-DADAPTIVE_PI_EXCEPTIONS_ENABLED=0", "-I/p/include",
          "-DX=[;--overflow-check"].map String.toList) := by
    decide +kernel
  refine ⟨hexecuted, by decide +kernel, fun h => ?_⟩
  have hlength := congrArg (Option.map List.length) (hexecuted.symm.trans h)
  exact absurd hlength (by decide +kernel)

/-- A semicolon between brackets arrives. -/
theorem arguments_transported_brackets :
    (exampleProject ["X=a[;]b".toList]).executedArguments
        [exampleConfiguration.entry (exampleRegistration ["X=a[;]b".toList])] "limits".toList =
      some (["/esbmc", "/p/proof.cpp", "--z3", "--std", "c++17", "--memory-leak-check", "--unwind",
        "4", "-fno-exceptions", "-DADAPTIVE_PI_EXCEPTIONS_ENABLED=0", "-I/p/include",
        "-DX=a[;]b", "--overflow-check"].map String.toList) ∧
      Transportable (exampleProject ["X=a[;]b".toList])
        [exampleConfiguration.entry (exampleRegistration ["X=a[;]b".toList])]
        (exampleRegistration ["X=a[;]b".toList]) := by
  refine ⟨by decide +kernel, ?_⟩
  exact (arguments_transported (exampleProject ["X=a[;]b".toList]) _ _ (by decide +kernel)
    (List.mem_singleton_self _) ⟨by decide, by decide⟩).2 (by decide) (by decide)
    (by decide +kernel)

end Example

end AdaptivePi.Esbmc
