import AdaptivePi.Esbmc.AddEsbmcProof
import AdaptivePi.Foundation.BracketArgument

namespace AdaptivePi.Esbmc

open Foundation SemicolonList BracketArgument Reader

abbrev Setting := Text × Text

def writeSetting (setting : Setting) : Text :=
  "set(".toList ++ (setting.1 ++ [' '] ++ (quote setting.2 ++ ")\n".toList))

def manifestHeader : Text := "# Generated ESBMC command manifest; do not edit.\n".toList

def writeManifest (settings : List Setting) : Text := manifestHeader ++ settings.flatMap writeSetting

def readSetting : Reader Char Setting := do
  literal "set(".toList
  let name ← before ' '
  let value ← readBracket
  literal ")\n".toList
  pure (name, value)

/-- The variables that `include` sets, or nothing if the file is not well formed. -/
def readManifest (text : Text) : Option (List Setting) :=
  match literal manifestHeader text with
  | none => none
  | some ((), rest) => readAll readSetting rest

/-- Read a setting, when the text between the brackets stands for the value that
`interpret` makes of it. -/
def readSettingAs (interpret : Text → Text) : Reader Char Setting := do
  literal "set(".toList
  let name ← before ' '
  let value ← interpret <$> readRaw
  literal ")\n".toList
  pure (name, value)

/-- The variables that `include` sets, or nothing if the file is not well formed. -/
def includeAs (interpret : Text → Text) (text : Text) : Option (List Setting) :=
  match literal manifestHeader text with
  | none => none
  | some ((), rest) => readAll (readSettingAs interpret) rest

inductive Field where
  | command
  | timeout
  | directory
  | inputs
  | headerDirectories

def Field.name : Field → Text
  | .command => "COMMAND".toList
  | .timeout => "TIMEOUT".toList
  | .directory => "DIRECTORY".toList
  | .inputs => "INPUTS".toList
  | .headerDirectories => "HEADER_DIRECTORIES".toList

def Entry.value (entry : Entry) : Field → Text
  | .command => entry.command
  | .timeout => entry.timeout
  | .directory => entry.directory
  | .inputs => entry.inputs
  | .headerDirectories => entry.headerDirectories

/-- The variable of a property. -/
def proofVariable (name : Text) (field : Field) : Text :=
  "proof_".toList ++ (name ++ '_' :: field.name)

def Entry.settings (entry : Entry) : List Setting :=
  [Field.command, .timeout, .directory, .inputs, .headerDirectories].map fun field =>
    (proofVariable entry.name field, entry.value field)

/-- A project with its registrations, in the order of the calls. -/
structure Project where
  configuration : Configuration
  registrations : List Registration
  logDirectory : Text
  cacheDirectory : Text
  sharedInputs : List Text

namespace Project

variable (project : Project)

/-- The properties of all proofs, if each registration is accepted. -/
def register : Except Text (List Entry) :=
  project.registrations.foldlM project.configuration.addEsbmcProof []

def settingNames : List Text :=
  ["proofs".toList, "log_directory".toList, "cache_directory".toList, "executable".toList,
    "shared_inputs".toList]

def settings (entries : List Entry) : List Setting :=
  settingNames.zip [join (entries.map Entry.name), project.logDirectory, project.cacheDirectory,
    project.configuration.executable.val, join project.sharedInputs] ++
  entries.flatMap Entry.settings

def executedArguments (entries : List Entry) (name : Text) : Option (List Text) := do
  let settings ← readManifest (writeManifest (project.settings entries))
  let command ← settings.reverse.lookup (proofVariable name .command)
  pure (expand command)

end Project

section Settings

theorem writeSetting_ne_nil (setting : Setting) : writeSetting setting ≠ [] := by
  have hfront : "set(".toList ≠ [] := by decide
  exact List.append_ne_nil_of_left_ne_nil hfront _

variable {interpret : Text → Text} {setting : Setting} {settings : List Setting}

/-- A setting is read back as what its value is interpreted as. -/
theorem reads_writeSettingAs (hname : ' ' ∉ setting.1) (hcloses : Closes setting.2) :
    Reads (readSettingAs interpret) (writeSetting setting) (setting.1, interpret setting.2) := by
  have hvalue : Reads (interpret <$> readRaw) (quote setting.2) (interpret setting.2) :=
    (readRaw_quote hcloses).map interpret
  refine (reads_literal _).bind ((reads_before hname).bind (hvalue.bind ?_))
  rw [← List.append_nil (")\n".toList)]
  exact (reads_literal _).bind (Reads.pure _)

/-- A setting whose value is cut short makes the manifest ill formed. -/
theorem readSettingAs_of_cut (hname : ' ' ∉ setting.1) (hcloses : ¬Closes setting.2) (rest : Text) :
    readSettingAs interpret (writeSetting setting ++ rest) = none := by
  obtain ⟨value, others, hcut⟩ := readRaw_quote_cut hcloses (")\n".toList ++ rest)
  have htext : writeSetting setting ++ rest = "set(".toList ++
      (setting.1 ++ [' '] ++ (quote setting.2 ++ (")\n".toList ++ rest))) := by
    unfold writeSetting
    simp only [List.append_assoc]
  have hmap : (interpret <$> readRaw) (quote setting.2 ++ (")\n".toList ++ rest)) =
      some (interpret value, '=' :: others) := by
    change (readRaw _).bind (fun result => some (interpret result.1, result.2)) = _
    rw [hcut]
    rfl
  have hend : literal ")\n".toList ('=' :: others) = none := rfl
  rw [htext, readSettingAs, bind_of_some (reads_literal _ _), bind_of_some (reads_before hname _),
    bind_of_some hmap]
  exact bind_of_none hend

/-- A manifest whose settings close is read setting by setting. -/
theorem includeAs_writeManifest (hnames : ∀ setting ∈ settings, ' ' ∉ setting.1)
    (hcloses : ∀ setting ∈ settings, Closes setting.2) :
    includeAs interpret (writeManifest settings) =
      some (settings.map fun setting => (setting.1, interpret setting.2)) := by
  unfold includeAs writeManifest
  rw [reads_literal]
  exact readAll_flatMap_map
    (fun setting hmem => reads_writeSettingAs (hnames setting hmem) (hcloses setting hmem))
    fun setting _ => writeSetting_ne_nil setting

/-- One setting that does not close makes the whole file unreadable. -/
theorem includeAs_of_cut (hnames : ∀ setting ∈ settings, ' ' ∉ setting.1)
    (hcut : ∃ setting ∈ settings, ¬Closes setting.2) :
    includeAs interpret (writeManifest settings) = none := by
  obtain ⟨cut, hmem, hcloses⟩ := hcut
  unfold includeAs writeManifest
  rw [reads_literal]
  refine @readMany_eq_none _ _ _ (readSettingAs interpret) writeSetting
    (fun setting => (setting.1, interpret setting.2)) settings (fun setting hsetting => ?_)
    (fun setting _ => writeSetting_ne_nil setting)
    ⟨cut, hmem, readSettingAs_of_cut (hnames cut hmem) hcloses⟩ _
  by_cases hclosed : Closes setting.2
  · exact .inl (reads_writeSettingAs (hnames setting hsetting) hclosed)
  · exact .inr (readSettingAs_of_cut (hnames setting hsetting) hclosed)

/-- The manifest is read with converted line ends. -/
theorem readManifest_eq_includeAs (text : Text) : readManifest text = includeAs content text := by
  have hsetting : readSetting = readSettingAs content := by
    unfold readSetting readSettingAs
    have hbracket : readBracket = content <$> readRaw := by
      funext text
      rw [readBracket_eq_map]
      change _ = (readRaw text).bind fun result => some (content result.1, result.2)
      cases readRaw text <;> rfl
    rw [hbracket]
  unfold readManifest includeAs
  rewrite [hsetting]
  cases literal manifestHeader text with
  | none => rfl
  | some result => rfl

theorem space_not_mem_name {name : Text} (hname : isProofName name = true) : ' ' ∉ name := by
  intro hspace
  have hvalid := (Bool.and_eq_true_iff.mp hname).2
  exact absurd (List.all_eq_true.mp hvalid ' ' hspace) (by decide)

end Settings

section Registrations

variable {configuration : Configuration} {project : Project} {entries : List Entry}

/-- The names of accepted registrations are different. -/
theorem foldlM_addEsbmcProof {registrations : List Registration} {registered : List Entry}
    (h : registrations.foldlM configuration.addEsbmcProof registered = .ok entries)
    (hnodup : (registered.map Entry.name).Nodup) :
    entries = registered ++ registrations.map configuration.entry ∧
      (entries.map Entry.name).Nodup ∧ ∀ registration ∈ registrations,
        isPositive registration.unwind = true ∧ isProofName registration.name = true := by
  induction registrations generalizing registered with
  | nil =>
      obtain rfl : registered = entries := Except.ok.inj h
      exact ⟨by simp, hnodup, fun registration hmem => nomatch hmem⟩
  | cons registration registrations ih =>
      rw [List.foldlM_cons] at h
      cases hfirst : configuration.addEsbmcProof registered registration with
      | error message =>
          rw [hfirst] at h
          cases h
      | ok next =>
          rw [hfirst] at h
          obtain ⟨hunwind, hname, hnew, rfl⟩ := Configuration.addEsbmcProof_eq_ok hfirst
          obtain ⟨hentries, hnames, hrest⟩ := ih h (by
            rw [List.map_append, List.nodup_append]
            refine ⟨hnodup, by simp, fun name hmem other hother heq => ?_⟩
            rw [heq, List.mem_singleton.mp hother] at hmem
            exact hnew hmem)
          refine ⟨by rw [hentries]; simp, hnames, fun other hother => ?_⟩
          rcases List.mem_cons.mp hother with rfl | hmem
          · exact ⟨hunwind, hname⟩
          · exact hrest other hmem

/-- The properties of a project whose registrations are all accepted. -/
theorem register_eq_ok (h : project.register = .ok entries) :
    entries = project.registrations.map project.configuration.entry ∧
      (entries.map Entry.name).Nodup ∧ ∀ registration ∈ project.registrations,
        isPositive registration.unwind = true ∧ isProofName registration.name = true :=
  foldlM_addEsbmcProof h List.nodup_nil

/-- A setting belongs to the project, or to a proof. -/
theorem mem_settings_cases {setting : Setting} (h : setting ∈ project.settings entries) :
    setting.1 ∈ Project.settingNames ∨ ∃ entry ∈ entries, ∃ field,
      setting = (proofVariable entry.name field, entry.value field) := by
  rcases List.mem_append.mp h with hproject | hproof
  · exact .inl (List.of_mem_zip hproject).1
  · obtain ⟨entry, hentry, hmem⟩ := List.mem_flatMap.mp hproof
    obtain ⟨field, -, hfield⟩ := List.mem_map.mp hmem
    exact .inr ⟨entry, hentry, field, hfield.symm⟩

theorem space_not_mem_settings (hnames : ∀ entry ∈ entries, isProofName entry.name = true) :
    ∀ setting ∈ project.settings entries, ' ' ∉ setting.1 := by
  intro setting hsetting
  rcases mem_settings_cases hsetting with hproject | ⟨entry, hentry, field, rfl⟩
  · have hnone : ∀ name ∈ Project.settingNames, ' ' ∉ name := by decide
    exact hnone setting.1 hproject
  · have hname := space_not_mem_name (hnames entry hentry)
    have hfield : ' ' ∉ field.name := by cases field <;> decide
    have hfront : ' ' ∉ "proof_".toList := by decide
    unfold proofVariable
    rw [List.mem_append, List.mem_append, List.mem_cons]
    rintro (hmem | hmem | hmem | hmem)
    · exact hfront hmem
    · exact hname hmem
    · exact absurd hmem (by decide)
    · exact hfield hmem

/-- The variable of a command belongs to one proof and no other property. -/
theorem proofVariable_injective {name name' : Text} {field : Field}
    (h : proofVariable name' field = proofVariable name .command) :
    name' = name ∧ field = .command := by
  have htail := List.append_cancel_left h
  have hend : ∀ (front : Text) (field : Field),
      (front ++ '_' :: field.name).getLast? = field.name.getLast? := by
    intro front field
    have hne : field.name ≠ [] := by cases field <;> decide
    rw [List.append_cons, List.getLast?_append_of_ne_nil _ hne]
  have hlast : field.name.getLast? = Field.command.name.getLast? := by
    rw [← hend name' field, htail, hend]
  cases field with
  | command => exact ⟨List.append_cancel_right htail, rfl⟩
  | timeout => exact absurd hlast (by decide)
  | directory => exact absurd hlast (by decide)
  | inputs => exact absurd hlast (by decide)
  | headerDirectories => exact absurd hlast (by decide)

theorem eq_command_of_mem_settings {entry : Entry} (hnodup : (entries.map Entry.name).Nodup)
    (hentry : entry ∈ entries) {setting : Setting} (hsetting : setting ∈ project.settings entries)
    (hname : setting.1 = proofVariable entry.name .command) : setting.2 = entry.command := by
  rcases mem_settings_cases hsetting with hproject | ⟨other, hother, field, rfl⟩
  · have hnone : ∀ name ∈ Project.settingNames, ¬"proof_".toList <+: name := by decide
    rw [hname] at hproject
    unfold proofVariable at hproject
    exact absurd (List.prefix_append _ _) (hnone _ hproject)
  · obtain ⟨hnames, rfl⟩ := proofVariable_injective hname
    rw [List.inj_on_of_nodup_map hnodup hother hentry hnames]
    rfl

/-- A variable that is set more than once keeps a value that is always the same. -/
private theorem lookup_of_unique {settings : List Setting} {name value : Text}
    (hmem : (name, value) ∈ settings)
    (hunique : ∀ setting ∈ settings, setting.1 = name → setting.2 = value) :
    settings.lookup name = some value := by
  induction settings with
  | nil => cases hmem
  | cons setting settings ih =>
      by_cases hname : name = setting.1
      · rw [List.lookup_cons, beq_iff_eq.mpr hname]
        exact congrArg some (hunique setting List.mem_cons_self hname.symm)
      · rw [List.lookup_cons, beq_eq_false_iff_ne.mpr hname]
        refine ih ?_ fun other hother => hunique other (List.mem_cons_of_mem _ hother)
        refine (List.mem_cons.mp hmem).resolve_left ?_
        rintro rfl
        exact hname rfl

theorem names_of_register (h : project.register = .ok entries) :
    ∀ entry ∈ entries, isProofName entry.name = true := by
  obtain ⟨rfl, -, hvalid⟩ := register_eq_ok h
  intro entry hentry
  obtain ⟨registration, hmem, rfl⟩ := List.mem_map.mp hentry
  exact (hvalid registration hmem).2

theorem mem_settings_command {entry : Entry} (hentry : entry ∈ entries) :
    (proofVariable entry.name .command, entry.command) ∈ project.settings entries :=
  List.mem_append_right _ (List.mem_flatMap.mpr ⟨entry, hentry, List.mem_cons_self⟩)

/-- The runner reads the command of each proof, up to line ends. -/
theorem executedArguments_eq (h : project.register = .ok entries)
    (hcloses : ∀ setting ∈ project.settings entries, Closes setting.2) {entry : Entry}
    (hentry : entry ∈ entries) :
    project.executedArguments entries entry.name = some (expand (content entry.command)) := by
  obtain ⟨-, hnodup, -⟩ := register_eq_ok h
  have hlookup : ((project.settings entries).map fun setting =>
      (setting.1, content setting.2)).reverse.lookup (proofVariable entry.name .command) =
        some (content entry.command) := by
    refine lookup_of_unique ?_ fun setting hmem hname => ?_
    · exact List.mem_reverse.mpr (List.mem_map.mpr ⟨_, mem_settings_command hentry, rfl⟩)
    · obtain ⟨written, hwritten, rfl⟩ := List.mem_map.mp (List.mem_reverse.mp hmem)
      exact congrArg content (eq_command_of_mem_settings hnodup hentry hwritten hname)
  unfold Project.executedArguments
  rw [readManifest_eq_includeAs,
    includeAs_writeManifest (space_not_mem_settings (names_of_register h)) hcloses]
  change (List.lookup _ _).bind _ = _
  rw [hlookup]
  rfl

theorem executedArguments_of_cut (h : project.register = .ok entries)
    (hcut : ∃ setting ∈ project.settings entries, ¬Closes setting.2) (name : Text) :
    project.executedArguments entries name = none := by
  unfold Project.executedArguments
  rw [readManifest_eq_includeAs,
    includeAs_of_cut (space_not_mem_settings (names_of_register h)) hcut]
  rfl

end Registrations

end AdaptivePi.Esbmc
