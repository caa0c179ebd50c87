import AdaptivePi.Esbmc.ManifestFile

namespace AdaptivePi.Esbmc

open Foundation BracketArgument Reader

/-- The loop of `adaptive_pi_esbmc_write_setting`: an equal sign is added to the
delimiter as long as the closing bracket is found in the value. -/
inductive Delimits (value : Text) : Nat → Nat → Prop where
  | notFound {size : Nat} (hnot : ¬closing size <:+: value) : Delimits value size size
  | found {size final : Nat} (hfound : closing size <:+: value)
      (hrest : Delimits value (size + 1) final) : Delimits value size final

/-- The value ends with a bracket and equal signs, and the closing bracket with
as many of them is the shortest that the value does not contain. -/
def Clashes (value : Text) : Prop :=
  ∃ size, 1 ≤ size ∧ closingFront size <:+ value ∧
    (∀ smaller, 1 ≤ smaller → smaller < size → closing smaller <:+: value) ∧
    ¬closing size <:+: value

/-- The values that a bracket argument can carry as it is written. -/
def Preserved (value : Text) : Prop := ¬Clashes value ∧ value.head? ≠ some '\n'

section

variable {interpret : Text → Text} {value : Text} {setting : Setting} {settings : List Setting}

/-- The loop stops at the shortest delimiter that is not found. -/
theorem delimits_growSize {fuel size : Nat} (hfuel : value.length ≤ fuel + size) :
    Delimits value size (growSize value fuel size) := by
  induction fuel generalizing size with
  | zero => exact .notFound (not_closing_growSize hfuel)
  | succ fuel ih =>
      rw [growSize]
      by_cases hfound : closing size <:+: value
      · rw [if_pos hfound]
        exact .found hfound (ih (by omega))
      · rw [if_neg hfound]
        exact .notFound hfound

/-- The loop ends, with the delimiter that is written. -/
theorem delimits_sizeFor (value : Text) : Delimits value 1 (sizeFor value) :=
  delimits_growSize (by omega)

/-- The text and the bracket make up another bracket exactly in one way. -/
theorem closes_iff_not_clashes (value : Text) : Closes value ↔ ¬Clashes value := by
  unfold Clashes
  rw [← not_closes_iff, not_not]

theorem dropNewline_eq_self_iff (text : Text) :
    dropNewline text = text ↔ text.head? ≠ some '\n' := by
  unfold dropNewline
  split
  · rename_i rest
    have hlonger : rest ≠ '\n' :: rest := by
      intro heq
      have hlength := congrArg List.length heq
      rw [List.length_cons] at hlength
      omega
    simp [hlonger]
  · rename_i hother
    have hhead : text.head? ≠ some '\n' := by
      intro hhead
      obtain ⟨rest, rfl⟩ := List.head?_eq_some_iff.mp hhead
      exact hother rest rfl
    simp [hhead]

/-- What is read with converted line ends is the value, if it has none to convert
and no newline in front. -/
theorem content_eq_self_iff (text : Text) :
    content text = text ↔ text.head? ≠ some '\n' ∧ ¬['\r', '\n'] <:+: text := by
  have hdrop : ∀ text : Text, (dropNewline text).length ≤ text.length := by
    intro text
    unfold dropNewline
    split
    · simp
    · exact Nat.le_refl _
  constructor
  · intro hcontent
    have hshort := hdrop (unixLines text)
    have hunix := length_unixLines_le text
    have hlength := congrArg List.length hcontent
    unfold content at hlength
    have hreturn := @not_infix_of_length_unixLines text (by omega)
    rw [content, unixLines_eq_self hreturn, dropNewline_eq_self_iff] at hcontent
    exact ⟨hcontent, hreturn⟩
  · rintro ⟨hhead, hreturn⟩
    rw [content, unixLines_eq_self hreturn]
    exact (dropNewline_eq_self_iff text).mpr hhead

/-- Exactly the settings whose bracket closes and whose value stands for itself
are read back, wherever they stand in a file. -/
theorem readSettingAs_iff (hname : isProofName setting.1 = true) (rest : Text) :
    readSettingAs interpret (writeSetting setting ++ rest) = some (setting, rest) ↔
      Closes setting.2 ∧ interpret setting.2 = setting.2 := by
  by_cases hcloses : Closes setting.2
  · rw [reads_writeSettingAs (space_not_mem_name hname) hcloses rest]
    simp [hcloses, Prod.ext_iff]
  · rw [readSettingAs_of_cut (space_not_mem_name hname) hcloses]
    simp [hcloses]

/-- Settings are read back exactly if each closes and is interpreted as itself. -/
theorem includeAs_iff (hnames : ∀ setting ∈ settings, isProofName setting.1 = true) :
    includeAs interpret (writeManifest settings) = some settings ↔
      ∀ setting ∈ settings, Closes setting.2 ∧ interpret setting.2 = setting.2 := by
  have hspaces : ∀ setting ∈ settings, ' ' ∉ setting.1 := fun setting hmem =>
    space_not_mem_name (hnames setting hmem)
  by_cases hcloses : ∀ setting ∈ settings, Closes setting.2
  · rw [includeAs_writeManifest hspaces hcloses, Option.some.injEq]
    have hsame : (settings.map fun setting => (setting.1, interpret setting.2)) = settings ↔
        ∀ setting ∈ settings, interpret setting.2 = setting.2 := by
      have hmap := @List.map_inj_left _ _ settings
        (fun setting => (setting.1, interpret setting.2)) id
      rw [List.map_id] at hmap
      rw [hmap]
      exact forall₂_congr fun setting _ => by simp [Prod.ext_iff]
    rw [hsame]
    constructor
    · exact fun hall setting hmem => ⟨hcloses setting hmem, hall setting hmem⟩
    · exact fun hall setting hmem => (hall setting hmem).2
  · push Not at hcloses
    obtain ⟨cut, hmem, hcut⟩ := hcloses
    rw [includeAs_of_cut hspaces ⟨cut, hmem, hcut⟩]
    simp only [reduceCtorEq, false_iff]
    exact fun hall => hcut (hall cut hmem).1

/-- A newline at the start is dropped, a bracket at the end is completed. -/
theorem preserved_iff (value : Text) :
    Closes value ∧ dropNewline value = value ↔ Preserved value := by
  unfold Preserved
  rw [closes_iff_not_clashes, dropNewline_eq_self_iff]

/-- When line ends are translated, a carriage return before a newline is lost, too. -/
theorem preserved_unix_iff (value : Text) :
    Closes value ∧ content value = value ↔ Preserved value ∧ ¬['\r', '\n'] <:+: value := by
  unfold Preserved
  rw [closes_iff_not_clashes, content_eq_self_iff, and_assoc]

end

/-- The loop ends for every value, and the line that it writes sets the variable
to the value exactly when the value is preserved: read alone before any other
text, and in a manifest. Where line ends are converted when the file is read,
the value must not have any that are. -/
theorem write_setting_round_trip (value rest : Text) (settings : List (Text × Text)) :
    (∃ size, Delimits value 1 size ∧ ∀ name, writeSetting (name, value) =
      "set(".toList ++ name ++ " ".toList ++ opening size ++ value ++ closing size ++
        ")\n".toList) ∧
    (∀ name, isProofName name = true →
      (readSettingAs dropNewline (writeSetting (name, value) ++ rest) =
        some ((name, value), rest) ↔ Preserved value)) ∧
    ((∀ setting ∈ settings, isProofName setting.1 = true) →
      (includeAs dropNewline (writeManifest settings) = some settings ↔
        ∀ setting ∈ settings, Preserved setting.2) ∧
      (readManifest (writeManifest settings) = some settings ↔
        ∀ setting ∈ settings, Preserved setting.2 ∧ ¬['\r', '\n'] <:+: setting.2)) := by
  refine ⟨?_, ?_, ?_⟩
  · refine ⟨sizeFor value, delimits_sizeFor value, fun name => ?_⟩
    have hspace : " ".toList = [' '] := rfl
    unfold writeSetting quote
    rw [hspace]
    simp only [List.append_assoc]
  · intro name hname
    rw [@readSettingAs_iff _ (name, value) hname rest]
    exact preserved_iff value
  · intro hnames
    constructor
    · rw [includeAs_iff hnames]
      simp only [preserved_iff]
    · rw [readManifest_eq_includeAs, includeAs_iff hnames]
      simp only [preserved_unix_iff]

/-- A cache directory that ends like its closing bracket makes the manifest ill
formed, and a newline in front of a value is lost. -/
theorem setting_lost :
    includeAs dropNewline (writeManifest [("cache_directory".toList, "/cache]=".toList)]) = none ∧
      includeAs dropNewline (writeManifest [("cache_directory".toList, "\n/cache".toList)]) =
        some [("cache_directory".toList, "/cache".toList)] := by
  constructor
  · decide +kernel
  · decide +kernel

end AdaptivePi.Esbmc
