import AdaptivePi.Esbmc.RunEsbmcProofs

namespace AdaptivePi.Esbmc

open Foundation

/-- Digests have a fixed width, which makes concatenations unambiguous. -/
theorem length_hexadecimal (width n : Nat) : (hexadecimal width n).length = width := by
  induction width generalizing n with
  | zero => rfl
  | succ width ih => rw [hexadecimal, List.length_append, ih, List.length_singleton]

theorem hexadecimal_digits (width n : Nat) :
    ∀ char ∈ hexadecimal width n, "0123456789abcdef".toList.contains char = true := by
  have hdigit : ∀ k < 16, "0123456789abcdef".toList.contains (Nat.digitChar k) = true := by
    decide
  induction width generalizing n with
  | zero => exact fun char hchar => nomatch hchar
  | succ width ih =>
      intro char hchar
      rcases List.mem_append.mp hchar with hhigh | hlow
      · exact ih (n / 16) char hhigh
      · rw [List.mem_singleton.mp hlow]
        exact hdigit _ (Nat.mod_lt n (by decide))

theorem Sha256.length_digest (sha : Sha256) (text : Text) : (sha.digest text).length = 64 :=
  length_hexadecimal 64 _

/-- No two of the texts have the same digest. -/
def Sha256.CollisionFree (sha : Sha256) (texts : List Text) : Prop :=
  ∀ text ∈ texts, ∀ text' ∈ texts, sha.digest text = sha.digest text' → text = text'

instance (sha : Sha256) (texts : List Text) : Decidable (sha.CollisionFree texts) :=
  inferInstanceAs (Decidable (∀ text ∈ texts, _))

section Inputs

variable (sha : Sha256)

def fileMark (files : FileSystem) (path : Path) : Text :=
  match files.read path with
  | some contents => sha.digest contents
  | none => "missing".toList

def fileLine (files : FileSystem) (path : Path) : Text :=
  path.val ++ ':' :: fileMark sha files path

def inputLines (files : FileSystem) (input : Path) : Text × List Text :=
  ("path:".toList ++ input.val, (inputFiles files input).map (fileLine sha files))

def hashedForInputs (files : FileSystem) (inputs : List Path) : List Text :=
  inputs.flatMap (fun input => (inputFiles files input).filterMap files.read) ++
    [hashContent sha files inputs]

variable {sha} {files files' : FileSystem}

theorem not_mem_digest {char : Char} (text : Text)
    (hchar : "0123456789abcdef".toList.contains char = false) : char ∉ sha.digest text := by
  intro hmem
  rw [hexadecimal_digits 64 _ char hmem] at hchar
  cases hchar

theorem not_mem_fileMark {char : Char} (path : Path)
    (hdigit : "0123456789abcdef".toList.contains char = false)
    (hmissing : char ∉ "missing".toList) : char ∉ fileMark sha files path := by
  unfold fileMark
  cases files.read path with
  | none => exact hmissing
  | some contents => exact not_mem_digest contents hdigit

theorem hashFile_eq (path : Path) :
    hashFile sha files path = fileLine sha files path ++ ['\n'] := by
  unfold hashFile fileLine fileMark
  cases files.read path with
  | none => simp
  | some contents => simp

/-- What is hashed for inputs is made of lines. -/
theorem hashContent_eq_unlines (inputs : List Path) :
    hashContent sha files inputs = unlines
      ((inputs.map (inputLines sha files)).flatMap fun lines => lines.1 :: lines.2) := by
  induction inputs with
  | nil => rfl
  | cons input inputs ih =>
      have hfiles : ∀ paths : List Path, paths.flatMap (hashFile sha files) =
          unlines (paths.map (fileLine sha files)) := by
        intro paths
        rw [unlines, List.flatMap_map]
        exact List.flatMap_congr fun path _ => hashFile_eq path
      have happend : ∀ left right : List Text,
          unlines (left ++ right) = unlines left ++ unlines right :=
        fun left right => List.flatMap_append ..
      rw [hashContent, List.flatMap_cons, ← hashContent, ih]
      unfold hashInput inputLines
      rw [hfiles, List.map_cons, List.flatMap_cons, happend, unlines_cons]
      simp

/-- The line of a file tells its path and its contents. -/
theorem fileLine_injective {path path' : Path}
    (h : fileLine sha files path = fileLine sha files' path') :
    path = path' ∧ fileMark sha files path = fileMark sha files' path' := by
  obtain ⟨hpath, hmark⟩ := append_cons_inj_right
    (not_mem_fileMark path (by decide) (by decide))
    (not_mem_fileMark path' (by decide) (by decide)) h
  exact ⟨Subtype.ext hpath, hmark⟩

theorem fileLine_head (path : Path) : (fileLine sha files path).head? = some '/' := by
  rw [fileLine, List.head?_append, path.property.1]
  rfl

theorem isSection_inputLines (input : Path) :
    IsSection (fun line : Text => line.head? = some 'p') (inputLines sha files input) := by
  refine ⟨rfl, fun line hline => ?_⟩
  obtain ⟨path, -, rfl⟩ := List.mem_map.mp hline
  dsimp only
  rw [fileLine_head]
  decide

theorem newline_not_mem_inputLines (inputs : List Path) :
    ∀ line ∈ (inputs.map (inputLines sha files)).flatMap (fun lines => lines.1 :: lines.2),
      '\n' ∉ line := by
  intro line hline
  obtain ⟨lines, hlines, hmem⟩ := List.mem_flatMap.mp hline
  obtain ⟨input, -, rfl⟩ := List.mem_map.mp hlines
  have hpath : ∀ path : Path, '\n' ∉ path.val :=
    fun path => path.not_mem_of_not_isPlain (by decide)
  rcases List.mem_cons.mp hmem with rfl | hmem
  · have hinput := hpath input
    unfold inputLines
    simp [hinput]
  · obtain ⟨path, -, rfl⟩ := List.mem_map.mp hmem
    have hfile := hpath path
    have hmark : '\n' ∉ fileMark sha files path :=
      not_mem_fileMark path (by decide) (by decide)
    simp [fileLine, hfile, hmark]

/-- The hashed string determines the inputs and the lines of each. -/
theorem hashContent_injective {inputs inputs' : List Path}
    (h : hashContent sha files inputs = hashContent sha files' inputs') :
    inputs = inputs' ∧ ∀ input ∈ inputs,
      (inputFiles files input).map (fileLine sha files) =
        (inputFiles files' input).map (fileLine sha files') := by
  rw [hashContent_eq_unlines, hashContent_eq_unlines] at h
  have hlines := sections_injective (by
    rintro lines hmem
    obtain ⟨input, -, rfl⟩ := List.mem_map.mp hmem
    exact isSection_inputLines input) (by
    rintro lines hmem
    obtain ⟨input, -, rfl⟩ := List.mem_map.mp hmem
    exact isSection_inputLines input)
    (unlines_injective (newline_not_mem_inputLines inputs) (newline_not_mem_inputLines inputs') h)
  have hinputs : inputs = inputs' := by
    have hheaders := congrArg (List.map fun lines : Text × List Text => lines.1) hlines
    rw [List.map_map, List.map_map] at hheaders
    refine List.map_injective_iff.mpr (fun path path' hpath => Subtype.ext ?_) hheaders
    exact List.append_cancel_left hpath
  subst hinputs
  exact ⟨rfl, fun input hinput => congrArg Prod.snd (List.map_inj_left.mp hlines input hinput)⟩

/-- Equal lines are of the same paths. -/
theorem map_fileLine_injective {paths paths' : List Path}
    (h : paths.map (fileLine sha files) = paths'.map (fileLine sha files')) : paths = paths' := by
  induction paths generalizing paths' with
  | nil => exact (List.map_eq_nil_iff.mp h.symm).symm
  | cons path paths ih =>
      cases paths' with
      | nil => cases h
      | cons path' paths' =>
          obtain ⟨hhead, htail⟩ := List.cons.inj h
          rw [(fileLine_injective hhead).1, ih htail]

/-- Marks that are equal stand for equal contents. -/
theorem read_eq_of_fileMark {texts : List Text} (hfree : sha.CollisionFree texts) {path : Path}
    (htexts : ∀ contents, files.read path = some contents → contents ∈ texts)
    (htexts' : ∀ contents, files'.read path = some contents → contents ∈ texts)
    (h : fileMark sha files path = fileMark sha files' path) :
    files.read path = files'.read path := by
  have hmissing : ∀ contents, sha.digest contents ≠ "missing".toList := by
    intro contents hdigest
    have hlength := sha.length_digest contents
    rw [hdigest] at hlength
    cases hlength
  unfold fileMark at h
  cases hread : files.read path with
  | none =>
      cases hread' : files'.read path with
      | none => rfl
      | some contents' =>
          rw [hread, hread'] at h
          exact absurd h.symm (hmissing contents')
  | some contents =>
      cases hread' : files'.read path with
      | none =>
          rw [hread, hread'] at h
          exact absurd h (hmissing contents)
      | some contents' =>
          rw [hread, hread'] at h
          rw [hfree contents (htexts contents hread) contents' (htexts' contents' hread') h]

theorem mem_inputFiles_of_read {input path : Path} (hpath : path = input ∨ input.Above path)
    (hread : (files.read path).isSome = true) : path ∈ inputFiles files input := by
  unfold inputFiles
  cases hdirectory : files.isDirectory input with
  | true =>
      rcases hpath with rfl | habove
      · rw [FileSystem.read_of_isDirectory hdirectory] at hread
        cases hread
      · simp [FileSystem.mem_glob, hread, habove]
  | false =>
      rcases hpath with rfl | habove
      · simp
      · rw [FileSystem.isDirectory_of_above habove hread] at hdirectory
        cases hdirectory

/-- The lines of a directory are not those of a file. -/
theorem isDirectory_eq_of_inputFiles {input : Path}
    (h : inputFiles files input = inputFiles files' input) :
    files.isDirectory input = files'.isDirectory input := by
  have hnot : ∀ files : FileSystem, files.isDirectory input = true →
      input ∉ inputFiles files input := by
    intro files hdirectory hmem
    rw [inputFiles, if_pos hdirectory] at hmem
    exact input.not_above_self (FileSystem.mem_glob.mp hmem).2.1
  have hmem : ∀ files : FileSystem, files.isDirectory input = false →
      input ∈ inputFiles files input := by
    intro files hdirectory
    simp [inputFiles, hdirectory]
  cases hdirectory : files.isDirectory input with
  | true =>
      cases hdirectory' : files'.isDirectory input with
      | true => rfl
      | false => exact absurd (h ▸ hmem files' hdirectory') (hnot files hdirectory)
  | false =>
      cases hdirectory' : files'.isDirectory input with
      | true => exact absurd (h ▸ hmem files hdirectory) (hnot files' hdirectory')
      | false => rfl

/-- Inputs with equal lines have the same files with the same contents. -/
theorem sameTree_of_inputLines {texts : List Text} (hfree : sha.CollisionFree texts) {input : Path}
    (htexts : ∀ path ∈ inputFiles files input, ∀ contents, files.read path = some contents →
      contents ∈ texts)
    (htexts' : ∀ path ∈ inputFiles files' input, ∀ contents, files'.read path = some contents →
      contents ∈ texts)
    (h : (inputFiles files input).map (fileLine sha files) =
      (inputFiles files' input).map (fileLine sha files')) :
    files.SameTree files' input := by
  have hfiles : inputFiles files input = inputFiles files' input :=
    map_fileLine_injective h
  refine ⟨isDirectory_eq_of_inputFiles hfiles, fun path hpath => ?_⟩
  by_cases hmem : path ∈ inputFiles files input
  · rw [hfiles] at h
    have hline := List.map_inj_left.mp h path (hfiles ▸ hmem)
    exact read_eq_of_fileMark hfree (htexts path hmem) (htexts' path (hfiles ▸ hmem))
      (fileLine_injective hline).2
  · have hnone : files.read path = none := by
      by_contra hread
      exact hmem (mem_inputFiles_of_read hpath (Option.isSome_iff_ne_none.mpr hread))
    have hnone' : files'.read path = none := by
      by_contra hread
      exact hmem (hfiles ▸ mem_inputFiles_of_read hpath (Option.isSome_iff_ne_none.mpr hread))
    rw [hnone, hnone']

/-- Inputs with equal digests have the same paths, with the same existence and
contents. -/
theorem hashInputs_injective {texts : List Text} (hfree : sha.CollisionFree texts)
    {inputs inputs' : List Path} (htexts : hashedForInputs sha files inputs ⊆ texts)
    (htexts' : hashedForInputs sha files' inputs' ⊆ texts)
    (h : hashInputs sha files inputs = hashInputs sha files' inputs') :
    inputs = inputs' ∧ ∀ input ∈ inputs, files.SameTree files' input := by
  have hcontent := hfree _ (htexts (by simp [hashedForInputs])) _
    (htexts' (by simp [hashedForInputs])) h
  obtain ⟨rfl, hlines⟩ := hashContent_injective hcontent
  refine ⟨rfl, fun input hinput => sameTree_of_inputLines hfree ?_ ?_ (hlines input hinput)⟩
  · intro path hpath contents hread
    refine htexts (List.mem_append_left _ (List.mem_flatMap.mpr ⟨input, hinput, ?_⟩))
    exact List.mem_filterMap.mpr ⟨path, hpath, hread⟩
  · intro path hpath contents hread
    refine htexts' (List.mem_append_left _ (List.mem_flatMap.mpr ⟨input, hinput, ?_⟩))
    exact List.mem_filterMap.mpr ⟨path, hpath, hread⟩

end Inputs

section Fingerprints

variable {settings settings' : ProofSettings} {shared shared' input input' : Text}

theorem semicolon_not_mem_timeout (timeout : Timeout) : ';' ∉ timeout.val := by
  intro hmem
  have hdigit := timeout.property.2 ';' hmem
  cases hdigit

/-- The parts of a fingerprint, in order, with semicolons between them. -/
theorem fingerprintContent_eq : settings.fingerprintContent shared input =
    "v1;".toList ++ (shared ++ ';' :: (input ++ ';' :: ((settings.command ++
      ';' :: settings.timeout.val) ++ ';' :: settings.directory.val))) := by
  have hsemicolon : ∀ text : Text, ";".toList ++ text = ';' :: text := fun _ => rfl
  unfold ProofSettings.fingerprintContent
  simp only [List.append_assoc, hsemicolon, List.cons_append]

/-- A fingerprint determines what it is the fingerprint of. -/
theorem fingerprintContent_injective (hshared : shared.length = shared'.length)
    (hinput : input.length = input'.length)
    (h : settings.fingerprintContent shared input = settings'.fingerprintContent shared' input') :
    shared = shared' ∧ input = input' ∧ settings.command = settings'.command ∧
      settings.timeout = settings'.timeout ∧ settings.directory = settings'.directory := by
  rw [fingerprintContent_eq, fingerprintContent_eq] at h
  obtain ⟨hsharedEq, htail⟩ := List.append_inj (List.append_cancel_left h) hshared
  obtain ⟨hinputEq, htail⟩ := List.append_inj (List.cons.inj htail).2 hinput
  have hdirectory : ∀ path : Path, ';' ∉ path.val :=
    fun path => path.not_mem_of_not_isPlain (by decide)
  obtain ⟨hleft, hdirectoryEq⟩ := append_cons_inj_right (hdirectory settings.directory)
    (hdirectory settings'.directory) (List.cons.inj htail).2
  obtain ⟨hcommand, htimeout⟩ := append_cons_inj_right (semicolon_not_mem_timeout settings.timeout)
    (semicolon_not_mem_timeout settings'.timeout) hleft
  exact ⟨hsharedEq, hinputEq, hcommand, Subtype.ext htimeout, Subtype.ext hdirectoryEq⟩

theorem slash_not_mem_name (name : ProofName) : '/' ∉ name.val := by
  intro hmem
  have hname := name.property.2 '/' hmem
  cases hname

/-- The path of a cached result determines its proof and its fingerprint. -/
theorem cachedLog_injective {directory directory' : Path} {name name' : ProofName}
    {fingerprint fingerprint' : Text} (hlength : fingerprint.length = fingerprint'.length)
    (h : cachedLog directory name fingerprint = cachedLog directory' name' fingerprint') :
    name = name' ∧ fingerprint = fingerprint' := by
  have hassoc : (directory.val ++ '/' :: name.val) ++ ('-' :: (fingerprint ++ ".log".toList)) =
      (directory'.val ++ '/' :: name'.val) ++ ('-' :: (fingerprint' ++ ".log".toList)) := by
    have hslash : ∀ text : Text, "/".toList ++ text = '/' :: text := fun _ => rfl
    have hdash : ∀ text : Text, "-".toList ++ text = '-' :: text := fun _ => rfl
    unfold cachedLog at h
    simpa only [List.append_assoc, hslash, hdash, List.cons_append] using h
  obtain ⟨hleft, hright⟩ := List.append_inj' hassoc (by simp [hlength])
  obtain ⟨-, hname⟩ := append_cons_inj_right (slash_not_mem_name name) (slash_not_mem_name name')
    hleft
  exact ⟨Subtype.ext hname, List.append_cancel_right (List.cons.inj hright).2⟩

end Fingerprints

end AdaptivePi.Esbmc
