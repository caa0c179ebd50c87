import AdaptivePi.Yocto.InstallationRollback
import AdaptivePi.Yocto.ReleaseTransport

/-!
What the publisher makes of a build is what the installer installs: the two scripts agree
on names, checksum lines, manifest and archive. The host and the release are a parameter,
about which it is supposed that no command fails and that a download finds the asset.
-/

namespace AdaptivePi.Yocto

open Foundation Foundation.PythonText Script

variable {Content : Type}

/-- What a command answers and does, unless it fails. -/
abbrev HostAnswer (Content : Type) := Machine Content → (command : InstallCommand Content) →
  Option (InstallOutput Content command × Machine Content)

/-- A name under which an asset is kept and found. GitHub renames others, and they may
not be part of an address as they are. -/
def isAssetName (name : Text) : Bool :=
  name.all isRepositoryChar && (name ≠ [] && name.head? ≠ some '.')

/-- The file that a command reads is there. What a download finds is another question. -/
def Machine.IsReady (machine : Machine Content) : InstallCommand Content → Prop
  | .fetch _ _ => False
  | .read name => (machine.stage name).isSome
  | .copyManifest => (machine.stage manifestName).isSome
  | .runInstaller name => (machine.stage name).isSome
  | _ => True

section Definitions

variable (packer : Packer Content) (options : InstallOptions) (package : Package Content)

/-- A host on which no command fails, with the release of a package. -/
structure ServesRelease (answer : HostAnswer Content) : Prop where
  responds : ∀ {machine command out after}, answer machine command = some (out, after) →
    machine.Responds command (.ok out) after
  succeeds : ∀ machine command, machine.IsReady command → ∃ out after,
    answer machine command = some (out, after)
  /-- The tools of the host are found. -/
  finds : ∀ machine, ∀ tool ∈ tools, ∀ found after,
    answer machine (.which tool) = some (found, after) → found = true
  /-- An asset is found at its address, and is downloaded whole. -/
  delivers : ∀ machine name file, (name, file) ∈ package.assets packer → isAssetName name = true →
    answer machine (.fetch (url options name) name) = some ((), machine.writeStage name (some file))
  /-- The SDK installer writes its environment script. -/
  installs : ∀ machine name after, answer machine (.runInstaller name) = some ((), after) →
    machine.stage name = some package.sdk → after.sdk.any (·.environment) = true

def incompatible : Raised :=
  .error (.valueError "Release manifest has incompatible or uncommitted platform metadata".toList)

def unexpectedArchive : Raised :=
  .error (.valueError "Unexpected or unsafe platform archive contents".toList)

/-- What becomes of an installation, in the order in which it looks at a package. -/
def Package.verdict : Except Raised Unit :=
  if package.dirty = true then .error incompatible
  else if package.files.any (fun file => packer.size file.2 = 0) = true then .error unexpectedArchive
  else .ok ()

def Machine.withAsset (machine : Machine Content) (asset : Text × Content) : Machine Content :=
  (machine.writeStage asset.1 (some asset.2)).writeStage (asset.1 ++ ".sha256".toList)
    (some (packer.encode (Package.checksumLine packer asset.1 asset.2)))

def Machine.withPackage (machine : Machine Content) : Machine Content :=
  ((machine.withAsset packer (manifestName, package.manifestFile packer)).withAsset packer
    (package.bundleName, package.bundle packer)).withAsset packer (package.sdkInstaller, package.sdk)

end Definitions

section Names

variable {packer : Packer Content} {package : Package Content} {name : Text} {file : Content}

theorem isDigit_of_isVersionNumber {number : Text} (h : isVersionNumber number = true) :
    ∀ char ∈ number, char.isDigit = true := by
  cases number with
  | nil => cases h
  | cons first rest =>
      rw [isVersionNumber] at h
      split at h
      · rename_i hzero
        rw [hzero, of_decide_eq_true h]
        exact List.forall_mem_singleton.mpr rfl
      · obtain ⟨hfirst, hrest⟩ := (Bool.and_eq_true _ _).mp h
        exact List.forall_mem_cons.mpr ⟨hfirst, List.all_eq_true.mp hrest⟩

/-- A character at which a text is not split is in one of the parts. -/
theorem exists_mem_splitOnP (isEnd : Char → Bool) {text : Text} {char : Char} (hchar : char ∈ text)
    (hend : isEnd char = false) : ∃ part ∈ text.splitOnP isEnd, char ∈ part := by
  induction text with
  | nil => cases hchar
  | cons first text ih =>
      obtain ⟨head, tail, hsplit⟩ := List.exists_cons_of_ne_nil (List.splitOnP_ne_nil isEnd text)
      rw [List.splitOnP_cons_eq_if_modifyHead, hsplit]
      rw [hsplit] at ih
      rcases List.mem_cons.mp hchar with rfl | hrest
      · rw [if_neg (by rw [hend]; decide)]
        exact ⟨char :: head, List.mem_cons_self, List.mem_cons_self⟩
      · obtain ⟨part, hpart, hmem⟩ := ih hrest
        split
        · exact ⟨part, List.mem_cons_of_mem _ hpart, hmem⟩
        · rw [List.modifyHead_cons]
          rcases List.mem_cons.mp hpart with rfl | hpart
          · exact ⟨first :: part, List.mem_cons_self, List.mem_cons_of_mem _ hmem⟩
          · exact ⟨part, List.mem_cons_of_mem _ hpart, hmem⟩

/-- The characters of a version. -/
theorem mem_version {version : Text} (h : isStableVersion version = true) {char : Char}
    (hchar : char ∈ version) : char = 'v' ∨ char = '.' ∨ char.isDigit = true := by
  cases version with
  | nil => cases hchar
  | cons first rest =>
      simp only [isStableVersion, Bool.and_eq_true, decide_eq_true_eq, List.all_eq_true] at h
      obtain ⟨⟨hfirst, -⟩, hnumbers⟩ := h
      rcases List.mem_cons.mp hchar with rfl | hrest
      · exact .inl hfirst
      · by_cases hdot : char = '.'
        · exact .inr (.inl hdot)
        · obtain ⟨number, hnumber, hmem⟩ := exists_mem_splitOnP (· == '.') hrest (by simpa using hdot)
          exact .inr (.inr (isDigit_of_isVersionNumber (hnumbers number hnumber) char hmem))

/-- No blank is in the name of an asset. -/
theorem not_isSpace_of_isAssetName (h : isAssetName name = true) :
    ∀ char ∈ name, isSpace char = false := by
  have hmarks : ∀ char ∈ "_.-".toList, isSpace char = false := List.all_iff_forall_prop.mp rfl
  obtain ⟨hall, -⟩ := (Bool.and_eq_true _ _).mp h
  intro char hchar
  rcases (Bool.or_eq_true _ _).mp (List.all_eq_true.mp hall char hchar) with halphanum | hmark
  · exact isSpace_of_isAlphanum halphanum
  · exact hmarks char (List.contains_iff_mem.mp hmark)

theorem not_mem_slash_of_isAssetName (h : isAssetName name = true) : '/' ∉ name := by
  obtain ⟨hall, -⟩ := (Bool.and_eq_true _ _).mp h
  intro hslash
  exact absurd (List.all_eq_true.mp hall '/' hslash) (by decide)

theorem ne_nil_of_isAssetName (h : isAssetName name = true) : name ≠ [] := by
  rintro rfl
  cases h

theorem isAssetName_append {suffix : Text} (h : isAssetName name = true)
    (hsuffix : suffix.all isRepositoryChar = true) : isAssetName (name ++ suffix) = true := by
  have hname := ne_nil_of_isAssetName h
  obtain ⟨hall, hrest⟩ := (Bool.and_eq_true _ _).mp h
  obtain ⟨-, hhead⟩ := (Bool.and_eq_true _ _).mp hrest
  have hne : name ++ suffix ≠ [] := List.append_ne_nil_of_left_ne_nil hname _
  rw [isAssetName, List.all_append, hall, hsuffix, List.head?_append_of_ne_nil _ hname, hhead,
    decide_eq_true hne]
  rfl

theorem isAssetName_checksum (h : isAssetName name = true) :
    isAssetName (name ++ ".sha256".toList) = true :=
  isAssetName_append h (by decide)

/-- The name of the archive is plain, whatever the version is. -/
theorem isAssetName_bundleName (h : package.IsWellFormed) : isAssetName package.bundleName = true := by
  have hbefore : isAssetName "adaptive-pi-platform-".toList = true := by decide
  have hafter : "-qemuarm64.tar.gz".toList.all isRepositoryChar = true := by decide
  have hversion : package.version.all isRepositoryChar = true := by
    apply List.all_eq_true.mpr
    intro char hchar
    rcases mem_version h.version hchar with rfl | rfl | hdigit
    · decide
    · decide
    · simp [isRepositoryChar, Char.isAlphanum, hdigit]
  exact isAssetName_append (isAssetName_append hbefore hversion) hafter

theorem isSafeName_of_not_mem (hslash : '/' ∉ name) (hdot : name.getLast? ≠ some '.') :
    isSafeName name = true := by
  simp only [isSafeName, Bool.and_eq_true, Bool.not_eq_true', decide_eq_true_eq]
  refine ⟨⟨?_, ?_⟩, ?_⟩
  · rw [← Bool.not_eq_true, List.contains_iff_mem]
    exact hslash
  · rintro rfl
    exact hdot rfl
  · rintro rfl
    exact hdot rfl

theorem isSafeName_checksum (hslash : '/' ∉ name) : isSafeName (name ++ ".sha256".toList) = true := by
  apply isSafeName_of_not_mem
  · rw [List.mem_append, not_or]
    exact ⟨hslash, by decide⟩
  · rw [getLast_checksumName]
    decide

/-- What is known of the name of a main asset. -/
theorem name_of_mem (h : package.IsWellFormed) (hasset : (name, file) ∈ package.mainAssets packer) :
    name ≠ [] ∧ '/' ∉ name ∧ name.getLast? ≠ some '.' ∧
      (isAssetName package.sdkInstaller = true → isAssetName name = true) := by
  have hname : name = package.bundleName ∨ name = package.sdkInstaller ∨ name = manifestName := by
    simp only [Package.mainAssets, List.mem_cons, Prod.mk.injEq, List.not_mem_nil, or_false] at hasset
    rcases hasset with ⟨rfl, -⟩ | ⟨rfl, -⟩ | ⟨rfl, -⟩
    · exact .inl rfl
    · exact .inr (.inl rfl)
    · exact .inr (.inr rfl)
  have hnonempty : ∀ {text : Text} {char : Char}, text.getLast? = some char → text ≠ [] := by
    rintro text char hlast rfl
    cases hlast
  rcases hname with rfl | rfl | rfl
  · have hlast := getLast_bundleName package
    have hplain := isAssetName_bundleName h
    refine ⟨hnonempty hlast, ?_, ?_, fun _ => hplain⟩
    · exact not_mem_slash_of_isAssetName hplain
    · rw [hlast]
      decide
  · refine ⟨hnonempty h.getLast_sdkInstaller, h.slash, ?_, id⟩
    rw [h.getLast_sdkInstaller]
    decide
  · exact ⟨by decide, by decide, by decide, fun _ => by decide⟩

end Names

section Host

variable {packer : Packer Content} {options : InstallOptions} {package : Package Content}
  {answer : HostAnswer Content} {machine machine' : Machine Content}

namespace ServesRelease

variable (hserves : ServesRelease packer options package answer)

include hserves

/-- A command whose answer and effect are determined succeeds with these. -/
theorem execute_give {command : InstallCommand Content} {value : InstallOutput Content command}
    (hready : machine.IsReady command) (honly : ∀ out after,
      machine.Responds command (.ok out) after → out = value ∧ after = machine') :
    execute answer (give command) machine = some (.ok value, machine') := by
  obtain ⟨out, after, hanswer⟩ := hserves.succeeds machine command hready
  obtain ⟨rfl, rfl⟩ := honly out after (hserves.responds hanswer)
  rw [give, execute_perform, hanswer]
  rfl

theorem execute_which {tool : Text} (htool : tool ∈ tools) :
    execute answer (give (.which tool)) machine = some (.ok true, machine) := by
  obtain ⟨found, after, hanswer⟩ := hserves.succeeds machine (.which tool) trivial
  have hfound := hserves.finds machine tool htool found after hanswer
  have hafter : after = machine := hserves.responds hanswer
  rw [give, execute_perform, hanswer, hfound, hafter]
  rfl

theorem execute_print {message : Text} :
    execute answer (give (.print message)) machine = some (.ok (), machine) :=
  hserves.execute_give trivial fun _ _ h => ⟨rfl, h⟩

theorem execute_read {name : Text} {file : Content} (hfile : machine.stage name = some file) :
    execute answer (give (.read name)) machine = some (.ok file, machine) := by
  refine hserves.execute_give (Option.isSome_of_eq_some hfile) fun out after h => ⟨?_, h.2⟩
  exact Option.some.inj (h.1.symm.trans hfile)

/-- The SDK installer writes the SDK of the package. -/
theorem execute_runInstaller {name : Text} (hsdk : machine.stage name = some package.sdk) :
    execute answer (give (.runInstaller name)) machine =
      some (.ok (), { machine with sdk := some ⟨package.sdk, true⟩ }) := by
  obtain ⟨out, after, hanswer⟩ :=
    hserves.succeeds machine (.runInstaller name) (Option.isSome_of_eq_some hsdk)
  have henvironment := hserves.installs machine name after hanswer hsdk
  obtain ⟨sdk, rfl, hsource⟩ := hserves.responds hanswer
  obtain ⟨⟨installer, environment⟩, rfl, htrue⟩ := (Option.any_eq_true _ _).mp henvironment
  obtain rfl : environment = true := htrue
  obtain rfl := Option.some.inj ((hsource _ rfl).symm.trans hsdk)
  rw [give, execute_perform, hanswer]
  rfl

end ServesRelease

theorem execute_pureCode {α : Type} {result : Except PythonError α} :
    execute answer (pureCode result) machine =
      some (match result with
        | .ok value => .ok value
        | .error error => .error (.error error), machine) := by
  cases result with
  | ok value => exact execute_pure
  | error error => exact execute_raise

end Host

section Steps

variable {packer : Packer Content} {options : InstallOptions} {package : Package Content}
  {answer : HostAnswer Content} {machine : Machine Content} {name : Text} {file : Content}
  (hserves : ServesRelease packer options package answer)

include hserves

theorem execute_download (hsafe : isSafeName name = true) (hplain : isAssetName name = true)
    (hasset : (name, file) ∈ package.assets packer) :
    execute answer (download options name) machine =
      some (.ok (), machine.writeStage name (some file)) := by
  have hfetch : execute answer (give (.fetch (url options name) name)) machine =
      some (.ok (), machine.writeStage name (some file)) := by
    rw [give, execute_perform, hserves.delivers machine name file hasset hplain]
    rfl
  unfold download
  rw [expect, hsafe]
  refine (execute_bind_ok execute_require).trans ?_
  rw [execute_bind_ok hserves.execute_print]
  exact hfetch

/-- A file is verified by the line that the publisher has written. -/
theorem execute_verify (hlawful : packer.IsLawful) (hname : name ≠ [])
    (hspace : ∀ char ∈ name, isSpace char = false) (hfile : machine.stage name = some file)
    (hchecksum : machine.stage (name ++ ".sha256".toList) =
      some (packer.encode (Package.checksumLine packer name file))) :
    execute answer (verify packer.library name) machine =
      some (.ok (packer.library.sha256 file), machine) := by
  unfold verify
  rw [execute_bind_ok (hserves.execute_read hchecksum), hlawful.readText_encode]
  refine (execute_bind_ok execute_pureCode).trans ?_
  rw [universalNewlines_eq_self (not_mem_return_checksumLine hlawful file hspace),
    listedDigest_checksumLine hlawful file hname hspace]
  refine (execute_bind_ok execute_pureCode).trans ?_
  rw [execute_bind_ok (hserves.execute_read hfile)]
  simp [expect, execute_bind]

/-- A main asset is downloaded with its checksum file. -/
theorem execute_fetchVerified (hlawful : packer.IsLawful) (h : package.IsWellFormed)
    (hasset : (name, file) ∈ package.mainAssets packer) (hplain : isAssetName name = true) :
    execute answer (fetchVerified packer.library options name) machine =
      some (.ok (packer.library.sha256 file), machine.withAsset packer (name, file)) := by
  obtain ⟨hne, hslash, hdot, -⟩ := name_of_mem h hasset
  have hchecksum : Package.checksumAsset packer (name, file) ∈ package.assets packer :=
    List.mem_append_right _ (List.mem_map_of_mem hasset)
  have hkept : (machine.withAsset packer (name, file)).stage name = some file :=
    (Function.update_of_ne (ne_checksumName name) _ _).trans (Function.update_self ..)
  unfold fetchVerified
  rw [execute_bind_ok (execute_download hserves (isSafeName_of_not_mem hslash hdot) hplain
      (List.mem_append_left _ hasset)),
    execute_bind_ok (execute_download hserves (isSafeName_checksum hslash)
      (isAssetName_checksum hplain) hchecksum)]
  exact execute_verify hserves hlawful hne (not_isSpace_of_isAssetName hplain) hkept
    (Function.update_self ..)

omit hserves in
theorem withAsset_stage_ne {other : Text} (hname : other ≠ name)
    (hchecksum : other ≠ name ++ ".sha256".toList) :
    (machine.withAsset packer (name, file)).stage other = machine.stage other :=
  (Function.update_of_ne hchecksum _ _).trans (Function.update_of_ne hname _ _)

omit hserves in
theorem withAsset_stage : (machine.withAsset packer (name, file)).stage name = some file :=
  (Function.update_of_ne (ne_checksumName name) _ _).trans (Function.update_self ..)

/-- An asset that the manifest lists is downloaded and verified. -/
theorem execute_fetchListed (hlawful : packer.IsLawful) (h : package.IsWellFormed)
    (hasset : (name, file) ∈ package.mainAssets packer) (hplain : isAssetName name = true)
    {manifest : Json} {nameKey digestKey message : String}
    (hname : manifest.subscript nameKey.toList = .ok (.string name))
    (hdigest : manifest.subscript digestKey.toList = .ok (.string (packer.library.sha256 file))) :
    execute answer (fetchListed packer.library options manifest nameKey digestKey message) machine =
      some (.ok name, machine.withAsset packer (name, file)) := by
  have hassetName : assetName manifest nameKey.toList = .ok name := by
    unfold assetName
    rw [hname]
    rfl
  have hsame : decide (packer.library.sha256 file ≠ packer.library.sha256 file) = false := by simp
  unfold fetchListed
  rw [hassetName]
  refine (execute_bind_ok execute_pureCode).trans ?_
  rw [execute_bind_ok (execute_fetchVerified hserves hlawful h hasset hplain), differs_eq hdigest, hsame]
  exact (execute_bind_ok execute_pureCode).trans rfl

theorem execute_extractAll (members : List (Member Content)) :
    execute answer (extractAll members) machine =
      some (.ok (), { machine with extracted :=
        machine.extracted ++ members.map fun member => (member.name, member.contents) }) := by
  induction members generalizing machine with
  | nil =>
      rw [List.map_nil, List.append_nil]
      rfl
  | cons member members ih =>
      have hextract : execute answer (give (.extract member)) machine =
          some (.ok (), machine.addExtracted member.name member.contents) :=
        hserves.execute_give trivial fun _ _ h => ⟨rfl, h⟩
      unfold extractAll
      rw [execute_bind_ok hextract, ih]
      simp [Machine.addExtracted]

omit hserves in
/-- The names of the publisher are those of the installer. -/
theorem packagedNames_eq : packagedNames = expectedMembers := by decide

omit hserves in
/-- The archive of a package is as expected if no file of it is empty. -/
theorem areExpected_files (h : package.IsWellFormed) :
    areExpected (package.files.map fun file =>
      (⟨file.1, true, packer.size file.2, file.2⟩ : Member Content)) =
        !package.files.any fun file => packer.size file.2 = 0 := by
  have hnames : (package.files.map fun file =>
      (⟨file.1, true, packer.size file.2, file.2⟩ : Member Content)).map (·.name) = expectedMembers := by
    rw [List.map_map, ← packagedNames_eq, ← h.names]
    rfl
  have hlength : package.files.length = expectedMembers.length := by
    rw [← packagedNames_eq, ← h.names, List.length_map]
  have hcontains : expectedMembers.all (expectedMembers.contains ·) = true :=
    List.all_eq_true.mpr fun name hname => List.contains_iff_mem.mpr hname
  unfold areExpected
  rw [hnames, hcontains, List.length_map, decide_eq_true hlength, List.all_map, List.not_any_eq_all_not]
  simp only [Bool.true_and]
  congr 1
  funext file
  simp [Nat.pos_iff_ne_zero]

/-- The archive is extracted, unless one of its files is empty. -/
theorem execute_extractPlatform (hlawful : packer.IsLawful) (h : package.IsWellFormed)
    (harchive : machine.stage package.bundleName = some (package.bundle packer))
    (hmanifest : machine.stage manifestName = some (package.manifestFile packer)) :
    ∃ extracted, execute answer (extractPlatform packer.library package.bundleName) machine =
      some (if package.files.any (fun file => packer.size file.2 = 0) = true then
          .error unexpectedArchive else .ok (), { machine with extracted := extracted }) ∧
      (package.files.any (fun file => packer.size file.2 = 0) = false →
        extracted = package.platformFiles packer) := by
  have hcleared : execute answer (give .makeDirectory) machine =
      some (.ok (), { machine with extracted := [] }) :=
    hserves.execute_give trivial fun _ _ h => ⟨rfl, h⟩
  have hread : execute answer (give (.read package.bundleName)) { machine with extracted := [] } =
      some (.ok (package.bundle packer), _) := hserves.execute_read harchive
  have hmembers := hlawful.members_archive _ h.names
  unfold extractPlatform
  rw [execute_bind_ok hcleared, execute_bind_ok hread, Package.bundle, hmembers]
  dsimp only
  cases hempty : package.files.any fun file => packer.size file.2 = 0 with
  | true =>
      refine ⟨[], execute_bind_error ?_, fun hfalse => nomatch hfalse⟩
      rw [expect, areExpected_files h, hempty]
      exact execute_require
  | false =>
      refine ⟨package.platformFiles packer, ?_, fun _ => rfl⟩
      have hexpect : execute answer
          (expect (areExpected (package.files.map fun file =>
            (⟨file.1, true, packer.size file.2, file.2⟩ : Member Content)))
            "Unexpected or unsafe platform archive contents".toList)
          { machine with extracted := [] } = some (.ok (), { machine with extracted := [] }) := by
        rw [expect, areExpected_files h, hempty]
        exact execute_require
      rw [execute_bind_ok hexpect, execute_bind_ok (execute_extractAll hserves _)]
      refine hserves.execute_give (Option.isSome_of_eq_some hmanifest) ?_
      rintro out after ⟨file, hfile, rfl⟩
      obtain rfl := Option.some.inj (hfile.symm.trans hmanifest)
      refine ⟨rfl, ?_⟩
      simp [Machine.addExtracted, Package.platformFiles, Function.comp_def]

end Steps

section Installation

variable {packer : Packer Content} {options : InstallOptions} {package : Package Content}
  {answer : HostAnswer Content} {machine : Machine Content}

/-- What is left before the SDK installer is run. -/
def LeavesPrepared (packer : Packer Content) (package : Package Content) (machine : Machine Content)
    (result : Except Raised Text) (after : Machine Content) : Prop :=
  machine.Agrees after ∧ match package.verdict packer with
    | .ok _ => result = .ok package.sdkInstaller ∧
        after.stage package.sdkInstaller = some package.sdk ∧
        after.extracted = package.platformFiles packer
    | .error error => result = .error error

theorem withPackage_stage (h : package.IsWellFormed) :
    (machine.withPackage packer package).stage manifestName = some (package.manifestFile packer) ∧
    (machine.withPackage packer package).stage package.bundleName = some (package.bundle packer) ∧
    (machine.withPackage packer package).stage package.sdkInstaller = some package.sdk := by
  unfold Machine.withPackage
  refine ⟨?_, ?_, withAsset_stage⟩
  · rw [withAsset_stage_ne h.manifest_ne_sdk (manifest_ne_checksum _),
      withAsset_stage_ne package.manifest_ne_bundle (manifest_ne_checksum _)]
    exact withAsset_stage
  · rw [withAsset_stage_ne h.bundle_ne_sdk (package.bundle_ne_checksum _)]
    exact withAsset_stage

variable (hserves : ServesRelease packer options package answer)

include hserves

/-- The preparation ends as the package says. -/
theorem execute_prepare (hlawful : packer.IsLawful) (h : package.IsWellFormed)
    (hplain : isAssetName package.sdkInstaller = true) (hversion : package.version = options.version) :
    ∃ result after, execute answer (prepare packer.library options) machine = some (result, after) ∧
      LeavesPrepared packer package machine result after := by
  obtain ⟨-, -, -, -, -, -, hbundle, hbundleDigest, hsdk, hsdkDigest⟩ :=
    @subscripts_manifest _ packer package
  have hmanifestAsset : (manifestName, package.manifestFile packer) ∈ package.mainAssets packer := by
    simp [Package.mainAssets]
  have hbundleAsset : (package.bundleName, package.bundle packer) ∈ package.mainAssets packer := by
    simp [Package.mainAssets]
  have hsdkAsset : (package.sdkInstaller, package.sdk) ∈ package.mainAssets packer := by
    simp [Package.mainAssets]
  have hfirst : execute answer (fetchVerified packer.library options manifestName) machine = _ :=
    execute_fetchVerified hserves hlawful h hmanifestAsset (by decide)
  have hmanifestFile := @withAsset_stage _ packer machine manifestName (package.manifestFile packer)
  unfold prepare
  rw [execute_bind_ok hfirst, execute_bind_ok (hserves.execute_read hmanifestFile),
    readManifest_manifestFile hlawful h]
  unfold LeavesPrepared Package.verdict
  cases hdirty : package.dirty with
  | true =>
      rw [if_neg (by simp), if_pos rfl]
      exact ⟨_, _, execute_bind_error execute_pureCode, ⟨rfl, rfl⟩, rfl⟩
  | false =>
      rw [if_pos ⟨hversion, rfl⟩, if_neg Bool.false_ne_true]
      have haccepted : execute answer (pureCode (.ok (package.manifest packer)))
          (machine.withAsset packer (manifestName, package.manifestFile packer)) =
            some (.ok (package.manifest packer), _) := execute_pureCode
      rw [execute_bind_ok haccepted,
        execute_bind_ok (execute_fetchListed hserves hlawful h hbundleAsset (isAssetName_bundleName h)
          hbundle hbundleDigest),
        execute_bind_ok (execute_fetchListed hserves hlawful h hsdkAsset hplain hsdk hsdkDigest)]
      obtain ⟨hmanifestKept, harchive, hinstaller⟩ := @withPackage_stage _ packer package machine h
      obtain ⟨extracted, hextract, hfull⟩ :=
        execute_extractPlatform hserves hlawful h harchive hmanifestKept
      cases hempty : package.files.any fun file => decide (packer.size file.2 = 0) with
      | true =>
          rw [hempty, if_pos rfl] at hextract
          exact ⟨_, _, execute_bind_error hextract, ⟨rfl, rfl⟩, rfl⟩
      | false =>
          rw [hempty, if_neg Bool.false_ne_true] at hextract
          exact ⟨_, _, execute_bind_ok hextract, ⟨rfl, rfl⟩, rfl, hinstaller, hfull hempty⟩

/-- The last steps, with an installer that succeeds. -/
theorem execute_installBoth (hinstaller : machine.stage package.sdkInstaller = some package.sdk) :
    execute answer (installBoth package.sdkInstaller) machine =
      some (.ok (), { machine with sdk := some ⟨package.sdk, true⟩ }.replacePlatform) := by
  have hthere : execute answer (give .environmentExists)
      { machine with sdk := some ⟨package.sdk, true⟩ } = some (.ok true, _) :=
    hserves.execute_give trivial fun _ _ h => h
  have hmove : execute answer (give .movePlatform) { machine with sdk := some ⟨package.sdk, true⟩ } =
      some (.ok (), { machine with sdk := some ⟨package.sdk, true⟩ }.replacePlatform) :=
    hserves.execute_give trivial fun _ _ h => ⟨rfl, h⟩
  unfold installBoth
  rw [execute_bind_ok (hserves.execute_runInstaller hinstaller), execute_bind_ok hthere]
  exact (execute_bind_ok execute_require).trans hmove

/-- Nothing is installed unless the preparation succeeds. -/
theorem execute_stageAndInstall (hlawful : packer.IsLawful) (h : package.IsWellFormed)
    (hplain : isAssetName package.sdkInstaller = true) (hversion : package.version = options.version) :
    ∃ after, execute answer (stageAndInstall packer.library options) machine =
        some (package.verdict packer, after) ∧
      (package.verdict packer = .ok () → after.sdk = some ⟨package.sdk, true⟩ ∧
        after.platform = some (package.platformFiles packer)) ∧
      (package.verdict packer ≠ .ok () → machine.Agrees after) := by
  obtain ⟨result, prepared, hprepare, hagrees, hresult⟩ : ∃ result after,
      execute answer (prepare packer.library options) machine = some (result, after) ∧
        LeavesPrepared packer package machine result after :=
    execute_prepare hserves hlawful h hplain hversion
  unfold stageAndInstall
  cases hverdict : package.verdict packer with
  | error error =>
      rw [hverdict] at hresult
      subst hresult
      exact ⟨prepared, execute_bind_error hprepare, nofun, fun _ => hagrees⟩
  | ok done =>
      rw [hverdict] at hresult
      obtain ⟨rfl, hinstaller, hextracted⟩ := hresult
      refine ⟨{ prepared with sdk := some ⟨package.sdk, true⟩ }.replacePlatform, ?_,
        fun _ => ⟨rfl, congrArg some hextracted⟩, fun hne => absurd rfl hne⟩
      rw [execute_bind_ok hprepare, execute_catching, execute_installBoth hserves hinstaller]

theorem execute_checkTools {some : List Text} (hsome : ∀ tool ∈ some, tool ∈ tools) :
    execute answer (checkTools some) machine = .some (.ok (), machine) := by
  induction some with
  | nil => rfl
  | cons tool rest ih =>
      obtain ⟨htool, hrest⟩ := List.forall_mem_cons.mp hsome
      unfold checkTools
      rw [execute_bind_ok (hserves.execute_which htool)]
      exact (execute_bind_ok execute_require).trans (ih hrest)

/-- The host passes its checks if nothing is installed. -/
theorem execute_checkHost (hversion : isStableVersion options.version = true)
    (hrepo : isRepository options.repo = true) (habsent : machine.IsAbsent) :
    execute answer (checkHost options) machine = some (.ok (), machine) := by
  have hsdk : execute answer (give .sdkExists) machine = some (.ok false, machine) := by
    refine hserves.execute_give trivial fun out after h => ⟨?_, h.2⟩
    rw [h.1, habsent.1]
    rfl
  have hplatform : execute answer (give .platformExists) machine = some (.ok false, machine) := by
    refine hserves.execute_give trivial fun out after h => ⟨?_, h.2⟩
    rw [h.1, habsent.2]
    rfl
  have hinstalled : execute answer isInstalled machine = some (.ok false, machine) := by
    unfold isInstalled
    rw [execute_bind_ok hsdk]
    exact hplatform
  unfold checkHost
  rw [hversion, hrepo]
  refine (execute_bind_ok execute_require).trans ((execute_bind_ok execute_require).trans ?_)
  rw [execute_bind_ok (execute_checkTools hserves fun _ htool => htool), execute_bind_ok hinstalled]
  exact execute_require

/-- The whole installer, for a package that is well formed. -/
theorem execute_main_release (hlawful : packer.IsLawful) (h : package.IsWellFormed)
    (hplain : isAssetName package.sdkInstaller = true) (hversion : options.version = package.version)
    (hrepo : isRepository options.repo = true) (habsent : machine.IsAbsent) : ∃ machine',
    execute answer (Installer.main packer.library options) machine =
      some (package.verdict packer, machine') ∧
    (package.verdict packer = .ok () → machine'.sdk = some ⟨package.sdk, true⟩ ∧
      machine'.platform = some (package.platformFiles packer)) ∧
    (package.verdict packer ≠ .ok () → machine'.IsAbsent) := by
  have hstable : isStableVersion options.version = true := hversion ▸ h.version
  have hcreate : execute answer (give .createStage) machine = some (.ok (), machine.clearStage) :=
    hserves.execute_give trivial fun _ _ h => ⟨rfl, h⟩
  have hremove : ∀ machine : Machine Content, execute answer (give .removeStage) machine =
      some (.ok (), machine.clearStage) :=
    fun _ => hserves.execute_give trivial fun _ _ h => ⟨rfl, h⟩
  obtain ⟨after, hstage, hinstalled, hagrees⟩ :=
    @execute_stageAndInstall _ _ _ _ _ machine.clearStage hserves hlawful h hplain hversion.symm
  have hleft := execute_lastly hstage (hremove after)
  unfold Installer.main
  rw [execute_bind_ok (execute_checkHost hserves hstable hrepo habsent), execute_bind_ok hcreate]
  cases hverdict : package.verdict packer with
  | error error =>
      rw [hverdict] at hleft hagrees
      have hsame := hagrees nofun
      exact ⟨_, execute_bind_error hleft, nofun, fun _ => ⟨hsame.1.trans habsent.1, hsame.2.trans habsent.2⟩⟩
  | ok done =>
      rw [hverdict] at hleft hinstalled
      have hconfigure : execute answer (give .configure) after.clearStage = some (.ok (), after.clearStage) :=
        hserves.execute_give trivial fun _ _ h => ⟨rfl, h⟩
      have hbuild : execute answer (give .build) after.clearStage = some (.ok (), after.clearStage) :=
        hserves.execute_give trivial fun _ _ h => ⟨rfl, h⟩
      rw [execute_bind_ok hleft, execute_bind_ok hserves.execute_print, execute_bind_ok hconfigure,
        execute_bind_ok hbuild, hserves.execute_print]
      exact ⟨_, rfl, fun _ => hinstalled rfl, fun hne => absurd rfl hne⟩

/-- An installer that is given what the publisher has packaged installs it, or refuses it,
exactly as the package says. The release has the version that is asked for, its SDK has a
name that GitHub keeps, nothing is installed yet, and no command fails. -/
theorem packaged_build_installs {build : Build Content} {version commit : Text} {dirty : Bool}
    (hlawful : packer.IsLawful)
    (hbuild : packageBuild packer build version commit dirty = .ok package)
    (hplain : isAssetName package.sdkInstaller = true) (hversion : options.version = package.version)
    (hrepo : isRepository options.repo = true) (habsent : machine.IsAbsent) : ∃ machine',
    execute answer (Installer.main packer.library options) machine =
      some (package.verdict packer, machine') ∧
    (package.verdict packer = .ok () → machine'.sdk = some ⟨package.sdk, true⟩ ∧
      machine'.platform = some (package.platformFiles packer)) ∧
    (package.verdict packer ≠ .ok () → machine'.IsAbsent) :=
  execute_main_release hserves hlawful (isWellFormed_of_packageBuild hbuild) hplain hversion hrepo habsent

end Installation

section Answers

variable {packer : Packer Content} {options : InstallOptions} {package : Package Content}
  {found : Text → Option Content}

/-- What commands answer and do on a host with all tools, where `found` are the files of
a release. -/
def hostAnswer (options : InstallOptions) (found : Text → Option Content) : HostAnswer Content :=
  fun machine command => match command with
  | .which _ => some (true, machine)
  | .sdkExists => some (machine.sdk.isSome, machine)
  | .platformExists => some (machine.platform.isSome, machine)
  | .environmentExists => some (machine.sdk.any (·.environment), machine)
  | .createStage => some ((), machine.clearStage)
  | .fetch address name =>
      if address = url options name && isAssetName name then
        (found name).map fun file => ((), machine.writeStage name (some file))
      else none
  | .read name => (machine.stage name).map fun file => (file, machine)
  | .makeDirectory => some ((), { machine with extracted := [] })
  | .extract member => some ((), machine.addExtracted member.name member.contents)
  | .copyManifest =>
      (machine.stage manifestName).map fun file => ((), machine.addExtracted manifestName file)
  | .runInstaller name =>
      (machine.stage name).map fun installer => ((), { machine with sdk := some ⟨installer, true⟩ })
  | .movePlatform => some ((), machine.replacePlatform)
  | .removeSdk => some ((), { machine with sdk := none })
  | .removeStage => some ((), machine.clearStage)
  | .print _ | .configure | .build => some ((), machine)

/-- A download that succeeds. -/
theorem hostAnswer_fetch {machine machine' : Machine Content} {address name : Text} {out : Unit}
    (h : hostAnswer options found machine (.fetch address name) = some (out, machine')) :
    isAssetName name = true ∧ ∃ file, found name = some file ∧
      machine' = machine.writeStage name (some file) := by
  obtain ⟨hname, hfound⟩ := Option.ite_none_right_eq_some.mp h
  obtain ⟨file, hfile, heq⟩ := Option.map_eq_some_iff.mp hfound
  cases heq
  exact ⟨((Bool.and_eq_true _ _).mp hname).2, file, hfile, rfl⟩

theorem responds_of_hostAnswer {machine machine' : Machine Content}
    {command : InstallCommand Content} {out : InstallOutput Content command}
    (h : hostAnswer options found machine command = some (out, machine')) :
    machine.Responds command (.ok out) machine' := by
  cases command with
  | fetch address name =>
      obtain ⟨hplain, file, -, rfl⟩ := hostAnswer_fetch h
      exact ⟨ne_nil_of_isAssetName hplain, file, rfl⟩
  | read name =>
      obtain ⟨file, hfile, heq⟩ := Option.map_eq_some_iff.mp h
      cases heq
      exact ⟨hfile, rfl⟩
  | copyManifest =>
      obtain ⟨file, hfile, heq⟩ := Option.map_eq_some_iff.mp h
      cases heq
      exact ⟨file, hfile, rfl⟩
  | runInstaller name =>
      obtain ⟨file, hfile, heq⟩ := Option.map_eq_some_iff.mp h
      cases heq
      refine ⟨_, rfl, fun tree htree => ?_⟩
      obtain rfl := Option.some.inj htree
      exact hfile
  | sdkExists | platformExists | environmentExists =>
      cases h
      exact ⟨rfl, rfl⟩
  | which tool | createStage | print message | makeDirectory | extract member | movePlatform
  | removeSdk | removeStage | configure | build =>
      cases h
      rfl

theorem mem_of_lookup {assets : List (Text × Content)} {name : Text} {file : Content}
    (h : assets.lookup name = some file) : (name, file) ∈ assets := by
  obtain ⟨before, after, rfl, -⟩ := List.lookup_eq_some_iff.mp h
  exact List.mem_append_right _ List.mem_cons_self

/-- An asset is found by its name. -/
theorem lookup_asset {name : Text} {file : Content} (h : package.IsWellFormed)
    (hasset : (name, file) ∈ package.assets packer) :
    (package.assets packer).lookup name = some file := by
  obtain ⟨before, after, hsplit⟩ := List.append_of_mem hasset
  refine List.lookup_eq_some_iff.mpr ⟨before, after, hsplit, fun other hother => ?_⟩
  have hnodup := package.map_fst_assets packer ▸ h.nodup
  rw [hsplit, List.map_append, List.nodup_append] at hnodup
  exact bne_iff_ne.mpr (Ne.symm (hnodup.2.2 other.1 (List.mem_map_of_mem hother) name List.mem_cons_self))

/-- A host with all assets of a package serves it. -/
theorem servesRelease_hostAnswer (h : package.IsWellFormed) :
    ServesRelease packer options package (hostAnswer options fun name => (package.assets packer).lookup name) where
  responds := responds_of_hostAnswer
  succeeds := by
    intro machine command hready
    cases command with
    | fetch address name => cases hready
    | read name | copyManifest | runInstaller name =>
        obtain ⟨file, hfile⟩ := Option.isSome_iff_exists.mp hready
        exact ⟨_, _, Option.map_eq_some_iff.mpr ⟨file, hfile, rfl⟩⟩
    | which tool | sdkExists | platformExists | environmentExists | createStage | print message
    | makeDirectory | extract member | movePlatform | removeSdk | removeStage | configure | build =>
        exact ⟨_, _, rfl⟩
  finds := by
    intro machine tool _ found after h
    cases h
    rfl
  delivers := by
    intro machine name file hasset hplain
    unfold hostAnswer
    simp [hplain, lookup_asset h hasset]
  installs := by
    intro machine name after hrun hsdk
    obtain ⟨installer, -, heq⟩ := Option.map_eq_some_iff.mp hrun
    cases heq
    rfl

end Answers

section Sample

inductive SampleFile where
  | text (text : Text)
  | archive (files : List (Text × SampleFile))

/-- The digests of the files of the samples, which differ in some characters. -/
def sampleDigest : SampleFile → Text
  | .archive files =>
      match files.getLast? with
      | some (_, .text ['y']) => "9bcc39a7be732ad5c0e40d76f47ee961b83fbbccf827a1069c33f29ce8ba8450".toList
      | _ => "257f3c0d73af152781fdc82802c66044cab3513cf9bc6be038b2962bbdd9d709".toList
  | .text text =>
      match text.head? with
      | some '\x7b' =>
          if text[58]? = some 'd' then
            "6ac10d81d77ed661d7193d1c3fe99bd7225b48c1ad2ad9208164fb01db7593b7".toList
          else "82bdc6818b5d4ab0684701586ade6d1a3e223f271767aa56753c109cc4014460".toList
      | some '2' => "3051d22b6c49bfa7c286da8aa08d6ec829bdce2da4b918f1c2f6f3ab4410417b".toList
      | some '5' => "3d796fad6dadb6c34bab2453fc6972b108d4082b0ff691b710755cd5e8694883".toList
      | some '6' => "b7c73c39b4ab5c57c2237fb0628d5b3296a7222ca92fa9712ed97c2b91a1a6f8".toList
      | some '8' =>
          if text.getLast? = some '\n' then
            "dde27891152678c549457b9ea3ef2b6b3d42e65cf50f7a79ea6edf054b39ccc2".toList
          else "9a93b3f27bd25e778a112c2746a8f56d75ff4c2be012838429bbd114b31ef90f".toList
      | some '9' => "ef20df4f51e44cb126061eeb2724ad69ca36318318f8c51dfa229ff39ca446f7".toList
      | _ => "5dda8054087f7ad4ea2cf75edf825345e298bb130653283bfaa8643b6ec68049".toList

def sampleSize : SampleFile → Nat
  | .text text => text.length
  | .archive _ => 1

def samplePacker : Packer SampleFile where
  library :=
    { python := ⟨.ascii, fun _ _ => false, fun _ _ => false, fun _ => []⟩
      readText := fun
        | .text text => .ok (universalNewlines text)
        | .archive _ => .error (.valueError "invalid start byte".toList)
      sha256 := sampleDigest
      members := fun
        | .text _ => none
        | .archive files => some (files.map fun file => ⟨file.1, true, sampleSize file.2, file.2⟩) }
  size := sampleSize
  encode := .text
  archive := .archive

/-- A digest has 64 hexadecimal digits. -/
theorem sampleDigest_hexadecimal (file : SampleFile) : (sampleDigest file).length = 64 ∧
    (sampleDigest file).all ("0123456789abcdef".toList.contains ·) = true := by
  unfold sampleDigest
  cases file with
  | archive files =>
      split
      · split
        · decide +kernel
        · decide +kernel
      · rename_i heq
        cases heq
  | text text =>
      repeat' split
      all_goals decide +kernel

theorem samplePacker_isLawful : samplePacker.IsLawful where
  readText_encode := fun _ => rfl
  members_archive := fun _ _ => rfl
  length_sha256 := fun file => (sampleDigest_hexadecimal file).1
  hexadecimal_sha256 := fun file => List.all_eq_true.mp (sampleDigest_hexadecimal file).2

def sampleData : Metadata where
  items := [("MACHINE".toList, "qemuarm64".toList), ("IMAGE_BASENAME".toList, "adaptive-pi-image".toList),
    ("DISTRO_VERSION".toList, "5.0".toList), ("SDK_VERSION".toList, "5.0".toList),
    ("SDK_NAME".toList, "poky".toList), ("SDKMACHINE".toList, "x86_64".toList),
    ("TUNE_PKGARCH".toList, "cortexa57".toList), ("METADATA_REVISION".toList, pin)]
  nodup := by decide

def sampleConfig : Metadata where
  items := [("machine".toList, "qemuarm64".toList), ("qb_default_fstype".toList, "ext4".toList),
    ("qb_system_name".toList, "qemu-system-aarch64".toList), ("image_name".toList, "build".toList)]
  nodup := by decide

def sampleBuild : Build SampleFile where
  root := []
  find := fun path =>
    some (.text (if path.getLast? = some 'h' then "mkdir $3\n".toList else "x".toList))
  imageData := sampleData
  sdkData := sampleData
  config := sampleConfig

def samplePackage : Package SampleFile where
  version := "v0.3.0".toList
  commit := "c0ffee".toList
  dirty := false
  distroVersion := "5.0".toList
  sdkVersion := "5.0".toList
  sdkHost := "x86_64".toList
  tune := "cortexa57".toList
  imageBuild := "build".toList
  sdkInstaller := "poky-toolchain-5.0.sh".toList
  sdk := .text "mkdir $3\n".toList
  files := packagedNames.map fun name => (name, .text "x".toList)

theorem samplePackage_eq : packageBuild samplePacker sampleBuild "v0.3.0".toList "c0ffee".toList false =
    .ok samplePackage := by
  rfl

def sampleOptions : InstallOptions where
  version := "v0.3.0".toList
  repo := "owner/repo".toList

def sampleMachine : Machine SampleFile := ⟨none, none, fun _ => none, []⟩

theorem verdict_sample : samplePackage.verdict samplePacker = .ok () := by rfl

/-- The sample is installed. -/
theorem packaged_build_installs_sample : ∃ machine',
    execute (hostAnswer sampleOptions fun name => (samplePackage.assets samplePacker).lookup name)
      (Installer.main samplePacker.library sampleOptions) sampleMachine = some (.ok (), machine') ∧
    machine'.sdk = some ⟨.text "mkdir $3\n".toList, true⟩ ∧
    machine'.platform = some (samplePackage.platformFiles samplePacker) := by
  have hserves : ServesRelease samplePacker sampleOptions samplePackage
      (hostAnswer sampleOptions fun name => (samplePackage.assets samplePacker).lookup name) :=
    servesRelease_hostAnswer (isWellFormed_of_packageBuild samplePackage_eq)
  have hrepo : isRepository sampleOptions.repo = true := by decide
  have habsent : sampleMachine.IsAbsent := ⟨rfl, rfl⟩
  obtain ⟨machine', hexecute, hinstalled, -⟩ := packaged_build_installs hserves samplePacker_isLawful
    samplePackage_eq (by decide) (rfl : sampleOptions.version = samplePackage.version) hrepo habsent
  rw [verdict_sample] at hexecute
  exact ⟨machine', hexecute, hinstalled verdict_sample⟩

end Sample

end AdaptivePi.Yocto
