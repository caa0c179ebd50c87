import AdaptivePi.Foundation.Dictionary
import AdaptivePi.Foundation.JsonWriter
import AdaptivePi.Yocto.InstallRelease

/-!
What `publish-platform-release.py` puts into a release: it checks the metadata of the
image and of the SDK, and makes an archive of the platform, a manifest that lists what
is there, and a checksum file for every asset.

Of the metadata files and of the QEMU configuration it is assumed that they have been
read; BitBake writes variables that are strings.
-/

namespace AdaptivePi.Yocto

open Foundation Foundation.PythonText

/-- The variables of a metadata file, or of a section of a configuration. -/
abbrev Metadata := Dictionary Text Text

def Metadata.subscript (data : Metadata) (key : String) : Except PythonError Text :=
  match data.get key.toList with
  | some value => pure value
  | none => throw (.keyError key.toList)

/-- `require` -/
def ensure (condition : Bool) (message : Text) : Except PythonError Unit :=
  if condition then pure () else throw (.valueError message)

/-- `Path(name).name == name` -/
def isFileName (name : Text) : Bool := !name.contains '/' && name ≠ ".".toList

structure Build (Content : Type) where
  root : Text
  /-- The regular files, by their paths. -/
  find : Text → Option Content
  imageData : Metadata
  sdkData : Metadata
  /-- The section `config_bsp` of the QEMU configuration. -/
  config : Metadata

/-- What the publisher uses to write files, and to read them. -/
structure Packer (Content : Type) where
  library : Library Content
  /-- `st_size` -/
  size : Content → Nat
  /-- `write_text` -/
  encode : Text → Content
  /-- A compressed archive of files with their names. -/
  archive : List (Text × Content) → Content

def imagePrefix : Text := "adaptive-pi-image-qemuarm64.rootfs".toList

def artifactNames : List Text :=
  ["Image".toList, imagePrefix ++ ".ext4".toList, imagePrefix ++ ".qemuboot.conf".toList,
    imagePrefix ++ ".manifest".toList]

def runnerName : Text := "run-platform.py".toList

/-- The files of an archive. -/
def packagedNames : List Text := artifactNames ++ [runnerName]

section Checks

variable {Content : Type} (packer : Packer Content) (build : Build Content)

def nonempty (path : Text) : Except PythonError Content :=
  match build.find path with
  | none => throw (.valueError ("Missing or empty artifact: ".toList ++ path))
  | some file => do
      ensure (0 < packer.size file) ("Missing or empty artifact: ".toList ++ path)
      pure file

def openFile (path : Text) : Except PythonError Content :=
  match build.find path with
  | none => throw (.osError ("[Errno 2] No such file or directory: '".toList ++ path ++ "'".toList))
  | some file => pure file

def matchingKeys : List String :=
  ["MACHINE", "IMAGE_BASENAME", "DISTRO_VERSION", "SDK_VERSION", "SDK_NAME", "SDKMACHINE",
    "TUNE_PKGARCH", "METADATA_REVISION"]

/-- `image_data.get(key) and image_data[key] == sdk_data.get(key)` -/
def matchesKey (imageData sdkData : Metadata) (key : String) : Bool :=
  (imageData.get key.toList).any fun value => value ≠ [] && sdkData.get key.toList = some value

def checkKeys (imageData sdkData : Metadata) : List String → Except PythonError Unit
  | [] => pure ()
  | key :: keys => do
      ensure (matchesKey imageData sdkData key)
        ("Image/SDK metadata mismatch: ".toList ++ key.toList)
      checkKeys imageData sdkData keys

/-- `data[key] == text` -/
def equals (data : Metadata) (key : String) (text : Text) : Except PythonError Bool := do
  let value ← data.subscript key
  pure (value = text)

def metadata (imageData sdkData : Metadata) : Except PythonError Unit := do
  checkKeys imageData sdkData matchingKeys
  let host ← equals imageData "SDKMACHINE" "x86_64".toList
  let tune ← equals imageData "TUNE_PKGARCH" "cortexa57".toList
  ensure (host && tune) "Repository presets require the x86_64 SDK for cortexa57".toList
  let machine ← equals imageData "MACHINE" "qemuarm64".toList
  ensure machine "Expected qemuarm64".toList
  let image ← equals imageData "IMAGE_BASENAME" "adaptive-pi-image".toList
  ensure image "Expected adaptive-pi-image".toList
  let revision ← equals imageData "METADATA_REVISION" pin
  ensure revision "Build does not use the pinned Poky commit".toList

def sdkName (imageData : Metadata) : Except PythonError Text := do
  let name ← imageData.subscript "SDK_NAME"
  let version ← imageData.subscript "SDK_VERSION"
  pure (name ++ "-toolchain-".toList ++ version)

def deployPath (name : Text) : Text := build.root ++ "/yocto/build/tmp/deploy/".toList ++ name

def collectArtifacts : List Text → Except PythonError (List (Text × Content))
  | [] => pure []
  | name :: names => do
      let file ← nonempty packer build (deployPath build ("images/qemuarm64/".toList ++ name))
      let files ← collectArtifacts names
      pure ((name, file) :: files)

def checkConfig (config : Metadata) : Except PythonError Unit := do
  let machine ← equals config "machine" "qemuarm64".toList
  ensure machine "QEMU machine mismatch".toList
  let fileSystem ← equals config "qb_default_fstype" "ext4".toList
  ensure fileSystem "Expected ext4 rootfs".toList
  let system ← equals config "qb_system_name" "qemu-system-aarch64".toList
  ensure system "Expected AArch64 QEMU".toList

end Checks

structure Package (Content : Type) where
  version : Text
  commit : Text
  dirty : Bool
  distroVersion : Text
  sdkVersion : Text
  sdkHost : Text
  tune : Text
  imageBuild : Text
  sdkInstaller : Text
  sdk : Content
  /-- The files of the archive. -/
  files : List (Text × Content)

section Source

variable {Content : Type} (packer : Packer Content)

/-- The checks, in the order of `main`, and what they find. -/
def packageBuild (build : Build Content) (version commit : Text) (dirty : Bool) :
    Except PythonError (Package Content) := do
  ensure (isStableVersion version) "Use an explicit stable version: vMAJOR.MINOR.PATCH".toList
  let name ← sdkName build.imageData
  ensure (isFileName name) "Invalid SDK filename in metadata".toList
  let sdkInstaller := name ++ ".sh".toList
  let sdk ← nonempty packer build (deployPath build ("sdk/".toList ++ sdkInstaller))
  metadata build.imageData build.sdkData
  let artifacts ← collectArtifacts packer build artifactNames
  checkConfig build.config
  let runner ← openFile build (build.root ++ "/scripts/qemu/".toList ++ runnerName)
  let distroVersion ← build.imageData.subscript "DISTRO_VERSION"
  let sdkVersion ← build.imageData.subscript "SDK_VERSION"
  let sdkHost ← build.imageData.subscript "SDKMACHINE"
  let tune ← build.imageData.subscript "TUNE_PKGARCH"
  let imageBuild ← build.config.subscript "image_name"
  pure
    { version, commit, dirty, distroVersion, sdkVersion, sdkHost, tune, imageBuild, sdkInstaller, sdk,
      files := artifacts ++ [(runnerName, runner)] }

namespace Package

variable (package : Package Content)

def bundleName : Text :=
  "adaptive-pi-platform-".toList ++ package.version ++ "-qemuarm64.tar.gz".toList

def bundle : Content := packer.archive package.files

def manifestMembers : List (Text × Json) :=
  [("release_version".toList, .string package.version),
    ("adaptive_pi_commit".toList, .string package.commit),
    ("source_tree_dirty".toList, .bool package.dirty),
    ("poky_commit".toList, .string pin),
    ("yocto_version".toList, .string package.distroVersion),
    ("machine".toList, .string "qemuarm64".toList),
    ("image".toList, .string "adaptive-pi-image".toList),
    ("sdk_installer".toList, .string package.sdkInstaller),
    ("sdk_sha256".toList, .string (packer.library.sha256 package.sdk)),
    ("platform_bundle".toList, .string package.bundleName),
    ("platform_sha256".toList, .string (packer.library.sha256 (package.bundle packer))),
    ("sdk_version".toList, .string package.sdkVersion),
    ("sdk_host".toList, .string package.sdkHost),
    ("tune".toList, .string package.tune),
    ("image_build".toList, .string package.imageBuild)]

def manifest : Json := .object (package.manifestMembers packer)

/-- `json.dumps(manifest, indent=2) + "\n"` -/
def manifestFile : Content := packer.encode (Json.dumps 2 (package.manifest packer) ++ ['\n'])

def checksumLine (name : Text) (file : Content) : Text :=
  packer.library.sha256 file ++ "  ".toList ++ name ++ ['\n']

def mainAssets : List (Text × Content) :=
  [(package.bundleName, package.bundle packer), (package.sdkInstaller, package.sdk),
    (manifestName, package.manifestFile packer)]

def checksumAsset (asset : Text × Content) : Text × Content :=
  (asset.1 ++ ".sha256".toList, packer.encode (checksumLine packer asset.1 asset.2))

def assets : List (Text × Content) :=
  package.mainAssets packer ++ (package.mainAssets packer).map (checksumAsset packer)

/-- What is installed of it at `yocto/platform`. -/
def platformFiles : List (Text × Content) :=
  package.files ++ [(manifestName, package.manifestFile packer)]

/-- The assets are those that the publisher uploads. -/
theorem map_fst_assets :
    (package.assets packer).map Prod.fst = assetNames package.version package.sdkInstaller := rfl

end Package

end Source

section WellFormed

variable {Content : Type} {packer : Packer Content} {build : Build Content}

/-- What the checks of the publisher ensure. -/
structure Package.IsWellFormed (package : Package Content) : Prop where
  version : isStableVersion package.version = true
  host : package.sdkHost = "x86_64".toList
  tune : package.tune = "cortexa57".toList
  shell : ".sh".toList <:+ package.sdkInstaller
  slash : '/' ∉ package.sdkInstaller
  names : package.files.map Prod.fst = packagedNames

def anything (_ : PythonError) : Prop := True

theorem satisfies_ensure {condition : Bool} {message : Text} :
    Satisfies anything (ensure condition message) fun _ => condition = true := by
  cases condition with
  | false => trivial
  | true => exact rfl

theorem satisfies_subscript {data : Metadata} {key : String} :
    Satisfies anything (data.subscript key) fun value => data.get key.toList = some value := by
  unfold Metadata.subscript
  cases data.get key.toList with
  | none => trivial
  | some value => exact rfl

theorem satisfies_equals {data : Metadata} {key : String} {text : Text} :
    Satisfies anything (equals data key text) fun same => same = true → data.get key.toList = some text := by
  apply Satisfies.bind satisfies_subscript
  intro value hvalue
  apply Satisfies.pure
  intro hsame
  rwa [of_decide_eq_true hsame] at hvalue

theorem satisfies_any {α : Type} {action : Except PythonError α} :
    Satisfies anything action fun _ => True :=
  Satisfies.of_forall fun _ _ => trivial

/-- The metadata that is accepted is for this host and this machine. -/
theorem satisfies_metadata {imageData sdkData : Metadata} :
    Satisfies anything (metadata imageData sdkData) fun _ =>
      imageData.get "SDKMACHINE".toList = some "x86_64".toList ∧
        imageData.get "TUNE_PKGARCH".toList = some "cortexa57".toList := by
  apply Satisfies.bind satisfies_any
  intro _ _
  apply Satisfies.bind satisfies_equals
  intro host hhost
  apply Satisfies.bind satisfies_equals
  intro tune htune
  apply Satisfies.bind satisfies_ensure
  intro _ hboth
  obtain ⟨rfl, rfl⟩ := (Bool.and_eq_true _ _).mp hboth
  exact Satisfies.mono satisfies_any fun _ _ => ⟨hhost rfl, htune rfl⟩

theorem satisfies_collectArtifacts (names : List Text) :
    Satisfies anything (collectArtifacts packer build names) fun files =>
      files.map Prod.fst = names := by
  induction names with
  | nil => exact rfl
  | cons name names ih =>
      apply Satisfies.bind satisfies_any
      intro file _
      apply Satisfies.bind ih
      intro files hfiles
      exact congrArg (name :: ·) hfiles

/-- The name of the SDK installer is that of a file. -/
theorem not_mem_slash {name : Text} (h : isFileName name = true) : '/' ∉ name := by
  simp only [isFileName, Bool.and_eq_true, Bool.not_eq_true'] at h
  intro hslash
  rw [List.contains_iff_mem.mpr hslash] at h
  exact absurd h.1 (by decide)

/-- A package that is made has passed all checks. -/
theorem isWellFormed_of_packageBuild {version commit : Text} {dirty : Bool}
    {package : Package Content}
    (h : packageBuild packer build version commit dirty = .ok package) : package.IsWellFormed := by
  have hsatisfies : Satisfies anything (packageBuild packer build version commit dirty)
      Package.IsWellFormed := by
    apply Satisfies.bind satisfies_ensure
    intro _ hversion
    apply Satisfies.bind satisfies_any
    intro name _
    apply Satisfies.bind satisfies_ensure
    intro _ hname
    apply Satisfies.bind satisfies_any
    intro sdk _
    apply Satisfies.bind satisfies_metadata
    rintro _ ⟨hhost, htune⟩
    apply Satisfies.bind (satisfies_collectArtifacts artifactNames)
    intro artifacts hartifacts
    apply Satisfies.bind satisfies_any
    intro _ _
    apply Satisfies.bind satisfies_any
    intro runner _
    apply Satisfies.bind satisfies_any
    intro distroVersion _
    apply Satisfies.bind satisfies_any
    intro sdkVersion _
    apply Satisfies.bind satisfies_subscript
    intro host hhost'
    apply Satisfies.bind satisfies_subscript
    intro tune htune'
    apply Satisfies.bind satisfies_any
    intro imageBuild _
    exact
      { version := hversion
        host := Option.some.inj (hhost'.symm.trans hhost)
        tune := Option.some.inj (htune'.symm.trans htune)
        shell := List.suffix_append _ _
        slash := by
          intro hslash
          rcases List.mem_append.mp hslash with hslash | hslash
          · exact not_mem_slash hname hslash
          · exact absurd hslash (by decide)
        names := by rw [List.map_append, hartifacts]; rfl }
  exact hsatisfies.of_eq h

end WellFormed

end AdaptivePi.Yocto
