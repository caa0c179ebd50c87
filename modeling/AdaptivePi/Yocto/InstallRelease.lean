import AdaptivePi.Foundation.PythonValue
import AdaptivePi.Yocto.PublishRelease

/-!
The installer of `install-platform-release.py`, as a script of the commands that
it gives to the host. It downloads a release to a temporary directory, verifies it,
runs the SDK installer, which writes in place, and moves the platform to its
place. An exception of these last steps is caught, unless it is one such as
`KeyboardInterrupt`, and the directory of the SDK is removed.
-/

namespace AdaptivePi.Yocto

open Foundation Foundation.PythonText

/-- An exception, as the handlers of the installer tell them apart. -/
inductive Raised where
  /-- Raised by the code of the installer. -/
  | error (error : PythonError)
  /-- Another `Exception`, raised by a command. -/
  | command
  /-- Not an `Exception`, such as a `KeyboardInterrupt`. -/
  | interrupt

def Raised.isException : Raised → Bool
  | .error _ => true
  | .command => true
  | .interrupt => false

structure InstallOptions where
  version : Text
  repo : Text := "Romanr92/adaptive-pi".toList

structure Member (Content : Type) where
  name : Text
  isFile : Bool
  size : Nat
  contents : Content

/-- What the installer uses to read files. -/
structure Library (Content : Type) where
  python : Python
  /-- `read_text` -/
  readText : Content → Except PythonError Text
  /-- The digest of a file in hexadecimal digits. -/
  sha256 : Content → Text
  /-- The members of an archive, unless there is a `TarError`. -/
  members : Content → Option (List (Member Content))

inductive InstallCommand (Content : Type) where
  | which (tool : Text)
  | sdkExists
  | platformExists
  /-- Enter the temporary directory. -/
  | createStage
  | print (message : Text)
  /-- Download a file to the temporary directory. -/
  | fetch (url name : Text)
  /-- Read a file of the temporary directory. -/
  | read (name : Text)
  /-- Make the directory of the extracted files. -/
  | makeDirectory
  | extract (member : Member Content)
  /-- Copy the manifest to the extracted files. -/
  | copyManifest
  /-- `sh INSTALLER -y -d yocto/sdk` -/
  | runInstaller (name : Text)
  | environmentExists
  /-- `os.replace` of the extracted files. -/
  | movePlatform
  | removeSdk
  /-- Leave the temporary directory. -/
  | removeStage
  | configure
  | build

abbrev InstallOutput (Content : Type) : InstallCommand Content → Type
  | .which _ => Bool
  | .sdkExists => Bool
  | .platformExists => Bool
  | .environmentExists => Bool
  | .read _ => Content
  | _ => Unit

abbrev Installer (Content α : Type) :=
  Script (InstallCommand Content) (InstallOutput Content) Raised α

def isRepositoryChar (char : Char) : Bool := char.isAlphanum || "_.-".toList.contains char

/-- `[A-Za-z0-9_.-]+/[A-Za-z0-9_.-]+` -/
def isRepository (text : Text) : Bool :=
  let parts := text.splitOnP (· == '/')
  parts.length = 2 && parts.all fun part => part ≠ [] && part.all isRepositoryChar

def tools : List Text :=
  ["qemu-system-aarch64", "tmux", "ssh", "scp", "cmake", "ninja", "file", "readelf", "xz", "tar"].map
    String.toList

/-- `str.split` -/
def words (text : Text) : List Text := (text.splitOnP isSpace).filter (· ≠ [])

/-- `bool(value)` -/
def isTrue (python : Python) : Json → Bool
  | .null => false
  | .bool value => value
  | .int value => value ≠ 0
  | .float literal => !python.floatEquals literal 0
  | .string value => value ≠ []
  | .array items => !items.isEmpty
  | .object members => !members.isEmpty

section Source

variable {Content : Type} (library : Library Content) (options : InstallOptions)

open Script

def give (command : InstallCommand Content) : Installer Content (InstallOutput Content command) :=
  perform command

/-- `raise ValueError(message)` unless a condition holds. -/
def expect (condition : Bool) (message : Text) : Installer Content Unit :=
  require condition (.error (.valueError message))

/-- Code without commands. -/
def pureCode {α : Type} (result : Except PythonError α) : Installer Content α :=
  match result with
  | .ok value => pure value
  | .error error => raise (.error error)

def listedDigest (name text : Text) : Except PythonError Text :=
  match words text with
  | [digest, listed] =>
      if listed = name then pure digest
      else throw (.valueError ("Invalid checksum file for ".toList ++ name))
  | _ => throw (.valueError ("Invalid checksum file for ".toList ++ name))

/-- `verify`, which returns the digest of the file. -/
def verify (name : Text) : Installer Content Text := do
  let checksum ← give (.read (name ++ ".sha256".toList))
  let text ← pureCode (library.readText checksum)
  let digest ← pureCode (listedDigest name text)
  let file ← give (.read name)
  expect (library.sha256 file = digest) ("Checksum mismatch for ".toList ++ name)
  return library.sha256 file

/-- `manifest[key] != text` -/
def differs (manifest : Json) (key text : Text) : Except PythonError Bool := do
  let value ← manifest.subscript key
  pure !value.equalsText text

/-- The condition for an incompatible manifest. -/
def isIncompatible (manifest : Json) : Except PythonError Bool :=
  either (differs manifest "release_version".toList options.version) <|
  either (differs manifest "machine".toList "qemuarm64".toList) <|
  either (differs manifest "image".toList "adaptive-pi-image".toList) <|
  either (do
    let dirty ← manifest.subscript "source_tree_dirty".toList
    pure (isTrue library.python dirty)) <|
  either (differs manifest "sdk_host".toList "x86_64".toList) <|
  differs manifest "tune".toList "cortexa57".toList

/-- `json.loads` of the manifest, and its check. -/
def readManifest (file : Content) : Except PythonError Json := do
  let text ← library.readText file
  let manifest ← library.python.loads text
  raiseIf (isIncompatible library options manifest)
    (.valueError "Release manifest has incompatible or uncommitted platform metadata".toList)
  pure manifest

def assetName (manifest : Json) (key : Text) : Except PythonError Text := do
  match ← manifest.subscript key with
  | .string name => pure name
  | other => throw (.typeError (("argument should be a str or an os.PathLike object where " ++
      "__fspath__ returns a str, not '").toList ++ other.typeName ++ "'".toList))

/-- `Path(name).name == name`, and it is not a directory. -/
def isSafeName (name : Text) : Bool :=
  !name.contains '/' && name ≠ ".".toList && name ≠ "..".toList

def manifestName : Text := "platform-manifest.json".toList

def url (name : Text) : Text :=
  "https://github.com/".toList ++ options.repo ++ "/releases/download/".toList ++ options.version ++
    "/".toList ++ name

def download (name : Text) : Installer Content Unit := do
  expect (isSafeName name) "Unsafe release asset filename".toList
  give (.print ("Downloading ".toList ++ name))
  give (.fetch (url options name) name)

def fetchVerified (name : Text) : Installer Content Text := do
  download options name
  download options (name ++ ".sha256".toList)
  verify library name

/-- Download a file that the manifest names, with the digest that it has. -/
def fetchListed (manifest : Json) (nameKey digestKey : String) (message : String) :
    Installer Content Text := do
  let name ← pureCode (assetName manifest nameKey.toList)
  let digest ← fetchVerified library options name
  let mismatch ← pureCode (differs manifest digestKey.toList digest)
  expect (!mismatch) message.toList
  return name

def expectedMembers : List Text :=
  ["Image", "adaptive-pi-image-qemuarm64.rootfs.ext4",
    "adaptive-pi-image-qemuarm64.rootfs.qemuboot.conf",
    "adaptive-pi-image-qemuarm64.rootfs.manifest", "run-platform.py"].map String.toList

def areExpected (members : List (Member Content)) : Bool :=
  members.length = expectedMembers.length &&
    (members.map (·.name)).all (expectedMembers.contains ·) &&
    expectedMembers.all ((members.map (·.name)).contains ·) &&
    members.all fun member => member.isFile && 0 < member.size

def extractAll (members : List (Member Content)) : Installer Content Unit :=
  match members with
  | [] => pure ()
  | member :: members => do
      give (.extract member)
      extractAll members

def extractPlatform (bundle : Text) : Installer Content Unit := do
  give .makeDirectory
  let archive ← give (.read bundle)
  match library.members archive with
  | none => raise .command
  | some members => do
      expect (areExpected members) "Unexpected or unsafe platform archive contents".toList
      extractAll members
      give .copyManifest

/-- Everything before the SDK installer is run. It returns the name of this one. -/
def prepare : Installer Content Text := do
  let _ ← fetchVerified library options manifestName
  let file ← give (.read manifestName)
  let manifest ← pureCode (readManifest library options file)
  let bundle ← fetchListed library options manifest "platform_bundle" "platform_sha256"
    "Platform checksum differs from manifest"
  let installer ← fetchListed library options manifest "sdk_installer" "sdk_sha256"
    "SDK checksum differs from manifest"
  extractPlatform library bundle
  return installer

def installBoth (installer : Text) : Installer Content Unit := do
  give (.runInstaller installer)
  let there ← give .environmentExists
  expect there "SDK installer did not produce an AArch64 environment".toList
  give .movePlatform

/-- `except Exception: ...` -/
def rollBack (error : Raised) : Installer Content Unit :=
  if error.isException then do
    let there ← give .sdkExists
    onlyIf there (give .removeSdk)
    raise error
  else raise error

def stageAndInstall : Installer Content Unit := do
  let installer ← prepare library options
  (installBoth installer).catching rollBack

def checkTools (tools : List Text) : Installer Content Unit :=
  match tools with
  | [] => pure ()
  | tool :: tools => do
      let found ← give (.which tool)
      expect found ("Install host prerequisite: ".toList ++ tool ++
        " (see publish-platform-release.md)".toList)
      checkTools tools

/-- `sdk.exists() or platform.exists()` -/
def isInstalled : Installer Content Bool := do
  let there ← give .sdkExists
  if there then return true
  else give .platformExists

/-- What is checked before anything is downloaded. -/
def checkHost : Installer Content Unit := do
  expect (isStableVersion options.version) "Expected vMAJOR.MINOR.PATCH".toList
  expect (isRepository options.repo) "Expected GitHub owner/repository".toList
  checkTools tools
  let installed ← isInstalled
  expect (!installed)
    "yocto/sdk or yocto/platform already exists; move it aside before installing".toList

def Installer.main : Installer Content Unit := do
  checkHost options
  give .createStage
  (stageAndInstall library options).lastly (give .removeStage)
  give (.print ("Installed platform ".toList ++ options.version ++
    ". Verifying the repository cross-build...".toList))
  give .configure
  give .build
  give (.print ("Ready. Start with scripts/qemu/start-development-image.sh; " ++
    "deploy/debug as usual.").toList)

end Source

section Machine

variable {Content : Type}

/-- The directory `yocto/sdk`: what has written it, and whether it has its
environment script. -/
structure SdkTree (Content : Type) where
  installer : Content
  environment : Bool

structure Machine (Content : Type) where
  /-- `yocto/sdk`, if it exists. -/
  sdk : Option (SdkTree Content)
  /-- `yocto/platform`, if it exists. -/
  platform : Option (List (Text × Content))
  /-- The files of the temporary directory. -/
  stage : Text → Option Content
  /-- The files of its directory `platform`. -/
  extracted : List (Text × Content)

namespace Machine

variable (machine : Machine Content)

def clearStage : Machine Content := { machine with stage := fun _ => none, extracted := [] }

def writeStage (name : Text) (file : Option Content) : Machine Content :=
  { machine with stage := Function.update machine.stage name file }

def addExtracted (name : Text) (file : Content) : Machine Content :=
  { machine with extracted := machine.extracted ++ [(name, file)] }

def replacePlatform : Machine Content :=
  { machine with platform := some machine.extracted, extracted := [] }

/-- What commands answer and do. A command that raises may have had any part of its
effect, but a rename is atomic. The SDK installer writes nothing but its directory,
where it may leave anything. A directory is removed unless this is interrupted. -/
def Responds (command : InstallCommand Content)
    (reply : Except Raised (InstallOutput Content command)) (machine' : Machine Content) : Prop :=
  match command, reply with
  | .sdkExists, .ok there => there = machine.sdk.isSome ∧ machine' = machine
  | .platformExists, .ok there => there = machine.platform.isSome ∧ machine' = machine
  | .environmentExists, .ok there => there = machine.sdk.any (·.environment) ∧ machine' = machine
  | .createStage, .ok _ => machine' = machine.clearStage
  | .fetch _ name, .ok _ => name ≠ [] ∧ ∃ file, machine' = machine.writeStage name (some file)
  | .fetch _ name, .error _ => ∃ file, machine' = machine.writeStage name file
  | .read name, .ok file => machine.stage name = some file ∧ machine' = machine
  | .makeDirectory, .ok _ => machine' = { machine with extracted := [] }
  | .extract member, .ok _ => machine' = machine.addExtracted member.name member.contents
  | .extract _, .error _ => ∃ extracted, machine' = { machine with extracted := extracted }
  | .copyManifest, .ok _ => ∃ file, machine.stage manifestName = some file ∧
      machine' = machine.addExtracted manifestName file
  | .copyManifest, .error _ => ∃ extracted, machine' = { machine with extracted := extracted }
  | .runInstaller name, _ => ∃ sdk, machine' = { machine with sdk := sdk } ∧
      ∀ tree, sdk = some tree → machine.stage name = some tree.installer
  | .movePlatform, .ok _ => machine' = machine.replacePlatform
  | .movePlatform, .error error =>
      machine' = machine ∨ (error.isException = false ∧ machine' = machine.replacePlatform)
  | .removeSdk, .ok _ => machine' = { machine with sdk := none }
  | .removeSdk, .error error => error.isException = false ∧ ∃ sdk, machine' = { machine with sdk := sdk }
  | .removeStage, .ok _ => machine' = machine.clearStage
  | .removeStage, .error error => error.isException = false ∧
      ∃ stage extracted, machine' = { machine with stage := stage, extracted := extracted }
  | _, _ => machine' = machine

end Machine

end Machine

end AdaptivePi.Yocto
