import AdaptivePi.Foundation.Lines
import AdaptivePi.Foundation.Script

/-!
The publisher of `publish-platform-release.py`, as a script of the commands that
it runs in the checkout and on GitHub. It prepares the assets of a release, and
then creates a draft, uploads the assets and publishes the draft. A command that
raises ends the script.

Of GitHub it is assumed that a draft is listed with the other releases, but that
its tag is created when it is published.
-/

namespace AdaptivePi.Yocto

open Foundation

/-- `0|[1-9][0-9]*` -/
def isVersionNumber : Text → Bool
  | [] => false
  | first :: rest => if first = '0' then rest = [] else first.isDigit && rest.all Char.isDigit

/-- `vMAJOR.MINOR.PATCH` -/
def isStableVersion : Text → Bool
  | [] => false
  | first :: rest =>
      let numbers := rest.splitOnP (· == '.')
      first = 'v' && numbers.length = 3 && numbers.all isVersionNumber

def pin : Text := "77d1feb37e280733684ae8a9449fb031d5d7ff40".toList

structure Options where
  version : Text
  prepareOnly : Bool
  replaceAssets : Bool

structure Release where
  tagName : Text
  draft : Bool
  /-- The commit of its tag, if the tag is created for it. -/
  target : Text
  assets : List Text

structure GitObject where
  type : Text
  sha : Text

def GitObject.isTag (obj : GitObject) : Bool := obj.type = "tag".toList

def GitObject.isCommit (obj : GitObject) : Bool := obj.type = "commit".toList

structure Ref where
  name : Text
  object : GitObject

inductive Failure where
  /-- A `ValueError` of `require`. -/
  | unmet (message : Text)
  /-- A command has raised. -/
  | raised
  /-- More tags of tags than can be followed. -/
  | unfinished

inductive Command where
  /-- Read the image and SDK metadata; find the artifacts. -/
  | artifacts
  | pokyHead
  | pokyStatus
  | configuration
  | sdkChecksum
  | platformVersion
  | findGh
  | authStatus
  | writeVersion (version : Text)
  | status
  | head
  | repoView
  | listReleases (repo : Text)
  | matchingRefs (repo version : Text)
  | tagObject (repo sha : Text)
  | viewCommit (repo commit : Text)
  /-- Stage the assets and move them to their directory. -/
  | package (version commit : Text) (dirty : Bool) (sdk : Text)
  | createRelease (repo version commit : Text)
  | upload (repo version : Text) (assets : List Text) (clobber : Bool)
  /-- `gh release edit --draft=false` -/
  | publish (repo version : Text)

abbrev Output : Command → Type
  | .artifacts => Text
  | .pokyHead => Text
  | .pokyStatus => Text
  | .platformVersion => Option Text
  | .findGh => Bool
  | .status => Text
  | .head => Text
  | .repoView => Text
  | .listReleases _ => List (List Release)
  | .matchingRefs _ _ => List Ref
  | .tagObject _ _ => GitObject
  | .viewCommit _ _ => Text
  | _ => Unit

abbrev Publisher (α : Type) := Script Command Output Failure α

section Main

open Script

/-- Commands raise if they fail. -/
def run (command : Command) : Publisher (Output command) := perform command

def demand (condition : Bool) (message : String) : Publisher Unit :=
  require condition (.unmet message.toList)

/-- The first part of `main`: the version, the artifacts and Poky. It returns the
name of the SDK installer. -/
def checkArtifacts (options : Options) : Publisher Text := do
  demand (isStableVersion options.version) "Use an explicit stable version: vMAJOR.MINOR.PATCH"
  let sdk ← run .artifacts
  let pokyHead ← run .pokyHead
  demand (pokyHead = pin) "Poky checkout differs from pinned commit"
  let pokyStatus ← run .pokyStatus
  demand (pokyStatus = []) "Poky checkout must be clean"
  run .configuration
  run .sdkChecksum
  return sdk

def checkGh : Publisher Unit := do
  let found ← run .findGh
  demand found "GitHub CLI (gh) is required; install it and run gh auth login"
  run .authStatus

/-- All is committed. It returns `commit` and `dirty`. -/
def checkClean (options : Options) : Publisher (Text × Bool) := do
  let status ← run .status
  let dirty : Bool := status ≠ []
  demand (options.prepareOnly || !dirty)
    "Commit the platform-version update and all release source changes, then rerun; nothing published"
  let commit ← run .head
  return (commit, dirty)

/-- The version is that of the checkout. It returns `commit` and `dirty`. -/
def checkCheckout (options : Options) : Publisher (Text × Bool) := do
  let previous ← run .platformVersion
  onlyIf (!options.prepareOnly) checkGh
  onlyIf (previous ≠ some options.version) (run (.writeVersion options.version))
  checkClean options

/-- The loop over tags of tags. -/
def resolve (repo : Text) : Nat → GitObject → Publisher GitObject
  | 0, obj => if obj.isTag then raise .unfinished else pure obj
  | fuel + 1, obj =>
      if obj.isTag then do
        let obj ← run (.tagObject repo obj.sha)
        resolve repo fuel obj
      else pure obj

def tagRef (version : Text) : Text := "refs/tags/".toList ++ version

/-- The tag, if there is one, is at the commit. -/
def checkTag (fuel : Nat) (repo commit : Text) (ref : Option Ref) : Publisher Unit :=
  match ref with
  | none => pure ()
  | some ref => do
      let obj ← resolve repo fuel ref.object
      demand (obj.isCommit && obj.sha = commit) "Remote tag points to a different commit"

/-- The checks of the release, its tag and the commit. It returns `repo` and
`release`. -/
def checkRemote (fuel : Nat) (options : Options) (commit : Text) :
    Publisher (Text × Option Release) := do
  let repo ← run .repoView
  let pages ← run (.listReleases repo)
  let release := pages.flatten.find? fun release => release.tagName = options.version
  let refs ← run (.matchingRefs repo options.version)
  let ref := refs.find? fun ref => ref.name = tagRef options.version
  checkTag fuel repo commit ref
  demand (release.isNone || ref.isSome) "Existing release must have a matching remote tag"
  demand (release.isNone || options.replaceAssets)
    "Release exists; use --replace-assets to update deliberately"
  let remoteCommit ← run (.viewCommit repo commit)
  demand (remoteCommit = commit) "Push the release commit before publishing"
  return (repo, release)

def assetNames (version sdk : Text) : List Text :=
  let files := ["adaptive-pi-platform-".toList ++ version ++ "-qemuarm64.tar.gz".toList, sdk,
    "platform-manifest.json".toList]
  files ++ files.map (· ++ ".sha256".toList)

/-- The last part of `main`: create a draft, upload, publish. -/
def publishAssets (options : Options) (repo commit : Text) (release : Option Release)
    (assets : List Text) : Publisher Unit := do
  onlyIf release.isNone (run (.createRelease repo options.version commit))
  run (.upload repo options.version assets options.replaceAssets)
  onlyIf (release.all (·.draft)) (run (.publish repo options.version))

/-- `main`; at most `fuel` tags of tags are followed. -/
def Publisher.main (fuel : Nat) (options : Options) : Publisher Unit := do
  let sdk ← checkArtifacts options
  let (commit, dirty) ← checkCheckout options
  if options.prepareOnly then run (.package options.version commit dirty sdk)
  else do
    let (repo, release) ← checkRemote fuel options commit
    run (.package options.version commit dirty sdk)
    publishAssets options repo commit release (assetNames options.version sdk)

end Main

structure Checkout where
  /-- The SDK installer, if all artifacts are there and agree. -/
  sdk : Option Text
  pokyHead : Text
  pokyStatus : Text
  sdkChecksum : Bool
  platformVersion : Option Text
  committedVersion : Option Text
  /-- The status of all other files. -/
  changes : Text
  hasGh : Bool
  isLoggedIn : Bool
  head : Text

def Checkout.status (checkout : Checkout) : Text :=
  checkout.changes ++ if checkout.platformVersion = checkout.committedVersion then []
    else "M yocto/platform-version".toList

structure GitHub where
  repo : Text
  /-- The listing of the releases, page by page. -/
  pages : List (List Release)
  refs : List Ref
  tagObjects : Text → Option GitObject
  commits : List Text

namespace GitHub

variable (github : GitHub) (version : Text)

def release : Option Release :=
  github.pages.flatten.find? fun release => release.tagName = version

def tag : Option Ref := github.refs.find? fun ref => ref.name = tagRef version

def addRelease (release : Release) : GitHub :=
  { github with pages := match github.pages with
      | [] => [[release]]
      | first :: pages => (release :: first) :: pages }

def modifyRelease (f : Release → Release) : GitHub :=
  { github with pages := github.pages.map (List.map fun release =>
      if release.tagName = version then f release else release) }

def createTag (commit : Text) : GitHub :=
  if (github.tag version).isSome then github
  else { github with refs := github.refs ++ [⟨tagRef version, ⟨"commit".toList, commit⟩⟩] }

end GitHub

structure World where
  checkout : Checkout
  github : GitHub

def Release.addAssets (names : List Text) (release : Release) : Release :=
  { release with assets := release.assets.filter (!names.contains ·) ++ names }

namespace World

def withGitHub (world : World) (github : GitHub) : World := { world with github := github }

/-- What a command answers and does if it succeeds; some cannot. -/
def answer (world : World) : (command : Command) → Option (Output command × World)
  | .artifacts => world.checkout.sdk.map fun sdk => (sdk, world)
  | .pokyHead => some (world.checkout.pokyHead, world)
  | .pokyStatus => some (world.checkout.pokyStatus, world)
  | .configuration => some ((), world)
  | .sdkChecksum => if world.checkout.sdkChecksum then some ((), world) else none
  | .platformVersion => some (world.checkout.platformVersion, world)
  | .findGh => some (world.checkout.hasGh, world)
  | .authStatus => if world.checkout.isLoggedIn then some ((), world) else none
  | .writeVersion version =>
      some ((), { world with checkout := { world.checkout with platformVersion := some version } })
  | .status => some (world.checkout.status, world)
  | .head => some (world.checkout.head, world)
  | .repoView => some (world.github.repo, world)
  | .listReleases repo =>
      if repo = world.github.repo then some (world.github.pages, world) else none
  | .matchingRefs repo version =>
      if repo = world.github.repo then
        some (world.github.refs.filter fun ref => tagRef version <+: ref.name, world)
      else none
  | .tagObject repo sha =>
      if repo = world.github.repo then
        (world.github.tagObjects sha).map fun obj => (obj, world)
      else none
  | .viewCommit repo commit =>
      if repo = world.github.repo ∧ world.github.commits.contains commit then some (commit, world)
      else none
  | .package _ _ _ _ => some ((), world)
  | .createRelease repo version commit =>
      if repo = world.github.repo ∧ world.github.release version = none then
        some ((), world.withGitHub (world.github.addRelease ⟨version, true, commit, []⟩))
      else none
  | .upload repo version assets clobber =>
      match world.github.release version with
      | none => none
      | some release =>
          if repo = world.github.repo ∧ (clobber || assets.all (!release.assets.contains ·)) then
            some ((), world.withGitHub (world.github.modifyRelease version (·.addAssets assets)))
          else none
  | .publish repo version =>
      match world.github.release version with
      | none => none
      | some release =>
          if repo = world.github.repo then
            some ((), world.withGitHub ((world.github.modifyRelease version
              ({ · with draft := false })).createTag version release.target))
          else none

/-- What a command may have done if it has raised. The version file may be in any
state, an upload may have replaced or removed any of its assets, and other
commands have done all or nothing. -/
def Interrupted (world : World) (command : Command) (world' : World) : Prop :=
  match command with
  | .writeVersion _ => ∃ version, world' =
      { world with checkout := { world.checkout with platformVersion := version } }
  | .createRelease repo version commit =>
      world' = world ∨ world.answer (.createRelease repo version commit) = some ((), world')
  | .upload _ version assets _ => ∃ left : Release → List Text,
      (∀ release, ∀ asset, asset ∉ assets → (asset ∈ left release ↔ asset ∈ release.assets)) ∧
      world' = world.withGitHub
        (world.github.modifyRelease version fun release => { release with assets := left release })
  | .publish repo version =>
      world' = world ∨ world.answer (.publish repo version) = some ((), world')
  | _ => world' = world

/-- A command answers and succeeds, or raises. -/
def Responds (world : World) (command : Command) (reply : Except Failure (Output command))
    (world' : World) : Prop :=
  match reply with
  | .ok output => world.answer command = some (output, world')
  | .error error => error = .raised ∧ world.Interrupted command world'

def IsPublished (world : World) (version : Text) (assets : List Text) : Prop :=
  ∃ release, world.github.release version = some release ∧ release.draft = false ∧
    ∀ asset ∈ assets, asset ∈ release.assets

end World

end AdaptivePi.Yocto
