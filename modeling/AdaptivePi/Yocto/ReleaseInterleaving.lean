import AdaptivePi.Yocto.ReleaseRoundTrip
import Mathlib.Logic.Relation

/-!
Installations while the assets of the release are replaced. Each upload puts one asset
of one publication in its place, and a download finds what is there at its time, or
only the first part of it. What is installed is nevertheless of one publication, because
the installer takes what has the digests of a manifest, and a manifest that has the
digest of its checksum file.
-/

namespace AdaptivePi.Yocto

open Foundation Foundation.PythonText Script

variable {Content : Type}

abbrev AssetStore (Content : Type) := Text → Option Content

/-- An asset of a publication is uploaded, or one is deleted to be replaced. -/
inductive Uploads (packer : Packer Content) (packages : List (Package Content)) :
    AssetStore Content → AssetStore Content → Prop where
  | upload (store : AssetStore Content) {package : Package Content} (hpackage : package ∈ packages)
      {asset : Text × Content} (hasset : asset ∈ package.assets packer) :
      Uploads packer packages store (Function.update store asset.1 (some asset.2))
  | delete (store : AssetStore Content) (name : Text) :
      Uploads packer packages store (Function.update store name none)

structure Site (Content : Type) where
  machine : Machine Content
  store : AssetStore Content

abbrev SiteEvent (Content : Type) :=
  Event (InstallCommand Content) (InstallOutput Content) Raised (Site Content)

section Definitions

variable (packer : Packer Content) (IsPart : Content → Content → Prop)
  (packages : List (Package Content)) (options : InstallOptions)

/-- A part of a text is read as its beginning, or not at all. -/
def Packer.ReadsParts : Prop := ∀ text part read, '\r' ∉ text → IsPart part (packer.encode text) →
  packer.library.readText part = .ok read → read <+: text

/-- Anything may be uploaded before a command has its effect. A download finds the asset
whose name it has, if this is one that GitHub keeps, and else any file. -/
def Site.Responds (site : Site Content) (command : InstallCommand Content)
    (reply : Except Raised (InstallOutput Content command)) (site' : Site Content) : Prop :=
  Relation.ReflTransGen (Uploads packer packages) site.store site'.store ∧
  site.machine.Responds command reply site'.machine ∧
  ∀ name, command = .fetch (url options name) name → isAssetName name = true →
    (∃ done, reply = .ok done) → ∃ asset part,
      site'.store name = some asset ∧ IsPart part asset ∧ site'.machine.stage name = some part

/-- A file has the digest of an asset that it is not. -/
def IsCollision (file : Content) : Prop := ∃ package ∈ packages, ∃ asset ∈ package.assets packer,
  packer.library.sha256 file = packer.library.sha256 asset.2 ∧ file ≠ asset.2

def NoCollision (machine : Machine Content) : Prop :=
  ∀ name file, machine.stage name = some file → ¬IsCollision packer packages file

/-- The files that are downloaded are parts of assets, and do not collide. -/
def Machine.Serves (machine : Machine Content) (command : InstallCommand Content)
    (reply : Except Raised (InstallOutput Content command)) (machine' : Machine Content) : Prop :=
  machine.Responds command reply machine' ∧ NoCollision packer packages machine' ∧
  ∀ name, command = .fetch (url options name) name → isAssetName name = true →
    (∃ done, reply = .ok done) → ∃ package ∈ packages, ∃ asset part,
      (name, asset) ∈ package.assets packer ∧ IsPart part asset ∧ machine'.stage name = some part

/-- What can be installed of a publication: nothing was uncommitted, no file is empty,
and the name of the SDK installer has no blanks. -/
structure Package.IsInstallable (package : Package Content) : Prop where
  clean : package.dirty = false
  words : ∀ char ∈ package.sdkInstaller, isSpace char = false
  filled : ∀ file ∈ package.files, 0 < packer.size file.2

/-- The SDK and the platform of a publication. -/
structure Machine.IsRelease (package : Package Content) (machine : Machine Content) : Prop where
  version : package.version = options.version
  installable : package.IsInstallable packer
  sdk : ∃ tree, machine.sdk = some tree ∧ tree.environment = true ∧ tree.installer = package.sdk
  platform : machine.platform = some (package.platformFiles packer)

/-- The installer that is run is a published one. -/
def RunsPublished (event : InstallEvent Content) : Prop := ∀ name,
  event.question = .runInstaller name → ∃ package ∈ packages, event.before.stage name = some package.sdk

end Definitions

section Verification

variable {packer : Packer Content} {IsPart : Content → Content → Prop}
  {packages : List (Package Content)} {package : Package Content} {machine : Machine Content}
  {options : InstallOptions}

theorem yields_served (machine : Machine Content) (command : InstallCommand Content)
    {P : InstallOutput Content command → Machine Content → Prop}
    (h : ∀ out after, machine.Serves packer IsPart packages options command (.ok out) after → P out after) :
    Yields (Machine.Serves packer IsPart packages options) P (give command) machine :=
  yields_perform.mpr h

/-- A file that is verified has the digest that is listed for it. -/
theorem serves_verify {name : Text} {checksum : Content}
    (hchecksum : machine.stage (name ++ ".sha256".toList) = some checksum) :
    Yields (Machine.Serves packer IsPart packages options) (fun digest after => after = machine ∧
        NoCollision packer packages machine ∧ ∃ text file,
          packer.library.readText checksum = .ok text ∧ listedDigest name text = .ok digest ∧
          machine.stage name = some file ∧ digest = packer.library.sha256 file)
      (verify packer.library name) machine := by
  refine yields_bind.mpr (yields_served machine (.read _) ?_)
  rintro checksum' between ⟨⟨hread, rfl⟩, -⟩
  obtain rfl := Option.some.inj (hchecksum.symm.trans hread)
  refine yields_bind.mpr (yields_pureCode fun text htext => yields_bind.mpr
    (yields_pureCode fun digest hdigest => yields_bind.mpr (yields_served _ (.read _) ?_)))
  rintro file after ⟨⟨hfile, rfl⟩, hcollision, -⟩
  refine yields_bind.mpr (yields_require.mpr fun hsame => yields_pure.mpr ?_)
  have hequal := of_decide_eq_true hsame
  exact ⟨rfl, hcollision, text, file, htext, hequal ▸ hdigest, hfile, rfl⟩

/-- A download writes one file. -/
theorem serves_download {name : Text} : Yields (Machine.Serves packer IsPart packages options)
    (fun _ after => ∃ file, after = machine.writeStage name (some file) ∧
      (isAssetName name = true →
        ∃ package ∈ packages, ∃ asset, (name, asset) ∈ package.assets packer ∧ IsPart file asset))
    (download options name) machine := by
  refine yields_bind.mpr (yields_require.mpr fun _ =>
    yields_bind.mpr (yields_served machine (.print _) ?_))
  rintro _ printed ⟨rfl, -⟩
  refine yields_served printed (.fetch _ _) ?_
  rintro out after ⟨⟨-, file, rfl⟩, -, hserved⟩
  refine ⟨file, rfl, fun hplain => ?_⟩
  obtain ⟨package, hpackage, asset, part, hasset, hpart, hstage⟩ := hserved name rfl hplain ⟨out, rfl⟩
  have hfile : (printed.writeStage name (some file)).stage name = some file :=
    Function.update_self ..
  obtain rfl := Option.some.inj (hfile.symm.trans hstage)
  exact ⟨package, hpackage, asset, hasset, hpart⟩

/-- What is known of a file that is downloaded and verified. -/
structure IsFetched (packer : Packer Content) (IsPart : Content → Content → Prop)
    (packages : List (Package Content)) (name : Text) (machine : Machine Content) (digest : Text)
    (after : Machine Content) : Prop where
  collision : NoCollision packer packages after
  file : ∃ file, after.stage name = some file ∧ digest = packer.library.sha256 file
  listed : ∃ checksum text, packer.library.readText checksum = .ok text ∧
    listedDigest name text = .ok digest ∧ (isAssetName (name ++ ".sha256".toList) = true →
      ∃ package ∈ packages, ∃ asset,
        (name ++ ".sha256".toList, asset) ∈ package.assets packer ∧ IsPart checksum asset)
  frame : ∀ other, other ≠ name → other ≠ name ++ ".sha256".toList →
    after.stage other = machine.stage other

theorem serves_fetchVerified {name : Text} : Yields (Machine.Serves packer IsPart packages options)
    (IsFetched packer IsPart packages name machine)
    (fetchVerified packer.library options name) machine := by
  refine yields_bind.mpr fun events _ first hfirst => ?_
  obtain ⟨file, rfl, -⟩ := serves_download events _ first hfirst
  refine yields_bind.mpr fun events _ second hsecond => ?_
  obtain ⟨checksum, rfl, hserved⟩ := serves_download events _ second hsecond
  have hchecksum : ((machine.writeStage name (some file)).writeStage (name ++ ".sha256".toList)
      (some checksum)).stage (name ++ ".sha256".toList) = some checksum := Function.update_self ..
  intro events digest after hrun
  obtain ⟨rfl, hcollision, text, verified, htext, hdigest, hfile, rfl⟩ :=
    serves_verify hchecksum events digest after hrun
  refine ⟨hcollision, ⟨verified, hfile, rfl⟩, ⟨checksum, text, htext, hdigest, hserved⟩, ?_⟩
  intro other hname hother
  exact (Function.update_of_ne hother _ _).trans (Function.update_of_ne hname _ _)

/-- The checksum file of an asset, by its name. -/
theorem checksumAsset_of_mem (hpackage : package.IsWellFormed) {name : Text} {file content : Content}
    (hfile : (name, file) ∈ package.mainAssets packer)
    (hcontent : (name ++ ".sha256".toList, content) ∈ package.assets packer) :
    content = packer.encode (Package.checksumLine packer name file) := by
  have hchecksum : Package.checksumAsset packer (name, file) ∈ package.assets packer :=
    List.mem_append_right _ (List.mem_map_of_mem hfile)
  have heq := List.inj_on_of_nodup_map (f := Prod.fst) (l := package.assets packer)
    (package.map_fst_assets packer ▸ hpackage.nodup) hcontent hchecksum rfl
  exact congrArg Prod.snd heq

/-- A file that a published manifest lists is the published one. -/
theorem serves_fetchListed (hpackage : package ∈ packages) {manifest : Json}
    {nameKey digestKey message : String} {name : Text} {file : Content}
    (hasset : (name, file) ∈ package.assets packer)
    (hname : manifest.subscript nameKey.toList = .ok (.string name))
    (hdigest : manifest.subscript digestKey.toList = .ok (.string (packer.library.sha256 file))) :
    Yields (Machine.Serves packer IsPart packages options) (fun fetched after => fetched = name ∧
        (∀ char ∈ name, isSpace char = false) ∧ after.stage name = some file ∧
        ∀ other, other ≠ name → other ≠ name ++ ".sha256".toList →
          after.stage other = machine.stage other)
      (fetchListed packer.library options manifest nameKey digestKey message) machine := by
  have hasset' : assetName manifest nameKey.toList = .ok name := by
    unfold assetName
    rw [hname]
    rfl
  refine yields_bind.mpr (yields_pureCode fun fetched hfetched => yields_bind.mpr ?_)
  obtain rfl := Except.ok.inj (hasset'.symm.trans hfetched)
  intro events digest after hrun
  have h := serves_fetchVerified events digest after hrun
  refine yields_bind.mpr (yields_pureCode fun mismatch hmismatch => yields_bind.mpr
    (yields_require.mpr fun hsame => yields_pure.mpr ?_))
  rw [differs_eq hdigest] at hmismatch
  obtain rfl := Except.ok.inj hmismatch
  have hequal : packer.library.sha256 file = digest := by simpa using hsame
  obtain ⟨checksum, text, -, hlisted, -⟩ := h.listed
  refine ⟨rfl, (not_isSpace_of_listedDigest hlisted).2, ?_, h.frame⟩
  obtain ⟨downloaded, hdownloaded, rfl⟩ := h.file
  by_contra hne
  refine h.collision name downloaded hdownloaded ⟨package, hpackage, _, hasset, hequal.symm, ?_⟩
  rintro rfl
  exact hne hdownloaded

theorem keeps_of_serves {α : Type} {script : Installer Content α} {machine machine' : Machine Content}
    {events : List (InstallEvent Content)} {result : Except Raised α}
    (hquiet : Every (fun command : InstallCommand Content => ∀ url name, command ≠ .fetch url name) script)
    (hrun : Runs (Machine.Serves packer IsPart packages options) machine script events result machine') :
    Runs Machine.Keeps machine script events result machine' := by
  refine Program.Leads.of_forall hrun fun event hevent => ?_
  refine ⟨(Program.Leads.forall_respond hrun event hevent).1, ?_⟩
  rintro ⟨url, name, file, hquestion, -⟩
  exact hquiet.forall_event hrun event hevent url name hquestion

/-- The archive is extracted without a download. -/
theorem quiet_extractPlatform {library : Library Content} {bundle : Text} :
    Every (fun command : InstallCommand Content => ∀ url name, command ≠ .fetch url name)
      (extractPlatform library bundle) := by
  have hextract : ∀ members : List (Member Content),
      Every (fun command : InstallCommand Content => ∀ url name, command ≠ .fetch url name)
        (extractAll members) := by
    intro members
    induction members with
    | nil => exact every_pure
    | cons member members ih => exact every_bind (every_perform nofun) fun _ => ih
  refine every_bind (every_perform nofun) fun _ => every_bind (every_perform nofun) fun archive => ?_
  cases library.members archive with
  | none => exact every_raise
  | some members =>
      exact every_bind every_require fun _ => every_bind (hextract members) fun _ => every_perform nofun

/-- The published archive is extracted, with the published manifest. -/
theorem serves_extractPlatform (hlawful : packer.IsLawful) (hpackage : package.IsWellFormed)
    (harchive : machine.stage package.bundleName = some (package.bundle packer))
    (hmanifest : machine.stage manifestName = some (package.manifestFile packer)) :
    Yields (Machine.Serves packer IsPart packages options) (fun _ after =>
        after.extracted = package.platformFiles packer ∧
        (∀ file ∈ package.files, 0 < packer.size file.2) ∧ machine.Extends after)
      (extractPlatform packer.library package.bundleName) machine := by
  intro events done after hrun
  obtain ⟨⟨members, hmembers, hexpected, hextracted⟩, hextends⟩ := yields_extends staging_extractPlatform
    (yields_extractPlatform harchive hmanifest) events done after
    (keeps_of_serves quiet_extractPlatform hrun)
  rw [Package.bundle, hlawful.members_archive _ hpackage.names] at hmembers
  obtain rfl := Option.some.inj hmembers
  refine ⟨?_, ?_, hextends⟩
  · rw [hextracted, List.map_map]
    exact congrArg (· ++ _) (List.map_id _)
  · intro file hfile
    simp only [areExpected, Bool.and_eq_true, List.all_eq_true] at hexpected
    have hsize := hexpected.2 _ (List.mem_map_of_mem hfile)
    simpa using hsize

/-- What is prepared is a publication that can be installed. -/
structure IsPrepared (packer : Packer Content) (options : InstallOptions) (package : Package Content)
    (installer : Text) (machine : Machine Content) : Prop where
  version : package.version = options.version
  installable : package.IsInstallable packer
  installer : machine.stage installer = some package.sdk
  extracted : machine.extracted = package.platformFiles packer

variable (hlawful : packer.IsLawful) (hparts : packer.ReadsParts IsPart)
  (hpackages : ∀ package ∈ packages, package.IsWellFormed)

include hlawful hparts hpackages

/-- A manifest that is verified is one that was published. -/
theorem exists_of_isFetched {after : Machine Content} {digest : Text}
    (h : IsFetched packer IsPart packages manifestName machine digest after) :
    ∃ package ∈ packages, after.stage manifestName = some (package.manifestFile packer) := by
  have hplain : isAssetName manifestName = true := by decide
  have hspace := not_isSpace_of_isAssetName hplain
  have hname : manifestName ≠ [] := by decide
  obtain ⟨file, hfile, rfl⟩ := h.file
  obtain ⟨checksum, text, htext, hdigest, hserved⟩ := h.listed
  obtain ⟨package, hpackage, asset, hasset, hpart⟩ := hserved (isAssetName_checksum hplain)
  have hmanifest : (manifestName, package.manifestFile packer) ∈ package.mainAssets packer := by
    simp [Package.mainAssets]
  rw [checksumAsset_of_mem (hpackages package hpackage) hmanifest hasset] at hpart
  have hprefix := hparts _ _ _ (not_mem_return_checksumLine hlawful _ hspace) hpart htext
  have hsame := eq_of_listedDigest hprefix
    (words_checksumLine_of_lawful hlawful (package.manifestFile packer) hname hspace) hdigest
  refine ⟨package, hpackage, ?_⟩
  by_contra hne
  refine h.collision manifestName file hfile ⟨package, hpackage, _, List.mem_append_left _ hmanifest,
    hsame, ?_⟩
  rintro rfl
  exact hne hfile

/-- What is prepared is one publication, whatever is uploaded meanwhile. -/
theorem serves_prepare : Yields (Machine.Serves packer IsPart packages options)
    (fun installer after => ∃ package ∈ packages, IsPrepared packer options package installer after)
    (prepare packer.library options) machine := by
  refine yields_bind.mpr fun events digest first hfirst => ?_
  obtain ⟨package, hpackage, hmanifestFile⟩ := exists_of_isFetched hlawful hparts hpackages
    (serves_fetchVerified events digest first hfirst)
  have hwell := hpackages package hpackage
  obtain ⟨-, -, -, -, -, -, hbundle, hbundleDigest, hsdk, hsdkDigest⟩ :=
    @subscripts_manifest _ packer package
  refine yields_bind.mpr (yields_served first (.read _) ?_)
  rintro file start ⟨⟨hfile, rfl⟩, -⟩
  obtain rfl := Option.some.inj (hmanifestFile.symm.trans hfile)
  refine yields_bind.mpr (yields_pureCode fun manifest hread => ?_)
  obtain ⟨rfl, hversion, hclean⟩ := (readManifest_eq_ok_iff hlawful hwell).mp hread
  have hbundleAsset : (package.bundleName, package.bundle packer) ∈ package.assets packer := by
    simp [Package.assets, Package.mainAssets]
  have hsdkAsset : (package.sdkInstaller, package.sdk) ∈ package.assets packer := by
    simp [Package.assets, Package.mainAssets]
  refine yields_bind.mpr fun events bundle second hsecond => ?_
  obtain ⟨rfl, -, harchive, hsecondFrame⟩ := serves_fetchListed hpackage hbundleAsset hbundle hbundleDigest
    events bundle second hsecond
  refine yields_bind.mpr fun events installer third hthird => ?_
  obtain ⟨rfl, hwords, hsdkFile, hthirdFrame⟩ := serves_fetchListed hpackage hsdkAsset hsdk hsdkDigest
    events installer third hthird
  have hmanifestKept : third.stage manifestName = some (package.manifestFile packer) := by
    rw [hthirdFrame _ hwell.manifest_ne_sdk (manifest_ne_checksum _),
      hsecondFrame _ package.manifest_ne_bundle (manifest_ne_checksum _)]
    exact hfile
  have harchiveKept : third.stage package.bundleName = some (package.bundle packer) := by
    rw [hthirdFrame _ hwell.bundle_ne_sdk (package.bundle_ne_checksum _)]
    exact harchive
  refine yields_bind.mpr fun events done after hextract => yields_pure.mpr ?_
  obtain ⟨hextracted, hfilled, hextends⟩ := serves_extractPlatform hlawful hwell harchiveKept
    hmanifestKept events done after hextract
  exact ⟨package, hpackage, hversion, ⟨hclean, hwords, hfilled⟩, hextends _ _ hsdkFile, hextracted⟩

end Verification

section Installation

variable {packer : Packer Content} {IsPart : Content → Content → Prop}
  {packages : List (Package Content)} {package : Package Content} {machine : Machine Content}
  {options : InstallOptions} {past : List (InstallEvent Content)} {installer : Text}

/-- A platform that is there is that of a publication, and only published installers of
an SDK have been run. -/
structure IsSound (packer : Packer Content) (options : InstallOptions)
    (packages : List (Package Content)) (past : List (InstallEvent Content))
    (machine : Machine Content) : Prop where
  runs : ∀ event ∈ past, RunsPublished packages event
  platform : machine.platform.isSome = true → ∃ package ∈ packages,
    machine.IsRelease packer options package

/-- How a part of the installation ends. -/
def Ends (packer : Packer Content) (options : InstallOptions) (packages : List (Package Content))
    {α : Type} (past : List (InstallEvent Content)) (result : Except Raised α)
    (machine : Machine Content) : Prop :=
  IsSound packer options packages past machine ∧
    ((∃ value, result = .ok value) → machine.platform.isSome = true)

theorem isSound_of_none (hpast : ∀ event ∈ past, RunsPublished packages event)
    (hplatform : machine.platform = none) : IsSound packer options packages past machine := by
  refine ⟨hpast, fun hsome => ?_⟩
  rw [hplatform] at hsome
  cases hsome

theorem ends_of_error {α : Type} {error : Raised} (h : IsSound packer options packages past machine) :
    Ends packer options packages past (.error error : Except Raised α) machine := by
  refine ⟨h, ?_⟩
  rintro ⟨value, hvalue⟩
  cases hvalue

theorem runsPublished_snoc (last : InstallEvent Content)
    (hpast : ∀ event ∈ past, RunsPublished packages event) (h : RunsPublished packages last) :
    ∀ event ∈ past ++ [last], RunsPublished packages event := by
  intro other hother
  rcases List.mem_append.mp hother with hother | hother
  · exact hpast other hother
  · rw [List.mem_singleton.mp hother]
    exact h

/-- The rollback does not touch the platform. -/
theorem wp_ends_rollBack {error : Raised} (hpast : ∀ event ∈ past, RunsPublished packages event)
    (hplatform : machine.platform = none) :
    wp (Machine.Serves packer IsPart packages options) (Ends packer options packages) (rollBack error)
      past machine := by
  unfold rollBack
  split
  · refine wp_bind.mpr (wp_perform.mpr fun reply after hexists => ?_)
    have hafter : after = machine := by
      cases reply with
      | ok there => exact hexists.1.2
      | error raised => exact hexists.1
    subst hafter
    have hchecked := runsPublished_snoc ⟨after, .sdkExists, reply, after⟩ hpast nofun
    cases reply with
    | error raised => exact ends_of_error (isSound_of_none hchecked hplatform)
    | ok there =>
        cases there with
        | false => exact ends_of_error (isSound_of_none hchecked hplatform)
        | true =>
            refine wp_bind.mpr (wp_perform.mpr fun reply removed hremove => ?_)
            have hkept : removed.platform = none := by
              cases reply with
              | ok done =>
                  obtain rfl := hremove.1
                  exact hplatform
              | error raised =>
                  obtain ⟨-, sdk, rfl⟩ := hremove.1
                  exact hplatform
            have hremoved := runsPublished_snoc ⟨after, .removeSdk, reply, removed⟩ hchecked nofun
            cases reply with
            | ok done => exact ends_of_error (isSound_of_none hremoved hkept)
            | error raised => exact ends_of_error (isSound_of_none hremoved hkept)
  · exact wp_raise.mpr (ends_of_error (isSound_of_none hpast hplatform))

/-- The platform is moved to its place, or it is not, and then the SDK is removed. -/
theorem wp_ends_movePlatform (hpackage : package ∈ packages)
    (hrelease : machine.replacePlatform.IsRelease packer options package)
    (hplatform : machine.platform = none) (hpast : ∀ event ∈ past, RunsPublished packages event) :
    wp (Machine.Serves packer IsPart packages options) (rescue (Machine.Serves packer IsPart packages options)
      (Ends packer options packages) rollBack) (give .movePlatform) past machine := by
  refine wp_perform.mpr fun reply after hmove => ?_
  have hmoved := runsPublished_snoc ⟨machine, .movePlatform, reply, after⟩ hpast nofun
  cases reply with
  | ok done =>
      obtain rfl := hmove.1
      exact ⟨⟨hmoved, fun _ => ⟨package, hpackage, hrelease⟩⟩, fun _ => rfl⟩
  | error raised =>
      rcases hmove.1 with rfl | ⟨hinterrupt, rfl⟩
      · exact wp_ends_rollBack hmoved hplatform
      · -- not caught, but the platform is there
        change wp _ _ (rollBack raised) _ _
        unfold rollBack
        rw [if_neg (by rw [hinterrupt]; exact Bool.false_ne_true)]
        exact wp_raise.mpr (ends_of_error ⟨hmoved, fun _ => ⟨package, hpackage, hrelease⟩⟩)

/-- The last steps, from what is prepared. -/
theorem wp_ends_installBoth (hpackage : package ∈ packages)
    (hprepared : IsPrepared packer options package installer machine) (hplatform : machine.platform = none)
    (hpast : ∀ event ∈ past, RunsPublished packages event) :
    wp (Machine.Serves packer IsPart packages options) (rescue (Machine.Serves packer IsPart packages options)
      (Ends packer options packages) rollBack) (installBoth installer) past machine := by
  refine wp_bind.mpr (wp_perform.mpr fun reply installed hrun => ?_)
  have hpublished : RunsPublished packages ⟨machine, .runInstaller installer, reply, installed⟩ := by
    intro name hname
    cases hname
    exact ⟨package, hpackage, hprepared.installer⟩
  have hinstalled := runsPublished_snoc _ hpast hpublished
  obtain ⟨⟨sdk, rfl, hinstaller⟩, -⟩ := hrun
  cases reply with
  | error raised => exact wp_ends_rollBack hinstalled hplatform
  | ok done =>
      refine wp_bind.mpr (wp_perform.mpr fun reply after hexists => ?_)
      have hchecked := runsPublished_snoc
        ⟨{ machine with sdk := sdk }, .environmentExists, reply, after⟩ hinstalled nofun
      cases reply with
      | error raised =>
          obtain rfl := hexists.1
          exact wp_ends_rollBack hchecked hplatform
      | ok there =>
          obtain ⟨⟨hthere, rfl⟩, -⟩ := hexists
          cases there with
          | false => exact wp_ends_rollBack hchecked hplatform
          | true =>
              obtain ⟨tree, rfl, henvironment⟩ := (Option.any_eq_true _ _).mp hthere.symm
              have hsource : tree.installer = package.sdk :=
                (Option.some.inj (hprepared.installer.symm.trans (hinstaller tree rfl))).symm
              exact wp_ends_movePlatform hpackage ⟨hprepared.version, hprepared.installable,
                ⟨tree, rfl, henvironment, hsource⟩, congrArg some hprepared.extracted⟩ hplatform hchecked

theorem responds_of_serves {α : Type} {script : Installer Content α} {machine' : Machine Content}
    {events : List (InstallEvent Content)} {result : Except Raised α}
    (hrun : Runs (Machine.Serves packer IsPart packages options) machine script events result machine') :
    Runs Machine.Responds machine script events result machine' :=
  Program.Leads.of_forall hrun fun event hevent => (Program.Leads.forall_respond hrun event hevent).1

theorem isRelease_of_agrees {machine' : Machine Content} (h : machine.Agrees machine')
    (hrelease : machine.IsRelease packer options package) :
    machine'.IsRelease packer options package := by
  obtain ⟨tree, hsdk, hsource⟩ := hrelease.sdk
  exact ⟨hrelease.version, hrelease.installable, ⟨tree, h.1.trans hsdk, hsource⟩,
    h.2.trans hrelease.platform⟩

/-- An idle script runs no installer, and keeps what is installed. -/
theorem isSound_of_idle {α : Type} {script : Installer Content α} {machine' : Machine Content}
    {events : List (InstallEvent Content)} {result : Except Raised α} (hidle : Every IsIdle script)
    (h : IsSound packer options packages past machine)
    (hrun : Runs (Machine.Serves packer IsPart packages options) machine script events result machine') :
    IsSound packer options packages (past ++ events) machine' ∧ machine.Agrees machine' := by
  have hagrees := (agrees_of_runs hidle (responds_of_serves hrun)).1
  refine ⟨⟨fun event hevent => ?_, fun hsome => ?_⟩, hagrees⟩
  · rcases List.mem_append.mp hevent with hevent | hevent
    · exact h.runs event hevent
    · intro name hname
      have hinstalls := hidle.forall_event hrun event hevent
      rw [IsIdle, hname] at hinstalls
      cases hinstalls
  · rw [hagrees.2] at hsome
    obtain ⟨package, hpackage, hrelease⟩ := h.platform hsome
    exact ⟨package, hpackage, isRelease_of_agrees hagrees hrelease⟩

theorem wp_isSound_idle {α : Type} {script : Installer Content α}
    {post : List (InstallEvent Content) → Except Raised α → Machine Content → Prop}
    (hidle : Every IsIdle script) (h : IsSound packer options packages past machine)
    (hpost : ∀ past result after, IsSound packer options packages past after →
      machine.Agrees after → post past result after) :
    wp (Machine.Serves packer IsPart packages options) post script past machine := by
  refine wp_iff.mpr fun events result after hrun => ?_
  obtain ⟨hsound, hagrees⟩ := isSound_of_idle hidle h hrun
  exact hpost _ result after hsound hagrees

/-- What follows an idle script, unless that raises. -/
theorem wp_ends_idle_bind {α β : Type} {script : Installer Content α} {next : α → Installer Content β}
    (hidle : Every IsIdle script) (h : IsSound packer options packages past machine)
    (hnext : ∀ past value after, IsSound packer options packages past after → machine.Agrees after →
      wp (Machine.Serves packer IsPart packages options) (Ends packer options packages) (next value) past after) :
    wp (Machine.Serves packer IsPart packages options) (Ends packer options packages) (script >>= next) past
      machine := by
  refine wp_bind.mpr (wp_isSound_idle hidle h fun past result after hafter hagrees => ?_)
  cases result with
  | error error => exact ends_of_error hafter
  | ok value => exact hnext past value after hafter hagrees

variable (hlawful : packer.IsLawful) (hparts : packer.ReadsParts IsPart)
  (hpackages : ∀ package ∈ packages, package.IsWellFormed)

include hlawful hparts hpackages

theorem wp_ends_stageAndInstall (h : IsSound packer options packages past machine)
    (hplatform : machine.platform = none) :
    wp (Machine.Serves packer IsPart packages options) (Ends packer options packages)
      (stageAndInstall packer.library options) past machine := by
  refine wp_bind.mpr (wp_iff.mpr fun events result after hrun => ?_)
  obtain ⟨hsound, hagrees⟩ := isSound_of_idle idle_prepare h hrun
  cases result with
  | error error => exact ends_of_error hsound
  | ok installer =>
      obtain ⟨package, hpackage, hprepared⟩ :=
        serves_prepare hlawful hparts hpackages events installer after hrun
      exact wp_catching.mpr (wp_ends_installBoth hpackage hprepared (hagrees.2.trans hplatform) hsound.runs)

/-- The temporary directory is left at last. -/
theorem wp_ends_stage (h : IsSound packer options packages past machine)
    (hplatform : machine.platform = none) :
    wp (Machine.Serves packer IsPart packages options) (Ends packer options packages)
      ((stageAndInstall packer.library options).lastly (give .removeStage)) past machine := by
  refine wp_lastly.mpr (wp_mono ?_ (wp_ends_stageAndInstall hlawful hparts hpackages h hplatform))
  rintro past outcome after ⟨hsound, hcomplete⟩
  have hidle : Every IsIdle (@give Content .removeStage) := idle_give rfl
  refine wp_isSound_idle hidle hsound fun past removal left hleft hagrees => ?_
  cases removal with
  | ok removed => exact ⟨hleft, fun hvalue => hagrees.2 ▸ hcomplete hvalue⟩
  | error error => exact ends_of_error hleft

/-- Every run of the installer ends soundly. -/
theorem wp_ends_main (hplatform : machine.platform = none) :
    wp (Machine.Serves packer IsPart packages options) (Ends packer options packages)
      (Installer.main packer.library options) [] machine := by
  have hstart : IsSound packer options packages [] machine := isSound_of_none (by simp) hplatform
  have hcreate : Every IsIdle (@give Content .createStage) := idle_give rfl
  refine wp_ends_idle_bind idle_checkHost hstart fun past _ checked hchecked hagrees => ?_
  refine wp_ends_idle_bind hcreate hchecked fun past _ staged hstaged hsame => ?_
  have hnothing := (hagrees.trans hsame).2.trans hplatform
  refine wp_bind.mpr (wp_mono ?_ (wp_ends_stage hlawful hparts hpackages hstaged hnothing))
  rintro past result left ⟨hsound, hcomplete⟩
  cases result with
  | error error => exact ends_of_error hsound
  | ok done =>
      have hrest : Every IsIdle (do
          give (.print ("Installed platform ".toList ++ options.version ++
            ". Verifying the repository cross-build...".toList))
          give .configure
          give .build
          give (.print ("Ready. Start with scripts/qemu/start-development-image.sh; " ++
            "deploy/debug as usual.").toList) : Installer Content Unit) :=
        every_bind (idle_give rfl) fun _ => every_bind (idle_give rfl) fun _ =>
          every_bind (idle_give rfl) fun _ => idle_give rfl
      refine wp_isSound_idle hrest hsound fun past result final hfinal hagrees => ⟨hfinal, fun _ => ?_⟩
      rw [hagrees.2]
      exact hcomplete ⟨done, rfl⟩

end Installation

section Main

variable {packer : Packer Content} {IsPart : Content → Content → Prop}
  {packages : List (Package Content)} {options : InstallOptions} {site site' : Site Content}

/-- Every asset of the release is one of a publication. -/
def Site.IsPublished (packer : Packer Content) (packages : List (Package Content))
    (site : Site Content) : Prop :=
  ∀ name asset, site.store name = some asset → ∃ package ∈ packages,
    (name, asset) ∈ package.assets packer

theorem isPublished_of_uploads (h : Relation.ReflTransGen (Uploads packer packages) site.store site'.store)
    (hpublished : site.IsPublished packer packages) : site'.IsPublished packer packages := by
  have hall : ∀ store, Relation.ReflTransGen (Uploads packer packages) site.store store →
      ∀ name asset, store name = some asset → ∃ package ∈ packages,
        (name, asset) ∈ package.assets packer := by
    intro store hstore
    induction hstore with
    | refl => exact hpublished
    | @tail middle final _ hstep ih =>
        intro name asset hasset
        cases hstep with
        | @upload package hpackage uploaded hmem =>
            by_cases hname : name = uploaded.1
            · subst hname
              rw [Function.update_self] at hasset
              obtain rfl := Option.some.inj hasset
              exact ⟨package, hpackage, hmem⟩
            · rw [Function.update_of_ne hname] at hasset
              exact ih name asset hasset
        | delete deleted =>
            by_cases hname : name = deleted
            · subst hname
              rw [Function.update_self] at hasset
              cases hasset
            · rw [Function.update_of_ne hname] at hasset
              exact ih name asset hasset
  exact hall site'.store h

/-- The machine is served parts of published assets. -/
theorem serves_of_runs {α : Type} {script : Installer Content α} {events : List (SiteEvent Content)}
    {result : Except Raised α} (hpublished : site.IsPublished packer packages)
    (hrun : Runs (Site.Responds packer IsPart packages options) site script events result site')
    (hcollision : ∀ event ∈ events, NoCollision packer packages event.after.machine) :
    Runs (Machine.Serves packer IsPart packages options) site.machine script
      (events.map (Exchange.map Site.machine)) result site'.machine := by
  have hresponds := Program.Leads.forall_respond hrun
  obtain ⟨-, hstores⟩ := Program.Leads.invariant hrun hpublished fun event hevent hbefore =>
    isPublished_of_uploads (hresponds event hevent).1 hbefore
  refine Program.Leads.map Site.machine hrun fun event hevent => ?_
  obtain ⟨-, hmachine, hfetch⟩ := hresponds event hevent
  refine ⟨hmachine, hcollision event hevent, fun name hquestion hplain hdone => ?_⟩
  obtain ⟨asset, part, hasset, hpart, hstage⟩ := hfetch name hquestion hplain hdone
  obtain ⟨package, hpackage, hmem⟩ := hstores event hevent name asset hasset
  exact ⟨package, hpackage, asset, part, hmem, hpart, hstage⟩

/-- Whatever is uploaded while an installer runs, it runs no SDK installer that has not
been published, and a platform that it leaves is, with the SDK, of one publication. -/
theorem installed_from_one_publication {events : List (SiteEvent Content)} {result : Except Raised Unit}
    (hlawful : packer.IsLawful) (hparts : packer.ReadsParts IsPart)
    (hpackages : ∀ package ∈ packages, ∃ build version commit dirty,
      packageBuild packer build version commit dirty = .ok package)
    (hstore : site.store = fun _ => none) (hplatform : site.machine.platform = none)
    (hrun : Runs (Site.Responds packer IsPart packages options) site (Installer.main packer.library options)
      events result site')
    (hcollision : ∀ event ∈ events, NoCollision packer packages event.after.machine) :
    (∀ event ∈ events, ∀ name, event.question = .runInstaller name → ∃ package ∈ packages,
      event.before.machine.stage name = some package.sdk) ∧
    (site'.machine.platform.isSome = true → ∃ package ∈ packages,
      site'.machine.IsRelease packer options package) ∧
    (result = .ok () → site'.machine.platform.isSome = true) := by
  have hwell : ∀ package ∈ packages, package.IsWellFormed := by
    intro package hpackage
    obtain ⟨build, version, commit, dirty, hbuild⟩ := hpackages package hpackage
    exact isWellFormed_of_packageBuild hbuild
  have hpublished : site.IsPublished packer packages := by
    intro name asset hasset
    rw [hstore] at hasset
    cases hasset
  have hserved := serves_of_runs hpublished hrun hcollision
  obtain ⟨hsound, hcomplete⟩ := wp_iff.mp
    (wp_ends_main hlawful hparts hwell hplatform) _ result site'.machine hserved
  refine ⟨fun event hevent name hname => ?_, hsound.platform, fun hok => hcomplete ⟨(), hok⟩⟩
  exact hsound.runs _ (List.mem_map_of_mem hevent) name hname

end Main

section Replacement

def Package.store (packer : Packer Content) (package : Package Content) : AssetStore Content :=
  fun name => (package.assets packer).lookup name

variable {packer : Packer Content} {packages : List (Package Content)} {package : Package Content}

/-- The assets of a publication are uploaded one by one. -/
theorem uploads_all (hpackage : package ∈ packages) (store : AssetStore Content)
    {assets : List (Text × Content)} (hassets : ∀ asset ∈ assets, asset ∈ package.assets packer) :
    Relation.ReflTransGen (Uploads packer packages) store
      fun name => (assets.lookup name).or (store name) := by
  induction assets with
  | nil => exact .refl
  | cons asset assets ih =>
      have hrest := ih fun other hother => hassets other (List.mem_cons_of_mem _ hother)
      have hstep := Uploads.upload (fun name => (assets.lookup name).or (store name)) hpackage
        (hassets asset List.mem_cons_self)
      have hstore : (fun name => ((asset :: assets).lookup name).or (store name)) =
          Function.update (fun name => (assets.lookup name).or (store name)) asset.1 (some asset.2) := by
        funext name
        by_cases hname : name = asset.1
        · subst hname
          rw [Function.update_self, List.lookup_cons, beq_self_eq_true]
          rfl
        · rw [Function.update_of_ne hname, List.lookup_cons, beq_false_of_ne hname]
      rw [hstore]
      exact hrest.tail hstep

/-- A publication replaces all assets that have its names. -/
theorem uploads_store (hpackage : package ∈ packages) (h : package.IsWellFormed)
    {store : AssetStore Content} (hstore : ∀ name file, store name = some file →
      name ∈ (package.assets packer).map Prod.fst) :
    Relation.ReflTransGen (Uploads packer packages) store (package.store packer) := by
  have hall := uploads_all hpackage store (fun _ hasset => hasset : ∀ asset ∈ package.assets packer, _)
  have heq : (fun name => ((package.assets packer).lookup name).or (store name)) =
      package.store packer := by
    funext name
    unfold Package.store
    cases hfound : store name with
    | none => exact Option.or_none
    | some file =>
        obtain ⟨⟨_, asset⟩, hasset, rfl⟩ := List.mem_map.mp (hstore name file hfound)
        rw [lookup_asset h hasset]
        rfl
  rwa [heq] at hall

end Replacement

section Sample

/-- The build is repeated with another launcher, and is published in its place. -/
def rebuild : Build SampleFile where
  root := []
  find := fun path =>
    some (.text (match path.getLast? with
      | some 'h' => "mkdir $3\n".toList
      | some 'y' => "y".toList
      | _ => "x".toList))
  imageData := sampleData
  sdkData := sampleData
  config := sampleConfig

def replacement : Package SampleFile :=
  { samplePackage with
    commit := "decade".toList
    files := artifactNames.map (fun name => (name, .text "x".toList)) ++ [(runnerName, .text "y".toList)] }

theorem replacement_eq :
    packageBuild samplePacker rebuild "v0.3.0".toList "decade".toList false = .ok replacement := by
  rfl

def publications : List (Package SampleFile) := [samplePackage, replacement]

theorem isWellFormed_publications : ∀ package ∈ publications, package.IsWellFormed :=
  List.forall_mem_cons.mpr ⟨isWellFormed_of_packageBuild samplePackage_eq,
    List.forall_mem_singleton.mpr (isWellFormed_of_packageBuild replacement_eq)⟩

/-- The checksum file of the manifest, without its last character. -/
def cutChecksum : SampleFile :=
  .text (Package.checksumLine samplePacker manifestName
    (samplePackage.manifestFile samplePacker)).dropLast

/-- What a download finds: a checksum file is cut. -/
def foundIn (store : AssetStore SampleFile) (name : Text) : Option SampleFile :=
  if name = manifestName ++ ".sha256".toList then some cutChecksum else store name

/-- Assets that are downloaded late are of the replacement. -/
def Site.storeFor (isLate : Text → Bool) (site : Site SampleFile) :
    InstallCommand SampleFile → AssetStore SampleFile
  | .fetch _ name => (if isLate name then replacement else samplePackage).store samplePacker
  | _ => site.store

/-- What commands answer and do while the assets are replaced. -/
def replacingAnswer (isLate : Text → Bool) (site : Site SampleFile)
    (command : InstallCommand SampleFile) :
    Option (InstallOutput SampleFile command × Site SampleFile) :=
  let store := site.storeFor isLate command
  (hostAnswer sampleOptions (foundIn store) site.machine command).map fun (out, machine) =>
    (out, ⟨machine, store⟩)

def servedFiles : List SampleFile :=
  (samplePackage.assets samplePacker).map Prod.snd ++
    [replacement.bundle samplePacker, replacement.manifestFile samplePacker,
      .text (Package.checksumLine samplePacker replacement.bundleName (replacement.bundle samplePacker)),
      .text (Package.checksumLine samplePacker manifestName (replacement.manifestFile samplePacker)),
      cutChecksum]

theorem nodup_servedDigests : (servedFiles.map sampleDigest).Nodup := by
  decide +kernel

/-- All assets of both publications are served. -/
theorem mem_servedFiles : ∀ package ∈ publications, ∀ asset ∈ package.assets samplePacker,
    asset.2 ∈ servedFiles := by
  intro package hpackage
  rcases List.mem_cons.mp hpackage with rfl | hpackage
  · intro asset hasset
    exact List.mem_append_left _ (List.mem_map_of_mem hasset)
  · obtain rfl := List.mem_singleton.mp hpackage
    have hsame : servedFiles = [samplePackage.bundle samplePacker, replacement.sdk,
        samplePackage.manifestFile samplePacker,
        (Package.checksumAsset samplePacker (samplePackage.bundleName, samplePackage.bundle samplePacker)).2,
        (Package.checksumAsset samplePacker (replacement.sdkInstaller, replacement.sdk)).2,
        (Package.checksumAsset samplePacker (manifestName, samplePackage.manifestFile samplePacker)).2,
        replacement.bundle samplePacker, replacement.manifestFile samplePacker,
        (Package.checksumAsset samplePacker (replacement.bundleName, replacement.bundle samplePacker)).2,
        (Package.checksumAsset samplePacker (manifestName, replacement.manifestFile samplePacker)).2,
        cutChecksum] := rfl
    rw [hsame]
    simp only [Package.assets, Package.mainAssets, List.map_cons, List.map_nil, List.cons_append,
      List.nil_append, List.forall_mem_cons]
    simp only [List.mem_cons, true_or, or_true, true_and]
    exact fun _ hasset => absurd hasset List.not_mem_nil

/-- A text may be cut. -/
inductive SampleFile.IsPart : SampleFile → SampleFile → Prop where
  | whole (file : SampleFile) : IsPart file file
  | cut (text : Text) (length : Nat) : IsPart (.text (text.take length)) (.text text)

/-- A text that is cut is read as its beginning. -/
theorem readsParts_sample : samplePacker.ReadsParts SampleFile.IsPart := by
  intro text part read hreturn hpart hread
  change SampleFile.IsPart part (.text text) at hpart
  cases hpart with
  | whole =>
      have htext := samplePacker_isLawful.readText_of_not_mem hreturn
      obtain rfl := Except.ok.inj (htext.symm.trans hread)
      exact List.prefix_rfl
  | cut _ length =>
      have hcut : '\r' ∉ text.take length := fun hmem => hreturn (List.mem_of_mem_take hmem)
      have htext := samplePacker_isLawful.readText_of_not_mem hcut
      obtain rfl := Except.ok.inj (htext.symm.trans hread)
      exact List.take_prefix length text

/-- The release holds nothing or a publication, and what was downloaded of it was served. -/
structure IsHeld (site : Site SampleFile) : Prop where
  store : site.store = (fun _ => none) ∨
    ∃ package ∈ publications, site.store = package.store samplePacker
  stage : ∀ name file, site.machine.stage name = some file → file ∈ servedFiles

/-- The digests of the files that are served are different. -/
theorem noCollision_of_isHeld {site : Site SampleFile} (h : IsHeld site) :
    NoCollision samplePacker publications site.machine := by
  rintro name file hfile ⟨package, hpackage, asset, hasset, hsame, hne⟩
  have hserved := mem_servedFiles package hpackage asset hasset
  exact hne (List.inj_on_of_nodup_map nodup_servedDigests (h.stage name file hfile) hserved hsame)

/-- Any publication may replace what the release holds. -/
theorem uploads_of_isHeld {site : Site SampleFile} (h : IsHeld site) {package : Package SampleFile}
    (hpackage : package ∈ publications) :
    Relation.ReflTransGen (Uploads samplePacker publications) site.store (package.store samplePacker) := by
  have hnames : ∀ package ∈ publications, (package.assets samplePacker).map Prod.fst =
      assetNames samplePackage.version samplePackage.sdkInstaller :=
    List.forall_mem_cons.mpr ⟨rfl, List.forall_mem_singleton.mpr rfl⟩
  apply uploads_store hpackage (isWellFormed_publications package hpackage)
  intro name file hfile
  rcases h.store with hnone | ⟨other, hother, hstore⟩
  · rw [hnone] at hfile
    cases hfile
  · rw [hstore] at hfile
    rw [hnames package hpackage, ← hnames other hother]
    exact List.mem_map_of_mem (mem_of_lookup hfile)

section Replacing

variable {isLate : Text → Bool} {site site' : Site SampleFile} {command : InstallCommand SampleFile}
  {out : InstallOutput SampleFile command}

/-- The publication that a download finds. -/
theorem exists_found (name : Text) : ∃ package ∈ publications,
    (if isLate name then replacement else samplePackage) = package := by
  cases isLate name with
  | true => exact ⟨replacement, List.mem_cons_of_mem _ (List.mem_singleton_self _), rfl⟩
  | false => exact ⟨samplePackage, List.mem_cons_self, rfl⟩

/-- What is found is a part of an asset that is held. -/
theorem isPart_of_foundIn (hearly : isLate (manifestName ++ ".sha256".toList) = false) {name : Text}
    {file : SampleFile} (hfile : foundIn
      ((if isLate name then replacement else samplePackage).store samplePacker) name = some file) :
    file ∈ servedFiles ∧ ∃ asset, (if isLate name then replacement else samplePackage).store
      samplePacker name = some asset ∧ SampleFile.IsPart file asset := by
  obtain ⟨package, hpackage, hfound⟩ := @exists_found isLate name
  unfold foundIn at hfile
  split at hfile
  · rename_i hname
    obtain rfl := Option.some.inj hfile
    subst hname
    rw [hearly]
    have hmanifest : (manifestName, samplePackage.manifestFile samplePacker) ∈
        samplePackage.mainAssets samplePacker := by simp [Package.mainAssets]
    refine ⟨by simp [servedFiles], _, lookup_asset (isWellFormed_publications _ List.mem_cons_self)
      (List.mem_append_right _ (List.mem_map_of_mem hmanifest)), ?_⟩
    rw [cutChecksum, List.dropLast_eq_take]
    exact .cut _ _
  · rw [hfound] at hfile ⊢
    exact ⟨mem_servedFiles package hpackage _ (mem_of_lookup hfile), file, hfile, .whole file⟩

/-- Only a download adds to the temporary directory. -/
theorem stage_of_hostAnswer {found : Text → Option SampleFile} {machine machine' : Machine SampleFile}
    (hanswer : hostAnswer sampleOptions found machine command = some (out, machine'))
    (hfound : ∀ url name, command = .fetch url name → ∀ file, found name = some file →
      file ∈ servedFiles)
    (hstage : ∀ name file, machine.stage name = some file → file ∈ servedFiles) :
    ∀ name file, machine'.stage name = some file → file ∈ servedFiles := by
  cases command with
  | fetch address name =>
      obtain ⟨-, file, hfile, rfl⟩ := hostAnswer_fetch hanswer
      intro other written hwritten
      change Function.update machine.stage name (some file) other = some written at hwritten
      by_cases hname : other = name
      · subst hname
        rw [Function.update_self] at hwritten
        obtain rfl := Option.some.inj hwritten
        exact hfound address other rfl file hfile
      · rw [Function.update_of_ne hname] at hwritten
        exact hstage other written hwritten
  | read name | copyManifest | runInstaller name =>
      obtain ⟨file, -, heq⟩ := Option.map_eq_some_iff.mp hanswer
      cases heq
      exact hstage
  | createStage | removeStage =>
      cases hanswer
      exact nofun
  | which tool | sdkExists | platformExists | print message | makeDirectory | extract member
  | environmentExists | movePlatform | removeSdk | configure | build =>
      cases hanswer
      exact hstage

/-- A step of the sample is one that is possible. -/
theorem responds_of_replacingAnswer (hearly : isLate (manifestName ++ ".sha256".toList) = false)
    (hheld : IsHeld site) (h : replacingAnswer isLate site command = some (out, site')) :
    Site.Responds samplePacker SampleFile.IsPart publications sampleOptions site command (.ok out) site' ∧
      IsHeld site' := by
  obtain ⟨⟨value, machine'⟩, hanswer, heq⟩ := Option.map_eq_some_iff.mp h
  obtain ⟨rfl, rfl⟩ := Prod.mk.inj heq
  have hresponds := responds_of_hostAnswer hanswer
  cases command with
  | fetch address name =>
      obtain ⟨package, hpackage, hstore⟩ := @exists_found isLate name
      obtain ⟨-, file, hfile, rfl⟩ := hostAnswer_fetch hanswer
      obtain ⟨-, asset, hasset, hpart⟩ := isPart_of_foundIn hearly hfile
      have huploads := uploads_of_isHeld hheld hpackage
      rw [← hstore] at huploads hpackage
      refine ⟨⟨huploads, hresponds, ?_⟩, ⟨.inr ⟨_, hpackage, rfl⟩, ?_⟩⟩
      · rintro fetched hfetched - -
        cases hfetched
        exact ⟨asset, file, hasset, hpart, Function.update_self ..⟩
      · refine stage_of_hostAnswer hanswer ?_ hheld.stage
        rintro _ _ hsame found hfound
        cases hsame
        exact (isPart_of_foundIn hearly hfound).1
  | _ =>
      exact ⟨⟨.refl, hresponds, nofun⟩, ⟨hheld.store, stage_of_hostAnswer hanswer nofun hheld.stage⟩⟩

/-- What is executed while the assets are replaced is a run. -/
theorem exists_replacing_run {result : Except Raised Unit}
    (hearly : isLate (manifestName ++ ".sha256".toList) = false)
    (hexecute : execute (replacingAnswer isLate) (Installer.main samplePacker.library sampleOptions)
      ⟨sampleMachine, fun _ => none⟩ = some (result, site')) : IsHeld site' ∧ ∃ events,
    Runs (Site.Responds samplePacker SampleFile.IsPart publications sampleOptions)
      ⟨sampleMachine, fun _ => none⟩ (Installer.main samplePacker.library sampleOptions) events result
        site' ∧
    ∀ event ∈ events, NoCollision samplePacker publications event.after.machine := by
  obtain ⟨exchanges, hrun⟩ := Program.execute_eq_some_iff.mp hexecute
  have hinit : IsHeld ⟨sampleMachine, fun _ => none⟩ := ⟨.inl rfl, nofun⟩
  have hanswers : ∀ {start after : Site SampleFile} {command : InstallCommand SampleFile}
      {reply : Except Raised (InstallOutput SampleFile command)}, IsHeld start →
      success (replacingAnswer isLate) start command = some (reply, after) →
      Site.Responds samplePacker SampleFile.IsPart publications sampleOptions start command reply after ∧
        IsHeld after := by
    intro start after command reply hheld h
    obtain ⟨⟨out, left⟩, hanswer, heq⟩ := Option.map_eq_some_iff.mp h
    obtain ⟨rfl, rfl⟩ := Prod.mk.inj heq
    exact responds_of_replacingAnswer hearly hheld hanswer
  have hall := Program.Leads.forall_respond hrun
  obtain ⟨hfinal, hheld⟩ := Program.Leads.invariant hrun hinit fun exchange hexchange hbefore =>
    (hanswers hbefore (hall exchange hexchange)).2
  obtain ⟨events, _, hsite, rfl, rfl⟩ := Program.Leads.lift (f := id) (I := IsHeld) hrun
    (fun start command reply after hstart h =>
      ⟨after, rfl, (hanswers hstart h).2, (hanswers hstart h).1⟩) rfl hinit
  refine ⟨hfinal, events, hsite, fun event hevent => ?_⟩
  exact noCollision_of_isHeld (hheld _ (List.mem_map_of_mem hevent))

end Replacing

def refusal : Except Raised Unit → Option Text
  | .ok _ => none
  | .error (.error (.valueError message)) => some message
  | .error _ => some []

theorem eq_ok_of_refusal {result : Except Raised Unit} (h : refusal result = none) : result = .ok () := by
  unfold refusal at h
  split at h
  · rfl
  · cases h
  · cases h

theorem eq_error_of_refusal {result : Except Raised Unit} {message : Text} (hne : message ≠ [])
    (h : refusal result = some message) : result = .error (.error (.valueError message)) := by
  unfold refusal at h
  split at h
  · cases h
  · rw [Option.some.inj h]
  · exact absurd (Option.some.inj h).symm hne

/-- What is left of a run: an error, and the digests of the manifest on GitHub and of the
one that is installed. -/
def outcome (ending : Except Raised Unit × Site SampleFile) : Option Text × Option Text × Option Text :=
  (refusal ending.1, (ending.2.store manifestName).map sampleDigest,
    ending.2.machine.platform.bind fun files => files.getLast?.map fun file => sampleDigest file.2)

def isSdkFile (name : Text) : Bool := samplePackage.sdkInstaller.isPrefixOf name

def isManifestFile (name : Text) : Bool := manifestName.isPrefixOf name

/-- The SDK is downloaded when all is replaced. -/
theorem outcome_late_sdk :
    (execute (replacingAnswer isSdkFile) (Installer.main samplePacker.library sampleOptions)
      ⟨sampleMachine, fun _ => none⟩).map outcome =
    some (none, some (sampleDigest (replacement.manifestFile samplePacker)),
      some (sampleDigest (samplePackage.manifestFile samplePacker))) := by
  decide +kernel

/-- The archive, too, is downloaded when all is replaced. -/
theorem outcome_late_bundle :
    (execute (replacingAnswer fun name => !isManifestFile name)
      (Installer.main samplePacker.library sampleOptions) ⟨sampleMachine, fun _ => none⟩).map outcome =
    some (some "Platform checksum differs from manifest".toList,
      some (sampleDigest (replacement.manifestFile samplePacker)), none) := by
  decide +kernel

theorem manifestDigest_ne : sampleDigest (samplePackage.manifestFile samplePacker) ≠
    sampleDigest (replacement.manifestFile samplePacker) := by
  decide +kernel

/-- A release with the manifest of the replacement is replaced. -/
theorem store_eq_replacement {site : Site SampleFile} (h : IsHeld site)
    (hdigest : (site.store manifestName).map sampleDigest =
      some (sampleDigest (replacement.manifestFile samplePacker))) :
    site.store = replacement.store samplePacker := by
  rcases h.store with hnone | ⟨package, hpackage, hstore⟩
  · rw [hnone] at hdigest
    cases hdigest
  · rcases List.mem_cons.mp hpackage with rfl | hpackage
    · rw [hstore] at hdigest
      exact absurd (Option.some.inj hdigest) manifestDigest_ne
    · rw [hstore, List.mem_singleton.mp hpackage]

/-- Two publications, of which the second replaces the first during the downloads, whose
first checksum file is cut. When the SDK is replaced, the first publication is installed;
when the archive is replaced, too, nothing is. -/
theorem installed_from_one_publication_replaced :
    (∃ events site', Runs (Site.Responds samplePacker SampleFile.IsPart publications sampleOptions)
      ⟨sampleMachine, fun _ => none⟩ (Installer.main samplePacker.library sampleOptions) events (.ok ())
        site' ∧
      site'.store = replacement.store samplePacker ∧
      site'.machine.IsRelease samplePacker sampleOptions samplePackage) ∧
    ∃ events site', Runs (Site.Responds samplePacker SampleFile.IsPart publications sampleOptions)
      ⟨sampleMachine, fun _ => none⟩ (Installer.main samplePacker.library sampleOptions) events
        (.error (.error (.valueError "Platform checksum differs from manifest".toList))) site' ∧
      site'.store = replacement.store samplePacker ∧ site'.machine.platform = none := by
  have hpackages : ∀ package ∈ publications, ∃ build version commit dirty,
      packageBuild samplePacker build version commit dirty = .ok package := by
    intro package hpackage
    rcases List.mem_cons.mp hpackage with rfl | hpackage
    · exact ⟨_, _, _, _, samplePackage_eq⟩
    · obtain rfl := List.mem_singleton.mp hpackage
      exact ⟨_, _, _, _, replacement_eq⟩
  constructor
  · obtain ⟨⟨result, site'⟩, hexecute, houtcome⟩ := Option.map_eq_some_iff.mp outcome_late_sdk
    obtain ⟨hresult, hrest⟩ := Prod.mk.inj houtcome
    obtain ⟨hdigest, hplatform⟩ := Prod.mk.inj hrest
    obtain rfl := eq_ok_of_refusal hresult
    obtain ⟨hheld, events, hrun, hcollision⟩ := exists_replacing_run (by decide) hexecute
    obtain ⟨-, hrelease, hcomplete⟩ := installed_from_one_publication samplePacker_isLawful
      readsParts_sample hpackages rfl rfl hrun hcollision
    obtain ⟨package, hpackage, hinstalled⟩ := hrelease (hcomplete rfl)
    refine ⟨events, site', hrun, store_eq_replacement hheld hdigest, ?_⟩
    rcases List.mem_cons.mp hpackage with rfl | hpackage
    · exact hinstalled
    · rw [List.mem_singleton.mp hpackage] at hinstalled
      rw [hinstalled.platform] at hplatform
      exact absurd (Option.some.inj hplatform).symm manifestDigest_ne
  · obtain ⟨⟨result, site'⟩, hexecute, houtcome⟩ := Option.map_eq_some_iff.mp outcome_late_bundle
    obtain ⟨hresult, hrest⟩ := Prod.mk.inj houtcome
    obtain ⟨hdigest, hplatform⟩ := Prod.mk.inj hrest
    obtain rfl := eq_error_of_refusal (by decide) hresult
    obtain ⟨hheld, events, hrun, hcollision⟩ := exists_replacing_run (by decide) hexecute
    obtain ⟨-, hrelease, -⟩ := installed_from_one_publication samplePacker_isLawful
      readsParts_sample hpackages rfl rfl hrun hcollision
    refine ⟨events, site', hrun, store_eq_replacement hheld hdigest, ?_⟩
    -- a platform would have a manifest
    cases hfiles : site'.machine.platform with
    | none => rfl
    | some files =>
        obtain ⟨package, hpackage, hinstalled⟩ := hrelease (Option.isSome_of_eq_some hfiles)
        simp [hinstalled.platform, Package.platformFiles] at hplatform

end Sample

end AdaptivePi.Yocto
