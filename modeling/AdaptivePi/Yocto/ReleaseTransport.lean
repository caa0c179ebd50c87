import AdaptivePi.Yocto.PackageRelease

namespace AdaptivePi.Yocto

open Foundation Foundation.PythonText

section Words

variable {word text rest : Text} {char : Char}

theorem words_space (hchar : isSpace char = true) (text : Text) : words (char :: text) = words text := by
  unfold words
  rw [List.splitOnP_cons_eq_if_modifyHead, if_pos hchar]
  exact List.filter_cons_of_neg (by simp)

theorem words_spaces {pad : Text} (hpad : ∀ char ∈ pad, isSpace char = true) (text : Text) :
    words (pad ++ text) = words text := by
  induction pad with
  | nil => rfl
  | cons char pad ih =>
      rw [List.cons_append, words_space (hpad char List.mem_cons_self)]
      exact ih fun other hother => hpad other (List.mem_cons_of_mem _ hother)

/-- A word ends at the first blank. -/
theorem words_append_cons (hne : word ≠ []) (hword : ∀ char ∈ word, isSpace char = false)
    (hchar : isSpace char = true) (text : Text) : words (word ++ char :: text) = word :: words text := by
  unfold words
  rw [List.splitOnP_append_cons_of_forall_mem hword char hchar]
  exact List.filter_cons_of_pos (by simpa using hne)

theorem words_eq_singleton (hne : word ≠ []) (hword : ∀ char ∈ word, isSpace char = false) :
    words word = [word] := by
  unfold words
  rw [List.splitOnP_eq_singleton hword]
  exact List.filter_cons_of_pos (by simpa using hne)

/-- Words are not empty, and have no blanks. -/
theorem not_isSpace_of_mem_words (hword : word ∈ words text) :
    word ≠ [] ∧ ∀ char ∈ word, isSpace char = false := by
  obtain ⟨hsplit, hne⟩ := List.mem_filter.mp hword
  exact ⟨by simpa using hne, eq_false_of_mem_splitOnP hsplit⟩

/-- The first of several words, and what is before and after it. -/
theorem exists_of_words {first second : Text} {others : List Text}
    (h : words text = first :: second :: others) : ∃ pad char after,
      text = pad ++ (first ++ char :: after) ∧ (∀ char ∈ pad, isSpace char = true) ∧
      isSpace char = true ∧ (first ≠ [] ∧ ∀ char ∈ first, isSpace char = false) := by
  have hfirst : first ≠ [] ∧ ∀ char ∈ first, isSpace char = false := by
    have hmem : first ∈ words text := by
      rw [h]
      exact List.mem_cons_self
    exact not_isSpace_of_mem_words hmem
  induction text with
  | nil => cases h
  | cons char text ih =>
      by_cases hchar : isSpace char = true
      · rw [words_space hchar] at h
        obtain ⟨pad, next, after, htext, hpad, hnext, hall⟩ := ih h
        refine ⟨char :: pad, next, after, by rw [htext]; rfl, ?_, hnext, hall⟩
        exact List.forall_mem_cons.mpr ⟨hchar, hpad⟩
      · rw [Bool.not_eq_true] at hchar
        have hsplit := List.takeWhile_append_dropWhile (p := (!isSpace ·)) (l := char :: text)
        have hword : ∀ other ∈ (char :: text).takeWhile (!isSpace ·), isSpace other = false := by
          intro other hother
          simpa using List.mem_takeWhile_imp hother
        have hne : (char :: text).takeWhile (!isSpace ·) ≠ [] := by
          rw [List.takeWhile_cons_of_pos (by rw [hchar]; rfl)]
          exact List.cons_ne_nil _ _
        cases hrest : (char :: text).dropWhile (!isSpace ·) with
        | nil =>
            -- one word only
            rw [hrest, List.append_nil] at hsplit
            rw [← hsplit, words_eq_singleton hne hword] at h
            cases h
        | cons next after =>
            have hnext : isSpace next = true := by
              have hhead := List.head_dropWhile_not (!isSpace ·) (by rw [hrest]; exact List.cons_ne_nil _ _)
              simpa [hrest] using hhead
            rw [hrest] at hsplit
            rw [← hsplit, words_append_cons hne hword hnext] at h
            obtain ⟨rfl, -⟩ := List.cons.inj h
            exact ⟨[], next, after, hsplit.symm, by simp, hnext, hfirst⟩

/-- A line of a checksum file has two words. -/
theorem words_checksumLine {digest name : Text} (hdigest : digest ≠ [])
    (hhex : ∀ char ∈ digest, isSpace char = false) (hname : name ≠ [])
    (hspace : ∀ char ∈ name, isSpace char = false) :
    words (digest ++ "  ".toList ++ name ++ ['\n']) = [digest, name] := by
  have htext : digest ++ "  ".toList ++ name ++ ['\n'] = digest ++ ' ' :: ' ' :: (name ++ '\n' :: []) := by
    simp
  have hblank : isSpace ' ' = true := by decide
  have hnewline : isSpace '\n' = true := by decide
  rw [htext, words_append_cons hdigest hhex hblank, words_space hblank,
    words_append_cons hname hspace hnewline]
  rfl

/-- A part of a line, if it lists anything, lists the same digest. -/
theorem eq_of_listedDigest {line part digest name digest' : Text} (hpart : part <+: line)
    (hline : words line = [digest, name]) (h : listedDigest name part = .ok digest') :
    digest' = digest := by
  unfold listedDigest at h
  split at h
  · rename_i first listed hwords
    split at h
    · obtain rfl := Except.ok.inj h
      obtain ⟨more, rfl⟩ := hpart
      obtain ⟨pad, char, after, rfl, hpad, hchar, hne, hword⟩ := exists_of_words hwords
      have htext : pad ++ (first ++ char :: after) ++ more = pad ++ (first ++ char :: (after ++ more)) := by
        simp
      rw [htext, words_spaces hpad, words_append_cons hne hword hchar] at hline
      exact (List.cons.inj hline).1
    · cases h
  · cases h

end Words

section Names

variable {Content : Type} {package : Package Content}

theorem getLast_append_of_suffix {text suffix : Text} {char : Char} (hsuffix : suffix <:+ text)
    (hchar : suffix.getLast? = some char) : text.getLast? = some char := by
  obtain ⟨before, rfl⟩ := hsuffix
  rw [List.getLast?_append, hchar]
  rfl

theorem getLast_bundleName (package : Package Content) : package.bundleName.getLast? = some 'z' :=
  getLast_append_of_suffix (List.suffix_append _ _) rfl

theorem getLast_checksumName (name : Text) : (name ++ ".sha256".toList).getLast? = some '6' :=
  getLast_append_of_suffix (List.suffix_append _ _) rfl

theorem Package.IsWellFormed.getLast_sdkInstaller (h : package.IsWellFormed) :
    package.sdkInstaller.getLast? = some 'h' :=
  getLast_append_of_suffix h.shell rfl

theorem ne_of_getLast {text text' : Text} {char char' : Char} (h : text.getLast? = some char)
    (h' : text'.getLast? = some char') (hne : char ≠ char') : text ≠ text' := by
  rintro rfl
  exact hne (Option.some.inj (h.symm.trans h'))

theorem getLast_manifestName : manifestName.getLast? = some 'n' := rfl

theorem Package.manifest_ne_bundle (package : Package Content) : manifestName ≠ package.bundleName :=
  ne_of_getLast getLast_manifestName (getLast_bundleName package) (by decide)

theorem manifest_ne_checksum (name : Text) : manifestName ≠ name ++ ".sha256".toList :=
  ne_of_getLast getLast_manifestName (getLast_checksumName _) (by decide)

theorem ne_checksumName (name : Text) : name ≠ name ++ ".sha256".toList := by
  intro heq
  exact absurd (List.self_eq_append_right.mp heq) (by decide)

theorem Package.bundle_ne_checksum (package : Package Content) (name : Text) :
    package.bundleName ≠ name ++ ".sha256".toList :=
  ne_of_getLast (getLast_bundleName package) (getLast_checksumName _) (by decide)

namespace Package.IsWellFormed

variable (h : package.IsWellFormed)

include h

theorem manifest_ne_sdk : manifestName ≠ package.sdkInstaller :=
  ne_of_getLast getLast_manifestName h.getLast_sdkInstaller (by decide)

theorem bundle_ne_sdk : package.bundleName ≠ package.sdkInstaller :=
  ne_of_getLast (getLast_bundleName package) h.getLast_sdkInstaller (by decide)

/-- The names of the six assets are distinct. -/
theorem nodup : (assetNames package.version package.sdkInstaller).Nodup := by
  have hfiles : [package.bundleName, package.sdkInstaller, manifestName].Nodup := by
    simp only [List.nodup_cons, List.mem_cons, List.not_mem_nil, or_false, not_or, not_false_eq_true,
      List.nodup_nil, and_true]
    exact ⟨⟨h.bundle_ne_sdk, package.manifest_ne_bundle.symm⟩, h.manifest_ne_sdk.symm⟩
  have hmap := hfiles.map (List.append_left_injective ".sha256".toList)
  refine List.nodup_append.mpr ⟨hfiles, hmap, ?_⟩
  intro name hname other hother
  obtain ⟨file, -, rfl⟩ := List.mem_map.mp hother
  simp only [List.mem_cons, List.not_mem_nil, or_false] at hname
  rcases hname with rfl | rfl | rfl
  · exact package.bundle_ne_checksum _
  · exact ne_of_getLast h.getLast_sdkInstaller (getLast_checksumName _) (by decide)
  · exact manifest_ne_checksum _

end Package.IsWellFormed

end Names

section Reading

variable {Content : Type}

/-- What the libraries of Python promise. -/
structure Packer.IsLawful (packer : Packer Content) : Prop where
  /-- Newlines are translated when a text is read. -/
  readText_encode : ∀ text,
    packer.library.readText (packer.encode text) = .ok (universalNewlines text)
  /-- The files of an archive are found in it. -/
  members_archive : ∀ files, files.map Prod.fst = packagedNames →
    packer.library.members (packer.archive files) =
      some (files.map fun file => ⟨file.1, true, packer.size file.2, file.2⟩)
  /-- A digest has 64 hexadecimal digits. -/
  length_sha256 : ∀ file, (packer.library.sha256 file).length = 64
  hexadecimal_sha256 : ∀ file, ∀ char ∈ packer.library.sha256 file,
    "0123456789abcdef".toList.contains char = true

variable {packer : Packer Content} {package : Package Content}

namespace Packer.IsLawful

theorem sha256_ne_nil (h : packer.IsLawful) (file : Content) : packer.library.sha256 file ≠ [] := by
  have hlength := h.length_sha256 file
  intro hnil
  rw [hnil] at hlength
  cases hlength

theorem sha256_not_isSpace (h : packer.IsLawful) (file : Content) :
    ∀ char ∈ packer.library.sha256 file, isSpace char = false := by
  have hall : ∀ char ∈ "0123456789abcdef".toList, isSpace char = false :=
    List.all_iff_forall_prop.mp rfl
  intro char hchar
  exact hall char (List.contains_iff_mem.mp (h.hexadecimal_sha256 file char hchar))

theorem readText_of_not_mem (h : packer.IsLawful) {text : Text} (htext : '\r' ∉ text) :
    packer.library.readText (packer.encode text) = .ok text := by
  rw [h.readText_encode, universalNewlines_eq_self htext]

end Packer.IsLawful

/-- The words of a checksum file. -/
theorem words_checksumLine_of_lawful (h : packer.IsLawful) {name : Text} (file : Content)
    (hname : name ≠ []) (hspace : ∀ char ∈ name, isSpace char = false) :
    words (Package.checksumLine packer name file) = [packer.library.sha256 file, name] :=
  words_checksumLine (h.sha256_ne_nil file) (h.sha256_not_isSpace file) hname hspace

theorem not_mem_return_of_not_isSpace {text : Text} (h : ∀ char ∈ text, isSpace char = false) :
    '\r' ∉ text := by
  intro hreturn
  exact absurd (h '\r' hreturn) (by decide)

theorem not_mem_return_checksumLine (h : packer.IsLawful) {name : Text} (file : Content)
    (hspace : ∀ char ∈ name, isSpace char = false) : '\r' ∉ Package.checksumLine packer name file := by
  have hdigest := not_mem_return_of_not_isSpace (h.sha256_not_isSpace file)
  have hname := not_mem_return_of_not_isSpace hspace
  have hblank : '\r' ∉ "  ".toList := by decide
  have hnewline : '\r' ∉ ['\n'] := by decide
  simp only [Package.checksumLine, List.mem_append, not_or]
  exact ⟨⟨⟨hdigest, hblank⟩, hname⟩, hnewline⟩

/-- A checksum file lists the digest of the file whose name it has, unless the name has
blanks. -/
theorem listedDigest_checksumLine (h : packer.IsLawful) {name : Text} (file : Content)
    (hname : name ≠ []) (hspace : ∀ char ∈ name, isSpace char = false) :
    listedDigest name (Package.checksumLine packer name file) = .ok (packer.library.sha256 file) := by
  unfold listedDigest
  rw [words_checksumLine_of_lawful h file hname hspace]
  exact if_pos rfl

theorem not_isSpace_of_listedDigest {name text digest : Text} (h : listedDigest name text = .ok digest) :
    name ≠ [] ∧ ∀ char ∈ name, isSpace char = false := by
  unfold listedDigest at h
  split at h
  · rename_i first listed hwords
    split at h
    · rename_i hlisted
      subst hlisted
      have hmem : listed ∈ words text := by
        rw [hwords]
        exact List.mem_cons_of_mem _ List.mem_cons_self
      exact not_isSpace_of_mem_words hmem
    · cases h
  · cases h

/-- The manifest has neither floats nor large integers. -/
theorem isWritable_manifest : (package.manifest packer).IsWritable := by
  apply Json.IsWritable.object
  simp only [Package.manifestMembers, List.forall_mem_cons]
  exact ⟨.string _, .string _, .bool _, .string _, .string _, .string _, .string _, .string _, .string _,
    .string _, .string _, .string _, .string _, .string _, .string _, by simp⟩

/-- The manifest is loaded as it was dumped. -/
theorem loads_manifest (h : packer.IsLawful) : ∃ text,
    packer.library.readText (package.manifestFile packer) = .ok text ∧
      packer.library.python.loads text = .ok (package.manifest packer) := by
  have hplain : '\r' ∉ Json.dumps 2 (package.manifest packer) ++ ['\n'] := by
    rw [List.mem_append, not_or]
    exact ⟨(Json.isPlain_write isWritable_manifest 0).not_mem_return, by decide⟩
  have hloads : Json.loads (Json.dumps 2 (package.manifest packer) ++ ['\n']) =
      some (package.manifest packer) :=
    Json.loads_dumps isWritable_manifest (List.all_iff_forall_prop.mp rfl)
  refine ⟨_, h.readText_of_not_mem hplain, ?_⟩
  unfold Python.loads
  rw [hloads]
  rfl

/-- The only member with a key. -/
theorem member_eq_of_mem {members : List (Text × Json)} (hnodup : (members.map Prod.fst).Nodup)
    {key : Text} {value : Json} (hmem : (key, value) ∈ members) :
    Json.member members key = some value := by
  obtain ⟨after, before, hsplit⟩ := List.append_of_mem (List.mem_reverse.mpr hmem)
  rw [← List.nodup_reverse, ← List.map_reverse, hsplit, List.map_append, List.nodup_append] at hnodup
  refine List.lookup_eq_some_iff.mpr ⟨after, before, hsplit, fun other hother => ?_⟩
  have hne := hnodup.2.2 other.1 (List.mem_map_of_mem hother) key List.mem_cons_self
  exact bne_iff_ne.mpr (Ne.symm hne)

def manifestKeys : List Text :=
  ["release_version", "adaptive_pi_commit", "source_tree_dirty", "poky_commit", "yocto_version",
    "machine", "image", "sdk_installer", "sdk_sha256", "platform_bundle", "platform_sha256",
    "sdk_version", "sdk_host", "tune", "image_build"].map String.toList

theorem nodup_manifestMembers : ((package.manifestMembers packer).map Prod.fst).Nodup := by
  have hkeys : (package.manifestMembers packer).map Prod.fst = manifestKeys := rfl
  rw [hkeys]
  decide

theorem subscript_manifest {key : Text} {value : Json}
    (hmem : (key, value) ∈ package.manifestMembers packer) :
    (package.manifest packer).subscript key = .ok value := by
  unfold Package.manifest Json.subscript
  dsimp only
  rw [member_eq_of_mem nodup_manifestMembers hmem]
  rfl

/-- The members that the installer looks at. -/
theorem subscripts_manifest :
    (package.manifest packer).subscript "release_version".toList = .ok (.string package.version) ∧
    (package.manifest packer).subscript "machine".toList = .ok (.string "qemuarm64".toList) ∧
    (package.manifest packer).subscript "image".toList = .ok (.string "adaptive-pi-image".toList) ∧
    (package.manifest packer).subscript "source_tree_dirty".toList = .ok (.bool package.dirty) ∧
    (package.manifest packer).subscript "sdk_host".toList = .ok (.string package.sdkHost) ∧
    (package.manifest packer).subscript "tune".toList = .ok (.string package.tune) ∧
    (package.manifest packer).subscript "platform_bundle".toList = .ok (.string package.bundleName) ∧
    (package.manifest packer).subscript "platform_sha256".toList =
      .ok (.string (packer.library.sha256 (package.bundle packer))) ∧
    (package.manifest packer).subscript "sdk_installer".toList =
      .ok (.string package.sdkInstaller) ∧
    (package.manifest packer).subscript "sdk_sha256".toList =
      .ok (.string (packer.library.sha256 package.sdk)) := by
  refine ⟨?_, ?_, ?_, ?_, ?_, ?_, ?_, ?_, ?_, ?_⟩
  all_goals
    apply subscript_manifest
    simp only [Package.manifestMembers, List.mem_cons, true_or, or_true]

theorem differs_eq {manifest : Json} {key value text : Text}
    (h : manifest.subscript key = .ok (.string value)) :
    differs manifest key text = .ok (decide (value ≠ text)) := by
  unfold differs
  rw [h]
  exact congrArg Except.ok (decide_not).symm

theorem either_ok (first second : Bool) :
    either (Except.ok first : Except PythonError Bool) (.ok second) = .ok (first || second) := by
  cases first with
  | false => rfl
  | true => rfl

/-- A manifest is accepted exactly if it is of this version, and all was committed. -/
theorem readManifest_manifestFile (hlawful : packer.IsLawful) (hpackage : package.IsWellFormed)
    (options : InstallOptions) :
    readManifest packer.library options (package.manifestFile packer) =
      if package.version = options.version ∧ package.dirty = false then .ok (package.manifest packer)
      else .error (.valueError
        "Release manifest has incompatible or uncommitted platform metadata".toList) := by
  obtain ⟨hversion, hmachine, himage, hdirty, hhost, htune, -⟩ := @subscripts_manifest _ packer package
  have hincompatible : isIncompatible packer.library options (package.manifest packer) =
      .ok (decide (package.version ≠ options.version) || package.dirty) := by
    unfold isIncompatible
    rw [differs_eq hversion, differs_eq hmachine, differs_eq himage, hdirty, differs_eq hhost,
      differs_eq htune, hpackage.host, hpackage.tune]
    have hsame : ∀ text : Text, decide (text ≠ text) = false := fun text => by simp
    have htrue : (Except.ok (Json.bool package.dirty) >>= fun dirty =>
        pure (isTrue packer.library.python dirty) : Except PythonError Bool) = .ok package.dirty := rfl
    rw [hsame, hsame, hsame, hsame, htrue, either_ok, either_ok, either_ok, either_ok, either_ok,
      Bool.or_false, Bool.or_false, Bool.false_or, Bool.false_or]
  obtain ⟨text, htext, hread⟩ := @loads_manifest _ packer package hlawful
  have hbind : ∀ {α : Type} (value : α) (next : α → Except PythonError Json),
      (Except.ok value >>= next) = next value := fun _ _ => rfl
  unfold readManifest
  rw [htext, hbind, hread, hbind, hincompatible]
  generalize package.manifest packer = manifest
  by_cases hversion' : package.version = options.version
  · cases package.dirty with
    | false =>
        rw [if_pos ⟨hversion', rfl⟩, decide_eq_false (not_not_intro hversion')]
        rfl
    | true =>
        rw [if_neg (by simp), Bool.or_true]
        rfl
  · rw [if_neg fun h => hversion' h.1, decide_eq_true hversion', Bool.true_or]
    rfl

/-- The manifest that is accepted, and when it is. -/
theorem readManifest_eq_ok_iff (hlawful : packer.IsLawful) (hpackage : package.IsWellFormed)
    {options : InstallOptions} {manifest : Json} :
    readManifest packer.library options (package.manifestFile packer) = .ok manifest ↔
      manifest = package.manifest packer ∧ package.version = options.version ∧
        package.dirty = false := by
  rw [readManifest_manifestFile hlawful hpackage]
  constructor
  · intro h
    split at h
    · rename_i haccepted
      exact ⟨(Except.ok.inj h).symm, haccepted⟩
    · cases h
  · rintro ⟨rfl, haccepted⟩
    exact if_pos haccepted

end Reading

end AdaptivePi.Yocto
