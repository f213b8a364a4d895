import RegistryBlock.Proofs.Project.Documented

/-!
# Failures of a build

A build that gives no block fails in one of the described ways. What is left over comes from four
files that are read as text, and from the values of the settings.
-/

namespace RegistryBlock

section Builds

variable {git : Git} {tree : Tree} {path : WrittenPath} {order : Order} {yaml : Yaml.Reader}
  {failure : Failure}

/-- The failures of a build that nobody describes. The settings, the ignore file, the manifest and
the file with the aliases are read in this order, so for each of them everything before it went
well. -/
inductive EscapesBuild (git : Git) (tree : Tree) (path : WrittenPath) (order : Order)
    (yaml : Yaml.Reader) : Failure → Prop
  /-- The settings cannot be read. -/
  | settings {fault : Tree.Fault}
      (hread : tree.IsUnreadable
        (Settings.fileFor tree (.ofLocation (path.resolve .root))) fault) :
      EscapesBuild git tree path order yaml
        (.storage fault (Settings.fileFor tree (.ofLocation (path.resolve .root))).text)
  /-- A scalar of the settings has no value. -/
  | scalar {text : String}
      (htext : tree.readText (Settings.fileFor tree (.ofLocation (path.resolve .root))) = .ok text)
      (hvalue : Settings.IsValueless yaml text) : EscapesBuild git tree path order yaml .scalar
  /-- The ignore file cannot be read. -/
  | ignoreFile {settings : Settings} {fault : Tree.Fault}
      (hsettings : Settings.load tree (.ofLocation (path.resolve .root)) yaml = .ok settings)
      (hdir : tree.isDirAt (path.resolve .root) = true)
      (hread : tree.IsUnreadable ((path.resolve .root).child ".gitignore") fault) :
      EscapesBuild git tree path order yaml
        (.storage fault ((path.resolve .root).child ".gitignore").text)
  /-- The manifest is no text. -/
  | manifest {settings : Settings} {files start : List SourceFile}
      (hsettings : Settings.load tree (.ofLocation (path.resolve .root)) yaml = .ok settings)
      (hfiles : (scanProject tree (.ofLocation (path.resolve .root)) yaml).finish.1 = .ok files)
      (hstart : (seeds git tree (path.resolve .root) (order.folderIn (path.resolve .root))
        order.altered files).finish.1 = .ok start)
      (hread : tree.IsUnreadable ((path.resolve .root).child manifestName) .undecodable) :
      EscapesBuild git tree path order yaml
        (.storage .undecodable ((path.resolve .root).child manifestName).text)
  /-- The nearest file with aliases is no text. -/
  | aliases {settings : Settings} {files start : List SourceFile} {manifest : String}
      {file : Location}
      (hsettings : Settings.load tree (.ofLocation (path.resolve .root)) yaml = .ok settings)
      (hfiles : (scanProject tree (.ofLocation (path.resolve .root)) yaml).finish.1 = .ok files)
      (hstart : (seeds git tree (path.resolve .root) (order.folderIn (path.resolve .root))
        order.altered files).finish.1 = .ok start)
      (hmanifest : manifestText tree (path.resolve .root) = .ok manifest)
      (hnearest : AliasSettings.nearestFile? tree (path.resolve .root) = some file)
      (hread : tree.IsUnreadable file .undecodable) :
      EscapesBuild git tree path order yaml (.storage .undecodable file.text)

/-- A build gives a block or a failure that is described, unless one of the four files that it reads
is unreadable or a scalar of its settings has no value. Then it fails with just that. -/
theorem build_undocumented_iff :
    (build git tree path order yaml).finish.1 = .error failure ∧ ¬ failure.IsDocumented ↔
      EscapesBuild git tree path order yaml failure := by
  have hup : ".." ∉ (path.resolve .root).names :=
    WrittenPath.up_not_mem_resolve List.not_mem_nil path
  rw [result_build]
  simp only [bind_eq_undocumented_iff]
  constructor
  · rintro (hload | ⟨settings, hsettings, hscan | ⟨files, hfiles, hseeds | ⟨start, hstart,
      hmanifest | ⟨manifest, hmanifest, haliases | ⟨aliases, -, hblock⟩⟩⟩⟩⟩)
    · rcases Settings.load_eq_undocumented_iff.1 hload with
        ⟨fault, hread, rfl⟩ | ⟨text, htext, rfl, hvalue⟩
      · exact .settings hread
      · exact .scalar htext hvalue
    · obtain ⟨hdir, fault, hread, rfl⟩ :=
        (result_scanProject_eq_undocumented_iff hup hsettings).1 hscan
      exact .ignoreFile hsettings hdir hread
    · exact absurd ((failsDocumented_seeds ..).isDocumented _ _ hseeds.1) hseeds.2
    · obtain ⟨hread, rfl⟩ := (manifestText_eq_undocumented_iff hup).1 hmanifest
      exact .manifest hsettings hfiles hstart hread
    · obtain ⟨file, hnearest, hread, rfl⟩ :=
        (AliasSettings.load_eq_undocumented_iff hup _).1 haliases
      exact .aliases hsettings hfiles hstart hmanifest hnearest hread
    · exact absurd (isDocumented_of_mapError_manifest hblock.1) hblock.2
  · intro h
    cases h with
    | settings hread => exact Or.inl (Settings.load_eq_undocumented_iff.2 (Or.inl ⟨_, hread, rfl⟩))
    | scalar htext hvalue =>
      exact Or.inl (Settings.load_eq_undocumented_iff.2 (Or.inr ⟨_, htext, rfl, hvalue⟩))
    | ignoreFile hsettings hdir hread =>
      have hscan := (result_scanProject_eq_undocumented_iff hup hsettings).2 ⟨hdir, _, hread, rfl⟩
      exact Or.inr ⟨_, hsettings, Or.inl hscan⟩
    | manifest hsettings hfiles hstart hread =>
      have hmanifest := (manifestText_eq_undocumented_iff hup).2 ⟨hread, rfl⟩
      exact Or.inr ⟨_, hsettings, Or.inr ⟨_, hfiles, Or.inr ⟨_, hstart, Or.inl hmanifest⟩⟩⟩
    | aliases hsettings hfiles hstart hmanifest hnearest hread =>
      exact Or.inr ⟨_, hsettings, Or.inr ⟨_, hfiles, Or.inr ⟨_, hstart, Or.inr ⟨_, hmanifest,
        Or.inl ((AliasSettings.load_eq_undocumented_iff hup _).2 ⟨_, hnearest, hread, rfl⟩)⟩⟩⟩⟩

end Builds

/-- Each of the four files can be the one that is no text. -/
theorem not_isDocumented_of_undecodable :
    let files : List (String × Tree) := [("a.ts", .file "x".toUTF8),
      ("components.json", .file "{}".toUTF8), ("package.json", .file "{}".toUTF8)]
    let spoilt (name : String) : Tree :=
      .dir [("kit", .dir (Tree.setEntry files name (.file ⟨#[255]⟩)))]
    let result (name : String) := (build .none (spoilt name) ⟨"/", ["kit"]⟩ {} Yaml.reader).finish.1
    (∃ failure, result ".blockgen.yml" = .error failure ∧ ¬ failure.IsDocumented) ∧
      (∃ failure, result ".gitignore" = .error failure ∧ ¬ failure.IsDocumented) ∧
      (∃ failure, result "package.json" = .error failure ∧ ¬ failure.IsDocumented) ∧
      ∃ failure, result "components.json" = .error failure ∧ ¬ failure.IsDocumented := by
  intro files spoilt result
  have hfails (name : String) (h : (result name).map (fun _ => ()) =
      .error (.storage .undecodable ("/kit/" ++ name))) :
      ∃ failure, result name = .error failure ∧ ¬ failure.IsDocumented := by
    refine ⟨_, map_eq_error_iff.1 h, ?_⟩
    rintro (hfault | hfault) <;> cases hfault
  exact ⟨hfails _ (by decide +kernel), hfails _ (by decide +kernel), hfails _ (by decide +kernel),
    hfails _ (by decide +kernel)⟩

end RegistryBlock
