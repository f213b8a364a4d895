import RegistryBlock.Proofs.Block.Written
import RegistryBlock.Proofs.Command.Frame
import RegistryBlock.Proofs.Project.Rescan
import RegistryBlock.Proofs.Text.Split

/-!
# Running a command line again

A run that has written its block may be run again on the tree that it left. The written file is a
file of the project like any other if it lies there, so the second block can differ from the first
one: by this file, or by a component that the file passes for.
-/

namespace RegistryBlock

/-! ### Texts without carriage returns -/

theorem Text.unifyNewlines_eq_self {cs : List Char} (h : '\r' ∉ cs) : unifyNewlines cs = cs := by
  fun_induction unifyNewlines cs with
  | case1 => rfl
  | case2 cs ih => simp at h
  | case3 c cs hpair ih =>
    rw [List.mem_cons, not_or] at h
    rw [if_neg (Ne.symm h.1), ih h.2]

/-- A text without carriage returns is read as it was written. -/
theorem Tree.decode?_toUTF8 {text : String} (h : '\r' ∉ text.toList) :
    decode? text.toUTF8 = some text := by
  have hutf8 : String.fromUTF8? text.toUTF8 = some text := dif_pos text.isValidUTF8
  rw [decode?, hutf8, Option.map_some, Text.unifyNewlines_eq_self h, String.ofList_toList]

/-! ### Names of the written file -/

theorem WrittenPath.isEntryName_ofString (s : String) :
    ∀ name ∈ (ofString s).names, Tree.IsEntryName name := by
  intro name hname
  obtain ⟨hpiece, hkeep⟩ := List.mem_filter.1 hname
  obtain ⟨piece, hsplit, rfl⟩ := List.mem_map.1 hpiece
  rw [Bool.and_eq_true, bne_iff_ne, bne_iff_ne] at hkeep
  refine ⟨hkeep.1, ?_⟩
  rw [String.toList_ofList]
  exact Text.not_mem_of_mem_split hsplit

theorem WrittenPath.isEntryName_append {base path : WrittenPath}
    (hbase : ∀ name ∈ base.names, Tree.IsEntryName name)
    (hpath : ∀ name ∈ path.names, Tree.IsEntryName name) :
    ∀ name ∈ (base.append path).names, Tree.IsEntryName name := by
  unfold append
  split
  · exact hpath
  · exact List.forall_mem_append.2 ⟨hbase, hpath⟩

theorem Tree.isEntryName_of_writable {tree : Tree} {path : WrittenPath} {loc : Location}
    (htree : tree.WellFormed) (hpath : ∀ name ∈ path.names, IsEntryName name)
    (h : tree.writable path = .ok loc) : ∀ name ∈ loc.names, IsEntryName name := by
  obtain ⟨front, name, parent, hnames, -, -, hdir, rfl, -⟩ := writable_eq_ok_iff.1 h
  rw [isDirAt_iff_look, look_eq_some_none_iff] at hdir
  obtain ⟨entries, hparent⟩ := hdir
  refine List.forall_mem_append.2 ⟨htree.isEntryName hparent, List.forall_mem_singleton.2 ?_⟩
  exact hpath name (by simp [hnames])

theorem Settings.exists_output_eq_of_parse {yaml : Yaml.Reader} {root : Location}
    {content : String} {settings : Settings} (h : parse yaml root content = .ok settings)
    {output : WrittenPath}
    (houtput : settings.output = some output) :
    ∃ s, output = (WrittenPath.ofLocation root).append (.ofString s) := by
  unfold parse at h
  split at h
  · obtain rfl := Except.ok.inj h
    cases houtput
  · split at h
    · obtain rfl := Except.ok.inj h
      cases houtput
    · obtain rfl := Except.ok.inj h
      obtain ⟨s, -, hs⟩ := Option.bind_eq_some_iff.1 houtput
      split at hs
      · cases hs
      · exact ⟨s, (Option.some.inj hs).symm⟩
    · cases h
    · cases h
    · cases h

theorem Settings.exists_output_eq {tree : Tree} {path output : WrittenPath} {yaml : Yaml.Reader}
    {settings : Settings} (h : load tree path yaml = .ok settings)
    (houtput : settings.output = some output) :
    ∃ s, output = (WrittenPath.ofLocation (fileFor tree path).parent).append (.ofString s) := by
  unfold load at h
  dsimp only at h
  split at h
  · obtain ⟨content, -, hparse⟩ := bind_eq_ok_iff.1 h
    exact exists_output_eq_of_parse hparse houtput
  · obtain rfl := Except.ok.inj h
    cases houtput

namespace Command

variable {host : Host} {options : Options} {args : List String} {block again : Block}
  {loc : Location} {text : String} {path : WrittenPath}

/-- An output path is made of names as they stand in directories. -/
theorem isEntryName_placeFor (htree : host.tree.WellFormed) (hup : ".." ∉ host.directory.names)
    (hdir : host.tree.isDirAt host.directory = true)
    (houtput : outputFor host options = .ok (some path)) :
    ∀ name ∈ (placeFor host path).names, Tree.IsEntryName name := by
  have hbase : ∀ name ∈ host.directory.names, Tree.IsEntryName name := by
    rw [Tree.isDirAt_iff_look, Tree.look_eq_some_none_iff] at hdir
    obtain ⟨entries, hdescend⟩ := hdir
    exact htree.isEntryName hdescend
  refine WrittenPath.isEntryName_append hbase ?_
  unfold outputFor at houtput
  split at houtput
  · obtain rfl := Option.some.inj (Except.ok.inj houtput)
    exact WrittenPath.isEntryName_ofString _
  · cases hload : Settings.load host.tree (.ofLocation host.directory) host.yaml with
    | error failure =>
      rw [hload] at houtput
      cases houtput
    | ok settings =>
      rw [hload] at houtput
      obtain ⟨s, rfl⟩ := Settings.exists_output_eq hload (Except.ok.inj houtput)
      rw [Settings.fileFor_of_isDirAt hup hdir]
      refine WrittenPath.isEntryName_append ?_ (WrittenPath.isEntryName_ofString s)
      rwa [Location.parent_child]

/-! ### Texts of blocks -/

theorem length_content_lt_length_payload {file : BlockFile} (h : file ∈ block.files) :
    file.content.length < (payload block).length := by
  have hrender := Block.length_content_lt_length_render h (.lines 2)
  rw [payload, String.length_append]
  omega

theorem payload_injective (h : block.IsExact) (hagain : again.IsExact)
    (heq : payload block = payload again) : block = again :=
  Block.render_injective h hagain ((String.append_left_inj "\n").1 heq)

theorem return_not_mem_payload (h : block.IsExact) : '\r' ∉ (payload block).toList := by
  have hrender := Block.return_not_mem_render h (.lines 2)
  simp [payload, hrender]

/-! ### The second run -/

def Host.after (host : Host) (args : List String) : Host :=
  { host with tree := treeAfter host (run host args) }

theorem isExact_of_built (h : built host options = .ok block) : block.IsExact := by
  obtain ⟨settings, -, files, -, start, -, manifest, -, aliases, -, hblock⟩ :=
    result_build_eq_ok_iff.1 h
  obtain ⟨declared, -, rfl⟩ := Block.ofSeeds_eq_ok_iff.1 hblock
  exact Block.isExact_ofFiles ..

theorem isDirAt_of_built (hup : ".." ∉ host.directory.names)
    (h : built host options = .ok block) : host.tree.isDirAt host.directory = true := by
  obtain ⟨settings, -, files, hscan, -⟩ := result_build_eq_ok_iff.1 h
  rw [WrittenPath.resolve_ofLocation hup] at hscan
  exact ((result_scanProject_eq_ok_iff hup).1 hscan).1

theorem produce_of_built (hblock : built host options = .ok block)
    (houtput : outputFor host options = .ok (some path))
    (hloc : host.tree.writable (placeFor host path) = .ok loc) :
    (produce host options).stop = .exit 0 ∧
      (produce host options).changes = [.write loc (payload block)] := by
  have hprepare := result_prepare_eq_ok_iff.2 ⟨hblock, houtput⟩
  unfold produce
  rcases hfinish : (prepare host options).finish with ⟨result, trace⟩
  rw [hfinish] at hprepare
  obtain rfl : result = .ok (block, some path) := hprepare
  rw [placeFor] at hloc
  dsimp only [deliver]
  rw [hloc]
  exact ⟨rfl, rfl⟩

theorem exists_built_of_mem_changes {change : Change}
    (h : change ∈ (produce host options).changes) :
    ∃ block loc, built host options = .ok block ∧ change = .write loc (payload block) := by
  cases produce_concludes host options with
  | failed hstop hchanges => simp [hchanges] at h
  | printed hstop hblock houtput hstdout hchanges => simp [hchanges] at h
  | @written block path place hstop hblock houtput hplace hstdout hchanges =>
    rw [hchanges] at h
    exact ⟨block, place, hblock, List.mem_singleton.1 h⟩

theorem run_eq_produce (hargs : Request.ofArgs args = .ok (.run options))
    (hinit : options.init = false) (host : Host) : run host args = produce host options := by
  simp [run, hargs, Request.outcome, hinit]

theorem tree_after (hwritten : (run host args).changes = [.write loc text]) :
    (host.after args).tree = host.tree.set loc (.file text.toUTF8) := by
  rw [Host.after, treeAfter, hwritten]
  rfl

theorem rewritten_after (hloc : host.tree.writable (placeFor host path) = .ok loc)
    (hwritten : (run host args).changes = [.write loc text]) :
    host.tree.Rewritten loc text.toUTF8 (host.after args).tree := by
  rw [tree_after hwritten]
  exact Tree.rewritten_set hloc text.toUTF8

theorem wellFormed_after (htree : host.tree.WellFormed) (hup : ".." ∉ host.directory.names)
    (hdir : host.tree.isDirAt host.directory = true)
    (houtput : outputFor host options = .ok (some path))
    (hloc : host.tree.writable (placeFor host path) = .ok loc)
    (hwritten : (run host args).changes = [.write loc text]) :
    (host.after args).tree.WellFormed := by
  have hpath := isEntryName_placeFor htree hup hdir houtput
  rw [tree_after hwritten]
  exact htree.put (.file _) (Tree.isEntryName_of_writable htree hpath hloc)

theorem outputFor_after (h : host.tree.Rewritten loc text.toUTF8 (host.after args).tree)
    (hup : ".." ∉ host.directory.names) (hdir : host.tree.isDirAt host.directory = true)
    (hloc : loc ∉ configurationFiles host.directory) (options : Options) :
    outputFor (host.after args) options = outputFor host options := by
  have hsettings : host.directory.child Settings.fileName ≠ loc := by
    rintro rfl
    exact hloc (by simp [configurationFiles])
  have hload : Settings.load (host.after args).tree (.ofLocation host.directory) host.yaml =
      Settings.load host.tree (.ofLocation host.directory) host.yaml :=
    Settings.load_eq_of_rewritten h hup hdir hsettings
  unfold outputFor
  rw [show (host.after args).directory = host.directory from rfl,
    show (host.after args).yaml = host.yaml from rfl, hload]

/-- A run that wrote its block to a file which is none of the configuration succeeds again and
writes to the same file. It writes the same if the file is not scanned. If it is scanned, it writes
the same exactly when the second block does not hold what the first run wrote and refers to the
same components. -/
theorem run_again (htree : host.tree.WellFormed) (hup : ".." ∉ host.directory.names)
    (hargs : Request.ofArgs args = .ok (.run options)) (hinit : options.init = false)
    (hgit : options.git = false) (hwritten : (run host args).changes = [.write loc text])
    (hloc : loc ∉ configurationFiles host.directory) :
    ∃ block again files, built host options = .ok block ∧ text = payload block ∧
      built (host.after args) options = .ok again ∧
      (run (host.after args) args).stop = .exit 0 ∧
      (run (host.after args) args).changes = [.write loc (payload again)] ∧
      (scanProject (host.after args).tree (.ofLocation host.directory) host.yaml).finish.1 =
        .ok files ∧
      ((∀ file ∈ files, file.path ≠ writtenPath host.directory loc) → payload again = text) ∧
      (payload again = text ↔ (∀ entry ∈ again.files, entry.content ≠ text) ∧
        again.registryDependencies = block.registryDependencies) := by
  have hrun := run_eq_produce hargs hinit
  have hconcludes := produce_concludes host options
  rw [← hrun] at hconcludes
  cases hconcludes with
  | failed hstop hchanges => cases hchanges.symm.trans hwritten
  | printed hstop hblock houtput hstdout hchanges => cases hchanges.symm.trans hwritten
  | @written block path place hstop hblock houtput hplace hstdout hchanges =>
    obtain ⟨rfl, rfl⟩ := Change.write.inj (List.cons.inj (hchanges.symm.trans hwritten)).1
    have hexact := isExact_of_built hblock
    have hdir := isDirAt_of_built hup hblock
    have hrewritten := rewritten_after hplace hchanges
    have hother := wellFormed_after htree hup hdir houtput hplace hchanges
    have hproject := WrittenPath.resolve_ofLocation hup
    obtain ⟨again, files, hagain, hfiles, hunscanned, hunheld⟩ := exists_build_again htree hother
      hrewritten (Tree.decode?_toUTF8 (return_not_mem_payload hexact)) (by rwa [hproject]) hgit
      hblock
    rw [hproject] at hfiles hunscanned
    have hagain : built (host.after args) options = .ok again := hagain
    obtain ⟨hstopAgain, hchangesAgain⟩ := produce_of_built hagain
      ((outputFor_after hrewritten hup hdir hloc options).trans houtput)
      (hrewritten.writable_eq_ok hplace)
    rw [← hrun] at hstopAgain hchangesAgain
    refine ⟨block, again, files, hblock, rfl, hagain, hstopAgain, hchangesAgain, hfiles,
      fun hpaths => by rw [hunscanned hpaths], fun hsame => ?_, fun hkept => ?_⟩
    · obtain rfl := payload_injective (isExact_of_built hagain) hexact hsame
      refine ⟨fun entry hentry hcontent => ?_, rfl⟩
      -- the text of a block has no room for itself
      have hlength := length_content_lt_length_payload hentry
      rw [hcontent] at hlength
      exact Nat.lt_irrefl _ hlength
    · rw [hunheld hkept.1 hkept.2]

theorem run_again_outside :
    let kit : List (String × Tree) := [("a.ts", .file "x".toUTF8),
      ("components.json", .file "{}".toUTF8), ("package.json", .file "{}".toUTF8)]
    let host : Host := { tree := .dir [("kit", .dir kit)], directory := ⟨["kit"]⟩ }
    let args := ["-o", "../block.json"]
    host.tree.WellFormed ∧ ".." ∉ host.directory.names ∧
      ⟨["block.json"]⟩ ∉ configurationFiles host.directory ∧
      ∃ text, (run host args).changes = [.write ⟨["block.json"]⟩ text] ∧
        (run (host.after args) args).stop = .exit 0 ∧
        (run (host.after args) args).changes = [.write ⟨["block.json"]⟩ text] := by
  intro kit host args
  have htree : host.tree.WellFormed := by decide
  have hup : ".." ∉ host.directory.names := by decide +kernel
  have hargs : Request.ofArgs args = .ok (.run { output := some "../block.json" }) := by
    decide +kernel
  have hloc : ⟨["block.json"]⟩ ∉ configurationFiles host.directory := by decide +kernel
  obtain ⟨block, hblock⟩ : ∃ block, built host { output := some "../block.json" } = .ok block :=
    exists_eq_ok_of_isOk (by decide +kernel)
  have hwritten : (run host args).changes = [.write ⟨["block.json"]⟩ (payload block)] := by
    rw [run_eq_produce hargs rfl]
    exact (produce_of_built hblock rfl (by decide +kernel)).2
  refine ⟨htree, hup, hloc, payload block, hwritten, ?_⟩
  obtain ⟨-, again, files, -, -, -, hstop, hchanges, hfiles, hunscanned, -⟩ :=
    run_again htree hup hargs rfl rfl hwritten hloc
  have hscan : ((scanProject (host.after args).tree (.ofLocation host.directory)
      host.yaml).finish.1.map fun files => files.map SourceFile.path).toOption =
        some ["a.ts"] := by
    decide +kernel
  rw [hfiles] at hscan
  have hpaths : files.map SourceFile.path = ["a.ts"] := Option.some.inj hscan
  refine ⟨hstop, ?_⟩
  rw [hchanges, hunscanned fun file hfile => ?_]
  have hmem := List.mem_map_of_mem (f := SourceFile.path) hfile
  rw [hpaths] at hmem
  exact ne_of_mem_of_not_mem hmem (by decide +kernel)

/-- The written file is scanned by the second run, which puts it into its own block. -/
theorem run_again_ne_of_scanned :
    let kit : List (String × Tree) := [("components.json", .file "{}".toUTF8),
      ("package.json", .file "{}".toUTF8)]
    let host : Host := { tree := .dir [("kit", .dir kit)], directory := ⟨["kit"]⟩ }
    let args := ["-o", "block.json"]
    host.tree.WellFormed ∧
      Request.ofArgs args = .ok (.run { output := some "block.json" }) ∧
      (run host args).stop = .exit 0 ∧
      ∃ text, (run host args).changes = [.write ⟨["kit", "block.json"]⟩ text] ∧
        (run (host.after args) args).changes ≠ [.write ⟨["kit", "block.json"]⟩ text] := by
  intro kit host args
  have htree : host.tree.WellFormed := by decide
  have hargs : Request.ofArgs args = .ok (.run { output := some "block.json" }) := by
    decide +kernel
  have hempty : (built host { output := some "block.json" }).toOption.map (·.files.isEmpty) =
      some true := by
    decide +kernel
  have hagain : (built (host.after args) { output := some "block.json" }).toOption.map
      (·.files.isEmpty) = some false := by
    decide +kernel
  obtain ⟨block, hblock⟩ : ∃ block, built host { output := some "block.json" } = .ok block :=
    exists_eq_ok_of_isOk (by decide +kernel)
  have hrun := run_eq_produce hargs rfl
  obtain ⟨hstop, hchanges⟩ := produce_of_built hblock rfl
    (by decide +kernel : host.tree.writable (placeFor host (.ofString "block.json")) =
      .ok ⟨["kit", "block.json"]⟩)
  rw [← hrun] at hstop hchanges
  refine ⟨htree, hargs, hstop, payload block, hchanges, fun hsame => ?_⟩
  have hmem : .write ⟨["kit", "block.json"]⟩ (payload block) ∈
      (produce (host.after args) { output := some "block.json" }).changes := by
    rw [← hrun, hsame]
    exact List.mem_singleton_self _
  obtain ⟨other, loc, hother, hchange⟩ := exists_built_of_mem_changes hmem
  obtain rfl := payload_injective (isExact_of_built hblock) (isExact_of_built hother)
    (Change.write.inj hchange).2
  rw [hblock] at hempty
  rw [hother] at hagain
  exact Bool.noConfusion (Option.some.inj (hempty.symm.trans hagain))

end Command

end RegistryBlock
