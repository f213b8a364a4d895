import Mathlib.Data.List.Nodup
import RegistryBlock.History.Changes
import RegistryBlock.Proofs.History.Calls
import RegistryBlock.Proofs.Text.Split

/-!
# Changes against a snapshot

A snapshot is what git has stored: the commits without parents and the files of the last one of
them. As long as git shows one snapshot, the altered files are those that the snapshot does not
have with their text, and which calls are made follows from the snapshot. A call that fails is the
last one.
-/

namespace RegistryBlock

/-! ### Calls that follow each other -/

theorem Git.Reply.outcome_eq_ok_iff {reply : Git.Reply} {args : List String} {text : String} :
    reply.outcome args = .ok text ↔ reply = .printed text := by
  cases reply <;> simp [outcome]

namespace Git

variable {git : Git}

/-- What comes of some calls in a row after earlier ones, with all calls made in the end: the first
one that fails is the last. -/
def exchange (git : Git) (earlier : List Call) : List Call → Except Error Unit × List Call
  | [] => (.ok (), earlier)
  | c :: rest =>
    match (git.reply earlier c).outcome c.args with
    | .ok _ => git.exchange (earlier ++ [c]) rest
    | .error e => (.error e, earlier ++ [c])

theorem exchange_cons_ok {earlier : List Call} {c : Call} {text : String}
    (h : (git.reply earlier c).outcome c.args = .ok text) (rest : List Call) :
    git.exchange earlier (c :: rest) = git.exchange (earlier ++ [c]) rest := by
  rw [exchange, h]

theorem exchange_cons_error {earlier : List Call} {c : Call} {e : Error}
    (h : (git.reply earlier c).outcome c.args = .error e) (rest : List Call) :
    git.exchange earlier (c :: rest) = (.error e, earlier ++ [c]) := by
  rw [exchange, h]

theorem exchange_append (earlier calls more : List Call) :
    git.exchange earlier (calls ++ more) =
      match git.exchange earlier calls with
      | (.ok _, made) => git.exchange made more
      | (.error e, made) => (.error e, made) := by
  induction calls generalizing earlier with
  | nil => rfl
  | cons c calls ih =>
    rw [List.cons_append]
    cases houtcome : (git.reply earlier c).outcome c.args with
    | ok text =>
      rw [exchange_cons_ok houtcome, exchange_cons_ok houtcome]
      exact ih (earlier ++ [c])
    | error e => rw [exchange_cons_error houtcome, exchange_cons_error houtcome]

theorem exchange_of_answers {earlier calls : List Call} (h : git.Answers earlier calls) :
    git.exchange earlier calls = (.ok (), earlier ++ calls) := by
  induction calls generalizing earlier with
  | nil => rw [exchange, List.append_nil]
  | cons c calls ih =>
    obtain ⟨⟨text, hreply⟩, hrest⟩ := h
    rw [exchange_cons_ok (Reply.outcome_eq_ok_iff.2 hreply), ih hrest, ← List.append_cons]

theorem exchange_of_outcome_eq_error {earlier done : List Call} {failed : Call} {e : Error}
    (h : git.Answers earlier done)
    (hfailed : (git.reply (earlier ++ done) failed).outcome failed.args = .error e)
    (rest : List Call) :
    git.exchange earlier (done ++ failed :: rest) = (.error e, earlier ++ done ++ [failed]) := by
  rw [exchange_append, exchange_of_answers h]
  exact exchange_cons_error hfailed rest

end Git

namespace RunM

variable {git : Git} {α β : Type} {run : RunM α} {calls more : List Git.Call} {a : α} {b : β}

/-- Whether a run makes some calls and returns a value when git has carried out all of them. -/
def Asks (git : Git) (run : RunM α) (calls : List Git.Call) (a : α) : Prop :=
  ∀ trace : Trace,
    (run.runFrom trace).1 =
      ((git.exchange trace.calls calls).1.map fun _ => a).mapError .git ∧
    (run.runFrom trace).2.calls = (git.exchange trace.calls calls).2

theorem asks_pure (git : Git) (a : α) : Asks git (pure a) [] a := fun _ => ⟨rfl, rfl⟩

theorem asks_log (git : Git) (area : String) (level : Journal.Level) (message : String) :
    Asks git (log area level message) [] () := fun _ => ⟨rfl, rfl⟩

theorem asks_call {c : Git.Call} {text : String}
    (h : ∀ earlier printed, git.reply earlier c = .printed printed → printed = text) :
    Asks git (call git c) [c] text := by
  intro trace
  rw [runFrom_call]
  cases houtcome : (git.reply trace.calls c).outcome c.args with
  | ok printed =>
    rw [Git.exchange_cons_ok houtcome, h _ _ (Git.Reply.outcome_eq_ok_iff.1 houtcome)]
    exact ⟨rfl, rfl⟩
  | error e =>
    rw [Git.exchange_cons_error houtcome]
    exact ⟨rfl, rfl⟩

theorem Asks.bind {next : α → RunM β} (hrun : Asks git run calls a)
    (hnext : Asks git (next a) more b) : Asks git (run >>= next) (calls ++ more) b := by
  intro trace
  obtain ⟨hresult, hcalls⟩ := hrun trace
  rw [runFrom_bind, Git.exchange_append]
  rcases hlater : run.runFrom trace with ⟨result, later⟩
  rcases hexchange : git.exchange trace.calls calls with ⟨e | _, made⟩
  · rw [hlater, hexchange] at hresult hcalls
    obtain rfl : result = .error (.git e) := hresult
    exact ⟨rfl, hcalls⟩
  · rw [hlater, hexchange] at hresult hcalls
    obtain rfl : result = .ok a := hresult
    obtain rfl : later.calls = made := hcalls
    exact hnext later

/-- A run whose calls are all carried out returns its value. -/
theorem Asks.of_answers (h : Asks git run calls a) (hgit : git.Answers [] calls) :
    run.finish.1 = .ok a ∧ run.finish.2.calls = calls := by
  have hrun := h {}
  rw [Git.exchange_of_answers hgit] at hrun
  exact hrun

/-- A run ends with the first call that fails. -/
theorem Asks.of_outcome_eq_error {done rest : List Git.Call} {failed : Git.Call} {e : Git.Error}
    (h : Asks git run (done ++ failed :: rest) a) (hgit : git.Answers [] done)
    (hfailed : (git.reply done failed).outcome failed.args = .error e) :
    run.finish.1 = .error (.git e) ∧ run.finish.2.calls = done ++ [failed] := by
  have hrun := h {}
  rw [Git.exchange_of_outcome_eq_error hgit hfailed] at hrun
  exact hrun

end RunM

namespace History

/-! ### The first commit -/

/-- Whether a text is the last line of an output that is not blank, without blanks at its ends. -/
def IsLastLine (output commit : String) : Prop :=
  ∃ earlier line later, Text.lines output.toList = earlier ++ line :: later ∧
    Text.trim line ≠ [] ∧ (∀ other ∈ later, Text.trim other = []) ∧
    commit = String.ofList (Text.trim line)

theorem exists_isLastLine {output : String}
    (h : ∃ line ∈ Text.lines output.toList, Text.trim line ≠ []) :
    ∃ commit, IsLastLine output commit := by
  obtain ⟨line, hline⟩ : ∃ line,
      (Text.lines output.toList).reverse.find? (Text.trim · ≠ []) = some line := by
    rw [← Option.isSome_iff_exists, List.find?_isSome]
    simpa using h
  obtain ⟨htrim, later, earlier, hsplit, hlater⟩ := List.find?_eq_some_iff_append.1 hline
  refine ⟨_, earlier.reverse, line, later.reverse, ?_, by simpa using htrim,
    fun other hother => ?_, rfl⟩
  · rw [← List.reverse_reverse (Text.lines output.toList), hsplit]
    simp
  · simpa using hlater other (List.mem_reverse.1 hother)

theorem getLast?_commits {output commit : String} (h : IsLastLine output commit) :
    (commits output).getLast? = some commit := by
  obtain ⟨earlier, line, later, hlines, hline, hlater, rfl⟩ := h
  have hnone : ((later.map Text.trim).filterMap fun line =>
      if line.isEmpty then none else some (String.ofList line)) = [] := by
    rw [List.filterMap_eq_nil_iff]
    intro line hmem
    obtain ⟨other, hother, rfl⟩ := List.mem_map.1 hmem
    rw [hlater other hother]
    rfl
  have hline : ¬ (Text.trim line).isEmpty = true := by simpa using hline
  rw [commits, hlines, List.map_append, List.map_cons, List.filterMap_append, List.filterMap_cons,
    if_neg hline, hnone, List.getLast?_concat]

/-! ### Snapshots -/

/-- What git has stored: the text that lists the commits without parents, and the files of the
last of these commits with their contents. -/
structure Snapshot where
  roots : String
  files : List (String × String)
  exists_line : ∃ line ∈ Text.lines roots.toList, Text.trim line ≠ []
  nodup_paths : (files.map Prod.fst).Nodup
  isPath : ∀ path ∈ files.map Prod.fst, path ≠ "" ∧ '\x00' ∉ path.toList

namespace Snapshot

variable (snapshot : Snapshot)

def paths : List String := snapshot.files.map Prod.fst

def listing : String :=
  String.ofList (snapshot.paths.flatMap fun path => path.toList ++ ['\x00'])

/-- The calls that show the snapshot, each with what git prints for it. -/
def answers (repo : Location) (commit : String) : List (Git.Call × String) :=
  (rootsCall repo, snapshot.roots) :: (listingCall repo commit, snapshot.listing) ::
    snapshot.files.map fun file => (textCall repo commit file.1, file.2)

/-- Whether git shows the snapshot whenever it carries out a call. -/
def IsShown (git : Git) (repo : Location) (commit : String) : Prop :=
  ∀ answer ∈ snapshot.answers repo commit, ∀ earlier printed,
    git.reply earlier answer.1 = .printed printed → printed = answer.2

def calls (repo : Location) (commit : String) (files : List SourceFile) : List Git.Call :=
  rootsCall repo :: listingCall repo commit ::
    (files.filter (·.key ∈ snapshot.paths)).map fun file => textCall repo commit file.key

theorem tracked_listing : tracked snapshot.listing = snapshot.paths := by
  have hnul : ∀ piece ∈ snapshot.paths.map String.toList, '\x00' ∉ piece := by
    intro piece hpiece
    obtain ⟨path, hpath, rfl⟩ := List.mem_map.1 hpiece
    exact (snapshot.isPath path hpath).2
  have hsplit := Text.split_flatMap_append hnul []
  rw [List.append_nil, List.flatMap_map] at hsplit
  have hnames : (snapshot.paths.map String.toList).map String.ofList = snapshot.paths := by
    simp
  have hkeep : snapshot.paths.filter (· ≠ "") = snapshot.paths :=
    List.filter_eq_self.2 fun path hpath => decide_eq_true (snapshot.isPath path hpath).1
  rw [tracked, listing, String.toList_ofList, hsplit, List.map_append, hnames, List.filter_append,
    hkeep]
  exact List.append_nil _

variable {snapshot} {git : Git} {repo : Location} {commit : String}

/-- A path has one content. -/
theorem mem_files_iff {path content : String} (h : (path, content) ∈ snapshot.files)
    (other : String) : (path, other) ∈ snapshot.files ↔ content = other := by
  constructor
  · intro hother
    exact congrArg Prod.snd (List.inj_on_of_nodup_map snapshot.nodup_paths h hother rfl)
  · rintro rfl
    exact h

theorem textCall_mem_answers {path content : String} (h : (path, content) ∈ snapshot.files)
    (repo : Location) (commit : String) :
    (textCall repo commit path, content) ∈ snapshot.answers repo commit := by
  refine List.mem_cons_of_mem _ (List.mem_cons_of_mem _ ?_)
  exact List.mem_map.2 ⟨(path, content), h, rfl⟩

theorem asks_isAltered (h : snapshot.IsShown git repo commit) (file : SourceFile) :
    RunM.Asks git (isAltered git repo commit snapshot.paths file)
      (if file.key ∈ snapshot.paths then [textCall repo commit file.key] else [])
      (decide ((file.key, file.content) ∉ snapshot.files)) := by
  rw [isAltered]
  by_cases hkey : file.key ∈ snapshot.paths
  · obtain ⟨⟨path, content⟩, hstored, hpath⟩ := List.mem_map.1 hkey
    obtain rfl : path = file.key := hpath
    have hcall := RunM.asks_call fun earlier printed =>
      h _ (textCall_mem_answers hstored repo commit) earlier printed
    have hsame : decide ((file.key, file.content) ∉ snapshot.files) =
        decide (content ≠ file.content) :=
      decide_eq_decide.2 (not_congr (mem_files_iff hstored file.content))
    rw [if_pos (by simpa using hkey), if_pos hkey, hsame]
    exact hcall.bind (RunM.asks_pure git _)
  · have hnew : (file.key, file.content) ∉ snapshot.files := fun hstored =>
      hkey (List.mem_map_of_mem hstored)
    rw [if_neg (by simpa using hkey), if_neg hkey, decide_eq_true hnew]
    exact RunM.asks_pure git true

theorem asks_alteredSince (h : snapshot.IsShown git repo commit) (files : List SourceFile) :
    RunM.Asks git (alteredSince git repo commit snapshot.paths files)
      ((files.filter (·.key ∈ snapshot.paths)).map fun file => textCall repo commit file.key)
      (files.filter fun file => (file.key, file.content) ∉ snapshot.files) := by
  induction files with
  | nil => exact RunM.asks_pure git []
  | cons file files ih =>
    have hcalls : ((file :: files).filter (·.key ∈ snapshot.paths)).map
        (fun file => textCall repo commit file.key) =
          (if file.key ∈ snapshot.paths then [textCall repo commit file.key] else []) ++
            ((files.filter (·.key ∈ snapshot.paths)).map
              (fun file => textCall repo commit file.key) ++ []) := by
      by_cases hkey : file.key ∈ snapshot.paths <;> simp [hkey]
    have haltered : ((file :: files).filter fun file =>
        (file.key, file.content) ∉ snapshot.files) =
          if decide ((file.key, file.content) ∉ snapshot.files) then
            file :: files.filter fun file => (file.key, file.content) ∉ snapshot.files
          else files.filter fun file => (file.key, file.content) ∉ snapshot.files :=
      List.filter_cons
    rw [hcalls, haltered]
    exact (asks_isAltered h file).bind (ih.bind (RunM.asks_pure git _))

theorem asks_firstCommit (h : snapshot.IsShown git repo commit)
    (hcommit : IsLastLine snapshot.roots commit) :
    RunM.Asks git (firstCommit git repo) [rootsCall repo] commit := by
  have hcall : RunM.Asks git (RunM.call git (rootsCall repo)) [rootsCall repo] snapshot.roots :=
    RunM.asks_call fun earlier printed => h _ List.mem_cons_self earlier printed
  rw [firstCommit, ← List.append_nil [rootsCall repo]]
  refine hcall.bind ?_
  rw [getLast?_commits hcommit]
  exact RunM.asks_pure git commit

theorem asks_alteredFiles (h : snapshot.IsShown git repo commit)
    (hcommit : IsLastLine snapshot.roots commit) {tree : Tree} {path : WrittenPath}
    (hrepo : repository tree path = .ok repo) (files : List SourceFile) :
    RunM.Asks git (alteredFiles git tree path files) (snapshot.calls repo commit files)
      (files.filter fun file => (file.key, file.content) ∉ snapshot.files) := by
  have hlisting : RunM.Asks git (RunM.call git (listingCall repo commit))
      [listingCall repo commit] snapshot.listing :=
    RunM.asks_call fun earlier printed =>
      h _ (List.mem_cons_of_mem _ List.mem_cons_self) earlier printed
  have hcalls : snapshot.calls repo commit files =
      [] ++ ([rootsCall repo] ++ ([listingCall repo commit] ++
        ((files.filter (·.key ∈ snapshot.paths)).map (fun file => textCall repo commit file.key) ++
          ([] ++ [])))) := by
    simp [calls]
  rw [alteredFiles, hrepo, hcalls]
  refine (RunM.asks_pure git repo).bind ((asks_firstCommit h hcommit).bind (hlisting.bind ?_))
  rw [tracked_listing]
  exact (asks_alteredSince h files).bind ((RunM.asks_log git _ _ _).bind (RunM.asks_pure git _))

end Snapshot

/-- The altered files are those that the snapshot does not have with their text, in order. The
calls that find them are those for the commits, for the paths of the commit on the last line that
is not blank, and for each file that the snapshot has, and no others. If one of them fails, it is
the last one, and its error is that of the run. -/
theorem alteredFiles_exact (snapshot : Snapshot) {tree : Tree} {path : WrittenPath}
    (hrepo : tree.holds ((path.resolve .root).child ".git") = true) (files : List SourceFile) :
    let repo := path.resolve .root
    ∃ commit, IsLastLine snapshot.roots commit ∧
      ∀ git, snapshot.IsShown git repo commit →
        let run := (alteredFiles git tree path files).finish
        let asked : List (List String) :=
          ["git", "rev-list", "--max-parents=0", "HEAD"] ::
          ["git", "ls-tree", "-r", "-z", "--name-only", commit] ::
          (files.filter fun file => file.key ∈ snapshot.files.map Prod.fst).map fun file =>
            ["git", "show", commit ++ ":" ++ file.key]
        let calls : List Git.Call := asked.map fun args => { args, directory := repo }
        (git.Answers [] calls →
          run.1 = .ok (files.filter fun file => (file.key, file.content) ∉ snapshot.files) ∧
            run.2.calls = calls) ∧
        ∀ done failed rest e, calls = done ++ failed :: rest → git.Answers [] done →
          (git.reply done failed).outcome failed.args = .error e →
            run.1 = .error (.git e) ∧ run.2.calls = done ++ [failed] := by
  intro repo
  have hrepository : repository tree path = .ok repo := if_pos hrepo
  obtain ⟨commit, hcommit⟩ := exists_isLastLine snapshot.exists_line
  refine ⟨commit, hcommit, fun git h => ?_⟩
  intro run asked calls
  have hasks := snapshot.asks_alteredFiles h hcommit hrepository files
  have hcalls : snapshot.calls repo commit files = calls := by
    simp only [Snapshot.calls, calls, asked, List.map_cons, List.map_map]
    rfl
  rw [hcalls] at hasks
  refine ⟨hasks.of_answers, fun done failed rest e hsplit hdone hfailed => ?_⟩
  rw [hsplit] at hasks
  exact hasks.of_outcome_eq_error hdone hfailed

theorem alteredFiles_exact_kit :
    let repo : Location := ⟨["kit"]⟩
    let tree : Tree := .dir [("kit", .dir [(".git", .dir [])])]
    let snapshot : Snapshot :=
      { roots := "f\n abc\n \n"
        files := [("app/page.tsx", "old"), ("lib/utils.ts", "same")]
        exists_line := ⟨['f'], by decide, by decide⟩
        nodup_paths := by decide
        isPath := by decide }
    let git : Git := ⟨fun _ c => ((snapshot.answers repo "abc").lookup c).elim .absent .printed⟩
    let failing : Git :=
      ⟨fun earlier c => if earlier.length = 3 then .failed 128 else git.reply earlier c⟩
    let page : SourceFile := ⟨"app/page.tsx", "new"⟩
    let card : SourceFile := ⟨"components/card.tsx", "new"⟩
    let files : List SourceFile := [page, card, ⟨"./lib/utils.ts", "same"⟩]
    let asked : List (List String) := [["git", "rev-list", "--max-parents=0", "HEAD"],
      ["git", "ls-tree", "-r", "-z", "--name-only", "abc"],
      ["git", "show", "abc:app/page.tsx"], ["git", "show", "abc:lib/utils.ts"]]
    let calls : List Git.Call := asked.map fun args => { args, directory := repo }
    tree.holds (repo.child ".git") = true ∧ IsLastLine snapshot.roots "abc" ∧
      (alteredFiles git tree ⟨"/", ["kit"]⟩ files).finish.1 = .ok [page, card] ∧
      (alteredFiles git tree ⟨"/", ["kit"]⟩ files).finish.2.calls = calls ∧
      (alteredFiles failing tree ⟨"/", ["kit"]⟩ files).finish.1 =
        .error (.git (.failed ["git", "show", "abc:lib/utils.ts"] 128)) ∧
      (alteredFiles failing tree ⟨"/", ["kit"]⟩ files).finish.2.calls = calls := by
  intro repo tree snapshot git failing page card files asked calls
  have hrepo : tree.holds (repo.child ".git") = true := by decide
  obtain ⟨commit, hcommit, hexact⟩ :=
    @alteredFiles_exact snapshot tree ⟨"/", ["kit"]⟩ hrepo files
  obtain rfl : commit = "abc" := by
    have habc : IsLastLine snapshot.roots "abc" :=
      ⟨[['f']], " abc".toList, [[' ']], by decide +kernel, by decide, by decide, by decide⟩
    exact Option.some.inj ((getLast?_commits hcommit).symm.trans (getLast?_commits habc))
  have hanswers : ∀ answer ∈ snapshot.answers repo "abc",
      git.reply [] answer.1 = .printed answer.2 := by decide +kernel
  have hgit : snapshot.IsShown git repo "abc" := fun answer hanswer earlier printed hreply =>
    (Git.Reply.printed.inj ((hanswers answer hanswer).symm.trans hreply)).symm
  have hfailing : snapshot.IsShown failing repo "abc" := by
    intro answer hanswer earlier printed hreply
    dsimp only [failing] at hreply
    split at hreply
    · cases hreply
    · exact hgit answer hanswer earlier printed hreply
  have hasked : ["git", "rev-list", "--max-parents=0", "HEAD"] ::
      ["git", "ls-tree", "-r", "-z", "--name-only", "abc"] ::
      ((files.filter fun file => file.key ∈ snapshot.files.map Prod.fst).map fun file =>
        ["git", "show", "abc" ++ ":" ++ file.key]) = asked := by decide +kernel
  simp only [hasked] at hexact
  obtain ⟨haltered, hmade⟩ := (hexact git hgit).1
    ⟨⟨_, rfl⟩, ⟨_, rfl⟩, ⟨_, rfl⟩, ⟨_, rfl⟩, trivial⟩
  obtain ⟨hstopped, hlast⟩ := (hexact failing hfailing).2 (calls.take 3)
    (textCall repo "abc" "lib/utils.ts") [] (.failed _ 128) rfl
    ⟨⟨_, rfl⟩, ⟨_, rfl⟩, ⟨_, rfl⟩, trivial⟩ rfl
  have hfiles : (files.filter fun file => (file.key, file.content) ∉ snapshot.files) =
      [page, card] := by decide +kernel
  rw [hfiles] at haltered
  exact ⟨hrepo, hcommit, haltered, hmade, hstopped, hlast⟩

end History

end RegistryBlock
