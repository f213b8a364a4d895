import Mathlib.Data.List.Infix
import RegistryBlock.History.Reset
import RegistryBlock.Proofs.Ignore.LastRule
import RegistryBlock.Proofs.Ignore.Wildcard
import RegistryBlock.Proofs.Text.Ends

/-!
# Rules and the segments of a path

A rule whose pattern has a slash is compared with a whole path, and its wildcards take slashes
along: segment by segment it is compared only with paths that are no deeper than the pattern. A rule
without a slash is tried on every segment, so what decides about a file may be the name of a
directory above it, even one that is not left out itself.
-/

namespace RegistryBlock

namespace IgnoreRule

/-! ### Written patterns -/

def isForDirectories (cs : List Char) : Bool := (Text.trim cs).getLast? = some '/'

/-- A pattern as written, without blanks at its ends and without the slash at its end that is for
directories only. -/
def openPattern (cs : List Char) : List Char :=
  if isForDirectories cs then (Text.trim cs).dropLast else Text.trim cs

/-- The pattern that is left when the slash in front is taken off as well. -/
def innerPattern (cs : List Char) : List Char :=
  if (openPattern cs).head? = some '/' then (openPattern cs).tail else openPattern cs

variable {negated : Bool} {cs : List Char} {rule : IgnoreRule} {path : List Char}
  {isDirectory : Bool}

theorem ofPattern?_eq_some_iff :
    ofPattern? negated cs = some rule ↔ Text.trim cs ≠ [] ∧
      rule = { pattern := String.ofList (innerPattern cs), directoryOnly := isForDirectories cs,
               anchored := (openPattern cs).head? = some '/', negated } := by
  cases htrim : Text.trim cs with
  | nil => simp [ofPattern?, htrim]
  | cons c pattern =>
    simp [ofPattern?, htrim, innerPattern, openPattern, isForDirectories, eq_comm]

theorem openPattern_subset (cs : List Char) : openPattern cs ⊆ cs := by
  unfold openPattern
  split
  · exact fun _ h => Text.trimBy_subset cs (List.dropLast_subset _ h)
  · exact Text.trimBy_subset cs

theorem innerPattern_subset (cs : List Char) : innerPattern cs ⊆ cs := by
  unfold innerPattern
  split
  · exact fun _ h => openPattern_subset cs (List.mem_of_mem_tail h)
  · exact openPattern_subset cs

/-! ### Rules with a slash -/

/-- A slash in front or in the middle of a pattern makes a rule look at the whole path. -/
theorem applies_iff_matchesText (hrule : ofPattern? negated cs = some rule)
    (hslash : '/' ∈ openPattern cs) :
    rule.applies path isDirectory = true ↔
      innerPattern cs ≠ [] ∧ (isForDirectories cs = true → isDirectory = true) ∧
        Glob.matchesText (innerPattern cs) path = true := by
  have hwhole : (openPattern cs).head? = some '/' ∨ '/' ∈ innerPattern cs := by
    unfold innerPattern
    split
    · next hhead => exact .inl hhead
    · exact .inr hslash
  obtain ⟨-, rfl⟩ := ofPattern?_eq_some_iff.1 hrule
  have hcondition : (decide ((openPattern cs).head? = some '/') ||
      (innerPattern cs).contains '/') = true := by simpa using hwhole
  simp only [applies, hasSlash, String.toList_ofList, hcondition, if_true, Bool.and_eq_true,
    Bool.not_eq_true', List.isEmpty_eq_false_iff, Bool.or_eq_true, and_assoc]
  cases isForDirectories cs <;> simp

/-- A rule with a slash applies to a path if the segments of its pattern stand for groups of
segments of the path. Each of them stands for exactly one segment if the path is no deeper than the
pattern; if it is deeper, wildcards take slashes along. -/
theorem applies_iff_covers (hrule : ofPattern? negated cs = some rule)
    (hslash : '/' ∈ openPattern cs) (hset : '[' ∉ cs) (hpath : path ≠ []) (isDirectory : Bool) :
    (rule.applies path isDirectory = true ↔
      (isForDirectories cs = true → isDirectory = true) ∧
        Glob.Covers (Path.segments (innerPattern cs)) (Path.segments path)) ∧
    ((Path.segments path).length ≤ (Path.segments (innerPattern cs)).length →
      (rule.applies path isDirectory = true ↔
        (isForDirectories cs = true → isDirectory = true) ∧
          List.Forall₂ Glob.StandsFor (Path.segments (innerPattern cs)) (Path.segments path))) := by
  have hmatch : Glob.matchesText (innerPattern cs) path = true ↔
      Glob.Covers (Path.segments (innerPattern cs)) (Path.segments path) := by
    rw [Glob.matchesText_iff_standsFor fun h => hset (innerPattern_subset cs h),
      ← Glob.standsFor_ofSegments_iff (Path.segments_ne_nil (innerPattern cs)),
      Path.ofSegments_segments]
  have hinner : Glob.Covers (Path.segments (innerPattern cs)) (Path.segments path) →
      innerPattern cs ≠ [] := by
    intro hcovers hnil
    rw [← hmatch, hnil, Glob.matchesText_iff_standsFor List.not_mem_nil, Glob.standsFor_nil]
      at hcovers
    exact hpath hcovers
  have happlies : rule.applies path isDirectory = true ↔
      (isForDirectories cs = true → isDirectory = true) ∧
        Glob.Covers (Path.segments (innerPattern cs)) (Path.segments path) := by
    rw [applies_iff_matchesText hrule hslash, hmatch]
    exact ⟨fun h => h.2, fun h => ⟨hinner h.2, h⟩⟩
  refine ⟨happlies, fun hle => ?_⟩
  rw [happlies]
  exact and_congr_right fun _ => ⟨fun h => h.forall₂ hle, Glob.covers_of_forall₂⟩

theorem applies_iff_covers_docs :
    let written := " /docs/*.m? ".toList
    let rule : IgnoreRule := { pattern := "docs/*.m?", anchored := true }
    ofPattern? false written = some rule ∧ '/' ∈ openPattern written ∧ '[' ∉ written ∧
      innerPattern written = "docs/*.m?".toList ∧
      rule.applies "docs/a.md".toList false = true ∧
      List.Forall₂ Glob.StandsFor ["docs".toList, "*.m?".toList] ["docs".toList, "a.md".toList] ∧
      rule.applies "docs/api/a.md".toList false = true ∧
      Glob.Covers ["docs".toList, "*.m?".toList] ["docs".toList, "api".toList, "a.md".toList] := by
  intro written rule
  have hrule : ofPattern? false written = some rule := by decide +kernel
  have hslash : '/' ∈ openPattern written := by decide +kernel
  have hset : '[' ∉ written := by decide
  have hinner : innerPattern written = "docs/*.m?".toList := by decide +kernel
  have hsegments : Path.segments "docs/*.m?".toList = ["docs".toList, "*.m?".toList] := by decide
  have hshallow : rule.applies "docs/a.md".toList false = true := by decide +kernel
  have hdeep : rule.applies "docs/api/a.md".toList false = true := by decide +kernel
  have hone :=
    (applies_iff_covers hrule hslash hset (by decide : "docs/a.md".toList ≠ []) false).2
  have hmany :=
    (applies_iff_covers hrule hslash hset (by decide : "docs/api/a.md".toList ≠ []) false).1
  rw [hinner, hsegments] at hone hmany
  exact ⟨hrule, hslash, hset, hinner, hshallow, ((hone (by decide)).1 hshallow).2, hdeep,
    (hmany.1 hdeep).2⟩

/-- The rules of a file, with its text as the characters that it consists of. -/
theorem ofFile_ofList (cs : List Char) :
    ofFile (String.ofList cs) = (Text.lines cs).filterMap ofLine? := by
  rw [ofFile, String.toList_ofList]

/-- The default ignore file takes one directory below `.yarn` back in, and no file in it. -/
theorem isIgnored_in_kept_directory :
    let written := ".yarn/*".toList
    let path := ".yarn/patches/x".toList
    (∃ rule, ofPattern? false written = some rule ∧ '/' ∈ openPattern written ∧ '[' ∉ written ∧
      rule.applies path false = true) ∧
      ¬ List.Forall₂ Glob.StandsFor (Path.segments (innerPattern written)) (Path.segments path) ∧
      isIgnored (ofFile History.defaultIgnoreFile) ".yarn/patches".toList true = false ∧
      isIgnored (ofFile ".yarn/*\n!.yarn/patches\n") path false = true ∧
      isIgnored (ofFile History.defaultIgnoreFile) path false = true := by
  intro written path
  have hdefault : isIgnored (ofFile History.defaultIgnoreFile) ".yarn/patches".toList true = false ∧
      isIgnored (ofFile History.defaultIgnoreFile) path false = true := by
    -- To decode so long a text takes the kernel long; its characters are already at hand.
    rw [History.defaultIgnoreFile, ofFile_ofList]
    decide +kernel
  refine ⟨⟨{ pattern := ".yarn/*" }, by decide +kernel, by decide +kernel, by decide,
    by decide +kernel⟩, fun h => ?_, hdefault.1, by decide +kernel, hdefault.2⟩
  exact absurd h.length_eq (by decide +kernel)

/-! ### Rules without a slash -/

/-- Whether a rule is that of a pattern without slashes. -/
def IsSlashless (rule : IgnoreRule) : Prop :=
  ∃ negated cs, '/' ∉ cs ∧ ofPattern? negated cs = some rule

/-- Whether the pattern of a rule stands for a name. -/
def Names (rule : IgnoreRule) (name : Path.Segment) : Prop :=
  Glob.matchesText rule.pattern.toList name = true

instance (rule : IgnoreRule) (name : Path.Segment) : Decidable (rule.Names name) :=
  inferInstanceAs (Decidable (_ = true))

theorem openPattern_of_slash_not_mem (h : '/' ∉ cs) :
    isForDirectories cs = false ∧ openPattern cs = Text.trim cs ∧
      innerPattern cs = Text.trim cs := by
  have htrim : '/' ∉ Text.trim cs := fun hmem => h (Text.trimBy_subset cs hmem)
  have hdirectories : isForDirectories cs = false :=
    decide_eq_false fun hlast => htrim (List.mem_of_getLast? hlast)
  have hopen : openPattern cs = Text.trim cs := by rw [openPattern, hdirectories]; rfl
  have hhead : (openPattern cs).head? ≠ some '/' := fun hhead =>
    htrim (hopen ▸ List.mem_of_head? hhead)
  exact ⟨hdirectories, hopen, by rw [innerPattern, if_neg hhead, hopen]⟩

/-- A rule without a slash applies to every path with a segment that it names. -/
theorem IsSlashless.applies_iff (h : rule.IsSlashless) :
    rule.applies path isDirectory = true ↔ ∃ seg ∈ Path.segments path, rule.Names seg := by
  obtain ⟨negated, cs, hslash, hrule⟩ := h
  obtain ⟨hdirectories, hopen, hinner⟩ := openPattern_of_slash_not_mem hslash
  obtain ⟨hne, rfl⟩ := ofPattern?_eq_some_iff.1 hrule
  have htrim : '/' ∉ Text.trim cs := fun hmem => hslash (Text.trimBy_subset cs hmem)
  have hhead : (Text.trim cs).head? ≠ some '/' := fun hhead => htrim (List.mem_of_head? hhead)
  simp [applies, hasSlash, Names, Path.segments, hdirectories, hopen, hinner, hne, htrim, hhead]

end IgnoreRule

/-- Whether the last rule that names an entry is not negated and has the rules `later` behind it. -/
structure LeavesOutName (rules : List IgnoreRule) (name : Path.Segment)
    (later : List IgnoreRule) : Prop where
  exists_names : ∃ earlier rule, rules = earlier ++ rule :: later ∧ rule.Names name ∧
    rule.negated = false
  not_names : ∀ other ∈ later, ¬ other.Names name

section Slashless

variable {rules : List IgnoreRule} {path : List Char} {above : List Path.Segment}
  {name : Path.Segment}

/-- A rule that has the last word on a path has it on each directory above that it applies to. -/
theorem leavesOut_directory (hrules : ∀ rule ∈ rules, rule.IsSlashless)
    {directory : List Path.Segment} (hne : directory ≠ [])
    (hfront : directory <+: Path.segments path) {earlier later : List IgnoreRule}
    {rule : IgnoreRule} (hsplit : rules = earlier ++ rule :: later)
    (hnegated : rule.negated = false) (hlater : ∀ other ∈ later, other.applies path false = false)
    (hnames : ∃ seg ∈ directory, rule.Names seg) :
    LeavesOut rules (Path.ofSegments directory) true := by
  have hsegments := Path.segments_ofSegments hne fun seg hseg =>
    Path.slash_not_mem_of_mem_segments (hfront.subset hseg)
  refine ⟨earlier, rule, later, hsplit, ?_, hnegated, fun other hother => ?_⟩
  · rwa [(hrules rule (by simp [hsplit])).applies_iff, hsegments]
  · have hslashless := hrules other (by simp [hsplit, hother])
    have hnot := hlater other hother
    rw [Bool.eq_false_iff, Ne, hslashless.applies_iff] at hnot ⊢
    rw [hsegments]
    rintro ⟨seg, hseg, hother⟩
    exact hnot ⟨seg, hfront.subset hseg, hother⟩

theorem applies_iff_of_segments_eq {rule : IgnoreRule} (hrule : rule.IsSlashless)
    (hpath : Path.segments path = above ++ [name]) :
    rule.applies path false = true ↔
      (∃ directory ∈ above, rule.Names directory) ∨ rule.Names name := by
  rw [hrule.applies_iff, hpath]
  simp only [List.mem_append, List.mem_singleton, or_and_right, exists_or, exists_eq_left]

/-- A file that is left out although no directory above it is bears the name that decides. -/
theorem exists_leavesOutName_of_leavesOut (hrules : ∀ rule ∈ rules, rule.IsSlashless)
    (hpath : Path.segments path = above ++ [name])
    (hopen : ∀ directory, directory ≠ [] → directory <+: above →
      isIgnored rules (Path.ofSegments directory) true = false)
    (h : LeavesOut rules path false) :
    ∃ later, LeavesOutName rules name later ∧ ∀ other ∈ later, other.negated = true →
      ∀ directory ∈ above, ¬ other.Names directory := by
  obtain ⟨earlier, rule, later, hsplit, hrule, hnegated, hlater⟩ := h
  have hnot : ∀ other ∈ later,
      ¬ ((∃ directory ∈ above, other.Names directory) ∨ other.Names name) := by
    intro other hother
    rw [← applies_iff_of_segments_eq (hrules other (by simp [hsplit, hother])) hpath,
      hlater other hother]
    exact Bool.false_ne_true
  have hname : rule.Names name := by
    refine ((applies_iff_of_segments_eq (hrules rule (by simp [hsplit])) hpath).1
      hrule).resolve_left ?_
    rintro ⟨directory, hdirectory, hnames⟩
    obtain ⟨outer, inner, rfl⟩ := List.append_of_mem hdirectory
    have hfront : outer ++ [directory] <+: outer ++ directory :: inner := ⟨inner, by simp⟩
    have hleft := leavesOut_directory hrules (by simp)
      (hfront.trans (hpath ▸ List.prefix_append _ [name])) hsplit hnegated hlater
      ⟨directory, by simp, hnames⟩
    have hkept := hopen _ (by simp) hfront
    rw [isIgnored_iff.2 hleft] at hkept
    cases hkept
  exact ⟨later, ⟨⟨earlier, rule, hsplit, hname, hnegated⟩,
    fun other hother h => hnot other hother (.inr h)⟩,
    fun other hother _ directory hdirectory h =>
      hnot other hother (.inl ⟨directory, hdirectory, h⟩)⟩

/-- What applies behind the last rule that names a file names a directory above it. -/
theorem LeavesOutName.leavesOut (hrules : ∀ rule ∈ rules, rule.IsSlashless)
    (hpath : Path.segments path = above ++ [name]) {later : List IgnoreRule}
    (h : LeavesOutName rules name later)
    (hdirectories : ∀ other ∈ later, other.negated = true →
      ∀ directory ∈ above, ¬ other.Names directory) : LeavesOut rules path false := by
  obtain ⟨⟨earlier, rule, rfl, hname, hnegated⟩, hlater⟩ := h
  refine leavesOut_append_of_mem (fun other hother happlies => ?_) List.mem_cons_self
    ((applies_iff_of_segments_eq (hrules rule (by simp)) hpath).2 (.inr hname))
  rcases List.mem_cons.1 hother with rfl | hother
  · exact hnegated
  · rcases (applies_iff_of_segments_eq (hrules other (by simp [hother])) hpath).1 happlies with
      ⟨directory, hdirectory, hnames⟩ | hnames
    · exact Bool.eq_false_iff.2 fun htrue =>
        hdirectories other hother htrue directory hdirectory hnames
    · exact absurd hnames (hlater other hother)

/-- Of rules without slashes, the last one that names a file decides about it, unless a negated one
behind it names a directory on the way to the file. Such a rule takes the file back in, although
neither the directory nor any other one above the file is left out. -/
theorem isIgnored_iff_leavesOutName (hrules : ∀ rule ∈ rules, rule.IsSlashless)
    (hpath : Path.segments path = above ++ [name])
    (hopen : ∀ directory, directory ≠ [] → directory <+: above →
      isIgnored rules (Path.ofSegments directory) true = false) :
    (isIgnored rules path false = true ↔
      ∃ later, LeavesOutName rules name later ∧ ∀ other ∈ later, other.negated = true →
        ∀ directory ∈ above, ¬ other.Names directory) ∧
    ((∀ rule ∈ rules, rule.negated = true → ∀ directory ∈ above, ¬ rule.Names directory) →
      (isIgnored rules path false = true ↔ ∃ later, LeavesOutName rules name later)) := by
  have hdecides : isIgnored rules path false = true ↔
      ∃ later, LeavesOutName rules name later ∧ ∀ other ∈ later, other.negated = true →
        ∀ directory ∈ above, ¬ other.Names directory := by
    rw [isIgnored_iff]
    constructor
    · exact exists_leavesOutName_of_leavesOut hrules hpath hopen
    · rintro ⟨later, hname, hdirectories⟩
      exact hname.leavesOut hrules hpath hdirectories
  refine ⟨hdecides, fun hnone => hdecides.trans (exists_congr fun later => ?_)⟩
  refine and_iff_left_of_imp fun hname other hother => ?_
  obtain ⟨earlier, rule, hsplit, -⟩ := hname.exists_names
  exact hnone other (by simp [hsplit, hother])

theorem isIgnored_iff_leavesOutName_logs :
    let rules : List IgnoreRule :=
      [{ pattern := "out*", negated := true }, { pattern := "*.log" },
        { pattern := "b.log", negated := true }, { pattern := "a.?" }]
    let above := ["var".toList, "out".toList]
    (∀ rule ∈ rules, rule.IsSlashless) ∧
      Path.segments "var/out/a.log".toList = above ++ ["a.log".toList] ∧
      (∀ directory, directory ≠ [] → directory <+: above →
        isIgnored rules (Path.ofSegments directory) true = false) ∧
      isIgnored rules "var/out/a.log".toList false = true ∧
      ∃ later, LeavesOutName rules "a.log".toList later ∧
        ∀ other ∈ later, other.negated = true → ∀ directory ∈ above, ¬ other.Names directory := by
  intro rules above
  have hrules : ∀ rule ∈ rules, rule.IsSlashless := by
    simp only [rules, List.forall_mem_cons]
    exact ⟨⟨true, "out*".toList, by decide, by decide +kernel⟩,
      ⟨false, "*.log".toList, by decide, by decide +kernel⟩,
      ⟨true, "b.log".toList, by decide, by decide +kernel⟩,
      ⟨false, "a.?".toList, by decide, by decide +kernel⟩, fun _ h => nomatch h⟩
  have hpath : Path.segments "var/out/a.log".toList = above ++ ["a.log".toList] := by decide
  have hopen : ∀ directory, directory ≠ [] → directory <+: above →
      isIgnored rules (Path.ofSegments directory) true = false := by
    intro directory hne hfront
    have hall : ∀ directory ∈ above.inits, directory ≠ [] →
        isIgnored rules (Path.ofSegments directory) true = false := by decide +kernel
    exact hall directory ((List.mem_inits directory above).2 hfront) hne
  have hignored : isIgnored rules "var/out/a.log".toList false = true := by decide +kernel
  exact ⟨hrules, hpath, hopen, hignored,
    (isIgnored_iff_leavesOutName hrules hpath hopen).1.1 hignored⟩

/-- A rule that takes a directory back in takes back a file in it that another rule leaves out. -/
theorem not_isIgnored_in_named_directory :
    let rules : List IgnoreRule :=
      [{ pattern := "*.log" }, { pattern := "logs", negated := true }]
    IgnoreRule.ofFile "*.log\n!logs\n" = rules ∧ (∀ rule ∈ rules, rule.IsSlashless) ∧
      Path.segments "logs/a.log".toList = ["logs".toList, "a.log".toList] ∧
      isIgnored rules "logs".toList true = false ∧
      (∃ later, LeavesOutName rules "a.log".toList later) ∧
      isIgnored rules "logs/a.log".toList false = false := by
  intro rules
  refine ⟨by decide +kernel, ?_, by decide, by decide +kernel,
    ⟨_, ⟨[], { pattern := "*.log" }, rfl, by decide +kernel, rfl⟩, ?_⟩, by decide +kernel⟩
  · simp only [rules, List.forall_mem_cons]
    exact ⟨⟨false, "*.log".toList, by decide, by decide +kernel⟩,
      ⟨true, "logs".toList, by decide, by decide +kernel⟩, fun _ h => nomatch h⟩
  · decide +kernel

end Slashless

end RegistryBlock
