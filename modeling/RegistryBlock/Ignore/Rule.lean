import RegistryBlock.Ignore.Glob
import RegistryBlock.Text.Blank
import RegistryBlock.Text.Lines

/-!
# Ignore rules

A rule has a glob pattern. With a slash in it, or one in front of it, the pattern is compared with
the whole path; otherwise with every segment of the path. Of several rules that apply to a path,
the last one decides.
-/

namespace RegistryBlock

/-- A rule that takes paths out of consideration or, negated, back into it. -/
structure IgnoreRule where
  pattern : String
  directoryOnly : Bool := false
  anchored : Bool := false
  negated : Bool := false
deriving DecidableEq, Repr

namespace IgnoreRule

def hasSlash (rule : IgnoreRule) : Bool := rule.pattern.toList.contains '/'

/-- Whether the rule applies to a path. An empty pattern applies to none. -/
def applies (rule : IgnoreRule) (path : List Char) (isDirectory : Bool) : Bool :=
  let pattern := rule.pattern.toList
  !pattern.isEmpty && (!rule.directoryOnly || isDirectory) &&
    if rule.anchored || rule.hasSlash then Glob.matchesText pattern path
    else (Text.split '/' path).any (Glob.matchesText pattern)

/-- The rule for a pattern as written: a slash at its end is for directories only, one at its front
anchors it. Blank text is no rule. -/
def ofPattern? (negated : Bool) (cs : List Char) : Option IgnoreRule :=
  match Text.trim cs with
  | [] => none
  | pattern =>
    let directoryOnly := pattern.getLast? = some '/'
    let pattern := if directoryOnly then pattern.dropLast else pattern
    let anchored := pattern.head? = some '/'
    let pattern := if anchored then pattern.tail else pattern
    some { pattern := String.ofList pattern, directoryOnly, anchored, negated }

/-- The rule on a line of an ignore file, where `#` opens a comment and `!` negates. -/
def ofLine? (line : List Char) : Option IgnoreRule :=
  match Text.trim line with
  | [] => none
  | '#' :: _ => none
  | '!' :: pattern => ofPattern? true pattern
  | pattern => ofPattern? false pattern

def ofFile (text : String) : List IgnoreRule := (Text.lines text.toList).filterMap ofLine?

def ofExcludes (patterns : List String) : List IgnoreRule :=
  patterns.filterMap fun pattern => ofPattern? false pattern.toList

end IgnoreRule

/-- Whether the rules leave a path out: the last rule that applies decides. -/
def isIgnored (rules : List IgnoreRule) (path : List Char) (isDirectory : Bool) : Bool :=
  rules.foldl
    (fun ignored rule => if rule.applies path isDirectory then !rule.negated else ignored) false

end RegistryBlock
