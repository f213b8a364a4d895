import RegistryBlock.Specifier.Statement

/-!
# The grammar of statements

The statements that name a module, as trees, and the texts that they stand for. White space and
names are free within their kind, a list in braces holds anything but the closing brace, and a
literal anything but a quotation mark. The words of the language can be names as well.
-/

namespace RegistryBlock.Specifier

/-- White space, possibly none. -/
structure Blanks where
  chars : List Char
  isBlank : ∀ c ∈ chars, Text.isBlank c = true
deriving DecidableEq

/-- White space that keeps two words apart. -/
structure Gap extends Blanks where
  ne_nil : chars ≠ []
deriving DecidableEq

structure Name where
  chars : List Char
  ne_nil : chars ≠ []
  isNameChar : ∀ c ∈ chars, isNameChar c = true
deriving DecidableEq

structure Braces where
  inner : List Char
  close_not_mem : '}' ∉ inner
deriving DecidableEq

/-- A literal. Its two quotation marks may differ. -/
structure Literal where
  opening : Char
  body : List Char
  closing : Char
  isQuote_opening : isQuote opening = true
  ne_nil : body ≠ []
  not_isQuote : ∀ c ∈ body, isQuote c = false
  isQuote_closing : isQuote closing = true
deriving DecidableEq

/-- Where names come from: the word `from` and a literal. -/
structure Source where
  before : Blanks
  literal : Literal
deriving DecidableEq

/-- What binds some names, or passes them on. -/
inductive Binding where
  | braces (list : Braces) (after : Blanks)
  | star (before : Blanks) (gap : Gap) (name : Name) (after : Gap)
deriving DecidableEq

/-- What an import statement binds. -/
inductive Clause where
  | default (name : Name) (after : Gap)
  | bindings (binding : Binding)
  | both (name : Name) (before after : Blanks) (binding : Binding)
deriving DecidableEq

/-- What an export statement passes on. -/
inductive Passed where
  | all (after : Blanks)
  | bindings (binding : Binding)
deriving DecidableEq

inductive Loader where
  | require
  | dynamic
deriving DecidableEq

/-- A statement that names a module. With `type` comes the white space behind that word. -/
inductive Statement where
  | importFrom (gap : Gap) (type : Option Gap) (clause : Clause) (source : Source)
  | importBare (before : Blanks) (literal : Literal)
  | exportFrom (gap : Gap) (type : Option Gap) (passed : Passed) (source : Source)
  | call (loader : Loader) (before inside : Blanks) (literal : Literal) (after : Blanks)
deriving DecidableEq

/-! ### Texts -/

def word (word : String) (rest : List Char) : List Char := word.toList ++ rest

theorem word_append (w : String) (cs rest : List Char) :
    word w cs ++ rest = word w (cs ++ rest) := List.append_assoc ..

namespace Braces

def chars (braces : Braces) : List Char := '{' :: (braces.inner ++ ['}'])

end Braces

namespace Literal

def chars (literal : Literal) : List Char := literal.opening :: (literal.body ++ [literal.closing])

def specifier (literal : Literal) : String := String.ofList literal.body

end Literal

namespace Source

def chars (source : Source) : List Char :=
  word "from" (source.before.chars ++ source.literal.chars)

def specifier (source : Source) : String := source.literal.specifier

end Source

namespace Binding

def chars : Binding → List Char
  | braces list after => list.chars ++ after.chars
  | star before gap name after =>
    '*' :: (before.chars ++ word "as" (gap.chars ++ (name.chars ++ after.chars)))

end Binding

namespace Clause

def chars : Clause → List Char
  | default name after => name.chars ++ after.chars
  | bindings binding => binding.chars
  | both name before after binding =>
    name.chars ++ (before.chars ++ ',' :: (after.chars ++ binding.chars))

end Clause

namespace Passed

def chars : Passed → List Char
  | all after => '*' :: after.chars
  | bindings binding => binding.chars

end Passed

namespace Loader

def name : Loader → String
  | require => "require"
  | dynamic => "import"

end Loader

/-- The word `type` with the white space behind it, if it is there. -/
def typeChars : Option Gap → List Char
  | none => []
  | some gap => word "type" gap.chars

namespace Statement

def chars : Statement → List Char
  | importFrom gap type clause source =>
    word "import" (gap.chars ++ (typeChars type ++ (clause.chars ++ source.chars)))
  | importBare before literal => word "import" (before.chars ++ literal.chars)
  | exportFrom gap type passed source =>
    word "export" (gap.chars ++ (typeChars type ++ (passed.chars ++ source.chars)))
  | call loader before inside literal after =>
    word loader.name (before.chars ++
      '(' :: (inside.chars ++ (literal.chars ++ (after.chars ++ [')']))))

def text (statement : Statement) : String := String.ofList statement.chars

def specifier : Statement → String
  | importFrom _ _ _ source => source.specifier
  | importBare _ literal => literal.specifier
  | exportFrom _ _ _ source => source.specifier
  | call _ _ _ literal _ => literal.specifier

end Statement

/-- Statements in a row, each on a line of its own and ended by a semicolon. -/
def program (statements : List Statement) : String :=
  ";\n".intercalate (statements.map Statement.text)

end RegistryBlock.Specifier
