import RegistryBlock.Text.Blank
import RegistryBlock.Text.Word

/-!
# Import statements in program text

Statements are recognised by their words alone, wherever they stand in a text: comments and strings
are no different from code. Five forms name a module by a string literal,

* `import clause from "x"`, where the clause binds a default name, a list in braces, a namespace,
  or a default name with one of the other two, and may follow the word `type`;
* `import "x"`;
* `export … from "x"` with a star, a namespace or a list in braces;
* `require("x")` and `import("x")`.

Either quotation mark opens or closes a literal. Each reader takes the front of a text and returns
what it found with the rest, or nothing.
-/

namespace RegistryBlock.Specifier

def isNameChar (c : Char) : Bool := Text.isWord c || c = '$'

def isQuote (c : Char) : Bool := c = '"' || c = '\''

/-- The text after white space, of which there may be none. -/
def space (cs : List Char) : List Char := cs.dropWhile Text.isBlank

/-- The text after white space, of which there must be some. -/
def space? : List Char → Option (List Char)
  | [] => none
  | c :: cs => if Text.isBlank c then some (space cs) else none

def word? (word : String) (cs : List Char) : Option (List Char) :=
  Text.dropFront? word.toList cs

/-- A name as long as it goes. -/
def name? (cs : List Char) : Option (List Char × List Char) :=
  match cs.takeWhile isNameChar with
  | [] => none
  | name => some (name, cs.dropWhile isNameChar)

def literal? : List Char → Option (String × List Char)
  | [] => none
  | mark :: cs =>
    if isQuote mark then
      match cs.takeWhile (!isQuote ·), cs.dropWhile (!isQuote ·) with
      | c :: body, _ :: rest => some (String.ofList (c :: body), rest)
      | _, _ => none
    else none

def source? (cs : List Char) : Option (String × List Char) :=
  (word? "from" cs).bind fun rest => literal? (space rest)

/-- What follows a name that was read as far as it goes. The word `from` may be grown together
with the name: then it is the end of it. -/
def afterName? (next : List Char → Option (String × List Char)) (name rest : List Char) :
    Option (String × List Char) :=
  match next (space rest) with
  | some found => some found
  | none =>
    if 4 < name.length ∧ Text.endsWith "from".toList name then literal? (space rest) else none

def braces? : List Char → Option (List Char)
  | '{' :: cs =>
    match cs.dropWhile (· != '}') with
    | _ :: rest => some rest
    | [] => none
  | _ => none

def namespaceSource? : List Char → Option (String × List Char)
  | '*' :: cs =>
    (word? "as" (space cs)).bind fun rest =>
    (space? rest).bind fun rest =>
    (name? rest).bind fun (name, rest) => afterName? source? name rest
  | _ => none

def bracesSource? (cs : List Char) : Option (String × List Char) :=
  (braces? cs).bind fun rest => source? (space rest)

def bindings? (cs : List Char) : Option (String × List Char) :=
  bracesSource? cs <|> namespaceSource? cs <|> source? cs

/-- Bindings after a comma that may be left out. -/
def moreBindings? (cs : List Char) : Option (String × List Char) :=
  match cs with
  | ',' :: rest => bindings? (space rest)
  | _ => bindings? cs

def clause? (cs : List Char) : Option (String × List Char) :=
  ((name? cs).bind fun (name, rest) => afterName? moreBindings? name rest) <|> bindings? cs

/-- A reader that may be preceded by the word `type`. -/
def typed? (next : List Char → Option (String × List Char)) (cs : List Char) :
    Option (String × List Char) :=
  ((word? "type" cs).bind fun rest => (space? rest).bind next) <|> next cs

def importFrom? (cs : List Char) : Option (String × List Char) :=
  (word? "import" cs).bind fun rest => (space? rest).bind (typed? clause?)

def importBare? (cs : List Char) : Option (String × List Char) :=
  (word? "import" cs).bind fun rest => literal? (space rest)

def passedOn? (cs : List Char) : Option (String × List Char) :=
  match cs with
  | '*' :: rest => namespaceSource? cs <|> source? (space rest)
  | _ => bracesSource? cs

def exportFrom? (cs : List Char) : Option (String × List Char) :=
  (word? "export" cs).bind fun rest => (space? rest).bind (typed? passedOn?)

def call? (function : String) (cs : List Char) : Option (String × List Char) :=
  (word? function cs).bind fun rest =>
  (word? "(" (space rest)).bind fun rest =>
  (literal? (space rest)).bind fun (specifier, rest) =>
  (word? ")" (space rest)).map fun rest => (specifier, rest)

/-- A statement in any of the five forms. -/
def statement? (cs : List Char) : Option (String × List Char) :=
  importFrom? cs <|> importBare? cs <|> exportFrom? cs <|> call? "require" cs <|> call? "import" cs

/-! ### Readers consume -/

/-- A reader whose rest is never longer than its input. -/
def Shrinks {α : Type} (reader : List Char → Option (α × List Char)) : Prop :=
  ∀ cs found rest, reader cs = some (found, rest) → rest.length ≤ cs.length

theorem length_space_le (cs : List Char) : (space cs).length ≤ cs.length :=
  Text.length_dropWhile_le _ _

theorem length_of_space?_eq_some {cs rest : List Char} (h : space? cs = some rest) :
    rest.length < cs.length := by
  cases cs with
  | nil => simp [space?] at h
  | cons c cs =>
    simp only [space?] at h
    split at h
    · cases h
      have := length_space_le cs
      simp only [List.length_cons]
      omega
    · cases h

theorem length_of_word?_eq_some {word : String} {cs rest : List Char}
    (h : word? word cs = some rest) : cs.length = word.toList.length + rest.length := by
  rw [Text.dropFront?_eq_some_iff.1 h, List.length_append]

theorem length_of_name?_eq_some {cs name rest : List Char} (h : name? cs = some (name, rest)) :
    rest.length ≤ cs.length := by
  simp only [name?] at h
  split at h
  · cases h
  · cases h
    exact Text.length_dropWhile_le _ _

theorem shrinks_literal? : Shrinks literal? := by
  intro cs found rest h
  cases cs with
  | nil => simp [literal?] at h
  | cons c cs =>
    simp only [literal?] at h
    split at h
    · split at h
      · next hd =>
        cases h
        have := Text.length_dropWhile_le (!isQuote ·) cs
        rw [hd] at this
        simp only [List.length_cons] at *
        omega
      · cases h
    · cases h

theorem shrinks_source? : Shrinks source? := by
  intro cs found rest h
  obtain ⟨after, hw, hl⟩ := Option.bind_eq_some_iff.1 h
  have h1 := length_of_word?_eq_some hw
  have h2 := length_space_le after
  have h3 := shrinks_literal? _ _ _ hl
  omega

theorem afterName?_shrinks {next : List Char → Option (String × List Char)} (hn : Shrinks next)
    {name cs : List Char} {found : String} {rest : List Char}
    (h : afterName? next name cs = some (found, rest)) : rest.length ≤ cs.length := by
  have hs := length_space_le cs
  simp only [afterName?] at h
  split at h
  · next hf =>
    cases h
    have := hn _ _ _ hf
    omega
  · split at h
    · have := shrinks_literal? _ _ _ h
      omega
    · cases h

theorem length_of_braces?_eq_some {cs rest : List Char} (h : braces? cs = some rest) :
    rest.length ≤ cs.length := by
  unfold braces? at h
  split at h
  · next cs =>
    split at h
    · next hd =>
      cases h
      have := Text.length_dropWhile_le (· != '}') cs
      rw [hd] at this
      simp only [List.length_cons] at *
      omega
    · cases h
  · cases h

theorem shrinks_namespaceSource? : Shrinks namespaceSource? := by
  intro cs found rest h
  unfold namespaceSource? at h
  split at h
  · next cs =>
    obtain ⟨r₁, hw, h⟩ := Option.bind_eq_some_iff.1 h
    obtain ⟨r₂, hs, h⟩ := Option.bind_eq_some_iff.1 h
    obtain ⟨⟨name, r₃⟩, hn, h⟩ := Option.bind_eq_some_iff.1 h
    have h0 := length_space_le cs
    have h1 := length_of_word?_eq_some hw
    have h2 := length_of_space?_eq_some hs
    have h3 := length_of_name?_eq_some hn
    have h4 := afterName?_shrinks shrinks_source? h
    simp only [List.length_cons]
    omega
  · cases h

theorem shrinks_bracesSource? : Shrinks bracesSource? := by
  intro cs found rest h
  obtain ⟨after, hb, hs⟩ := Option.bind_eq_some_iff.1 h
  have h1 := length_of_braces?_eq_some hb
  have h2 := length_space_le after
  have h3 := shrinks_source? _ _ _ hs
  omega

theorem Shrinks.orElse {α : Type} {p q : List Char → Option (α × List Char)}
    (hp : Shrinks p) (hq : Shrinks q) : Shrinks fun cs => p cs <|> q cs := by
  intro cs found rest h
  simp only [Option.orElse_eq_orElse, Option.orElse_eq_or, Option.or_eq_some_iff] at h
  rcases h with h | ⟨-, h⟩
  · exact hp _ _ _ h
  · exact hq _ _ _ h

theorem shrinks_bindings? : Shrinks bindings? :=
  shrinks_bracesSource?.orElse (shrinks_namespaceSource?.orElse shrinks_source?)

theorem shrinks_moreBindings? : Shrinks moreBindings? := by
  intro cs found rest h
  unfold moreBindings? at h
  split at h
  · next after =>
    have h1 := length_space_le after
    have h2 := shrinks_bindings? _ _ _ h
    simp only [List.length_cons]
    omega
  · exact shrinks_bindings? _ _ _ h

theorem shrinks_clause? : Shrinks clause? := by
  refine Shrinks.orElse ?_ shrinks_bindings?
  intro cs found rest h
  obtain ⟨⟨name, after⟩, hn, h⟩ := Option.bind_eq_some_iff.1 h
  have h1 := length_of_name?_eq_some hn
  have h2 := afterName?_shrinks shrinks_moreBindings? h
  omega

theorem Shrinks.typed? {next : List Char → Option (String × List Char)} (hn : Shrinks next) :
    Shrinks (typed? next) := by
  refine Shrinks.orElse ?_ hn
  intro cs found rest h
  obtain ⟨r₁, hw, h⟩ := Option.bind_eq_some_iff.1 h
  obtain ⟨r₂, hs, h⟩ := Option.bind_eq_some_iff.1 h
  have h1 := length_of_word?_eq_some hw
  have h2 := length_of_space?_eq_some hs
  have h3 := hn _ _ _ h
  omega

theorem shrinks_passedOn? : Shrinks passedOn? := by
  intro cs found rest h
  unfold passedOn? at h
  split at h
  · next after =>
    simp only [Option.orElse_eq_orElse, Option.orElse_eq_or, Option.or_eq_some_iff] at h
    rcases h with h | ⟨-, h⟩
    · exact shrinks_namespaceSource? _ _ _ h
    · have h1 := length_space_le after
      have h2 := shrinks_source? _ _ _ h
      simp only [List.length_cons]
      omega
  · exact shrinks_bracesSource? _ _ _ h

theorem length_of_statement?_eq_some {cs : List Char} {found : String} {rest : List Char}
    (h : statement? cs = some (found, rest)) : rest.length < cs.length := by
  simp only [statement?, importFrom?, importBare?, exportFrom?, call?,
    Option.orElse_eq_orElse, Option.orElse_eq_or, Option.or_eq_some_iff] at h
  rcases h with h | ⟨-, h | ⟨-, h | ⟨-, h | ⟨-, h⟩⟩⟩⟩
  · obtain ⟨r₁, hw, h⟩ := Option.bind_eq_some_iff.1 h
    obtain ⟨r₂, hs, h⟩ := Option.bind_eq_some_iff.1 h
    have h1 := length_of_word?_eq_some hw
    have h2 := length_of_space?_eq_some hs
    have h3 := shrinks_clause?.typed? _ _ _ h
    omega
  · obtain ⟨r₁, hw, h⟩ := Option.bind_eq_some_iff.1 h
    have h1 := length_of_word?_eq_some hw
    have h2 := length_space_le r₁
    have h3 := shrinks_literal? _ _ _ h
    have : ("import".toList).length = 6 := by decide
    omega
  · obtain ⟨r₁, hw, h⟩ := Option.bind_eq_some_iff.1 h
    obtain ⟨r₂, hs, h⟩ := Option.bind_eq_some_iff.1 h
    have h1 := length_of_word?_eq_some hw
    have h2 := length_of_space?_eq_some hs
    have h3 := shrinks_passedOn?.typed? _ _ _ h
    omega
  all_goals
    obtain ⟨r₁, hw, h⟩ := Option.bind_eq_some_iff.1 h
    obtain ⟨r₂, ho, h⟩ := Option.bind_eq_some_iff.1 h
    obtain ⟨⟨spec, r₃⟩, hl, h⟩ := Option.bind_eq_some_iff.1 h
    obtain ⟨r₄, hc, h⟩ := Option.map_eq_some_iff.1 h
    cases h
    have h1 := length_of_word?_eq_some hw
    have h2 := length_space_le r₁
    have h3 := length_of_word?_eq_some ho
    have h4 := length_space_le r₂
    have h5 := shrinks_literal? _ _ _ hl
    have h6 := length_space_le r₃
    have h7 : (space r₃).length = ")".toList.length + rest.length := length_of_word?_eq_some hc
    have : ("(".toList).length = 1 := by decide
    omega

/-! ### Specifiers of a text -/

/-- The specifiers of a text, given whether it follows a word character. A statement begins where
a word begins, and the text of a statement holds no further one. -/
def scan (inWord : Bool) (cs : List Char) : List String :=
  match cs with
  | [] => []
  | c :: rest =>
    match _h : (if inWord then none else statement? (c :: rest)) with
    | some (specifier, after) => specifier :: scan false after
    | none => scan (Text.isWord c) rest
termination_by cs.length
decreasing_by
  · split at _h
    · cases _h
    · exact length_of_statement?_eq_some _h
  · simp

/-- The specifiers of a text in source order, repetitions included. -/
def all (text : String) : List String := scan false text.toList

end RegistryBlock.Specifier
