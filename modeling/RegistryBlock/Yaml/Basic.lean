/-!
# YAML

What a text of settings may stand for. To read it is the work of a library outside the program, so
whatever depends on settings takes a `Reader` for it: the reader gives the value of a text or
refuses the text. A mapping keeps its entries in order; what settings have no use for, such as
dates and sets, is `other`.
-/

namespace RegistryBlock.Yaml

inductive Value where
  | null
  | bool (b : Bool)
  | int (n : Int)
  | float (x : Float)
  | str (s : String)
  | bytes (l : List UInt8)
  | seq (items : List Value)
  | map (entries : List (Value × Value))
  | other

/-- The last value of a text key. -/
def Value.get? (v : Value) (key : String) : Option Value :=
  match v with
  | map entries =>
    (entries.reverse.find? fun
      | (.str k, _) => k = key
      | _ => false).map Prod.snd
  | _ => none

inductive Refusal where
  /-- The text is not YAML, for a reason that the reader may give in words. -/
  | malformed (words : Option String)
  /-- A scalar has the form of its type, but no value of it. Readers do not count this among the
  faults of a text. -/
  | scalar
deriving DecidableEq, Repr

abbrev Reader := String → Except Refusal Value

end RegistryBlock.Yaml
