/-!
# JSON values

The members of an object keep the order in which their keys first appeared. Numbers written
without fraction and exponent are integers of any size.
-/

namespace RegistryBlock.Json

/-- A JSON value. -/
inductive Value where
  | null
  | bool (b : Bool)
  | int (n : Int)
  | float (x : Float)
  | str (s : String)
  | arr (items : List Value)
  | obj (members : List (String × Value))

/-- Sets the value of a key: in its old place if the key is there, else at the end. -/
def put {α : Type} (members : List (String × α)) (key : String) (v : α) : List (String × α) :=
  match members with
  | [] => [(key, v)]
  | (k, old) :: rest => if k = key then (k, v) :: rest else (k, old) :: put rest key v

theorem map_fst_put {α : Type} (members : List (String × α)) (key : String) (v : α) :
    (put members key v).map Prod.fst =
      if key ∈ members.map Prod.fst then members.map Prod.fst
      else members.map Prod.fst ++ [key] := by
  induction members with
  | nil => simp [put]
  | cons m rest ih =>
    obtain ⟨k, old⟩ := m
    simp only [put]
    split
    · next h => simp [h]
    · next h =>
      simp only [List.map_cons, ih, List.mem_cons, Ne.symm h, false_or, List.cons_append]
      split <;> rfl

namespace Value

def get? (v : Value) (key : String) : Option Value :=
  match v with
  | obj members => members.lookup key
  | _ => none

def str? : Value → Option String
  | str s => some s
  | _ => none

/-- The members of an object, none for any other value. -/
def members : Value → List (String × Value)
  | obj ms => ms
  | _ => []

def keys (v : Value) : List String := v.members.map Prod.fst

end Value

end RegistryBlock.Json
