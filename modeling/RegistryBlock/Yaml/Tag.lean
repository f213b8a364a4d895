import RegistryBlock.Text.Basic

/-!
# YAML tags

The tag of a plain scalar follows from its form: truth values, numbers, nothing, dates and the keys
with a meaning of their own are told from text by how they are written.
-/

namespace RegistryBlock.Yaml.Tag

def core (name : String) : String := "tag:yaml.org,2002:" ++ name

def null : String := core "null"
def bool : String := core "bool"
def int : String := core "int"
def float : String := core "float"
def str : String := core "str"
def seq : String := core "seq"
def map : String := core "map"
def merge : String := core "merge"
def value : String := core "value"
def timestamp : String := core "timestamp"

def trueWords : List String :=
  ["yes", "Yes", "YES", "true", "True", "TRUE", "on", "On", "ON"]

def falseWords : List String :=
  ["no", "No", "NO", "false", "False", "FALSE", "off", "Off", "OFF"]

def nullWords : List String := ["", "~", "null", "Null", "NULL"]

def isDigitOrGap (c : Char) : Bool := c.isDigit || c = '_'

def dropSign : List Char → List Char
  | '+' :: cs => cs
  | '-' :: cs => cs
  | cs => cs

def isDigits : List Char → Bool
  | c :: cs => c.isDigit && cs.all isDigitOrGap
  | [] => false

/-- Whether a text is nothing, or an exponent with a sign. -/
def isExponent : List Char → Bool
  | [] => true
  | e :: sign :: d :: ds =>
    (e = 'e' || e = 'E') && (sign = '+' || sign = '-') && d.isDigit && ds.all Char.isDigit
  | _ => false

def isSixtieth : List Char → Bool
  | [c] => c.isDigit
  | [c, d] => '0' ≤ c && c ≤ '5' && d.isDigit
  | _ => false

def isFraction (cs : List Char) : Bool := isExponent (cs.dropWhile isDigitOrGap)

def isFloat (cs : List Char) : Bool :=
  let unsigned := dropSign cs
  let (whole, fraction) := Text.cutAt '.' unsigned
  let decimal := isDigits whole && (fraction.map isFraction).getD false
  let pure :=
    match cs with
    | '.' :: d :: rest => d.isDigit && isFraction rest
    | _ => false
  let sixtieths :=
    match Text.split ':' whole, fraction with
    | first :: second :: more, some fraction =>
      isDigits first && (second :: more).all isSixtieth && fraction.all isDigitOrGap
    | _, _ => false
  let named :=
    [".inf", ".Inf", ".INF"].contains (String.ofList unsigned) ||
      [".nan", ".NaN", ".NAN"].contains (String.ofList cs)
  decimal || pure || sixtieths || named

def isInt (cs : List Char) : Bool :=
  match dropSign cs with
  | '0' :: 'b' :: c :: ds => (c :: ds).all fun d => d = '0' || d = '1' || d = '_'
  | '0' :: 'x' :: c :: ds =>
    (c :: ds).all fun d =>
      isDigitOrGap d || ('a' ≤ d && d ≤ 'f') || ('A' ≤ d && d ≤ 'F')
  | ['0'] => true
  | '0' :: ds => ds.all fun d => ('0' ≤ d && d ≤ '7') || d = '_'
  | unsigned =>
    match Text.split ':' unsigned with
    | first :: more => isDigits first && more.all isSixtieth
    | [] => false

/-- The parts of a text between the given characters, as far as all of them occur in order. -/
def partsBy : List Char → List Char → Option (List (List Char))
  | [], cs => some [cs]
  | sep :: seps, cs =>
    match Text.cutAt sep cs with
    | (part, some rest) => (partsBy seps rest).map (part :: ·)
    | (_, none) => none

/-- Whether a text has from `least` to `most` digits and nothing else. -/
def isNumeral (least most : Nat) (cs : List Char) : Bool :=
  cs.all Char.isDigit && least ≤ cs.length && cs.length ≤ most

def isBlank (c : Char) : Bool := c = ' ' || c = '\t'

/-- The numbers of a date and time, and the time zone in hours and minutes if there is one. -/
structure Moment where
  year : List Char
  month : List Char
  day : List Char
  hour : List Char := []
  minute : List Char := []
  second : List Char := []
  zoneHour : List Char := []
  zoneMinute : List Char := []

def zone? (cs : List Char) (moment : Moment) : Option Moment :=
  match cs.dropWhile isBlank with
  | [] => if cs.isEmpty then some moment else none
  | ['Z'] => some moment
  | sign :: rest =>
    if sign = '+' ∨ sign = '-' then
      match Text.cutAt ':' rest with
      | (hour, some minute) =>
        if isNumeral 1 2 hour && isNumeral 2 2 minute then
          some { moment with zoneHour := hour, zoneMinute := minute }
        else none
      | (hour, none) =>
        if isNumeral 1 2 hour then some { moment with zoneHour := hour } else none
    else none

def time? (cs : List Char) (moment : Moment) : Option Moment :=
  (partsBy [':', ':'] cs).bind fun
    | [hour, minute, rest] =>
      let second := rest.takeWhile Char.isDigit
      let after := rest.dropWhile Char.isDigit
      let after :=
        match after with
        | '.' :: fraction => fraction.dropWhile Char.isDigit
        | _ => after
      if isNumeral 1 2 hour && isNumeral 2 2 minute && isNumeral 2 2 second then
        zone? after { moment with hour, minute, second }
      else none
    | _ => none

def moment? (cs : List Char) : Option Moment :=
  (partsBy ['-', '-'] cs).bind fun
    | [year, month, rest] =>
      let day := rest.takeWhile Char.isDigit
      let moment : Moment := { year, month, day }
      if isNumeral 4 4 year && isNumeral 1 2 month && isNumeral 1 2 day then
        match rest.dropWhile Char.isDigit with
        | [] => some moment
        | c :: time =>
          if c = 'T' ∨ c = 't' then time? time moment
          else if isBlank c then time? (time.dropWhile isBlank) moment
          else none
      else none
    | _ => none

/-- Whether a text has the form of a date, whose month and day have two digits unless a time
follows. -/
def isTimestamp (cs : List Char) : Bool :=
  match moment? cs with
  | some moment => !moment.hour.isEmpty || cs.length = 10
  | none => false

def ofPlain (text : String) : String :=
  let cs := text.toList
  if trueWords.contains text || falseWords.contains text then bool
  else if isFloat cs then float
  else if isInt cs then int
  else if text = "<<" then merge
  else if nullWords.contains text then null
  else if isTimestamp cs then timestamp
  else if text = "=" then value
  else str

end RegistryBlock.Yaml.Tag
