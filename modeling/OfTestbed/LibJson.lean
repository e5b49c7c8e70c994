import Mathlib.Algebra.Order.Field.Rat

/-!
Values as `json.loads` gives them: the values of an untyped program that stores, compares, subscripts and
iterates over them. Floats are exact rationals. `none` is an exception.
-/

namespace OfTestbed.Lib

inductive Json where
  | null
  | bool (b : Bool)
  | num (q : ℚ)
  | str (s : String)
  | arr (items : List Json)
  | obj (entries : List (String × Json))

namespace Json

mutual

/-- `left == right`: a boolean equals the number it counts as, dictionaries are compared without their order. -/
def eq : Json → Json → Bool
  | .null, .null => true
  | .bool b, .bool b' => b == b'
  | .bool b, .num q => q == b.toNat
  | .num q, .bool b => q == b.toNat
  | .num q, .num q' => q == q'
  | .str s, .str s' => s == s'
  | .arr items, .arr items' => eqItems items items'
  | .obj entries, .obj entries' => entries.length == entries'.length && eqEntries entries entries'
  | _, _ => false

def eqItems : List Json → List Json → Bool
  | [], [] => true
  | item :: items, item' :: items' => eq item item' && eqItems items items'
  | _, _ => false

def eqEntries : List (String × Json) → List (String × Json) → Bool
  | [], _ => true
  | (key, value) :: rest, entries => (entries.lookup key).any (eq value) && eqEntries rest entries

end

/-- `value[key]` for a text `key`. -/
def get? (key : String) : Json → Option Json
  | .obj entries => entries.lookup key
  | _ => none

/-- `for item in value`. -/
def iter : Json → Option (List Json)
  | .arr items => some items
  | .obj entries => some (entries.map fun entry => .str entry.1)
  | .str s => some (s.toList.map fun c => .str c.toString)
  | _ => none

/-- The value as a sequence that is subscripted by positions. A dictionary has no whole numbers for keys. -/
def sequence : Json → Option (List Json)
  | .arr items => some items
  | .str s => some (s.toList.map fun c => .str c.toString)
  | _ => none

/-- The value as a number in arithmetic. -/
def number : Json → Option ℚ
  | .num q => some q
  | .bool b => some b.toNat
  | _ => none

/-- `left + right`: numbers are added, texts and lists are joined. -/
def add : Json → Json → Option Json
  | .str s, .str s' => some (.str (s ++ s'))
  | .arr items, .arr items' => some (.arr (items ++ items'))
  | left, right => do return .num ((← left.number) + (← right.number))

/-- A key of a dictionary: a boolean is the key of the number it equals, lists and dictionaries are no keys. -/
inductive Key where
  | null
  | num (q : ℚ)
  | str (s : String)
  deriving DecidableEq

def key? : Json → Option Key
  | .null => some .null
  | .bool b => some (.num b.toNat)
  | .num q => some (.num q)
  | .str s => some (.str s)
  | _ => none

end Json

end OfTestbed.Lib
