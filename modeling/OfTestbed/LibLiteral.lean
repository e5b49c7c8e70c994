import OfTestbed.LibText

/-!
Python's literals of whole numbers, lists and tuples, as `eval` reads them. Brackets may be nested, a trailing comma is
allowed, `(v)` is `v` and `(v,)` is a tuple; commas without brackets make a tuple as well. `none` is an exception, and
stands for all that is not such a literal.
-/

namespace OfTestbed.Lib

inductive Literal where
  | int (n : Int)
  | list (items : List Literal)
  | tuple (items : List Literal)

namespace Literal

/-- What `for item in value` runs through, and what `value[i]` subscripts. -/
def items? : Literal → Option (List Literal)
  | .int _ => none
  | .list items => some items
  | .tuple items => some items

def int? : Literal → Option Int
  | .int n => some n
  | _ => none

/-! ### Tokens -/

inductive Bracket where
  | outer
  | square
  | round
  deriving DecidableEq

inductive Token where
  | opening (bracket : Bracket)
  | closing (bracket : Bracket)
  | comma
  | number (n : Int)

/-- A whole number with an optional sign: digits without leading zeros. -/
def readNumber (word : Text) : Option Token :=
  let digits := (readSign word).2
  if digits.all (fun c => c.isDigit || c = '_') ∧
      (digits.head? = some '0' → digits.all fun c => c = '0' || c = '_') then
    (Lib.int word).map .number
  else none

def readPunctuation : Char → Option Token
  | '[' => some (.opening .square)
  | ']' => some (.closing .square)
  | '(' => some (.opening .round)
  | ')' => some (.closing .round)
  | ',' => some .comma
  | _ => none

/-- The token of a word, which may be empty. -/
def endWord (word : Text) : Option (List Token) := if word = [] then some [] else (readNumber word).map ([·])

/-- The tokens of a text, after the part `word` of the first one. -/
def tokensFrom (word : Text) : Text → Option (List Token)
  | [] => endWord word
  | c :: rest =>
      match readPunctuation c with
      | some token => do return (← endWord word) ++ token :: (← tokensFrom [] rest)
      | none =>
          if c = ' ' ∨ c = '\t' ∨ c = '\n' then do return (← endWord word) ++ (← tokensFrom [] rest)
          else tokensFrom (word ++ [c]) rest

/-! ### Values -/

/-- A bracket that is open: the values before its last comma, and the one after it. -/
structure Frame where
  bracket : Bracket
  items : List Literal
  last : Option Literal

/-- The value of a bracket. -/
def Frame.value (frame : Frame) : Option Literal :=
  match frame.bracket with
  | .outer => if frame.items.isEmpty then frame.last else some (.tuple (frame.items ++ frame.last.toList))
  | .square => some (.list (frame.items ++ frame.last.toList))
  | .round =>
      if frame.items.isEmpty then frame.last.or (some (.tuple []))
      else some (.tuple (frame.items ++ frame.last.toList))

/-- A value in the innermost bracket, which has to follow a comma or the bracket. -/
def put (value : Literal) : List Frame → Option (List Frame)
  | ⟨bracket, items, none⟩ :: frames => some (⟨bracket, items, some value⟩ :: frames)
  | _ => none

def shift (frames : List Frame) : Token → Option (List Frame)
  | .number n => put (.int n) frames
  | .opening bracket =>
      match frames with
      | ⟨_, _, none⟩ :: _ => some (⟨bracket, [], none⟩ :: frames)
      | _ => none
  | .closing bracket =>
      match frames with
      | frame :: frames => if frame.bracket = bracket then do put (← frame.value) frames else none
      | [] => none
  | .comma =>
      match frames with
      | ⟨bracket, items, some value⟩ :: frames => some (⟨bracket, items ++ [value], none⟩ :: frames)
      | _ => none

/-- `eval(text)` of a literal. -/
def eval (text : Text) : Option Literal := do
  let tokens ← tokensFrom [] text
  match ← tokens.foldlM shift [⟨.outer, [], none⟩] with
  | [frame] => frame.value
  | _ => none

end Literal

end OfTestbed.Lib
