import Mathlib.Algebra.Order.Field.Rat
import Mathlib.Data.List.TakeWhile
import Mathlib.Tactic.IntervalCases
import Mathlib.Tactic.Linarith
import Mathlib.Tactic.NormNum
import Mathlib.Tactic.Ring
import OfTestbed.LibLoop

/-!
Text as Python reads and writes it. A text is a list of characters. Lines, tokens, and the numbers in them:
`int`, `float` and the formats `%d` and `%f`. Floats are exact rationals, so `float` gives the exact value of what
it reads and takes no infinities, and `%f` rounds to six decimals, ties to even. Whitespace around a number, signs,
underscores between digits and the decimal digits of other scripts are read as in Python.
-/

namespace OfTestbed.Lib

abbrev Text := List Char

/-! ### Lines -/

def isLineBreak (c : Char) : Bool :=
  c.toNat ∈ [0x0a, 0x0b, 0x0c, 0x0d, 0x1c, 0x1d, 0x1e, 0x85, 0x2028, 0x2029]

/-- The lines of a text, after the part `line` of the first one. -/
def splitlinesFrom (line : Text) : Text → List Text
  | [] => if line = [] then [] else [line]
  | '\r' :: '\n' :: rest => line :: splitlinesFrom [] rest
  | c :: rest => if isLineBreak c then line :: splitlinesFrom [] rest else splitlinesFrom (line ++ [c]) rest

/-- `text.splitlines()`. -/
def splitlines (text : Text) : List Text := splitlinesFrom [] text

/-! ### Reading numbers -/

/-- The zeros of the scripts with decimal digits; the digits follow each zero in order. -/
def decimalZeros : List Nat :=
  [0x30, 0x660, 0x6f0, 0x7c0, 0x966, 0x9e6, 0xa66, 0xae6, 0xb66, 0xbe6, 0xc66, 0xce6, 0xd66, 0xde6, 0xe50, 0xed0,
    0xf20, 0x1040, 0x1090, 0x17e0, 0x1810, 0x1946, 0x19d0, 0x1a80, 0x1a90, 0x1b50, 0x1bb0, 0x1c40, 0x1c50, 0xa620,
    0xa8d0, 0xa900, 0xa9d0, 0xa9f0, 0xaa50, 0xabf0, 0xff10, 0x104a0, 0x10d30, 0x11066, 0x110f0, 0x11136, 0x111d0,
    0x112f0, 0x11450, 0x114d0, 0x11650, 0x116c0, 0x11730, 0x118e0, 0x11950, 0x11c50, 0x11d50, 0x11da0, 0x16a60,
    0x16ac0, 0x16b50, 0x1d7ce, 0x1d7d8, 0x1d7e2, 0x1d7ec, 0x1d7f6, 0x1e140, 0x1e2f0, 0x1e950, 0x1fbf0]

def digitValue (c : Char) : Option Nat :=
  (decimalZeros.find? fun first => first ≤ c.toNat && c.toNat < first + 10).map (c.toNat - ·)

/-- The whitespace that may stand around a number. -/
def isNumberSpace (c : Char) : Bool :=
  (0x09 ≤ c.toNat && c.toNat ≤ 0x0d) || (0x2000 ≤ c.toNat && c.toNat ≤ 0x200a) ||
    c.toNat ∈ [0x20, 0x85, 0xa0, 0x1680, 0x2028, 0x2029, 0x202f, 0x205f, 0x3000]

def stripNumber (text : Text) : Text :=
  ((text.dropWhile isNumberSpace).reverse.dropWhile isNumberSpace).reverse

/-- A sign, and whether it is a minus. -/
def readSign : Text → Bool × Text
  | '-' :: rest => (true, rest)
  | '+' :: rest => (false, rest)
  | text => (false, text)

/-- One or more digits, with single underscores between them. -/
def readDigits (text : Text) : Option (List Nat) :=
  let chunks := text.splitOn '_'
  if [] ∈ chunks then none else chunks.flatten.mapM digitValue

def digitsToNat (digits : List Nat) : Nat := digits.foldl (fun value digit => 10 * value + digit) 0

/-- `int(text)`. -/
def int (text : Text) : Option Int := do
  let (minus, body) := readSign (stripNumber text)
  let digits ← readDigits body
  return if minus then -(digitsToNat digits : Int) else digitsToNat digits

/-- The digits of a part of a float that may be missing. -/
def readOptionalDigits (text : Text) : Option (List Nat) := if text = [] then some [] else readDigits text

/-- The exponent of a float, after the `e`. -/
def readExponent : Text → Option Int
  | [] => some 0
  | _ :: text => do
      let (minus, body) := readSign text
      let digits ← readDigits body
      return if minus then -(digitsToNat digits : Int) else digitsToNat digits

/-- `float(text)`. -/
def float (text : Text) : Option ℚ := do
  let (minus, body) := readSign (stripNumber text)
  let mantissa := body.takeWhile fun c => c ≠ 'e' ∧ c ≠ 'E'
  let exponent ← readExponent (body.dropWhile fun c => c ≠ 'e' ∧ c ≠ 'E')
  let whole ← readOptionalDigits (mantissa.takeWhile (· ≠ '.'))
  let fraction ← readOptionalDigits (mantissa.dropWhile (· ≠ '.')).tail
  if whole = [] ∧ fraction = [] then none
  else
    let value : ℚ := digitsToNat (whole ++ fraction) / 10 ^ fraction.length * (10 : ℚ) ^ exponent
    some (if minus then -value else value)

/-! ### Writing numbers -/

/-- `"%d" % n`. -/
def formatD (n : Int) : Text := (if n < 0 then ['-'] else []) ++ Nat.toDigits 10 n.natAbs

/-- The quotient, rounded to the nearest whole number, ties to even. -/
def roundHalfEven (num den : Nat) : Nat :=
  if 2 * (num % den) < den ∨ (2 * (num % den) = den ∧ num / den % 2 = 0) then num / den else num / den + 1

/-- The absolute value in millionths. -/
def millionths (q : ℚ) : Nat := roundHalfEven (q.num.natAbs * 10 ^ 6) q.den

/-- The last digits of a number. -/
def lastDigits : Nat → Nat → List Nat
  | 0, _ => []
  | count + 1, n => lastDigits count (n / 10) ++ [n % 10]

/-- `"%f" % q`. -/
def formatF (q : ℚ) : Text :=
  (if q < 0 then ['-'] else []) ++ Nat.toDigits 10 (millionths q / 10 ^ 6) ++
    '.' :: (lastDigits 6 (millionths q)).map Nat.digitChar

/-- The rational rounded to six decimals. -/
def roundToSix (q : ℚ) : ℚ := (if q < 0 then -1 else 1) * (millionths q / 10 ^ 6)

/-! ### Lines that are written are read back -/

theorem splitlinesFrom_append {chars : Text} (h : ∀ c ∈ chars, isLineBreak c = false) (line rest : Text) :
    splitlinesFrom line (chars ++ '\n' :: rest) = (line ++ chars) :: splitlinesFrom [] rest := by
  induction chars generalizing line with
  | nil => simp [splitlinesFrom, isLineBreak]
  | cons c chars ih =>
      have hc := h c List.mem_cons_self
      have hne : c ≠ '\r' := by
        rintro rfl
        exact absurd hc (by decide)
      have hstep : splitlinesFrom line (c :: (chars ++ '\n' :: rest)) =
          if isLineBreak c then line :: splitlinesFrom [] (chars ++ '\n' :: rest)
            else splitlinesFrom (line ++ [c]) (chars ++ '\n' :: rest) := by
        rw [splitlinesFrom]
        intro _ hcr
        exact absurd hcr hne
      rw [List.cons_append, hstep, hc, if_neg Bool.false_ne_true, ih fun c' hc' => h c' (List.mem_cons_of_mem c hc')]
      simp

theorem splitlines_flatMap {lines : List Text} (h : ∀ line ∈ lines, ∀ c ∈ line, isLineBreak c = false) :
    splitlines (lines.flatMap (· ++ ['\n'])) = lines := by
  rw [splitlines]
  induction lines with
  | nil => rfl
  | cons line rest ih =>
      rw [List.flatMap_cons, List.append_assoc, List.singleton_append,
        splitlinesFrom_append (h line List.mem_cons_self), List.nil_append,
        ih fun line' hline' => h line' (List.mem_cons_of_mem line hline')]

theorem splitlinesFrom_of_noBreak {chars : Text} (h : ∀ c ∈ chars, isLineBreak c = false) (line : Text) :
    splitlinesFrom line chars = if line ++ chars = [] then [] else [line ++ chars] := by
  induction chars generalizing line with
  | nil => rw [splitlinesFrom, List.append_nil]
  | cons c chars ih =>
      have hc := h c List.mem_cons_self
      have hne : c ≠ '\r' := by
        rintro rfl
        exact absurd hc (by decide)
      have hstep : splitlinesFrom line (c :: chars) =
          if isLineBreak c then line :: splitlinesFrom [] chars else splitlinesFrom (line ++ [c]) chars := by
        rw [splitlinesFrom]
        intro _ hcr
        exact absurd hcr hne
      rw [hstep, hc, if_neg Bool.false_ne_true, ih fun c' hc' => h c' (List.mem_cons_of_mem c hc')]
      simp

/-- Lines that end in line breaks, and a last one that does not. -/
theorem splitlines_flatMap_append {lines : List Text} {last : Text}
    (h : ∀ line ∈ lines, ∀ c ∈ line, isLineBreak c = false) (hlast : ∀ c ∈ last, isLineBreak c = false)
    (hne : last ≠ []) : splitlines (lines.flatMap (· ++ ['\n']) ++ last) = lines ++ [last] := by
  rw [splitlines]
  induction lines with
  | nil =>
      rw [List.flatMap_nil, List.nil_append, splitlinesFrom_of_noBreak hlast, List.nil_append, if_neg hne,
        List.nil_append]
  | cons line rest ih =>
      rw [List.flatMap_cons, List.append_assoc, List.append_assoc, List.singleton_append,
        splitlinesFrom_append (h line List.mem_cons_self), List.nil_append,
        ih fun line' hline' => h line' (List.mem_cons_of_mem line hline'), List.cons_append]

theorem mem_intercalate {sep c : Char} {tokens : List Text} (h : c ∈ [sep].intercalate tokens) :
    c = sep ∨ ∃ token ∈ tokens, c ∈ token := by
  induction tokens with
  | nil => cases h
  | cons token rest ih =>
      cases rest with
      | nil =>
          rw [List.intercalate_singleton] at h
          exact Or.inr ⟨token, List.mem_cons_self, h⟩
      | cons next rest =>
          rw [List.intercalate_cons_cons, List.mem_append, List.mem_append, List.mem_singleton] at h
          rcases h with (hfirst | hsep) | hrest
          · exact Or.inr ⟨token, List.mem_cons_self, hfirst⟩
          · exact Or.inl hsep
          · refine (ih hrest).imp_right ?_
            rintro ⟨found, hfound, hc⟩
            exact ⟨found, List.mem_cons_of_mem token hfound, hc⟩

/-! ### Digits -/

theorem digitValue_digitChar {digit : Nat} (h : digit < 10) : digitValue digit.digitChar = some digit := by
  interval_cases digit <;> rfl

theorem digitsToNat_append (digits digits' : List Nat) :
    digitsToNat (digits ++ digits') = digitsToNat digits * 10 ^ digits'.length + digitsToNat digits' := by
  have hfold : ∀ (l : List Nat) (start : Nat), l.foldl (fun value digit => 10 * value + digit) start =
      start * 10 ^ l.length + digitsToNat l := by
    intro l
    induction l with
    | nil => simp [digitsToNat]
    | cons digit rest ih =>
        intro start
        have hdigit : digitsToNat (digit :: rest) = (10 * 0 + digit) * 10 ^ rest.length + digitsToNat rest := ih _
        rw [List.foldl_cons, ih, hdigit, List.length_cons, pow_succ]
        ring
  rw [digitsToNat, List.foldl_append, hfold]
  rfl

/-- The digits of a number, as `%d` writes them. -/
theorem exists_digits (n : Nat) : ∃ digits : List Nat, Nat.toDigits 10 n = digits.map Nat.digitChar ∧
    digits ≠ [] ∧
    (∀ digit ∈ digits, digit < 10) ∧ digitsToNat digits = n := by
  induction n using Nat.strong_induction_on with
  | _ n ih =>
      rw [Nat.toDigits_eq_if (by omega)]
      split
      · rename_i hlt
        exact ⟨[n], rfl, by simp, by simpa using hlt, by simp [digitsToNat]⟩
      · obtain ⟨digits, heq, -, hlt, hvalue⟩ := ih (n / 10) (by omega)
        refine ⟨digits ++ [n % 10], by simp [heq], by simp, ?_, ?_⟩
        · intro digit hdigit
          rcases List.mem_append.mp hdigit with hold | hlast
          · exact hlt digit hold
          · rw [List.mem_singleton.mp hlast]
            omega
        · rw [digitsToNat_append, hvalue]
          simp [digitsToNat]
          omega

theorem lastDigits_lt (count n : Nat) : ∀ digit ∈ lastDigits count n, digit < 10 := by
  induction count generalizing n with
  | zero => simp [lastDigits]
  | succ count ih =>
      intro digit hdigit
      rcases List.mem_append.mp hdigit with hold | hlast
      · exact ih (n / 10) digit hold
      · rw [List.mem_singleton.mp hlast]
        omega

@[simp] theorem length_lastDigits (count n : Nat) : (lastDigits count n).length = count := by
  induction count generalizing n with
  | zero => rfl
  | succ count ih => simp [lastDigits, ih]

theorem digitsToNat_lastDigits (count n : Nat) : digitsToNat (lastDigits count n) = n % 10 ^ count := by
  induction count generalizing n with
  | zero => simp [lastDigits, digitsToNat, Nat.mod_one]
  | succ count ih =>
      rw [lastDigits, digitsToNat_append, ih, pow_succ']
      have hmod := Nat.mod_mul (x := n) (a := 10) (b := 10 ^ count)
      simp only [List.length_singleton, pow_one, digitsToNat, List.foldl_cons, List.foldl_nil]
      omega

theorem readDigits_map_digitChar {digits : List Nat} (hne : digits ≠ []) (h : ∀ digit ∈ digits, digit < 10) :
    readDigits (digits.map Nat.digitChar) = some digits := by
  have hunderscore : '_' ∉ digits.map Nat.digitChar := by
    intro hmem
    obtain ⟨digit, hdigit, heq⟩ := List.mem_map.mp hmem
    have hvalue := digitValue_digitChar (h digit hdigit)
    rw [heq] at hvalue
    exact absurd hvalue (by simp [show digitValue '_' = none by decide])
  have hchunks : ([] : Text) ∉ [digits.map Nat.digitChar] := by simpa using hne
  rw [readDigits, List.splitOn_eq_singleton hunderscore, if_neg hchunks, List.flatten_singleton, mapM_eq_some_iff,
    List.map_map]
  exact List.map_congr_left fun digit hdigit => digitValue_digitChar (h digit hdigit)

/-! ### Numbers that are written are read back -/

/-- The characters of written numbers. -/
def numberChars : List Char := ['-', '.', '0', '1', '2', '3', '4', '5', '6', '7', '8', '9']

theorem digitChar_mem_numberChars {digit : Nat} (h : digit < 10) : digit.digitChar ∈ numberChars := by
  interval_cases digit <;> decide

theorem mem_numberChars_of_mem_map_digitChar {digits : List Nat} (h : ∀ digit ∈ digits, digit < 10) {c : Char}
    (hc : c ∈ digits.map Nat.digitChar) : c ∈ numberChars := by
  obtain ⟨digit, hdigit, rfl⟩ := List.mem_map.mp hc
  exact digitChar_mem_numberChars (h digit hdigit)

theorem mem_numberChars_of_mem_sign {p : Prop} [Decidable p] {c : Char} (hc : c ∈ if p then ['-'] else []) :
    c ∈ numberChars := by
  split at hc
  · rw [List.mem_singleton.mp hc]
    decide
  · cases hc

theorem mem_numberChars_of_mem_toDigits {n : Nat} {c : Char} (h : c ∈ Nat.toDigits 10 n) : c ∈ numberChars := by
  obtain ⟨digits, heq, -, hlt, -⟩ := exists_digits n
  rw [heq] at h
  exact mem_numberChars_of_mem_map_digitChar hlt h

theorem mem_numberChars_of_mem_formatD {n : Int} {c : Char} (h : c ∈ formatD n) : c ∈ numberChars := by
  rcases List.mem_append.mp h with hsign | hdigits
  · exact mem_numberChars_of_mem_sign hsign
  · exact mem_numberChars_of_mem_toDigits hdigits

theorem mem_numberChars_of_mem_formatF {q : ℚ} {c : Char} (h : c ∈ formatF q) : c ∈ numberChars := by
  rw [formatF, List.mem_append, List.mem_append, List.mem_cons] at h
  rcases h with (hsign | hwhole) | rfl | hfraction
  · exact mem_numberChars_of_mem_sign hsign
  · exact mem_numberChars_of_mem_toDigits hwhole
  · decide
  · exact mem_numberChars_of_mem_map_digitChar (lastDigits_lt 6 _) hfraction

theorem stripNumber_of_numberChars {text : Text} (h : ∀ c ∈ text, c ∈ numberChars) : stripNumber text = text := by
  have hspace : ∀ c ∈ numberChars, isNumberSpace c = false := by
    intro c hc
    have hall : numberChars.all (fun c => !isNumberSpace c) = true := by decide
    simpa using List.all_eq_true.mp hall c hc
  have hdrop : ∀ text : Text, (∀ c ∈ text, c ∈ numberChars) → text.dropWhile isNumberSpace = text := by
    intro text h
    cases text with
    | nil => rfl
    | cons c rest => rw [List.dropWhile_cons, hspace c (h c List.mem_cons_self), if_neg Bool.false_ne_true]
  rw [stripNumber, hdrop text h, hdrop text.reverse fun c hc => h c (List.mem_reverse.mp hc), List.reverse_reverse]

/-- A minus or nothing in front of a digit. -/
theorem readSign_digits {digits : List Nat} (hne : digits ≠ []) (h : ∀ digit ∈ digits, digit < 10) (minus : Bool)
    (rest : Text) :
    readSign ((if minus then ['-'] else []) ++ (digits.map Nat.digitChar ++ rest)) =
      (minus, digits.map Nat.digitChar ++ rest) := by
  cases minus with
  | true => rfl
  | false =>
      cases digits with
      | nil => exact absurd rfl hne
      | cons digit digits =>
          have hlt := h digit List.mem_cons_self
          interval_cases digit <;> rfl

theorem int_formatD (n : Int) : int (formatD n) = some n := by
  obtain ⟨digits, heq, hne, hlt, hvalue⟩ := exists_digits n.natAbs
  have hsign := readSign_digits hne hlt (decide (n < 0)) []
  rw [List.append_nil] at hsign
  rw [int, stripNumber_of_numberChars fun c => mem_numberChars_of_mem_formatD, formatD, heq]
  simp only [decide_eq_true_eq] at hsign
  rw [hsign]
  simp only [readDigits_map_digitChar hne hlt, Option.bind_eq_bind, Option.bind_some, Option.pure_def,
    decide_eq_true_eq, Option.some.injEq, hvalue]
  split <;> omega

theorem readOptionalDigits_map_digitChar {digits : List Nat} (hne : digits ≠ [])
    (h : ∀ digit ∈ digits, digit < 10) :
    readOptionalDigits (digits.map Nat.digitChar) = some digits := by
  rw [readOptionalDigits, if_neg (by simpa using hne), readDigits_map_digitChar hne h]

theorem no_exponent {text : Text} (h : ∀ c ∈ text, c ∈ numberChars) :
    text.takeWhile (fun c => c ≠ 'e' ∧ c ≠ 'E') = text ∧
      text.dropWhile (fun c => c ≠ 'e' ∧ c ≠ 'E') = [] := by
  have hexp : ∀ c ∈ numberChars, (decide (c ≠ 'e' ∧ c ≠ 'E')) = true := List.all_eq_true.mp (by decide)
  exact ⟨List.takeWhile_eq_self_iff.mpr fun c hc => hexp c (h c hc),
    List.dropWhile_eq_nil_iff.mpr fun c hc => hexp c (h c hc)⟩

/-- A number with digits on both sides of the point. -/
theorem float_decimal {whole fraction : List Nat} (hne : whole ≠ []) (hlt : ∀ digit ∈ whole, digit < 10)
    (hne' : fraction ≠ []) (hlt' : ∀ digit ∈ fraction, digit < 10) (minus : Bool) :
    float ((if minus then ['-'] else []) ++ (whole.map Nat.digitChar ++ '.' :: fraction.map Nat.digitChar)) =
      some ((if minus then -1 else 1 : ℚ) * ((digitsToNat (whole ++ fraction) : ℚ) / 10 ^ fraction.length)) := by
  have hbody : ∀ c ∈ whole.map Nat.digitChar ++ '.' :: fraction.map Nat.digitChar, c ∈ numberChars := by
    intro c hc
    rw [List.mem_append, List.mem_cons] at hc
    rcases hc with hc | rfl | hc
    · exact mem_numberChars_of_mem_map_digitChar hlt hc
    · decide
    · exact mem_numberChars_of_mem_map_digitChar hlt' hc
  have htext : ∀ c ∈ (if minus then ['-'] else []) ++
      (whole.map Nat.digitChar ++ '.' :: fraction.map Nat.digitChar),
      c ∈ numberChars := by
    intro c hc
    rcases List.mem_append.mp hc with hsign | hc
    · exact mem_numberChars_of_mem_sign hsign
    · exact hbody c hc
  obtain ⟨hmantissa, hexponent⟩ := no_exponent hbody
  have hdot : ∀ c ∈ whole.map Nat.digitChar, (decide (c ≠ '.')) = true := by
    intro c hc
    obtain ⟨digit, hdigit, rfl⟩ := List.mem_map.mp hc
    have hten := hlt digit hdigit
    interval_cases digit <;> rfl
  rw [float, stripNumber_of_numberChars htext, readSign_digits hne hlt]
  simp only [hmantissa, hexponent]
  rw [List.takeWhile_append_of_pos hdot, List.dropWhile_append_of_pos hdot]
  simp only [List.takeWhile_cons, List.dropWhile_cons, ne_eq, not_true_eq_false, decide_false,
    Bool.false_eq_true, if_false,
    List.append_nil, List.tail_cons, readExponent, readOptionalDigits_map_digitChar hne hlt,
    readOptionalDigits_map_digitChar hne' hlt', hne, false_and, Option.bind_eq_bind, Option.bind_some,
      zpow_zero, mul_one]
  split <;> simp

theorem float_formatF (q : ℚ) : float (formatF q) = some (roundToSix q) := by
  obtain ⟨whole, heq, hne, hlt, hvalue⟩ := exists_digits (millionths q / 10 ^ 6)
  have hne' : lastDigits 6 (millionths q) ≠ [] := List.ne_nil_of_length_pos (by simp)
  have hread := float_decimal hne hlt hne' (lastDigits_lt 6 _) (decide (q < 0))
  have hdigits : digitsToNat (whole ++ lastDigits 6 (millionths q)) = millionths q := by
    rw [digitsToNat_append, hvalue, digitsToNat_lastDigits, length_lastDigits, Nat.mul_comm, Nat.div_add_mod]
  rw [hdigits, length_lastDigits] at hread
  simp only [decide_eq_true_eq] at hread
  rw [formatF, heq, List.append_assoc, hread, roundToSix]

end OfTestbed.Lib
