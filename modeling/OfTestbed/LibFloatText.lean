import OfTestbed.LibText

/-!
Floats with the infinities and the value that is no number, as `float` reads and `%f` writes them. The finite ones
are exact rationals.
-/

namespace OfTestbed.Lib

inductive FloatValue where
  | finite (q : ℚ)
  | infinity (minus : Bool)
  | nan
  deriving DecidableEq

/-- `float(text)`: the words for the infinities and for no number are read in any letter case. -/
def readFloat (text : Text) : Option FloatValue :=
  match float text with
  | some q => some (.finite q)
  | none =>
      let (minus, body) := readSign (stripNumber text)
      let word := body.map Char.toLower
      if word = "inf".toList ∨ word = "infinity".toList then some (.infinity minus)
      else if word = "nan".toList then some .nan
      else none

namespace FloatValue

/-- `"%f" % value`. -/
def format : FloatValue → Text
  | .finite q => formatF q
  | .infinity false => "inf".toList
  | .infinity true => "-inf".toList
  | .nan => "nan".toList

/-- The value rounded to six decimals. -/
def rounded : FloatValue → FloatValue
  | .finite q => .finite (roundToSix q)
  | value => value

theorem readFloat_format (value : FloatValue) : readFloat value.format = some value.rounded := by
  cases value with
  | finite q => rw [format, readFloat, float_formatF, rounded]
  | infinity minus => cases minus <;> decide +kernel
  | nan => decide +kernel

/-- The characters of written floats. -/
def chars : List Char := numberChars ++ ['i', 'n', 'f', 'a']

theorem mem_chars_of_mem_format {value : FloatValue} {c : Char} (h : c ∈ value.format) : c ∈ chars := by
  have hwords : ∀ word : Text, word.all (· ∈ chars) = true → ∀ c ∈ word, c ∈ chars := by
    intro word hword c hc
    simpa using List.all_eq_true.mp hword c hc
  cases value with
  | finite q => exact List.mem_append_left _ (mem_numberChars_of_mem_formatF h)
  | infinity minus => cases minus <;> exact hwords _ (by decide) c h
  | nan => exact hwords _ (by decide) c h

theorem isLineBreak_of_mem_format {value : FloatValue} : ∀ c ∈ value.format, isLineBreak c = false := by
  have hchars : chars.all (fun c => !isLineBreak c) = true := by decide
  intro c hc
  simpa using List.all_eq_true.mp hchars c (mem_chars_of_mem_format hc)

theorem format_ne_nil (value : FloatValue) : value.format ≠ [] := by
  cases value with
  | finite q => simp [format, formatF]
  | infinity minus => cases minus <;> decide
  | nan => decide

end FloatValue

/-! ### Lines of numbers -/

/-- The tokens of a line are what was written, empty ones included. -/
theorem splitOn_numbers {tokens : List Text} (hne : tokens ≠ [])
    (h : ∀ token ∈ tokens, ∀ c ∈ token, c ∈ FloatValue.chars) : ([' '].intercalate tokens).splitOn ' ' = tokens := by
  have hspace : ' ' ∉ FloatValue.chars := by decide
  exact List.splitOn_intercalate ' ' (fun token htoken hmem => hspace (h token htoken ' ' hmem)) hne

theorem isLineBreak_of_mem_numbers {tokens : List Text} (h : ∀ token ∈ tokens, ∀ c ∈ token, c ∈ FloatValue.chars) :
    ∀ c ∈ [' '].intercalate tokens, isLineBreak c = false := by
  have hchars : (' ' :: FloatValue.chars).all (fun c => !isLineBreak c) = true := by decide
  intro c hc
  suffices hmem : c ∈ ' ' :: FloatValue.chars by simpa using List.all_eq_true.mp hchars c hmem
  rcases mem_intercalate hc with rfl | ⟨token, htoken, hmem⟩
  · exact List.mem_cons_self
  · exact List.mem_cons_of_mem _ (h token htoken c hmem)

theorem mem_chars_of_mem_formatD {n : Int} {c : Char} (h : c ∈ formatD n) : c ∈ FloatValue.chars :=
  List.mem_append_left _ (mem_numberChars_of_mem_formatD h)

theorem mem_chars_of_mem_map_formatD {numbers : List Int} : ∀ token ∈ numbers.map formatD, ∀ c ∈ token,
    c ∈ FloatValue.chars := by
  intro token htoken c hc
  obtain ⟨n, -, rfl⟩ := List.mem_map.mp htoken
  exact mem_chars_of_mem_formatD hc

theorem mapM_int_formatD (numbers : List Int) : (numbers.map formatD).mapM int = some numbers := by
  rw [mapM_eq_some_iff, List.map_map]
  apply List.map_congr_left
  intro n _
  exact int_formatD n

/-- Numbers that are written with a blank after each but the last. -/
theorem flatMap_dropLast_eq_intercalate {tokens : List Text} {last : Text} (h : tokens.getLast? = some last) :
    (tokens.dropLast.flatMap (· ++ [' '])) ++ last = [' '].intercalate tokens := by
  induction tokens with
  | nil => cases h
  | cons token rest ih =>
      cases rest with
      | nil =>
          cases h
          simp
      | cons next rest =>
          have hrest := ih (by simpa using h)
          rw [List.dropLast_cons_cons, List.flatMap_cons, List.append_assoc, hrest, List.intercalate_cons_cons]

end OfTestbed.Lib
