import Mathlib

/-! Percent-encoding: text as its UTF-8 bytes, with the characters that may stand for themselves
left in place. -/
namespace Kurul.Encoding

def hexDigits : List Char := "0123456789ABCDEF".toList

def hexDigit (n : Nat) : Char := hexDigits.getD n '0'

/-- The value of a hexadecimal digit in either case. -/
def hexValue (c : Char) : Option Nat := hexDigits.idxOf? c.toUpper

def escape (byte : UInt8) : List Char := ['%', hexDigit (byte.toNat / 16), hexDigit (byte.toNat % 16)]

def encodeChar (keep : Char → Bool) (c : Char) : List Char :=
  if keep c then [c] else (String.utf8EncodeChar c).flatMap escape

def percentEncode (keep : Char → Bool) (text : List Char) : List Char := text.flatMap (encodeChar keep)

/-- The bytes a text stands for; a percent sign without two digits stands for itself. -/
def percentDecode : List Char → List UInt8
  | '%' :: high :: low :: rest =>
      match hexValue high, hexValue low with
      | some high, some low => UInt8.ofNat (16 * high + low) :: percentDecode rest
      | _, _ => String.utf8EncodeChar '%' ++ percentDecode (high :: low :: rest)
  | c :: rest => String.utf8EncodeChar c ++ percentDecode rest
  | [] => []

/-- Bytes read as UTF-8, where they are. -/
def decodeUtf8 (bytes : List UInt8) : Option (List Char) := bytes.toByteArray.utf8Decode?.map Array.toList

section RoundTrip

variable {keep : Char → Bool}

theorem hexValue_hexDigit {n : Nat} (digit : n < 16) : hexValue (hexDigit n) = some n := by
  interval_cases n <;> decide

theorem percentDecode_cons {c : Char} (plain : c ≠ '%') (rest : List Char) :
    percentDecode (c :: rest) = String.utf8EncodeChar c ++ percentDecode rest := by
  rw [percentDecode]
  intro high low rest' same
  exact absurd same plain

theorem percentDecode_escape (byte : UInt8) (rest : List Char) :
    percentDecode (escape byte ++ rest) = byte :: percentDecode rest := by
  have small : byte.toNat < 256 := byte.toNat_lt
  have high := hexValue_hexDigit (n := byte.toNat / 16) (by omega)
  have low := hexValue_hexDigit (n := byte.toNat % 16) (by omega)
  simp only [escape, List.cons_append, List.nil_append, percentDecode, high, low]
  rw [Nat.div_add_mod, UInt8.ofNat_toNat]

theorem percentDecode_escapes (bytes : List UInt8) (rest : List Char) :
    percentDecode (bytes.flatMap escape ++ rest) = bytes ++ percentDecode rest := by
  induction bytes with
  | nil => rfl
  | cons byte bytes ih =>
      rw [List.flatMap_cons, List.append_assoc, percentDecode_escape, ih, List.cons_append]

/-- A character read back is its UTF-8, as long as percent signs are escaped. -/
theorem percentDecode_encodeChar (escaped : keep '%' = false) (c : Char) (rest : List Char) :
    percentDecode (encodeChar keep c ++ rest) = String.utf8EncodeChar c ++ percentDecode rest := by
  unfold encodeChar
  split
  · rename_i kept
    apply percentDecode_cons
    rintro rfl
    rw [escaped] at kept
    cases kept
  · exact percentDecode_escapes _ rest

theorem percentDecode_percentEncode (escaped : keep '%' = false) (text rest : List Char) :
    percentDecode (percentEncode keep text ++ rest) = text.flatMap String.utf8EncodeChar ++ percentDecode rest := by
  induction text with
  | nil => rfl
  | cons c text ih =>
      rw [percentEncode, List.flatMap_cons, List.append_assoc, percentDecode_encodeChar escaped, List.flatMap_cons,
        List.append_assoc]
      exact congrArg _ ih

theorem decodeUtf8_encode (text : List Char) : decodeUtf8 (text.flatMap String.utf8EncodeChar) = some text := by
  have whole : (text.flatMap String.utf8EncodeChar).toByteArray = text.utf8Encode := rfl
  rw [decodeUtf8, whole, List.utf8Decode?_utf8Encode]
  rfl

/-- What is encoded is read back. -/
theorem decode_percentEncode (escaped : keep '%' = false) (text : List Char) :
    decodeUtf8 (percentDecode (percentEncode keep text)) = some text := by
  have read := percentDecode_percentEncode escaped text []
  rw [List.append_nil] at read
  rw [read, percentDecode, List.append_nil, decodeUtf8_encode]

/-- Only kept characters and escapes. -/
theorem mem_percentEncode {text : List Char} {c : Char} (member : c ∈ percentEncode keep text) :
    keep c = true ∨ c = '%' ∨ c ∈ hexDigits := by
  obtain ⟨d, _, made⟩ := List.mem_flatMap.mp member
  unfold encodeChar at made
  split at made
  · rename_i kept
    rw [List.mem_singleton.mp made]
    exact Or.inl kept
  · obtain ⟨byte, _, here⟩ := List.mem_flatMap.mp made
    have small : byte.toNat < 256 := byte.toNat_lt
    have digit : ∀ n < 16, hexDigit n ∈ hexDigits := by
      intro n below
      interval_cases n <;> decide
    simp only [escape, List.mem_cons, List.not_mem_nil, or_false] at here
    rcases here with rfl | rfl | rfl
    · exact Or.inr (Or.inl rfl)
    · exact Or.inr (Or.inr (digit _ (by omega)))
    · exact Or.inr (Or.inr (digit _ (by omega)))

/-- Encoding again, with percent signs and digits kept, escapes what either encoding escapes. -/
theorem percentEncode_twice {again : Char → Bool} (sign : again '%' = true) (digits : ∀ c ∈ hexDigits, again c = true)
    (text : List Char) :
    percentEncode again (percentEncode keep text) = percentEncode (fun c => keep c && again c) text := by
  have chars : ∀ escaped : List Char, (∀ c ∈ escaped, again c = true) → percentEncode again escaped = escaped := by
    intro escaped kept
    induction escaped with
    | nil => rfl
    | cons c rest ih =>
        obtain ⟨first, later⟩ := List.forall_mem_cons.mp kept
        rw [percentEncode, List.flatMap_cons, encodeChar, if_pos first]
        exact congrArg (c :: ·) (ih later)
  have one : ∀ c, percentEncode again (encodeChar keep c) = encodeChar (fun c => keep c && again c) c := by
    intro c
    unfold encodeChar
    by_cases first : keep c = true
    · simp [first, percentEncode, encodeChar]
    · rw [if_neg first, if_neg (by simp [first])]
      refine chars _ fun d made => ?_
      have escaped : d ∈ percentEncode (fun _ => false) [c] := by simpa [percentEncode, encodeChar] using made
      rcases mem_percentEncode escaped with kept | rfl | digit
      · cases kept
      · exact sign
      · exact digits d digit
  induction text with
  | nil => rfl
  | cons c rest ih =>
      have split : percentEncode again (percentEncode keep (c :: rest)) =
          percentEncode again (encodeChar keep c) ++ percentEncode again (percentEncode keep rest) := by
        simp only [percentEncode, List.flatMap_cons, List.flatMap_append]
      rw [split, one, ih]
      rfl

end RoundTrip

/-- Text of allowed characters and escapes only. -/
inductive Escaped (allowed : Char → Bool) : List Char → Prop where
  | nil : Escaped allowed []
  | char {c : Char} {rest : List Char} : allowed c = true → Escaped allowed rest → Escaped allowed (c :: rest)
  | escape {high low : Char} {rest : List Char} : (hexValue high).isSome → (hexValue low).isSome →
      Escaped allowed rest → Escaped allowed ('%' :: high :: low :: rest)

section Allowed

variable {allowed keep : Char → Bool} {rest : List Char}

theorem escaped_char {c : Char} (plain : c ≠ '%') :
    Escaped allowed (c :: rest) ↔ allowed c = true ∧ Escaped allowed rest := by
  constructor
  · intro whole
    cases whole with
    | char fine rest => exact ⟨fine, rest⟩
    | escape => exact absurd rfl plain
  · exact fun both => .char both.1 both.2

theorem escaped_escape (strict : allowed '%' = false) (byte : UInt8) :
    Escaped allowed (escape byte ++ rest) ↔ Escaped allowed rest := by
  have small : byte.toNat < 256 := byte.toNat_lt
  constructor
  · intro whole
    cases whole with
    | char fine rest =>
        rw [strict] at fine
        cases fine
    | escape _ _ rest => exact rest
  · intro rest
    refine .escape ?_ ?_ rest
    · rw [hexValue_hexDigit (by omega)]
      rfl
    · rw [hexValue_hexDigit (by omega)]
      rfl

theorem escaped_escapes (strict : allowed '%' = false) (bytes : List UInt8) :
    Escaped allowed (bytes.flatMap escape ++ rest) ↔ Escaped allowed rest := by
  induction bytes with
  | nil => rfl
  | cons byte bytes ih => rw [List.flatMap_cons, List.append_assoc, escaped_escape strict, ih]

/-- An encoded text holds nothing else exactly where every character of it that is kept is allowed. -/
theorem escaped_percentEncode (strict : allowed '%' = false) (escaped : keep '%' = false) (text : List Char) :
    Escaped allowed (percentEncode keep text) ↔ ∀ c ∈ text, keep c = true → allowed c = true := by
  induction text with
  | nil => simp [percentEncode, Escaped.nil]
  | cons c text ih =>
      rw [percentEncode, List.flatMap_cons, ← percentEncode, List.forall_mem_cons, ← ih, encodeChar]
      split
      · rename_i kept
        have plain : c ≠ '%' := by
          rintro rfl
          rw [escaped] at kept
          cases kept
        rw [List.singleton_append, escaped_char plain]
        simp [kept]
      · rename_i encoded
        rw [escaped_escapes strict]
        simp [encoded]

end Allowed

section Forms

/-- The characters a form leaves as they are; a space becomes a plus sign. -/
def isFormChar (c : Char) : Bool := c.isAlphanum || ['*', '-', '.', '_'].contains c

def encodeFormChar (c : Char) : List Char := if c = ' ' then ['+'] else encodeChar isFormChar c

def encodeForm (text : List Char) : List Char := text.flatMap encodeFormChar

def plusToSpace (c : Char) : Char := if c = '+' then ' ' else c

def decodeForm (text : List Char) : Option (List Char) := decodeUtf8 (percentDecode (text.map plusToSpace))

/-- One name with its value. -/
abbrev Param := String × String

def serializeParam (param : Param) : List Char := encodeForm param.1.toList ++ '=' :: encodeForm param.2.toList

/-- `toString` of the parameters. -/
def serialize (params : List Param) : List Char := ['&'].intercalate (params.map serializeParam)

def parseParam (piece : List Char) : Option Param := do
  let name ← decodeForm (piece.takeWhile (· ≠ '='))
  let value ← decodeForm ((piece.dropWhile (· ≠ '=')).drop 1)
  return (.ofList name, .ofList value)

/-- The parameters of a query string; none where it is not UTF-8 once decoded. -/
def parse (query : List Char) : Option (List Param) :=
  let query := if query.head? = some '?' then query.drop 1 else query
  ((query.splitOn '&').filter (· ≠ [])).mapM parseParam

/-- A character that forms escape, and that is neither a percent sign nor a digit, comes from
nothing but a space. -/
theorem encodeChar_avoids {c d : Char} (escaped : isFormChar d = false) (other : d ≠ '%') (plain : d ∉ hexDigits) :
    d ∉ encodeChar isFormChar c := by
  intro made
  have one : d ∈ percentEncode isFormChar [c] := by simpa [percentEncode] using made
  rcases mem_percentEncode one with kept | same | digit
  · rw [escaped] at kept
    cases kept
  · exact other same
  · exact plain digit

theorem encodeForm_avoids {text : List Char} {d : Char} (escaped : isFormChar d = false) (other : d ≠ '%')
    (plain : d ∉ hexDigits) (notPlus : d ≠ '+') : d ∉ encodeForm text := by
  intro member
  obtain ⟨c, _, made⟩ := List.mem_flatMap.mp member
  unfold encodeFormChar at made
  split at made
  · exact notPlus (List.mem_singleton.mp made)
  · exact encodeChar_avoids escaped other plain made

theorem decodeForm_char (c : Char) (rest : List Char) :
    percentDecode ((encodeFormChar c ++ rest).map plusToSpace) =
      String.utf8EncodeChar c ++ percentDecode (rest.map plusToSpace) := by
  unfold encodeFormChar
  split
  · rename_i space
    subst space
    exact percentDecode_cons (by decide) _
  · have clear : (encodeChar isFormChar c).map plusToSpace = encodeChar isFormChar c := by
      refine (List.map_congr_left ?_).trans (List.map_id _)
      intro d made
      unfold plusToSpace
      rw [if_neg]
      · rfl
      · rintro rfl
        exact encodeChar_avoids (by decide) (by decide) (by decide) made
    rw [List.map_append, clear, percentDecode_encodeChar (by decide)]

theorem decodeForm_encodeForm (text : List Char) : decodeForm (encodeForm text) = some text := by
  have bytes : percentDecode ((encodeForm text).map plusToSpace) = text.flatMap String.utf8EncodeChar := by
    induction text with
    | nil => rfl
    | cons c text ih =>
        rw [encodeForm, List.flatMap_cons, decodeForm_char, List.flatMap_cons]
        exact congrArg _ ih
  rw [decodeForm, bytes, decodeUtf8_encode]

/-- A form also reads what was only percent-encoded, as long as plus signs are escaped. -/
theorem decodeForm_percentEncode {keep : Char → Bool} (sign : keep '%' = false) (plus : keep '+' = false)
    (text : List Char) :
    decodeForm (percentEncode keep text) = some text := by
  have clear : (percentEncode keep text).map plusToSpace = percentEncode keep text := by
    refine (List.map_congr_left ?_).trans (List.map_id _)
    intro c member
    unfold plusToSpace
    rw [if_neg]
    · rfl
    · rintro rfl
      rcases mem_percentEncode member with kept | same | digit
      · rw [plus] at kept
        cases kept
      · exact absurd same (by decide)
      · exact absurd digit (by decide)
  rw [decodeForm, clear, decode_percentEncode sign]

theorem parseParam_serializeParam (param : Param) : parseParam (serializeParam param) = some param := by
  have clear : ∀ c ∈ encodeForm param.1.toList, (decide (c ≠ '=')) = true := by
    intro c member
    apply decide_eq_true
    rintro rfl
    exact encodeForm_avoids (by decide) (by decide) (by decide) (by decide) member
  unfold parseParam serializeParam
  rw [List.takeWhile_append_of_pos clear, List.dropWhile_append_of_pos clear]
  simp [decodeForm_encodeForm]

theorem serialize_avoids (params : List Param) {d : Char} (escaped : isFormChar d = false) (other : d ≠ '%')
    (plain : d ∉ hexDigits) (notPlus : d ≠ '+') (notEquals : d ≠ '=') : ∀ piece ∈ params.map serializeParam, d ∉ piece := by
  intro piece listed member
  obtain ⟨param, _, rfl⟩ := List.mem_map.mp listed
  rcases List.mem_append.mp member with name | rest
  · exact encodeForm_avoids escaped other plain notPlus name
  · rcases List.mem_cons.mp rest with same | value
    · exact notEquals same
    · exact encodeForm_avoids escaped other plain notPlus value

/-- Parameters written out and read back are the same. -/
theorem parse_serialize (params : List Param) : parse (serialize params) = some params := by
  have each : ∀ params : List Param, (params.map serializeParam).mapM parseParam = some params := by
    intro params
    induction params with
    | nil => rfl
    | cons param rest ih => simp [parseParam_serializeParam, ih]
  have unmarked : (serialize params).head? ≠ some '?' := by
    cases params with
    | nil => simp [serialize, List.intercalate_nil]
    | cons param rest =>
        have first : ∃ more, serialize (param :: rest) = serializeParam param ++ more := by
          unfold serialize
          cases rest with
          | nil => exact ⟨[], by rw [List.map_singleton, List.intercalate_singleton, List.append_nil]⟩
          | cons second rest =>
              rw [List.map_cons, List.map_cons, List.intercalate_cons_cons]
              exact ⟨_, List.append_assoc _ _ _⟩
        obtain ⟨more, same⟩ := first
        have some_ : serializeParam param ≠ [] := by simp [serializeParam]
        rw [same, List.head?_append_of_ne_nil _ some_]
        intro marked
        exact serialize_avoids [param] (by decide) (by decide) (by decide) (by decide) (by decide)
          (serializeParam param) (by simp) (List.mem_of_head? marked)
  unfold parse
  rw [if_neg unmarked]
  cases params with
  | nil => rfl
  | cons param rest =>
      have pieces : (serialize (param :: rest)).splitOn '&' = (param :: rest).map serializeParam := by
        apply List.splitOn_intercalate
        · exact serialize_avoids _ (by decide) (by decide) (by decide) (by decide) (by decide)
        · simp
      have whole : ((param :: rest).map serializeParam).filter (· ≠ []) = (param :: rest).map serializeParam := by
        rw [List.filter_eq_self]
        intro piece listed
        obtain ⟨param, _, rfl⟩ := List.mem_map.mp listed
        simp [serializeParam]
      dsimp only
      rw [pieces, whole, each]

end Forms
end Kurul.Encoding
