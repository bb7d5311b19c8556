import Kurul.Attachment.DisplayName
import Kurul.Encoding.Percent
import Kurul.Sequence.Links

/-! The download header. A file name stands in it twice, in ASCII and percent-encoded. -/
namespace Kurul.Disposition

open DisplayName (strip)
open Encoding
open Sequence (cut_unique)
open Trello (JsString CodeUnit isUnsafe js)

def INLINE_MIME_TYPES : List String := ["image/png", "image/jpeg", "image/gif", "image/webp"]

/-- The characters that `encodeURIComponent` leaves as they are. -/
def isUriMark (c : Char) : Bool := c.isAlphanum || "-_.!~*'()".toList.contains c

/-- None where a surrogate stands alone: the call throws. -/
def encodeURIComponent (text : JsString) : Option (List Char) := (decodeUtf16 text).map (percentEncode isUriMark)

/-- `safe.replace(/[^\x20-\x7e]/g, '_') || 'attachment'` -/
def asciiName (safe : JsString) : List Char :=
  let ascii := safe.map fun unit => if 0x20 ≤ unit.val ∧ unit.val ≤ 0x7e then Char.ofNat unit.val else '_'
  if ascii = [] then "attachment".toList else ascii

def header (kind quoted extended : List Char) : List Char :=
  kind ++ "; filename=".toList ++ '"' :: (quoted ++ '"' :: ("; filename*=UTF-8''".toList ++ extended))

def kindOf (mimeType : String) : List Char :=
  if INLINE_MIME_TYPES.contains mimeType then "inline".toList else "attachment".toList

def contentDisposition (mimeType : String) (filename : JsString) : Option (List Char) :=
  let safe := strip filename
  (encodeURIComponent safe).map fun extended => header (kindOf mimeType) (asciiName safe) extended

def isControl (c : Char) : Bool := c.toNat ≤ 0x1f || (0x7f ≤ c.toNat && c.toNat ≤ 0x9f)

/-- The attr-chars of RFC 5987. -/
def isAttrChar (c : Char) : Bool := c.isAlphanum || "!#$&+-.^_`|~".toList.contains c

/-- What a header is to say about a name. -/
structure Carries (value : List Char) (filename : JsString) : Prop where
  plain : ∀ c ∈ value, isControl c = false
  parameters : ∃ kind quoted extended, value = header kind quoted extended ∧ '"' ∉ kind ∧
    (∀ c ∈ quoted, c ≠ '"' ∧ c ≠ '\\') ∧ Escaped isAttrChar extended ∧
    (decodeUtf8 (percentDecode extended)).map encodeUtf16 = some (strip filename)

/-- The marks that a URI may hold and an extended value may not: `'`, `(`, `)` and `*`. -/
def isForeignMark (unit : CodeUnit) : Bool := 0x27 ≤ unit.val && unit.val ≤ 0x2a

section Header

variable {filename safe : JsString} {kind quoted extended : List Char} {c : Char}

theorem all_chars {text : List Char} {p : Char → Bool} (all : text.all p = true) : ∀ c ∈ text, p c = true :=
  fun c member => List.all_eq_true.mp all c member

theorem kindOf_plain (mimeType : String) : '"' ∉ kindOf mimeType ∧ ∀ c ∈ kindOf mimeType, isControl c = false := by
  have all : ∀ c ∈ "inline".toList ++ "attachment".toList, (c ≠ '"' && !isControl c) = true := all_chars (by decide +kernel)
  have listed : ∀ c ∈ kindOf mimeType, c ∈ "inline".toList ++ "attachment".toList := by
    intro c member
    unfold kindOf at member
    split at member
    · exact List.mem_append_left _ member
    · exact List.mem_append_right _ member
  have both : ∀ c ∈ kindOf mimeType, c ≠ '"' ∧ isControl c = false := by
    intro c member
    simpa using all c (listed c member)
  exact ⟨fun inside => (both _ inside).1 rfl, fun c member => (both c member).2⟩

theorem header_inj {kind' quoted' extended' : List Char} (fine : '"' ∉ kind) (fine' : '"' ∉ kind')
    (quiet : '"' ∉ quoted) (quiet' : '"' ∉ quoted') (same : header kind quoted extended = header kind' quoted' extended') :
    extended = extended' := by
  have clear : ∀ kind : List Char, '"' ∉ kind → '"' ∉ kind ++ "; filename=".toList := by
    intro kind fine member
    rcases List.mem_append.mp member with inKind | inFrame
    · exact fine inKind
    · have quiet : ∀ c ∈ "; filename=".toList, decide (c ≠ '"') = true := all_chars (by decide +kernel)
      simpa using quiet _ inFrame
  obtain ⟨_, rest⟩ := cut_unique (clear _ fine) (clear _ fine') same
  obtain ⟨_, rest⟩ := cut_unique quiet quiet' rest
  exact List.append_cancel_left rest

theorem uriMark_ascii (mark : isUriMark c = true) : c.toNat < 128 := by
  have kinds : c.isAlphanum = true ∨ c ∈ "-_.!~*'()".toList := by
    simpa [isUriMark] using mark
  rcases kinds with letter | listed
  · simp only [Char.isAlphanum, Char.isAlpha, Char.isUpper, Char.isLower, Char.isDigit, Bool.or_eq_true,
      Bool.and_eq_true, decide_eq_true_eq, ge_iff_le, UInt32.le_iff_toNat_le] at letter
    have same : c.toNat = c.val.toNat := rfl
    have digits : 'A'.val.toNat = 65 ∧ 'Z'.val.toNat = 90 ∧ 'a'.val.toNat = 97 ∧ 'z'.val.toNat = 122 ∧
      '0'.val.toNat = 48 ∧ '9'.val.toNat = 57 := by decide
    omega
  · have all : ∀ c ∈ "-_.!~*'()".toList, decide (c.toNat < 128) = true := all_chars (by decide +kernel)
    exact of_decide_eq_true (all c listed)

/-- Of the characters left in place, four are no attr-chars. -/
theorem mark_attr (mark : isUriMark c = true) : isAttrChar c = true ↔ ¬(0x27 ≤ c.toNat ∧ c.toNat ≤ 0x2a) := by
  have all : ∀ n < 128, isUriMark (Char.ofNat n) = true →
      (isAttrChar (Char.ofNat n) = true ↔ ¬(0x27 ≤ n ∧ n ≤ 0x2a)) := by decide +kernel
  have here := all c.toNat (uriMark_ascii mark)
  rw [Char.ofNat_toNat] at here
  exact here mark

theorem foreign_uri {n : Nat} (low : 0x27 ≤ n) (high : n ≤ 0x2a) : isUriMark (Char.ofNat n) = true := by
  interval_cases n <;> decide

theorem asciiName_plain (mem : c ∈ asciiName safe) : (0x20 ≤ c.toNat ∧ c.toNat ≤ 0x7e) ∧
    ((∀ unit ∈ safe, isUnsafe unit = false) → c ≠ '"' ∧ c ≠ '\\') := by
  unfold asciiName at mem
  dsimp only at mem
  split at mem
  · have all : ∀ c ∈ "attachment".toList, decide ((0x20 ≤ c.toNat ∧ c.toNat ≤ 0x7e) ∧ c ≠ '"' ∧ c ≠ '\\') = true :=
      all_chars (by decide +kernel)
    obtain ⟨range, quiet⟩ := of_decide_eq_true (all c mem)
    exact ⟨range, fun _ => quiet⟩
  · obtain ⟨unit, member, rfl⟩ := List.mem_map.mp mem
    split
    · rename_i range
      have kept : (Char.ofNat unit.val).toNat = unit.val := toNat_ofNat (by unfold Nat.isValidChar; omega)
      rw [kept]
      refine ⟨range, fun safe_ => ?_⟩
      have fine := safe_ unit member
      simp only [isUnsafe, Bool.or_eq_false_iff, decide_eq_false_iff_not] at fine
      constructor
      · intro quote
        rw [quote] at kept
        exact fine.1.1.1.1.1.1.1.1 kept.symm
      · intro backslash
        rw [backslash] at kept
        exact fine.1.1.1.1.1.1.1.2 kept.symm
    · exact ⟨by decide, fun _ => by decide⟩

theorem header_plain (kind_ : ∀ c ∈ kind, isControl c = false) (quoted_ : ∀ c ∈ quoted, isControl c = false)
    (extended_ : ∀ c ∈ extended, isControl c = false) : ∀ c ∈ header kind quoted extended, isControl c = false := by
  have all : ∀ c ∈ "; filename=".toList ++ "; filename*=UTF-8''".toList, (!isControl c) = true :=
    all_chars (by decide +kernel)
  have frame : ∀ c ∈ "; filename=".toList ++ "; filename*=UTF-8''".toList, isControl c = false := by
    intro c member
    simpa using all c member
  intro c member
  simp only [header, List.append_assoc, List.mem_append, List.mem_cons] at member
  rcases member with inKind | inFrame | rfl | inQuoted | rfl | inFrame | inExtended
  · exact kind_ c inKind
  · exact frame c (List.mem_append_left _ inFrame)
  · decide
  · exact quoted_ c inQuoted
  · decide
  · exact frame c (List.mem_append_right _ inFrame)
  · exact extended_ c inExtended

theorem extended_plain {chars : List Char} : ∀ c ∈ percentEncode isUriMark chars, isControl c = false := by
  intro c member
  have ascii : ∀ n < 128, isUriMark (Char.ofNat n) = true → isControl (Char.ofNat n) = false := by decide +kernel
  have digits : ∀ c ∈ hexDigits, (!isControl c) = true := all_chars (by decide +kernel)
  rcases mem_percentEncode member with kept | rfl | digit
  · have here := ascii c.toNat (uriMark_ascii kept)
    rw [Char.ofNat_toNat] at here
    exact here kept
  · decide
  · simpa using digits c digit

theorem strip_safe : ∀ unit ∈ strip filename, isUnsafe unit = false := by
  intro unit member
  simpa using (List.mem_filter.mp member).2

/-- The name is free of the four marks where every character the encoding keeps is an attr-char. -/
theorem marks_iff {chars : List Char} (written : encodeUtf16 chars = strip filename) :
    (∀ c ∈ chars, isUriMark c = true → isAttrChar c = true) ↔ ∀ unit ∈ filename, isForeignMark unit = false := by
  have range : ∀ unit : CodeUnit, isForeignMark unit = true ↔ 0x27 ≤ unit.val ∧ unit.val ≤ 0x2a := by
    simp [isForeignMark]
  constructor
  · intro attr unit member
    by_contra foreign
    obtain ⟨low, high⟩ := (range unit).mp (by simpa using foreign)
    have kept : unit ∈ strip filename := by
      refine List.mem_filter.mpr ⟨member, ?_⟩
      simp only [isUnsafe, Bool.not_eq_true', Bool.or_eq_false_iff, Bool.and_eq_false_iff, decide_eq_false_iff_not]
      omega
    have plain : isSurrogate unit = false := by
      simp only [isSurrogate, isLead, isTrail, Bool.or_eq_false_iff, Bool.and_eq_false_iff, decide_eq_false_iff_not]
      omega
    rw [← written, mem_encodeUtf16 plain] at kept
    obtain ⟨c, listed, same⟩ := kept
    have mark : isUriMark c = true := by
      rw [← Char.ofNat_toNat c, same]
      exact foreign_uri low high
    exact (mark_attr mark).mp (attr c listed mark) (by omega)
  · intro free c listed mark
    rw [mark_attr mark]
    rintro ⟨low, high⟩
    have whole : (Fin.ofNat 0x10000 c.toNat).val = c.toNat := Nat.mod_eq_of_lt (by omega)
    have plain : isSurrogate (Fin.ofNat 0x10000 c.toNat) = false := by
      simp only [isSurrogate, isLead, isTrail, Bool.or_eq_false_iff, Bool.and_eq_false_iff, decide_eq_false_iff_not, whole]
      omega
    have member : Fin.ofNat 0x10000 c.toNat ∈ strip filename := by
      rw [← written, mem_encodeUtf16 plain]
      exact ⟨c, listed, whole.symm⟩
    have free_ := free _ (List.mem_filter.mp member).1
    have foreign := (range (Fin.ofNat 0x10000 c.toNat)).mpr (by rw [whole]; exact ⟨low, high⟩)
    rw [free_] at foreign
    cases foreign

/-- Of what a header is to say, only the alphabet of the extended value depends on the name. -/
theorem carries_iff_escaped {mimeType : String} {chars : List Char} (read : decodeUtf16 (strip filename) = some chars)
    (written : encodeUtf16 chars = strip filename) :
    (∃ value, contentDisposition mimeType filename = some value ∧ Carries value filename) ↔
      Escaped isAttrChar (percentEncode isUriMark chars) := by
  have fine := kindOf_plain mimeType
  have value_ : contentDisposition mimeType filename =
      some (header (kindOf mimeType) (asciiName (strip filename)) (percentEncode isUriMark chars)) := by
    rw [contentDisposition, encodeURIComponent, read]
    rfl
  have quiet : ∀ c ∈ asciiName (strip filename), c ≠ '"' ∧ c ≠ '\\' :=
    fun c member => (asciiName_plain member).2 strip_safe
  have decoded : (decodeUtf8 (percentDecode (percentEncode isUriMark chars))).map encodeUtf16 = some (strip filename) := by
    rw [decode_percentEncode (by decide), Option.map_some, written]
  rw [value_]
  constructor
  · rintro ⟨value, same, carries⟩
    obtain ⟨kind', quoted', extended', whole, fine', quiet', escaped, _⟩ := carries.parameters
    rw [← Option.some.inj same] at whole
    rw [header_inj fine.1 fine' (fun inside => (quiet _ inside).1 rfl) (fun inside => (quiet' _ inside).1 rfl) whole]
    exact escaped
  · intro escaped
    refine ⟨_, rfl, ?_, kindOf mimeType, _, _, rfl, fine.1, quiet, escaped, decoded⟩
    refine header_plain fine.2 (fun c member => ?_) extended_plain
    have ascii := (asciiName_plain member).1
    simp only [isControl, Bool.or_eq_false_iff, Bool.and_eq_false_iff, decide_eq_false_iff_not]
    omega

end Header

/-- The header carries a well-formed name as promised exactly where the name holds none of the four marks. -/
theorem disposition_carries_name (mimeType : String) (filename : JsString) (formed : WellFormed filename) :
    (∃ value, contentDisposition mimeType filename = some value ∧ Carries value filename) ↔
      ∀ unit ∈ filename, isForeignMark unit = false := by
  obtain ⟨chars, read, written⟩ := (DisplayName.wellFormed_strip formed).decodes
  rw [carries_iff_escaped read written, escaped_percentEncode (by decide) (by decide), marks_iff written]

/-- A name that browsers give to a second download of a file. -/
def secondDownload : JsString := js "a(1).png"

theorem secondDownload_formed : WellFormed secondDownload :=
  DisplayName.wellFormed_of_plain (DisplayName.all_units (by decide +kernel))

theorem disposition_carries_name_second :
    (∃ value, contentDisposition "image/png" secondDownload = some value ∧ Carries value secondDownload) ↔
      ∀ unit ∈ secondDownload, isForeignMark unit = false :=
  disposition_carries_name "image/png" secondDownload secondDownload_formed

theorem brackets_unescaped : WellFormed secondDownload ∧
    ¬∃ value, contentDisposition "image/png" secondDownload = some value ∧ Carries value secondDownload := by
  have read : decodeUtf16 (strip secondDownload) = some "a(1).png".toList := by decide +kernel
  have written : encodeUtf16 "a(1).png".toList = strip secondDownload := by decide +kernel
  refine ⟨secondDownload_formed, ?_⟩
  rw [carries_iff_escaped read written, escaped_percentEncode (by decide) (by decide)]
  intro attr
  have bracket := attr '(' (by decide +kernel) (by decide +kernel)
  revert bracket
  decide +kernel

end Kurul.Disposition
