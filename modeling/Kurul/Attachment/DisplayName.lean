import Kurul.Encoding.Utf16
import Kurul.Import.TrelloImportPlanner
import Kurul.Sequence.Trimming

/-! The display names of attachments. A name is cut to its length last of all, so the cut may leave
a white space or half a character at its end. -/
namespace Kurul.DisplayName

open Sequence Trello
open Encoding (WellFormed isSurrogate)

def isSlash (unit : CodeUnit) : Bool := unit.val = 0x2f || unit.val = 0x5c

/-- `split(/[/\\]/).pop()`: what stands behind the last slash. -/
def baseName (original : JsString) : JsString := (original.reverse.takeWhile fun unit => !isSlash unit).reverse

def displayFilename (original : JsString) : JsString :=
  let cleaned := safeDisplayName (baseName original)
  if cleaned = [] then js "attachment" else cleaned

/-- The text without the characters that are kept out of a header. -/
def strip (text : JsString) : JsString := text.filter fun unit => !isUnsafe unit

/-- What a stored name is to be, under the function that cleans it. -/
structure Clean (clean : JsString → JsString) (name : JsString) : Prop where
  safe : ∀ unit ∈ name, isUnsafe unit = false
  formed : WellFormed name
  trim_ : Trim isSpace name
  fixed : clean name = name
  stripped : strip name = name

/-- A text that need not be cut, or whose last unit before the cut may end a name. -/
def CutsWell (text : JsString) : Prop :=
  text.length > 255 → ∀ unit ∈ text[254]?, isSpace unit = false ∧ Encoding.isLead unit = false

section Units

variable {unit : CodeUnit} {text before after : JsString}

theorem space_plain (space : isSpace unit = true) : isSurrogate unit = false := by
  simp only [isSpace, Encoding.isWhiteSpace, Bool.or_eq_true, List.contains_eq_mem, List.mem_cons, List.not_mem_nil,
    or_false, Bool.and_eq_true, decide_eq_true_eq] at space
  simp only [isSurrogate, Encoding.isLead, Encoding.isTrail, Bool.or_eq_false_iff, Bool.and_eq_false_iff,
    decide_eq_false_iff_not]
  omega

theorem slash_plain (slash : isSlash unit = true) : isSurrogate unit = false := by
  simp only [isSlash, Bool.or_eq_true, decide_eq_true_eq] at slash
  simp only [isSurrogate, Encoding.isLead, Encoding.isTrail, Bool.or_eq_false_iff, Bool.and_eq_false_iff,
    decide_eq_false_iff_not]
  omega

theorem surrogate_safe (surrogate : isSurrogate unit = true) : isUnsafe unit = false := by
  simp only [isSurrogate, Encoding.isLead, Encoding.isTrail, Bool.or_eq_true, Bool.and_eq_true, decide_eq_true_eq]
    at surrogate
  simp only [isUnsafe, Bool.or_eq_false_iff, Bool.and_eq_false_iff, decide_eq_false_iff_not]
  omega

theorem wellFormed_of_plain (plain : ∀ unit ∈ text, isSurrogate unit = false) : WellFormed text := by
  induction text with
  | nil => exact .nil
  | cons unit rest ih =>
      exact .plain (plain unit List.mem_cons_self) (ih fun other member => plain other (List.mem_cons_of_mem _ member))

theorem wellFormed_front (plain : ∀ unit ∈ after, isSurrogate unit = false) (formed : WellFormed (before ++ after)) :
    WellFormed before := by
  cases after with
  | nil => simpa using formed
  | cons unit rest => exact (Encoding.wellFormed_middle (plain unit List.mem_cons_self) formed).1

theorem wellFormed_trim (formed : WellFormed text) : WellFormed (Trello.trim text) := by
  have spaces : ∀ items : JsString, ∀ unit ∈ items.takeWhile isSpace, isSurrogate unit = false :=
    fun items unit member => space_plain (List.mem_takeWhile_imp member)
  have front : WellFormed (text.dropWhile isSpace) := by
    have both : WellFormed (text.takeWhile isSpace ++ text.dropWhile isSpace) := by
      rwa [List.takeWhile_append_dropWhile]
    exact (wellFormed_of_plain (spaces text)).append_iff.mp both
  apply @wellFormed_front _ ((text.dropWhile isSpace).reverse.takeWhile isSpace).reverse
  · intro unit member
    exact spaces _ unit (List.mem_reverse.mp member)
  · rwa [Trello.trim, trimmed, ← List.reverse_append, List.takeWhile_append_dropWhile, List.reverse_reverse]

theorem wellFormed_strip (formed : WellFormed text) : WellFormed (strip text) := by
  apply formed.filter
  intro unit surrogate
  simp [surrogate_safe surrogate]

theorem wellFormed_baseName (formed : WellFormed text) : WellFormed (baseName text) := by
  have whole : (text.reverse.dropWhile fun unit => !isSlash unit).reverse ++ baseName text = text := by
    rw [baseName, ← List.reverse_append, List.takeWhile_append_dropWhile, List.reverse_reverse]
  cases before : text.reverse.dropWhile fun unit => !isSlash unit with
  | nil =>
      rw [before] at whole
      simp only [List.reverse_nil, List.nil_append] at whole
      rwa [whole]
  | cons unit rest =>
      have slash : (!isSlash unit) = false := head?_dropWhile_not text.reverse (by rw [before]; rfl)
      rw [before, List.reverse_cons, List.append_assoc, List.singleton_append] at whole
      rw [← whole] at formed
      exact (Encoding.wellFormed_middle (slash_plain (by simpa using slash)) formed).2

theorem baseName_slashless : ∀ unit ∈ baseName text, isSlash unit = false := by
  intro unit member
  simpa using List.mem_takeWhile_imp (List.mem_reverse.mp member)

theorem baseName_self (slashless : ∀ unit ∈ text, isSlash unit = false) : baseName text = text := by
  rw [baseName, List.takeWhile_eq_self_iff.mpr, List.reverse_reverse]
  intro unit member
  simp [slashless unit (List.mem_reverse.mp member)]

theorem strip_self (safe : ∀ unit ∈ text, isUnsafe unit = false) : strip text = text := by
  rw [strip, List.filter_eq_self]
  exact fun unit member => by simp [safe unit member]

end Units

section Names

variable {name : JsString}

theorem safeDisplayName_eq : safeDisplayName name = (Trello.trim (strip name)).take 255 := rfl

theorem mem_safeDisplayName {unit : CodeUnit} (member : unit ∈ safeDisplayName name) :
    unit ∈ name ∧ isUnsafe unit = false := by
  have inside : unit ∈ strip name := infix_trimmed.subset (List.mem_of_mem_take member)
  simpa [strip] using inside

theorem safeDisplayName_self (safe : ∀ unit ∈ name, isUnsafe unit = false) (trim_ : Trim isSpace name)
    (short : name.length ≤ 255) : safeDisplayName name = name := by
  have trimmed_ : Trello.trim name = name := trimmed_eq_self trim_
  rw [safeDisplayName_eq, strip_self safe, trimmed_, List.take_of_length_le short]

/-- The cut leaves a name well formed and without white space at its end exactly where it falls well. -/
theorem cut_iff {text : JsString} (formed : WellFormed text) (trim_ : Trim isSpace text) :
    (WellFormed (text.take 255) ∧ Trim isSpace (text.take 255)) ↔ CutsWell text := by
  by_cases long : text.length > 255
  · have last : (text.take 255).getLast? = text[254]? := by
      rw [List.getLast?_eq_getElem?, List.length_take, Nat.min_eq_left (by omega)]
      exact List.getElem?_take_of_lt (by decide)
    have first : ∀ unit ∈ (text.take 255).head?, isSpace unit = false := by
      intro unit member
      apply trim_.1
      rwa [List.head?_take, if_neg (by decide)] at member
    rw [formed.take_iff, Trim, last]
    constructor
    · rintro ⟨lead, _, space⟩ _ unit member
      exact ⟨space unit member, lead unit member⟩
    · intro cuts
      exact ⟨fun unit member => (cuts long unit member).2, first, fun unit member => (cuts long unit member).1⟩
  · rw [List.take_of_length_le (by omega)]
    exact ⟨fun _ longer => absurd longer long, fun _ => ⟨formed, trim_⟩⟩

theorem clean_safeDisplayName (formed : WellFormed name) :
    Clean safeDisplayName (safeDisplayName name) ↔ CutsWell (Trello.trim (strip name)) := by
  have safe : ∀ unit ∈ safeDisplayName name, isUnsafe unit = false := fun unit member => (mem_safeDisplayName member).2
  rw [← cut_iff (wellFormed_trim (wellFormed_strip formed)) (trim_trimmed _)]
  constructor
  · exact fun clean => ⟨clean.formed, clean.trim_⟩
  · rintro ⟨formed, trim_⟩
    exact ⟨safe, formed, trim_, safeDisplayName_self safe trim_ (List.length_take_le 255 _), strip_self safe⟩

theorem slashless_safe : ∀ unit ∈ safeDisplayName (baseName name), isSlash unit = false :=
  fun unit member => baseName_slashless unit (mem_safeDisplayName member).1

/-- A test of all units that runs along the text and not over the code units there are. -/
theorem all_units {text : JsString} {p : CodeUnit → Bool} (all : (text.all fun unit => !p unit) = true) :
    ∀ unit ∈ text, p unit = false := by
  intro unit member
  simpa using List.all_eq_true.mp all unit member

theorem clean_attachment : Clean displayFilename (js "attachment") where
  safe := all_units (by decide +kernel)
  formed := wellFormed_of_plain (all_units (by decide +kernel))
  trim_ := trim_iff.mpr (by decide +kernel)
  fixed := by decide +kernel
  stripped := by decide +kernel

theorem clean_displayFilename (formed : WellFormed name) :
    Clean displayFilename (displayFilename name) ↔ CutsWell (Trello.trim (strip (baseName name))) := by
  have safeName := clean_safeDisplayName (wellFormed_baseName formed)
  by_cases empty : safeDisplayName (baseName name) = []
  · have fallback : displayFilename name = js "attachment" := by
      simp [displayFilename, empty]
    have nothing : Trello.trim (strip (baseName name)) = [] := by
      simpa [safeDisplayName_eq] using empty
    rw [fallback, nothing]
    constructor
    · exact fun _ long => absurd long (by decide)
    · intro _
      exact clean_attachment
  · have kept : displayFilename name = safeDisplayName (baseName name) := by
      simp [displayFilename, empty]
    rw [kept, ← safeName]
    have again : displayFilename (safeDisplayName (baseName name)) =
        if safeDisplayName (safeDisplayName (baseName name)) = [] then js "attachment"
        else safeDisplayName (safeDisplayName (baseName name)) := by
      rw [displayFilename, baseName_self slashless_safe]
    constructor
    · intro clean
      refine ⟨clean.safe, clean.formed, clean.trim_, ?_, clean.stripped⟩
      exact safeDisplayName_self clean.safe clean.trim_ (List.length_take_le 255 _)
    · intro clean
      refine ⟨clean.safe, clean.formed, clean.trim_, ?_, clean.stripped⟩
      rw [again, clean.fixed, if_neg empty]

theorem displayFilename_ne_nil : displayFilename name ≠ [] := by
  unfold displayFilename
  dsimp only
  split
  · decide
  · assumption

theorem displayFilename_slashless : ∀ unit ∈ displayFilename name, isSlash unit = false := by
  unfold displayFilename
  dsimp only
  split
  · exact all_units (by decide +kernel)
  · exact slashless_safe

end Names

/-- What both functions are to make of a name. -/
structure CleansName (name : JsString) : Prop where
  display : Clean safeDisplayName (safeDisplayName name)
  short : (safeDisplayName name).length ≤ 255
  file : Clean displayFilename (displayFilename name)
  named : displayFilename name ≠ []
  slashless : ∀ unit ∈ displayFilename name, isSlash unit = false

/-- Both functions clean a well-formed name exactly where neither of their cuts falls behind a white space
or inside a character. -/
theorem display_names_are_clean (name : JsString) (formed : WellFormed name) :
    CleansName name ↔ CutsWell (Trello.trim (strip name)) ∧ CutsWell (Trello.trim (strip (baseName name))) := by
  rw [← clean_safeDisplayName formed, ← clean_displayFilename formed]
  constructor
  · intro cleans
    exact ⟨cleans.display, cleans.file⟩
  · rintro ⟨display, file⟩
    exact ⟨display, List.length_take_le 255 _, file, displayFilename_ne_nil, displayFilename_slashless⟩

/-- A name of 256 units whose white space comes to stand at the cut. -/
def spacedName : JsString := (List.replicate 254 (js "a")).flatten ++ js " b"

theorem spacedName_formed : WellFormed spacedName := wellFormed_of_plain (all_units (by decide +kernel))

theorem display_names_are_clean_spaced :
    CleansName spacedName ↔ CutsWell (Trello.trim (strip spacedName)) ∧
      CutsWell (Trello.trim (strip (baseName spacedName))) :=
  display_names_are_clean spacedName spacedName_formed

theorem cut_leaves_space : WellFormed spacedName ∧ ¬CleansName spacedName := by
  refine ⟨spacedName_formed, fun cleans => ?_⟩
  have blank : (safeDisplayName spacedName).getLast?.any isSpace = true := by decide +kernel
  cases last : (safeDisplayName spacedName).getLast? with
  | none =>
      rw [last] at blank
      cases blank
  | some unit =>
      rw [last, Option.any_some, cleans.display.trim_.2 unit last] at blank
      cases blank

end Kurul.DisplayName
