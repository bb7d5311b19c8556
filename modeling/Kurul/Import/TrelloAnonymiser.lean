import Kurul.Import.TrelloExport
import Kurul.Sequence.Splitting

/-! The pseudonyms the anonymiser of Trello exports gives to free text, line by line. Regular expressions are written
out as the matching they do; the bytes drawn from the digest are any. -/
namespace Kurul.Trello

def unitOf (c : Char) : CodeUnit := ⟨c.toNat % 65536, Nat.mod_lt _ (Nat.zero_lt_succ _)⟩

def among (chars : List Char) (unit : CodeUnit) : Bool := chars.any (·.toNat = unit.val)

def newline : CodeUnit := unitOf '\n'

def space : CodeUnit := unitOf ' '

def isDigit (unit : CodeUnit) : Bool := 48 ≤ unit.val && unit.val ≤ 57

def isLower (unit : CodeUnit) : Bool := 97 ≤ unit.val && unit.val ≤ 122

def isUpper (unit : CodeUnit) : Bool := 65 ≤ unit.val && unit.val ≤ 90

/-- What `.` does not match. -/
def isLineEnd (unit : CodeUnit) : Bool := [10, 13, 0x2028, 0x2029].contains unit.val

def toLower (unit : CodeUnit) : CodeUnit :=
  if isUpper unit then ⟨(unit.val + 32) % 65536, Nat.mod_lt _ (Nat.zero_lt_succ _)⟩ else unit

def toUpper (unit : CodeUnit) : CodeUnit :=
  if isLower unit then ⟨unit.val - 32, (Nat.sub_le unit.val 32).trans_lt unit.isLt⟩ else unit

def FILE_EXTENSIONS : List JsString := [
  "png", "jpg", "jpeg", "gif", "webp", "svg", "bmp", "tif", "tiff", "heic", "ico", "psd", "ai", "sketch", "fig", "eps",
  "pdf", "doc", "docx", "xls", "xlsx", "ppt", "pptx", "odt", "ods", "odp", "rtf", "txt", "md", "csv", "tsv", "log",
  "key", "numbers", "pages", "zip", "gz", "tgz", "tar", "bz2", "7z", "rar", "dmg", "iso",
  "json", "xml", "yaml", "yml", "toml", "ini", "html", "htm", "css", "js", "mjs", "cjs", "ts", "tsx", "jsx", "py",
  "rb", "go", "rs", "java", "kt", "sh", "sql", "mp3", "mp4", "mov", "avi", "mkv", "wav", "m4a", "ogg", "webm",
  "ttf", "otf", "woff", "woff2", "ics", "eml", "msg"].map js

def LOREM : List JsString := [
  "lorem", "ipsum", "dolor", "sit", "amet", "consectetur", "adipiscing", "elit", "sed", "do", "eiusmod", "tempor",
  "incididunt", "ut", "labore", "et", "dolore", "magna", "aliqua", "enim", "ad", "minim", "veniam", "quis", "nostrud",
  "exercitation", "ullamco", "laboris", "nisi", "aliquip", "ex", "ea", "commodo", "consequat"].map js

/-- Words until the text is long enough. Each pass adds a unit at least, so as many passes as units are enough. -/
def loremWords (length : Nat) (next : Nat → UInt8) : Nat → Nat → JsString → JsString
  | 0, _, out => out
  | passes + 1, index, out =>
      if out.length < length then
        let word := LOREM.getD ((next index).toNat % LOREM.length) []
        loremWords length next passes (index + 1) (if out = [] then word else out ++ space :: word)
      else out

def loremOfLength (length : Nat) (next : Nat → UInt8) : JsString :=
  let out := (loremWords length next length 0 []).take length
  if out.getLast? = some space then out.dropLast ++ [unitOf 'm'] else out

/-- `FILENAME_RE`: what is before the last point, and the extension with it. -/
def fileName (content : JsString) : Option (JsString × JsString) :=
  let isAlnum := fun unit => isDigit unit || isLower unit || isUpper unit
  let tail := content.reverse.takeWhile isAlnum
  match content.reverse.dropWhile isAlnum with
  | point :: stem =>
      if point = unitOf '.' ∧ 1 ≤ tail.length ∧ tail.length ≤ 8 ∧ stem ≠ [] ∧ !stem.any (among ['/', '\\']) then
        some (stem.reverse, point :: tail.reverse)
      else none
  | [] => none

/-- A file name with an extension that may stay. -/
def listedName (content : JsString) : Option (JsString × JsString) :=
  (fileName content).filter fun name => FILE_EXTENSIONS.contains (name.2.tail.map toLower)

def capitalised : JsString → JsString
  | [] => []
  | first :: rest => toUpper first :: rest

def hyphenated (text : JsString) : JsString := text.map fun unit => if unit = space then unitOf '-' else unit

section Pseudonyms

variable (isCapital : CodeUnit → Bool) (byteStream : JsString → Nat → UInt8) (keepExtension : Bool)

/-- `isCapital` is `first !== first.toLowerCase()`, and `byteStream` the stream of the seed for texts. -/
def pseudonymContent (content : JsString) : JsString :=
  if content = [] then []
  else
    match if keepExtension then listedName content else none with
    | some (stem, extension) =>
        let lorem := loremOfLength stem.length (byteStream stem)
        (if stem.contains space then lorem else hyphenated lorem) ++ extension
    | none =>
        let out := loremOfLength content.length (byteStream content)
        if content.head?.any isCapital then capitalised out else out

/-- `FENCE_OR_RULE_RE`, its first two branches: the line may go on. -/
def opensFence (line : JsString) : Bool :=
  let text := line.dropWhile isSpace
  (js "```").isPrefixOf text || (js "~~~").isPrefixOf text

/-- Its third: nothing but three marks or more. -/
def isRule (line : JsString) : Bool :=
  line.all (fun unit => among ['-', '*', '_'] unit || isSpace unit) && 3 ≤ line.countP (among ['-', '*', '_'])

def fenceOrRule (line : JsString) : Bool := opensFence line || isRule line

/-- The units of a list, heading or quote marker, or none. -/
def markLength (text : JsString) : Nat :=
  let digits := (text.takeWhile isDigit).length
  let hashes := (text.takeWhile (among ['#'])).length
  if text.head?.any (among ['-', '*', '+']) then 1
  else if 1 ≤ digits ∧ digits ≤ 3 then
    if (text.drop digits).head?.any (among ['.', ')']) then digits + 1 else 0
  else if 1 ≤ hashes then
    if hashes ≤ 6 then hashes else 0
  else (text.takeWhile (among ['>'])).length

def boxLength : JsString → Nat
  | left :: mark :: right :: _ =>
      if among ['['] left && among [' ', 'x', 'X'] mark && among [']'] right then 3 else 0
  | _ => 0

/-- A marker counts only with white space after it, and takes that along. -/
def takeMark (length : Nat) (text : JsString) : Nat :=
  let spaces := ((text.drop length).takeWhile isSpace).length
  if length = 0 ∨ spaces = 0 then 0 else length + spaces

structure LineParts where
  marker : JsString
  content : JsString
  suffix : JsString

/-- The groups of `LINE_RE`, were `.` to match every unit. -/
def lineParts (line : JsString) : LineParts :=
  let indent := (line.takeWhile isSpace).length
  let marked := indent + takeMark (markLength (line.drop indent)) (line.drop indent)
  let boxed := marked + takeMark (boxLength (line.drop marked)) (line.drop marked)
  let text := line.drop boxed
  { marker := line.take boxed
    content := text.rdropWhile isSpace
    suffix := text.rtakeWhile isSpace }

/-- `LINE_RE`: the content is on one line. -/
def lineMatch (line : JsString) : Option LineParts :=
  if (lineParts line).content.any isLineEnd then none else some (lineParts line)

def pseudonymLine (line : JsString) : JsString :=
  if fenceOrRule line then line
  else
    match lineMatch line with
    | none => loremOfLength line.length (byteStream line)
    | some parts => parts.marker ++ pseudonymContent isCapital byteStream keepExtension parts.content ++ parts.suffix

def pseudonymText (original : JsString) : JsString :=
  if original = [] then []
  else [newline].intercalate ((original.splitOn newline).map (pseudonymLine isCapital byteStream keepExtension))

end Pseudonyms

section Lorem

variable {length : Nat} {next : Nat → UInt8} {text out : JsString}

/-- Words of the list with spaces between: small letters, the first of all a letter. -/
structure Lorem (text : JsString) : Prop where
  units : ∀ unit ∈ text, isLower unit = true ∨ unit = space
  first : ∀ unit ∈ text.head?, isLower unit = true

theorem words_lower : ∀ word ∈ LOREM, word ≠ [] ∧ word.all isLower = true := by decide +kernel

theorem Lorem.nil : Lorem [] := ⟨by simp, by simp⟩

theorem lorem_word (index : Nat) : LOREM.getD (index % LOREM.length) [] ∈ LOREM := by
  have small : index % LOREM.length < LOREM.length := Nat.mod_lt _ (by decide)
  rw [List.getD_eq_getElem _ _ small]
  exact List.getElem_mem small

theorem Lorem.of_word {word : JsString} (listed : word ∈ LOREM) : Lorem word := by
  have lower : ∀ unit ∈ word, isLower unit = true := List.all_eq_true.mp (words_lower word listed).2
  exact ⟨fun unit member => Or.inl (lower unit member), fun unit first => lower unit (List.mem_of_mem_head? first)⟩

theorem Lorem.append (lorem : Lorem out) (filled : out ≠ []) {word : JsString} (listed : word ∈ LOREM) :
    Lorem (out ++ space :: word) where
  units unit member := by
    rcases List.mem_append.mp member with early | late
    · exact lorem.units unit early
    · rcases List.mem_cons.mp late with rfl | here
      · exact Or.inr rfl
      · exact (Lorem.of_word listed).units unit here
  first unit first := lorem.first unit (by rwa [List.head?_append_of_ne_nil _ filled] at first)

theorem Lorem.take (lorem : Lorem text) (n : Nat) : Lorem (text.take n) where
  units unit member := lorem.units unit (List.mem_of_mem_take member)
  first unit first := by
    cases text with
    | nil => simp at first
    | cons head tail =>
        cases n with
        | zero => simp at first
        | succ n => exact lorem.first unit (by simpa using first)

theorem loremWords_lorem (lorem : Lorem out) (passes index : Nat) : Lorem (loremWords length next passes index out) := by
  induction passes generalizing index out with
  | zero => exact lorem
  | succ passes ih =>
      have listed := lorem_word (next index).toNat
      unfold loremWords
      by_cases short : out.length < length
      · rw [if_pos short]
        apply ih
        by_cases empty : out = []
        · simpa [empty] using Lorem.of_word listed
        · simpa [empty] using lorem.append empty listed
      · rwa [if_neg short]

/-- Enough passes are left at every point. -/
theorem length_loremWords (passes index : Nat) (enough : length ≤ out.length + passes) :
    length ≤ (loremWords length next passes index out).length := by
  induction passes generalizing index out with
  | zero => exact enough
  | succ passes ih =>
      have filled := List.length_pos_iff.mpr (words_lower _ (lorem_word (next index).toNat)).1
      unfold loremWords
      by_cases short : out.length < length
      · rw [if_pos short]
        apply ih
        by_cases empty : out = []
        · simp only [empty, if_true, List.length_nil] at enough ⊢
          omega
        · simp only [empty, if_false, List.length_append, List.length_cons]
          omega
      · rw [if_neg short]
        omega

theorem length_cut : ((loremWords length next length 0 []).take length).length = length :=
  List.length_take_of_le (length_loremWords length 0 (by simp))

@[simp] theorem length_loremOfLength (length : Nat) (next : Nat → UInt8) : (loremOfLength length next).length = length := by
  have cut := @length_cut length next
  unfold loremOfLength
  by_cases trailing : ((loremWords length next length 0 []).take length).getLast? = some space
  · have filled : (loremWords length next length 0 []).take length ≠ [] := by
      rintro empty
      rw [empty] at trailing
      cases trailing
    have positive := List.length_pos_iff.mpr filled
    simp only [trailing, if_true, List.length_append, List.length_dropLast, List.length_singleton]
    omega
  · simpa only [trailing, if_false] using cut

theorem space_not_lower : isLower space = false := by decide

theorem m_lower : isLower (unitOf 'm') = true := by decide

/-- A text of the generator begins and ends with a letter. -/
theorem lorem_loremOfLength (length : Nat) (next : Nat → UInt8) :
    Lorem (loremOfLength length next) ∧ ∀ unit ∈ (loremOfLength length next).getLast?, isLower unit = true := by
  have lorem := (@loremWords_lorem length next [] Lorem.nil length 0).take length
  unfold loremOfLength
  by_cases trailing : ((loremWords length next length 0 []).take length).getLast? = some space
  · simp only [trailing, if_true]
    refine ⟨⟨?_, ?_⟩, ?_⟩
    · intro unit member
      rcases List.mem_append.mp member with early | last
      · exact lorem.units unit (List.mem_of_mem_dropLast early)
      · exact Or.inl (List.mem_singleton.mp last ▸ m_lower)
    · intro unit first
      cases front : ((loremWords length next length 0 []).take length).dropLast with
      | nil =>
          rw [front] at first
          cases first
          exact m_lower
      | cons head tail =>
          rw [front] at first
          refine lorem.first unit ?_
          have parts := List.dropLast_append_getLast? _ trailing
          rw [front] at parts
          rw [← parts]
          simpa using first
    · intro unit last
      rw [List.getLast?_concat] at last
      cases last
      exact m_lower
  · simp only [trailing, if_false]
    refine ⟨lorem, fun unit last => ?_⟩
    rcases lorem.units unit (List.mem_of_mem_getLast? last) with lower | rfl
    · exact lower
    · exact absurd last trailing

end Lorem

section Lines

variable {line text : JsString}

inductive Sign : JsString → Prop where
  | bullet (unit : CodeUnit) : among ['-', '*', '+'] unit = true → Sign [unit]
  | number (digits : JsString) (stop : CodeUnit) : digits.all isDigit = true → 1 ≤ digits.length → digits.length ≤ 3 →
      among ['.', ')'] stop = true → Sign (digits ++ [stop])
  | heading (hashes : JsString) : hashes.all (among ['#']) = true → 1 ≤ hashes.length → hashes.length ≤ 6 → Sign hashes
  | quote (quotes : JsString) : quotes.all (among ['>']) = true → 1 ≤ quotes.length → Sign quotes

inductive Box : JsString → Prop where
  | mk (left mark right : CodeUnit) : among ['['] left = true → among [' ', 'x', 'X'] mark = true →
      among [']'] right = true → Box [left, mark, right]

/-- Nothing, or a sign with white space after it. -/
inductive Spaced (sign : JsString → Prop) : JsString → Prop where
  | none : Spaced sign []
  | some (text spaces : JsString) : sign text → spaces ≠ [] → spaces.all isSpace = true → Spaced sign (text ++ spaces)

/-- White space, a list, heading or quote marker and a checkbox, each if there is one. -/
inductive Marker : JsString → Prop where
  | mk (indent sign box : JsString) : indent.all isSpace = true → Spaced Sign sign → Spaced Box box →
      Marker (indent ++ sign ++ box)

theorem all_take_takeWhile (p : CodeUnit → Bool) (text : JsString) {n : Nat} (within : n ≤ (text.takeWhile p).length) :
    (text.take n).all p = true := by
  have start : text.take n <+: text.takeWhile p :=
    List.prefix_of_prefix_length_le (List.take_prefix n text) (List.takeWhile_prefix p)
      ((List.length_take_le n text).trans within)
  exact List.all_eq_true.mpr fun unit member => List.mem_takeWhile_imp (start.subset member)

theorem spaced_takeMark {sign : JsString → Prop} {length : Nat} (signed : length ≠ 0 → sign (text.take length)) :
    Spaced sign (text.take (takeMark length text)) := by
  unfold takeMark
  by_cases none : length = 0 ∨ ((text.drop length).takeWhile isSpace).length = 0
  · simpa only [none, if_true, List.take_zero] using Spaced.none
  · simp only [none, if_false, List.take_add]
    obtain ⟨some_, spaces⟩ := not_or.mp none
    refine Spaced.some _ _ (signed some_) ?_ (all_take_takeWhile isSpace _ le_rfl)
    intro empty
    have short := congrArg List.length empty
    rw [List.length_take, List.length_nil] at short
    have within := (List.takeWhile_prefix isSpace (l := text.drop length)).length_le
    omega

theorem head_any {p : CodeUnit → Bool} (first : text.head?.any p = true) : ∃ unit, text.take 1 = [unit] ∧
    p unit = true := by
  cases text with
  | nil => simp at first
  | cons unit rest => exact ⟨unit, rfl, by simpa using first⟩

theorem sign_markLength (signed : markLength text ≠ 0) : Sign (text.take (markLength text)) := by
  revert signed
  have digits := all_take_takeWhile isDigit text le_rfl
  have hashes := all_take_takeWhile (among ['#']) text le_rfl
  have quotes := all_take_takeWhile (among ['>']) text le_rfl
  have within := fun p => (List.takeWhile_prefix p (l := text)).length_le
  dsimp only [markLength]
  split_ifs with bullet number stop heading few
  · obtain ⟨unit, taken, marks⟩ := head_any bullet
    exact fun _ => taken ▸ Sign.bullet unit marks
  · obtain ⟨unit, taken, marks⟩ := head_any stop
    rw [List.take_add, taken]
    refine fun _ => Sign.number _ unit digits ?_ ?_ marks
    all_goals
      rw [List.length_take_of_le (within isDigit)]
      omega
  · simp
  · refine fun _ => Sign.heading _ hashes ?_ ?_
    all_goals rwa [List.length_take_of_le (within (among ['#']))]
  · simp
  · refine fun some_ => Sign.quote _ quotes ?_
    rw [List.length_take_of_le (within (among ['>']))]
    omega

theorem box_boxLength (boxed : boxLength text ≠ 0) : Box (text.take (boxLength text)) := by
  revert boxed
  unfold boxLength
  split
  · rename_i left mark right rest
    split_ifs with marks
    · rw [Bool.and_eq_true, Bool.and_eq_true] at marks
      exact fun _ => Box.mk left mark right marks.1.1 marks.1.2 marks.2
    · simp
  · simp

theorem marker_lineParts (line : JsString) : Marker (lineParts line).marker := by
  unfold lineParts
  simp only [List.take_add]
  exact Marker.mk _ _ _ (all_take_takeWhile isSpace line le_rfl) (spaced_takeMark sign_markLength)
    (spaced_takeMark box_boxLength)

theorem lineParts_append (line : JsString) :
    (lineParts line).marker ++ (lineParts line).content ++ (lineParts line).suffix = line := by
  simp [lineParts, List.append_assoc]

theorem suffix_lineParts (line : JsString) : (lineParts line).suffix.all isSpace = true :=
  List.all_eq_true.mpr fun _ member => List.mem_rtakeWhile_imp member

theorem head_append {p : CodeUnit → Prop} {first second : JsString} (here : ∀ unit ∈ first.head?, p unit)
    (there : ∀ unit ∈ second.head?, p unit) : ∀ unit ∈ (first ++ second).head?, p unit := by
  cases first with
  | nil => exact there
  | cons unit rest => exact here

theorem not_lower_of_space {unit : CodeUnit} (blank : isSpace unit = true) : isLower unit = false := by
  by_contra lower
  simp only [isLower, Bool.not_eq_false, Bool.and_eq_true, decide_eq_true_eq] at lower
  simp only [isSpace, Encoding.isWhiteSpace, Bool.or_eq_true, List.contains_eq_mem, decide_eq_true_eq, List.mem_cons,
    List.not_mem_nil, or_false, Bool.and_eq_true] at blank
  omega

theorem not_lower_of_among {chars : List Char} {unit : CodeUnit} (marks : among chars unit = true)
    (others : chars.all (fun c => c.toNat < 97 || 122 < c.toNat) = true) : isLower unit = false := by
  obtain ⟨c, member, same⟩ := List.any_eq_true.mp marks
  have other := List.all_eq_true.mp others c member
  simp only [Bool.or_eq_true, decide_eq_true_eq] at other same
  by_contra lower
  simp only [isLower, Bool.not_eq_false, Bool.and_eq_true, decide_eq_true_eq] at lower
  omega

theorem head_all {p q : CodeUnit → Bool} (all : text.all p = true) (apart : ∀ unit, p unit = true → q unit = false) :
    ∀ unit ∈ text.head?, q unit = false :=
  fun unit first => apart unit (List.all_eq_true.mp all unit (List.mem_of_mem_head? first))

theorem Sign.head (sign : Sign text) : ∀ unit ∈ text.head?, isLower unit = false := by
  cases sign with
  | bullet unit marks =>
      rintro _ ⟨⟩
      exact not_lower_of_among marks (by decide)
  | number digits stop all =>
      refine head_append (head_all all fun unit digit => ?_) ?_
      · simp only [isDigit, isLower, Bool.and_eq_true, decide_eq_true_eq] at digit ⊢
        simp
        omega
      · rintro _ ⟨⟩
        exact not_lower_of_among ‹_› (by decide)
  | heading _ all => exact head_all all fun unit marks => not_lower_of_among marks (by decide)
  | quote _ all => exact head_all all fun unit marks => not_lower_of_among marks (by decide)

theorem Spaced.head {sign : JsString → Prop} (first : ∀ text, sign text → ∀ unit ∈ text.head?, isLower unit = false)
    (spaced : Spaced sign text) : ∀ unit ∈ text.head?, isLower unit = false := by
  cases spaced with
  | none => simp
  | some text spaces signed _ blank =>
      exact head_append (first text signed) (head_all blank fun _ => not_lower_of_space)

/-- No marker begins with a small letter. -/
theorem Marker.head (marked : Marker text) : ∀ unit ∈ text.head?, isLower unit = false := by
  obtain ⟨indent, sign, box, blank, signed, boxed⟩ := marked
  refine head_append (head_append (head_all blank fun _ => not_lower_of_space) ?_) ?_
  · exact signed.head fun _ => Sign.head
  · refine boxed.head ?_
    rintro _ ⟨left, _, _, open_, _, _⟩ _ ⟨⟩
    exact not_lower_of_among open_ (by decide)

theorem rdropWhile_visible {unit : CodeUnit} {text rest : JsString} (visible : isSpace unit = false)
    (same : (unit :: rest).rdropWhile isSpace = text) : ∃ more, text = unit :: more := by
  have parts := List.rdropWhile_append_rtakeWhile (p := isSpace) (l := unit :: rest)
  rw [same] at parts
  cases text with
  | nil =>
      have blank : isSpace unit = true := List.mem_rtakeWhile_imp (parts ▸ List.mem_cons_self)
      rw [visible] at blank
      cases blank
  | cons first more =>
      rw [List.cons_append, List.cons.injEq] at parts
      exact ⟨more, by rw [parts.1]⟩

theorem fence_units (fenced : opensFence line = true) :
    ∃ unit second third rest, line.dropWhile isSpace = unit :: second :: third :: rest ∧ among ['`', '~'] unit = true := by
  have ticks : js "```" = [unitOf '`', unitOf '`', unitOf '`'] := by decide
  have waves : js "~~~" = [unitOf '~', unitOf '~', unitOf '~'] := by decide
  unfold opensFence at fenced
  simp only [ticks, waves, Bool.or_eq_true, List.isPrefixOf_iff_prefix] at fenced
  rcases fenced with ⟨rest, opened⟩ | ⟨rest, opened⟩
  · exact ⟨_, _, _, rest, opened.symm, by decide⟩
  · exact ⟨_, _, _, rest, opened.symm, by decide⟩

theorem val_of_fence {unit : CodeUnit} (fence : among ['`', '~'] unit = true) : unit.val = 96 ∨ unit.val = 126 := by
  simp only [among, List.any_cons, List.any_nil, Bool.or_false, Bool.or_eq_true, decide_eq_true_eq] at fence
  exact fence.imp (fun same => same.symm) fun same => same.symm

theorem unmarked_of_fence {unit : CodeUnit} {rest : JsString} (fence : among ['`', '~'] unit = true) :
    markLength (unit :: rest) = 0 ∧ boxLength (unit :: rest) = 0 ∧ isSpace unit = false := by
  have named := val_of_fence fence
  have no (chars : List Char) (others : chars.all (fun c => c.toNat ≠ 96 && c.toNat ≠ 126) = true) :
      among chars unit = false := by
    by_contra marks
    obtain ⟨c, member, same⟩ := List.any_eq_true.mp (Bool.eq_true_of_not_eq_false marks)
    have other := List.all_eq_true.mp others c member
    simp only [Bool.and_eq_true, decide_eq_true_eq] at other same
    omega
  have digit : isDigit unit = false := by
    by_contra digit
    simp only [isDigit, Bool.not_eq_false, Bool.and_eq_true, decide_eq_true_eq] at digit
    omega
  refine ⟨?_, ?_, ?_⟩
  · simp [markLength, no ['-', '*', '+'] (by decide), no ['#'] (by decide), no ['>'] (by decide), digit]
  · unfold boxLength
    split
    · rename_i left _ _ _ same
      rw [List.cons.injEq] at same
      simp [← same.1, no ['['] (by decide)]
    · rfl
  · by_contra blank
    simp only [isSpace, Encoding.isWhiteSpace, Bool.not_eq_false, Bool.or_eq_true, List.contains_eq_mem,
      decide_eq_true_eq, List.mem_cons, List.not_mem_nil, or_false, Bool.and_eq_true] at blank
    omega

theorem content_of_fence (fenced : opensFence line = true) :
    ∃ unit rest, (lineParts line).content = unit :: rest ∧ among ['`', '~'] unit = true := by
  obtain ⟨unit, second, third, rest, opened, fence⟩ := fence_units fenced
  obtain ⟨noMark, noBox, visible⟩ := @unmarked_of_fence unit (second :: third :: rest) fence
  have parts := List.takeWhile_append_dropWhile (p := isSpace) (l := line)
  have dropped : line.drop (line.takeWhile isSpace).length = unit :: second :: third :: rest := by
    rw [← opened]
    calc line.drop (line.takeWhile isSpace).length
        = (line.takeWhile isSpace ++ line.dropWhile isSpace).drop (line.takeWhile isSpace).length := by rw [parts]
      _ = line.dropWhile isSpace := List.drop_left
  have none (text : JsString) : takeMark 0 text = 0 := by simp [takeMark]
  have content : (lineParts line).content = (unit :: second :: third :: rest).rdropWhile isSpace := by
    simp only [lineParts, dropped, noMark, none, Nat.add_zero, noBox]
  obtain ⟨more, same⟩ := rdropWhile_visible visible content.symm
  exact ⟨unit, more, same, fence⟩

end Lines

section Shape

variable {isCapital : CodeUnit → Bool} {byteStream : JsString → Nat → UInt8} {keepExtension : Bool} {line : JsString}

/-- What the generator may put for a content: words of the list for its length, with a capital if it has one; for the
name of a file words for its stem, and a listed extension. -/
inductive Made (isCapital : CodeUnit → Bool) (keepExtension : Bool) : JsString → JsString → Prop where
  | words (content : JsString) (next : Nat → UInt8) :
      Made isCapital keepExtension content (loremOfLength content.length next)
  | capital (content : JsString) (next : Nat → UInt8) : content.head?.any isCapital = true →
      Made isCapital keepExtension content (capitalised (loremOfLength content.length next))
  | file (stem extension : JsString) (next : Nat → UInt8) (hyphens : Bool) : keepExtension = true → stem ≠ [] →
      FILE_EXTENSIONS.contains (extension.tail.map toLower) = true →
      Made isCapital keepExtension (stem ++ extension)
        ((if hyphens then hyphenated (loremOfLength stem.length next) else loremOfLength stem.length next) ++ extension)

def isFenceOrRuleUnit (unit : CodeUnit) : Bool := among ['`', '~', '-', '*', '_'] unit || isSpace unit

/-- The line's marker, what the generator made, and the white space at its end; or the line, where it is a fence or a
rule and nothing else. -/
def Shaped (isCapital : CodeUnit → Bool) (keepExtension : Bool) (line out : JsString) : Prop :=
  (∃ text, Marker (lineParts line).marker ∧ (lineParts line).suffix.all isSpace = true ∧
    Made isCapital keepExtension (lineParts line).content text ∧
    out = (lineParts line).marker ++ text ++ (lineParts line).suffix) ∨
  (out = line ∧ line.all isFenceOrRuleUnit = true)

/-- No text goes on after a fence, and a line end inside a line is not with a marker or white space at the end. -/
def Plain (line : JsString) : Prop :=
  (opensFence line = true → line.all isFenceOrRuleUnit = true) ∧
  (fenceOrRule line = false → (lineParts line).content.any isLineEnd = true →
    (lineParts line).marker = [] ∧ (lineParts line).suffix = [])

theorem fileName_append {content stem extension : JsString} (named : fileName content = some (stem, extension)) :
    content = stem ++ extension ∧ stem ≠ [] := by
  unfold fileName at named
  dsimp only at named
  split at named
  · rename_i point rest back
    split_ifs at named with ok
    cases named
    refine ⟨?_, by simpa using ok.2.2.2.1⟩
    have parts := List.takeWhile_append_dropWhile
      (p := fun unit => isDigit unit || isLower unit || isUpper unit) (l := content.reverse)
    rw [back] at parts
    have forwards := congrArg List.reverse parts
    simpa using forwards.symm
  · cases named

theorem made_pseudonymContent (content : JsString) :
    Made isCapital keepExtension content (pseudonymContent isCapital byteStream keepExtension content) := by
  unfold pseudonymContent
  by_cases empty : content = []
  · subst empty
    rw [if_pos rfl]
    have none := List.eq_nil_of_length_eq_zero (length_loremOfLength 0 (byteStream []))
    exact none ▸ Made.words [] (byteStream [])
  · rw [if_neg empty]
    split
    · rename_i stem extension named
      cases keepExtension with
      | false => cases named
      | true =>
          obtain ⟨named, listed⟩ := Option.filter_eq_some_iff.mp named
          obtain ⟨rfl, filled⟩ := fileName_append named
          have made := @Made.file isCapital true stem extension (byteStream stem) (!stem.contains space) rfl filled
            listed
          cases spaced : stem.contains space <;>
            simpa only [spaced, Bool.not_true, Bool.not_false, if_true, Bool.false_eq_true, if_false] using made
    · dsimp only
      split_ifs with capital
      · exact Made.capital content _ capital
      · exact Made.words content _

theorem letter_hyphenated {text : JsString} (lorem : Lorem text) :
    ∀ unit ∈ (hyphenated text).head?, isLower unit = true := by
  cases text with
  | nil => simp [hyphenated]
  | cons first rest =>
      have lower := lorem.first first rfl
      have apart : first ≠ space := by
        rintro rfl
        cases space_not_lower.symm.trans lower
      rintro unit here
      simp only [hyphenated, List.map_cons, apart, if_false, List.head?_cons, Option.mem_def, Option.some.injEq] at here
      exact here ▸ lower

theorem upper_toUpper {unit : CodeUnit} (lower : isLower unit = true) : isUpper (toUpper unit) = true := by
  simp only [toUpper, lower, if_true]
  simp only [isLower, isUpper, Bool.and_eq_true, decide_eq_true_eq] at lower ⊢
  omega

/-- What the generator made begins with a letter. -/
theorem Made.first {content text : JsString} (made : Made isCapital keepExtension content text) :
    ∀ unit ∈ text.head?, isLower unit = true ∨ isUpper unit = true := by
  intro unit here
  cases made with
  | words _ next => exact Or.inl ((lorem_loremOfLength _ next).1.first unit here)
  | capital _ next _ =>
      have lorem := (lorem_loremOfLength content.length next).1
      cases made : loremOfLength content.length next with
      | nil =>
          rw [made] at here
          cases here
      | cons first rest =>
          rw [made] at here lorem
          cases here
          exact Or.inr (upper_toUpper (lorem.first first rfl))
  | file stem extension next hyphens keep filled listed =>
      have lorem := (lorem_loremOfLength stem.length next).1
      have some_ : loremOfLength stem.length next ≠ [] := by
        rw [← List.length_pos_iff, length_loremOfLength]
        exact List.length_pos_iff.mpr filled
      cases hyphens with
      | false => exact Or.inl (lorem.first unit (by simpa [List.head?_append_of_ne_nil _ some_] using here))
      | true =>
          have some_ : hyphenated (loremOfLength stem.length next) ≠ [] := by simpa [hyphenated] using some_
          exact Or.inl (letter_hyphenated lorem unit (by simpa [List.head?_append_of_ne_nil _ some_] using here))

theorem not_letter_of_fence {unit : CodeUnit} (fence : among ['`', '~'] unit = true) :
    ¬ (isLower unit = true ∨ isUpper unit = true) := by
  have named := val_of_fence fence
  simp only [isLower, isUpper, Bool.and_eq_true, decide_eq_true_eq]
  omega

theorem not_lower_of_rule {unit : CodeUnit} (rule : isFenceOrRuleUnit unit = true) : isLower unit = false := by
  rcases Bool.or_eq_true_iff.mp rule with marks | blank
  · exact not_lower_of_among marks (by decide)
  · exact not_lower_of_space blank

/-- A line that is kept has its shape where no text goes on after a fence. -/
theorem shaped_kept (fenced : fenceOrRule line = true) :
    Shaped isCapital keepExtension line line ↔ (opensFence line = true → line.all isFenceOrRuleUnit = true) := by
  constructor
  · rintro (⟨text, _, _, made, same⟩ | ⟨_, only⟩) opened
    · obtain ⟨unit, rest, content, fence⟩ := content_of_fence opened
      have kept : (lineParts line).content = text :=
        List.append_cancel_left (List.append_cancel_right ((lineParts_append line).trans same))
      exact absurd (made.first unit (by rw [← kept, content]; rfl)) (not_letter_of_fence fence)
    · exact only
  · intro clean
    refine Or.inr ⟨rfl, ?_⟩
    rcases Bool.or_eq_true_iff.mp fenced with opened | rule
    · exact clean opened
    · refine List.all_eq_true.mpr fun unit member => ?_
      have ruled := List.all_eq_true.mp (Bool.and_eq_true_iff.mp rule).1 unit member
      rcases Bool.or_eq_true_iff.mp ruled with mark | blank
      · obtain ⟨c, listed, same⟩ := List.any_eq_true.mp mark
        refine Bool.or_eq_true_iff.mpr (Or.inl (List.any_eq_true.mpr ⟨c, ?_, same⟩))
        exact List.mem_cons_of_mem _ (List.mem_cons_of_mem _ listed)
      · exact Bool.or_eq_true_iff.mpr (Or.inr blank)

/-- A line that is made up as a whole has its shape where it is all content. -/
theorem shaped_lorem (broken : (lineParts line).content.any isLineEnd = true) (next : Nat → UInt8) :
    Shaped isCapital keepExtension line (loremOfLength line.length next) ↔
      (lineParts line).marker = [] ∧ (lineParts line).suffix = [] := by
  have parts := lineParts_append line
  have filled : (lineParts line).content ≠ [] := by
    rintro empty
    simp [empty] at broken
  obtain ⟨lorem, last⟩ := lorem_loremOfLength line.length next
  constructor
  · have some_ : loremOfLength line.length next ≠ [] := by
      rw [← List.length_pos_iff, length_loremOfLength, List.length_pos_iff]
      rintro rfl
      simp [lineParts] at filled
    rintro (⟨text, _, _, _, same⟩ | ⟨same, only⟩)
    · constructor
      · cases marker : (lineParts line).marker with
        | nil => rfl
        | cons unit rest =>
            have small := lorem.first unit (by rw [same, marker]; rfl)
            have other := (marker_lineParts line).head unit (by rw [marker]; rfl)
            exact absurd small (by simp [other])
      · rcases List.eq_nil_or_concat (lineParts line).suffix with none | ⟨rest, unit, suffix⟩
        · exact none
        · have small := last unit (by rw [same, suffix, List.concat_eq_append, ← List.append_assoc]; simp)
          have blank := List.all_eq_true.mp (suffix_lineParts line) unit (by simp [suffix])
          exact absurd small (by simp [not_lower_of_space blank])
    · obtain ⟨unit, rest, first⟩ := List.exists_cons_of_ne_nil some_
      have small := lorem.first unit (by rw [first]; rfl)
      have rule := List.all_eq_true.mp only unit (by rw [← same, first]; exact List.mem_cons_self)
      exact absurd small (by simp [not_lower_of_rule rule])
  · rintro ⟨marker, suffix⟩
    rw [marker, suffix, List.nil_append, List.append_nil] at parts
    have made := @Made.words isCapital keepExtension (lineParts line).content next
    rw [parts] at made
    refine Or.inl ⟨_, marker_lineParts line, suffix_lineParts line, parts.symm ▸ made, ?_⟩
    rw [marker, suffix, List.nil_append, List.append_nil, parts]

theorem shaped_iff (line : JsString) :
    Shaped isCapital keepExtension line (pseudonymLine isCapital byteStream keepExtension line) ↔ Plain line := by
  unfold pseudonymLine Plain
  cases fenced : fenceOrRule line with
  | true => simpa using shaped_kept fenced
  | false =>
      have closed : opensFence line = false := (Bool.or_eq_false_iff.mp fenced).1
      cases broken : (lineParts line).content.any isLineEnd with
      | true => simpa [lineMatch, broken, closed] using shaped_lorem broken (byteStream line)
      | false =>
          have shaped : Shaped isCapital keepExtension line _ := Or.inl
            ⟨_, marker_lineParts line, suffix_lineParts line,
              @made_pseudonymContent isCapital byteStream keepExtension (lineParts line).content, rfl⟩
          simpa [lineMatch, broken, closed] using shaped

theorem length_capitalised (text : JsString) : (capitalised text).length = text.length := by
  cases text <;> rfl

theorem Made.length {content text : JsString} (made : Made isCapital keepExtension content text) :
    text.length = content.length := by
  cases made with
  | words _ next => exact length_loremOfLength _ next
  | capital _ next _ => rw [length_capitalised, length_loremOfLength]
  | file stem extension next hyphens _ _ _ => cases hyphens <;> simp [hyphenated]

theorem length_pseudonymLine (line : JsString) :
    (pseudonymLine isCapital byteStream keepExtension line).length = line.length := by
  unfold pseudonymLine
  cases fenceOrRule line with
  | true => rfl
  | false =>
      cases broken : (lineParts line).content.any isLineEnd with
      | true => simp [lineMatch, broken]
      | false =>
          have parts := congrArg List.length (lineParts_append line)
          have made := (@made_pseudonymContent isCapital byteStream keepExtension (lineParts line).content).length
          simp only [List.length_append] at parts
          simp only [lineMatch, broken, Bool.false_eq_true, if_false, List.length_append, made, parts]

theorem units_lorem (length : Nat) (next : Nat → UInt8) : newline ∉ loremOfLength length next := by
  intro member
  rcases (lorem_loremOfLength length next).1.units newline member with lower | same
  · exact absurd lower (by decide)
  · exact absurd same (by decide)

theorem Made.clear {content text : JsString} (made : Made isCapital keepExtension content text)
    (clear : newline ∉ content) : newline ∉ text := by
  cases made with
  | words _ next => exact units_lorem _ next
  | capital _ next _ =>
      have lorem := (lorem_loremOfLength content.length next).1
      have plain := units_lorem content.length next
      cases made : loremOfLength content.length next with
      | nil => simp [capitalised]
      | cons first rest =>
          rw [made] at lorem plain
          refine List.not_mem_cons_of_ne_of_not_mem ?_ fun later => plain (List.mem_cons_of_mem _ later)
          intro same
          have upper := upper_toUpper (lorem.first first rfl)
          rw [← same] at upper
          exact absurd upper (by decide)
  | file stem extension next hyphens _ _ _ =>
      have plain := units_lorem stem.length next
      have here : newline ∉ extension := fun member => clear (List.mem_append_right _ member)
      refine fun member => (List.mem_append.mp member).elim ?_ here
      cases hyphens with
      | false => exact plain
      | true =>
          intro member
          obtain ⟨unit, inside, same⟩ := List.mem_map.mp member
          split_ifs at same with blank
          · exact absurd same (by decide)
          · exact plain (same ▸ inside)

theorem clear_pseudonymLine (clear : newline ∉ line) :
    newline ∉ pseudonymLine isCapital byteStream keepExtension line := by
  unfold pseudonymLine
  cases fenceOrRule line with
  | true => exact clear
  | false =>
      cases broken : (lineParts line).content.any isLineEnd with
      | true => simpa [lineMatch, broken] using units_lorem _ _
      | false =>
          have parts := lineParts_append line
          have within : newline ∉ (lineParts line).marker ∧ newline ∉ (lineParts line).content ∧
              newline ∉ (lineParts line).suffix := by
            rw [← parts, List.append_assoc, List.mem_append, List.mem_append, not_or, not_or] at clear
            exact clear
          have made := (@made_pseudonymContent isCapital byteStream keepExtension (lineParts line).content).clear within.2.1
          simpa [lineMatch, broken, within] using made

theorem lines_pseudonymText (original : JsString) :
    (pseudonymText isCapital byteStream keepExtension original).splitOn newline =
      (original.splitOn newline).map (pseudonymLine isCapital byteStream keepExtension) := by
  unfold pseudonymText
  by_cases empty : original = []
  · have nothing : pseudonymLine isCapital byteStream keepExtension [] = [] :=
      List.eq_nil_of_length_eq_zero (length_pseudonymLine [])
    simp [empty, nothing]
  · rw [if_neg empty]
    exact Sequence.splitOn_intercalate_map fun piece cut => clear_pseudonymLine (Sequence.notMem_of_mem_splitOn cut)

/-- The lines keep their number and lengths, and each keeps its shape and nothing else, where no text goes on after a
fence and no line is broken up inside its text. -/
theorem keeps_shape_iff (isCapital : CodeUnit → Bool) (byteStream : JsString → Nat → UInt8) (keepExtension : Bool)
    (original : JsString) :
    List.Forall₂ (fun line out => out.length = line.length ∧ Shaped isCapital keepExtension line out)
        (original.splitOn newline) ((pseudonymText isCapital byteStream keepExtension original).splitOn newline) ↔
      ∀ line ∈ original.splitOn newline, Plain line := by
  rw [lines_pseudonymText, List.forall₂_map_right_iff, List.forall₂_same]
  refine forall₂_congr fun line _ => ?_
  rw [shaped_iff]
  exact ⟨And.right, fun plain => ⟨length_pseudonymLine line, plain⟩⟩

/-- What follows a fence on its line is kept. -/
theorem fence_keeps_text :
    pseudonymText isUpper (fun _ _ => 0) false (js "```hunter2") = js "```hunter2" ∧
    ¬ List.Forall₂ (fun line out => out.length = line.length ∧ Shaped isUpper false line out)
        ((js "```hunter2").splitOn newline)
        ((pseudonymText isUpper (fun _ _ => 0) false (js "```hunter2")).splitOn newline) := by
  refine ⟨by decide +kernel, fun shaped => ?_⟩
  rw [lines_pseudonymText, List.forall₂_map_right_iff, List.forall₂_same] at shaped
  have plain := (shaped_iff _).mp (shaped (js "```hunter2") (by decide +kernel)).2
  exact absurd (plain.1 (by decide +kernel)) (by decide +kernel)

end Shape

end Kurul.Trello
