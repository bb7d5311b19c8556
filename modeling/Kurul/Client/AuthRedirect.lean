import Kurul.Attachment.Disposition
import Kurul.Client.TaskQuery
import Kurul.Encoding.Urls

/-! Where a visitor goes after signing in. The destination stands in a parameter of the page, and whoever writes the
link writes the parameter. -/
namespace Kurul.Client.AuthRedirect

open Disposition (isUriMark)
open Encoding
open Urls

def NEXT_PARAM : String := "next"

def hasStrippedCharacter (value : List Char) : Bool := value.any fun c => c.toNat ≤ 0x20 || c.toNat = 0x7f

def safeNextPath (value : Option (List Char)) : Option (List Char) :=
  match value with
  | none => none
  | some value =>
      if value = [] then none
      else if hasStrippedCharacter value then none
      else if !"/".toList.isPrefixOf value then none
      else if "//".toList.isPrefixOf value || "/\\".toList.isPrefixOf value then none
      else some value

def withNextParam (path : List Char) (next : Option (List Char)) : List Char :=
  match safeNextPath next with
  | none => path
  | some safe => path ++ '?' :: (NEXT_PARAM.toList ++ '=' :: percentEncode isUriMark safe)

/-- `searchParams.get(NEXT_PARAM)` on the page that a link leads to. -/
def nextOf {Host : Type} (url : Url Host) : Option (List Char) :=
  (url.query.bind parse).bind fun params => (TaskQuery.get params NEXT_PARAM).map String.toList

section Accepted

variable {value : Option (List Char)} {next : List Char}

/-- What is accepted: a path with one slash in front and no character that is taken out of it. -/
structure Local (next : List Char) : Prop where
  printable : ∀ c ∈ next, 0x20 < c.toNat
  slash : ∃ rest, next = '/' :: rest ∧ ∀ c ∈ rest.head?, isSlash c = false

theorem accepted (safe : safeNextPath value = some next) : value = some next ∧ Local next := by
  unfold safeNextPath at safe
  cases value with
  | none => cases safe
  | some value =>
      dsimp only at safe
      split_ifs at safe with empty stripped unrooted away
      cases safe
      refine ⟨rfl, ?_, ?_⟩
      · intro c member
        by_contra low
        refine stripped (List.any_eq_true.mpr ⟨c, member, ?_⟩)
        have control : c.toNat ≤ 0x20 := by omega
        rw [decide_eq_true control, Bool.true_or]
      · cases next with
        | nil => exact absurd rfl empty
        | cons first rest =>
            obtain rfl : '/' = first := by simpa [List.isPrefixOf] using unrooted
            refine ⟨rest, rfl, fun c first => ?_⟩
            cases rest with
            | nil => cases first
            | cons second rest =>
                obtain rfl : second = c := by simpa using first
                rw [Bool.eq_false_iff]
                intro double
                have one : second = '/' ∨ second = '\\' := by simpa [isSlash] using double
                rcases one with rfl | rfl
                · exact away (by simp [List.isPrefixOf])
                · exact away (by simp [List.isPrefixOf])

theorem safeNextPath_again (safe : safeNextPath value = some next) : safeNextPath (some next) = some next := by
  obtain ⟨rfl, _⟩ := accepted safe
  exact safe

theorem not_tabOrNewline {c : Char} (kept : isControlOrSpace c = false) : isTabOrNewline c = false := by
  have other : ∀ d : Char, isControlOrSpace d = true → c ≠ d := by
    rintro d control rfl
    rw [kept] at control
    cases control
  simp [isTabOrNewline, other '\t' (by decide), other '\n' (by decide), other '\r' (by decide)]

theorem Local.stripped (local_ : Local next) : stripped next = next := by
  have kept : ∀ c ∈ next, isControlOrSpace c = false := by
    intro c member
    have high := local_.printable c member
    simp [isControlOrSpace]
    omega
  have whole : Sequence.trimmed isControlOrSpace next = next :=
    Sequence.trimmed_eq_self ⟨fun c first => kept c (List.mem_of_mem_head? first),
      fun c last => kept c (List.mem_of_mem_getLast? last)⟩
  rw [Urls.stripped, whole, List.filter_eq_self]
  intro c member
  rw [not_tabOrNewline (kept c member), Bool.not_false]

theorem cut_slash (mark : Char) (other : '/' ≠ mark) {rest : List Char} (single : ∀ c ∈ rest.head?, isSlash c = false) :
    ∃ rest', (cut mark ('/' :: rest)).1 = '/' :: rest' ∧ ∀ c ∈ rest'.head?, isSlash c = false := by
  refine ⟨rest.takeWhile (· ≠ mark), by simp [cut, other], fun c first => ?_⟩
  cases rest with
  | nil => cases first
  | cons second rest =>
      by_cases stops : second = mark
      · simp [stops] at first
      · rw [List.takeWhile_cons_of_pos (by simpa using stops)] at first
        exact single c first

variable {Host : Type} (standard : Standard Host) (base : Base Host)

/-- A path behind one slash stays with the base. -/
theorem schemeStart_slash {rest : List Char} (single : ∀ c ∈ rest.head?, isSlash c = false) :
    schemeStart standard base ('/' :: rest) =
      some { base.url with path := pathState [] rest, query := none, fragment := none } := by
  have noScheme : ¬(('/' :: rest).head?.any Char.isAlpha ∧ (('/' :: rest).dropWhile isSchemeChar).head? = some ':') := by
    rintro ⟨letter, _⟩
    have other : '/'.isAlpha = false := by decide
    rw [List.head?_cons, Option.any_some, other] at letter
    cases letter
  have slash : isSlash '/' = true := by decide
  have alone : ¬rest.head?.any isSlash = true := by
    intro second
    cases first : rest.head? with
    | none => simp [first] at second
    | some c =>
        rw [first, Option.any_some, single c first] at second
        cases second
  rw [schemeStart, if_neg noScheme, relative, if_pos slash, relativeSlash, if_neg alone]

theorem Local.resolves (local_ : Local next) : ∃ url, resolve standard base next = some url ∧
    url.origin = base.url.origin := by
  obtain ⟨rest, rfl, single⟩ := local_.slash
  obtain ⟨rest', whole, single'⟩ := cut_slash '#' (by decide) single
  obtain ⟨rest'', whole', single''⟩ := cut_slash '?' (by decide) single'
  have started := schemeStart_slash standard base single''
  unfold resolve
  rw [local_.stripped]
  dsimp only
  rw [whole, whole', started]
  exact ⟨_, rfl, rfl⟩

end Accepted

section Links

variable {path : List Char} {next : List Char}

/-- Whatever is stripped of a link stands before its query. -/
theorem stripped_link {tail : List Char} (printable : ∀ c ∈ tail, 0x20 < c.toNat) (path : List Char) :
    ∃ path', stripped (path ++ '?' :: tail) = path' ++ '?' :: tail ∧ ∀ c ∈ path', c ∈ path := by
  have kept : ∀ c ∈ '?' :: tail, isControlOrSpace c = false := by
    intro c member
    have high : 0x20 < c.toNat := by
      rcases List.mem_cons.mp member with rfl | later
      · decide
      · exact printable c later
    simp [isControlOrSpace]
    omega
  have front : (path ++ '?' :: tail).dropWhile isControlOrSpace = path.dropWhile isControlOrSpace ++ '?' :: tail := by
    induction path with
    | nil => exact Sequence.dropWhile_eq_self fun c first => kept c (List.mem_of_mem_head? first)
    | cons c rest ih =>
        by_cases drops : isControlOrSpace c = true
        · rw [List.cons_append, List.dropWhile_cons_of_pos drops, List.dropWhile_cons_of_pos drops, ih]
        · rw [List.cons_append, List.dropWhile_cons_of_neg drops, List.dropWhile_cons_of_neg drops, List.cons_append]
  have back : (path.dropWhile isControlOrSpace ++ '?' :: tail).reverse.dropWhile isControlOrSpace =
      (path.dropWhile isControlOrSpace ++ '?' :: tail).reverse := by
    refine Sequence.dropWhile_eq_self fun c last => kept c ?_
    rw [List.head?_reverse, List.getLast?_append_of_ne_nil _ (by simp)] at last
    exact List.mem_of_mem_getLast? last
  have whole : ('?' :: tail).filter (fun c => !isTabOrNewline c) = '?' :: tail :=
    List.filter_eq_self.mpr fun c member => by rw [not_tabOrNewline (kept c member), Bool.not_false]
  refine ⟨(path.dropWhile isControlOrSpace).filter fun c => !isTabOrNewline c, ?_, ?_⟩
  · rw [stripped, Sequence.trimmed, front, back, List.reverse_reverse, List.filter_append, whole]
  · intro c member
    exact (List.dropWhile_suffix _).subset (List.mem_filter.mp member).1

theorem cut_absent {mark : Char} {text : List Char} (absent : mark ∉ text) : cut mark text = (text, none) := by
  have kept : ∀ c ∈ text, (decide (c ≠ mark)) = true := fun c member => decide_eq_true fun same => absent (same ▸ member)
  have taken : text.takeWhile (· ≠ mark) = text := List.takeWhile_eq_self_iff.mpr kept
  have dropped : text.dropWhile (· ≠ mark) = [] := List.dropWhile_eq_nil_iff.mpr kept
  rw [cut, taken, dropped]
  rfl

theorem cut_at {mark : Char} {text tail : List Char} (absent : mark ∉ text) :
    cut mark (text ++ mark :: tail) = (text, some tail) := by
  have kept : ∀ c ∈ text, (decide (c ≠ mark)) = true := fun c member => decide_eq_true fun same => absent (same ▸ member)
  rw [cut, List.takeWhile_append_of_pos kept, List.dropWhile_append_of_pos kept]
  simp

def written (next : List Char) : List Char := NEXT_PARAM.toList ++ '=' :: percentEncode isUriMark next

theorem mem_written {c : Char} (member : c ∈ written next) : isUriMark c = true ∨ c = '=' ∨ c = '%' ∨ c ∈ hexDigits := by
  rcases List.mem_append.mp member with name | rest
  · have letters : NEXT_PARAM.toList.all isUriMark = true := by decide +kernel
    exact Or.inl (List.all_eq_true.mp letters c name)
  · rcases List.mem_cons.mp rest with rfl | value
    · exact Or.inr (Or.inl rfl)
    · rcases mem_percentEncode value with kept | sign | digit
      · exact Or.inl kept
      · exact Or.inr (Or.inr (Or.inl sign))
      · exact Or.inr (Or.inr (Or.inr digit))

theorem uriMark_printable {c : Char} (mark : isUriMark c = true) : 0x20 < c.toNat := by
  have low : ∀ n ≤ 0x20, isUriMark (Char.ofNat n) = false := by decide +kernel
  by_contra control
  have here := low c.toNat (by omega)
  rw [Char.ofNat_toNat, mark] at here
  cases here

theorem written_printable : ∀ c ∈ written next, 0x20 < c.toNat := by
  intro c member
  rcases mem_written member with mark | rfl | rfl | digit
  · exact uriMark_printable mark
  · decide
  · decide
  · have digits : hexDigits.all (fun c => decide (0x20 < c.toNat)) = true := by decide
    simpa using List.all_eq_true.mp digits c digit

theorem written_avoids {d : Char} (mark : isUriMark d = false) (equals : d ≠ '=') (sign : d ≠ '%')
    (digits : d ∉ hexDigits) :
    d ∉ written next := by
  intro member
  rcases mem_written member with kept | same | same | digit
  · rw [mark] at kept
    cases kept
  · exact equals same
  · exact sign same
  · exact digits digit

/-- What a URL keeps of the parameter: an apostrophe may be escaped as well. -/
def keepsInParam (special : Bool) (c : Char) : Bool := isUriMark c && keepsInQuery special c

theorem encode_written (special : Bool) (next : List Char) : percentEncode (keepsInQuery special) (written next) =
    NEXT_PARAM.toList ++ '=' :: percentEncode (keepsInParam special) next := by
  have sign : keepsInQuery special '%' = true := by cases special <;> decide
  have digits : ∀ c ∈ hexDigits, keepsInQuery special c = true := by
    have all : ∀ special, hexDigits.all (keepsInQuery special) = true := by decide
    exact List.all_eq_true.mp (all special)
  have name : percentEncode (keepsInQuery special) (NEXT_PARAM.toList ++ ['=']) = NEXT_PARAM.toList ++ ['='] := by
    cases special <;> decide +kernel
  have whole : written next = (NEXT_PARAM.toList ++ ['=']) ++ percentEncode isUriMark next := by simp [written]
  rw [whole, percentEncode, List.flatMap_append]
  change percentEncode (keepsInQuery special) (NEXT_PARAM.toList ++ ['=']) ++
    percentEncode (keepsInQuery special) (percentEncode isUriMark next) = _
  rw [name, percentEncode_twice sign digits, List.append_assoc]
  rfl

/-- Any query encoding leaves the parameter readable. -/
theorem parse_written (special : Bool) (next : List Char) :
    parse (percentEncode (keepsInQuery special) (written next)) = some [(NEXT_PARAM, .ofList next)] := by
  have escapes : ∀ c, isUriMark c = false → keepsInParam special c = false := by
    intro c unkept
    rw [keepsInParam, unkept, Bool.false_and]
  have name : decodeForm NEXT_PARAM.toList = some NEXT_PARAM.toList := by
    have plain : percentEncode isUriMark NEXT_PARAM.toList = NEXT_PARAM.toList := by decide +kernel
    have read : decodeForm (percentEncode isUriMark NEXT_PARAM.toList) = some NEXT_PARAM.toList :=
      decodeForm_percentEncode (by decide) (by decide) NEXT_PARAM.toList
    rwa [plain] at read
  have value : decodeForm (percentEncode (keepsInParam special) next) = some next :=
    decodeForm_percentEncode (escapes '%' (by decide)) (escapes '+' (by decide)) next
  have one : '&' ∉ NEXT_PARAM.toList ++ '=' :: percentEncode (keepsInParam special) next := by
    intro member
    rcases List.mem_append.mp member with name | rest
    · exact absurd name (by decide +kernel)
    · rcases List.mem_cons.mp rest with same | value
      · exact absurd same (by decide)
      · rcases mem_percentEncode value with kept | same | digit
        · rw [escapes '&' (by decide)] at kept
          cases kept
        · exact absurd same (by decide)
        · exact absurd digit (by decide)
  have param : parseParam (NEXT_PARAM.toList ++ '=' :: percentEncode (keepsInParam special) next) =
      some (NEXT_PARAM, .ofList next) := by
    have clear : ∀ c ∈ NEXT_PARAM.toList, (decide (c ≠ '=')) = true := by
      have all : NEXT_PARAM.toList.all (fun c => decide (c ≠ '=')) = true := by decide +kernel
      exact List.all_eq_true.mp all
    unfold parseParam
    rw [List.takeWhile_append_of_pos clear, List.dropWhile_append_of_pos clear]
    simp [name, value]
  have first : (NEXT_PARAM.toList ++ '=' :: percentEncode (keepsInParam special) next).head? ≠ some '?' := by
    have letter : NEXT_PARAM.toList.head? = some 'n' := by decide +kernel
    rw [List.head?_append, letter]
    simp
  have pieces : (NEXT_PARAM.toList ++ '=' :: percentEncode (keepsInParam special) next).splitOn '&' =
      [NEXT_PARAM.toList ++ '=' :: percentEncode (keepsInParam special) next] := by
    have split : (['&'].intercalate [NEXT_PARAM.toList ++ '=' :: percentEncode (keepsInParam special) next]).splitOn '&' =
        [NEXT_PARAM.toList ++ '=' :: percentEncode (keepsInParam special) next] :=
      List.splitOn_intercalate '&' (by simpa using one) (by simp)
    rwa [List.intercalate_singleton] at split
  rw [encode_written, parse, if_neg first, pieces]
  simp [param]

theorem Local.link (local_ : Local path) (next : List Char) : Local (path ++ '?' :: written next) := by
  obtain ⟨rest, rfl, single⟩ := local_.slash
  refine ⟨?_, rest ++ '?' :: written next, rfl, ?_⟩
  · intro c member
    rcases List.mem_append.mp member with front | tail
    · exact local_.printable c front
    · rcases List.mem_cons.mp tail with rfl | param
      · decide
      · exact written_printable c param
  · intro c first
    cases rest with
    | nil =>
        obtain rfl : '?' = c := by simpa using first
        decide
    | cons second rest => exact single c first

variable {Host : Type} {standard : Standard Host} {base : Base Host} {url : Url Host}

/-- The query of a link is what was written, wherever the link leads. -/
theorem query_link (query : '?' ∉ path) (fragment : '#' ∉ path)
    (resolved : resolve standard base (path ++ '?' :: written next) = some url) :
    ∃ special, url.query = some (percentEncode (keepsInQuery special) (written next)) := by
  obtain ⟨path', whole, inside⟩ := stripped_link written_printable path
  have clear : '#' ∉ path' ++ '?' :: written next := by
    intro member
    rcases List.mem_append.mp member with front | rest
    · exact fragment (inside _ front)
    · rcases List.mem_cons.mp rest with same | param
      · exact absurd same (by decide)
      · exact written_avoids (by decide) (by decide) (by decide) (by decide) param
  have before : '?' ∉ path' := fun member => query (inside _ member)
  unfold resolve at resolved
  rw [whole, cut_absent clear] at resolved
  dsimp only at resolved
  rw [cut_at before] at resolved
  obtain ⟨_, _, rfl⟩ := Option.map_eq_some_iff.mp resolved
  exact ⟨_, rfl⟩

theorem nextOf_link (query : '?' ∉ path) (fragment : '#' ∉ path)
    (resolved : resolve standard base (path ++ '?' :: written next) = some url) : nextOf url = some next := by
  obtain ⟨special, same⟩ := query_link query fragment resolved
  have found : TaskQuery.get [(NEXT_PARAM, String.ofList next)] NEXT_PARAM = some (.ofList next) := by simp [TaskQuery.get]
  rw [nextOf, same, Option.bind_some, parse_written, Option.bind_some, found]
  simp

end Links

/-- A destination that is accepted leads to the origin of the page. A link that carries it gives it back, to be
accepted again; from a path of the site there is such a page. -/
theorem next_stays_on_site {Host : Type} (standard : Standard Host) (base : Base Host) (value : Option (List Char))
    (next : List Char) (safe : safeNextPath value = some next) :
    (∃ url, resolve standard base next = some url ∧ url.origin = base.url.origin) ∧
      ∀ path, '?' ∉ path → '#' ∉ path →
        (∀ url, resolve standard base (withNextParam path (some next)) = some url →
          nextOf url = some next ∧ safeNextPath (nextOf url) = some next) ∧
        (safeNextPath (some path) = some path → ∃ url, resolve standard base (withNextParam path (some next)) =
          some url) := by
  have again := safeNextPath_again safe
  have link : ∀ path, withNextParam path (some next) = path ++ '?' :: written next := by
    intro path
    rw [withNextParam, again]
    rfl
  refine ⟨(accepted safe).2.resolves standard base, fun path query fragment => ⟨fun url resolved => ?_, fun rooted => ?_⟩⟩
  · rw [link] at resolved
    have read := nextOf_link query fragment resolved
    exact ⟨read, read ▸ again⟩
  · obtain ⟨url, resolved, _⟩ := ((accepted rooted).2.link next).resolves standard base
    exact ⟨url, link path ▸ resolved⟩

/-- A standard that takes a host as it is, and a page on it. -/
def plainStandard : Standard (List Char) := ⟨some, fun _ _ => none⟩

def loginPage : Base (List Char) where
  url := {
    scheme := "https".toList
    username := []
    password := []
    host := "kurul.example".toList
    port := none
    path := ["login".toList]
    query := none
    fragment := none }
  web := Or.inr rfl

theorem next_stays_on_site_invite : safeNextPath (some "/invite/1?a=b'c".toList) = some "/invite/1?a=b'c".toList ∧
    (∃ url, resolve plainStandard loginPage "/invite/1?a=b'c".toList = some url ∧ url.origin = loginPage.url.origin) ∧
      ∀ path, '?' ∉ path → '#' ∉ path →
        (∀ url, resolve plainStandard loginPage (withNextParam path (some "/invite/1?a=b'c".toList)) = some url →
          nextOf url = some "/invite/1?a=b'c".toList ∧ safeNextPath (nextOf url) = some "/invite/1?a=b'c".toList) ∧
        (safeNextPath (some path) = some path →
          ∃ url, resolve plainStandard loginPage (withNextParam path (some "/invite/1?a=b'c".toList)) = some url) := by
  have safe : safeNextPath (some "/invite/1?a=b'c".toList) = some "/invite/1?a=b'c".toList := by decide +kernel
  exact ⟨safe, next_stays_on_site plainStandard loginPage _ _ safe⟩

end Kurul.Client.AuthRedirect
