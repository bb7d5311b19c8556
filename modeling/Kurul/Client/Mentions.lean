import Kurul.Encoding.Utf16
import Kurul.Import.TrelloExport
import Kurul.Sequence.Links
import Kurul.Task.Redaction

/-! Mentions in the editor: text in code units, the markup that picking a member inserts, and the reading of
it back. -/
namespace Kurul.Client.Mentions

open Encoding (Unit16 toUnit)
open Sequence (LinkForm)
open Trello (isSpace)

abbrev Text := List Unit16

def unit (c : Char) : Unit16 := toUnit c.toNat

def toText (text : String) : Text := text.toList.map unit

/-- A class of ASCII characters as one of code units. -/
def unitClass (class_ : Char → Bool) (u : Unit16) : Bool := u.val < 128 && class_ (Char.ofNat u.val)

def fits : List (Char → Bool) → Text → Bool
  | [], [] => true
  | class_ :: classes, u :: text => unitClass class_ u && fits classes text
  | _, _ => false

/-- What stands behind `@[`. -/
def behindOpening : Text → Option Text
  | a :: b :: rest => if a = unit '@' ∧ b = unit '[' then some rest else none
  | _ => none

/-- `MENTION_RE` at the head of a text: the name, the id, and what follows. -/
def matchMention (text : Text) : Option (Text × Text × Text) := do
  let rest ← behindOpening text
  let name := rest.takeWhile (· ≠ unit ']')
  let after := rest.drop name.length
  let id := (after.drop 2).take uuidClasses.length
  if name.length ≤ MAX_MENTION_NAME ∧ after.take 2 = [unit ']', unit '('] ∧ fits uuidClasses id ∧
      (after.drop (2 + uuidClasses.length)).head? = some (unit ')') then
    some (name, id, after.drop (3 + uuidClasses.length))
  else none

/-- A match, and the places where it begins and ends. -/
structure Match where
  index : Nat
  name : Text
  userId : Text
  stop : Nat
deriving DecidableEq

/-- `matchAll`; `skip` units belong to the match before. -/
def matchAll : (skip index : Nat) → Text → List Match
  | _, _, [] => []
  | skip + 1, index, _ :: rest => matchAll skip (index + 1) rest
  | 0, index, u :: rest =>
      match matchMention (u :: rest) with
      | some found =>
          ⟨index, found.1, found.2.1, index + (rest.length + 1 - found.2.2.length)⟩ ::
            matchAll (rest.length - found.2.2.length) (index + 1) rest
      | none => matchAll 0 (index + 1) rest

/-- A `Set` of the ids, in the order they are met. -/
def parseMentions (body : Text) : List Text := ((matchAll 0 0 body).map Match.userId).eraseDups

inductive MentionToken where
  | text (text : Text)
  | mention (name userId : Text)
deriving DecidableEq

def slice (text : Text) (start stop : Nat) : Text := (text.take stop).drop start

def tokensFrom (body : Text) : (lastIndex : Nat) → List Match → List MentionToken
  | lastIndex, [] => if lastIndex < body.length then [.text (body.drop lastIndex)] else []
  | lastIndex, found :: rest =>
      (if found.index > lastIndex then [.text (slice body lastIndex found.index)] else []) ++
        .mention found.name found.userId :: tokensFrom body found.stop rest

def tokenizeMentions (body : Text) : List MentionToken := tokensFrom body 0 (matchAll 0 0 body)

def formatMentionMarkup (name userId : Text) : Text :=
  unit '@' :: unit '[' :: (name ++ unit ']' :: unit '(' :: (userId ++ [unit ')']))

/-- The start of an `@query` that ends at the cursor. -/
def getActiveMentionQuery (value : Text) (cursor : Nat) : Option Nat := do
  let before := value.take cursor
  let behind ← before.reverse.idxOf? (unit '@')
  let atIndex := before.length - 1 - behind
  if before[atIndex + 1]? = some (unit '[') then none
  else if before[atIndex - 1]?.any
    (fun prev => 0 < atIndex && !(isSpace prev || [unit '(', unit '[', unit '{'].contains prev)) then
    none
  else if (before.drop (atIndex + 1)).any isSpace then none
  else some atIndex

/-- The text with the markup in it, and the cursor behind. -/
structure Insertion where
  value : Text
  cursor : Nat
deriving DecidableEq

def insertMentionMarkup (value : Text) (selectionStart selectionEnd : Nat) (name userId : Text) : Insertion :=
  let markup := formatMentionMarkup name userId ++ [unit ' ']
  match getActiveMentionQuery value selectionStart with
  | some start => ⟨value.take start ++ markup ++ value.drop selectionEnd, start + markup.length⟩
  | none => ⟨value.take selectionStart ++ markup ++ value.drop selectionEnd, selectionStart + markup.length⟩

section Form

theorem fits_length {classes : List (Char → Bool)} {id : Text} (fit : fits classes id = true) :
    id.length = classes.length := by
  induction classes generalizing id with
  | nil =>
      cases id with
      | nil => rfl
      | cons u id => cases fit
  | cons class_ classes ih =>
      cases id with
      | nil => cases fit
      | cons u id =>
          obtain ⟨_, fit⟩ := Bool.and_eq_true_iff.mp fit
          rw [List.length_cons, List.length_cons, ih fit]

theorem fits_class {classes : List (Char → Bool)} {id : Text} (fit : fits classes id = true) :
    ∀ u ∈ id, ∃ class_ ∈ classes, unitClass class_ u = true := by
  induction classes generalizing id with
  | nil =>
      cases id with
      | nil => simp
      | cons u id => cases fit
  | cons class_ classes ih =>
      cases id with
      | nil => simp
      | cons u id =>
          obtain ⟨here, later⟩ := Bool.and_eq_true_iff.mp fit
          intro v member
          rcases List.mem_cons.mp member with rfl | member
          · exact ⟨class_, List.mem_cons_self, here⟩
          · obtain ⟨other, listed, theirs⟩ := ih later v member
            exact ⟨other, List.mem_cons_of_mem _ listed, theirs⟩

/-- An id holds none of the signs around it. -/
theorem notMem_id {c : Char} (sign : Redaction.isIdChar c = false) (ascii : c.toNat < 128) {id : Text}
    (fit : fits uuidClasses id = true) : unit c ∉ id := by
  intro member
  obtain ⟨class_, listed, theirs⟩ := fits_class fit (unit c) member
  have whole : (unit c).val = c.toNat := Nat.mod_eq_of_lt (by omega)
  rw [unitClass, whole, Char.ofNat_toNat] at theirs
  have idChar := Redaction.class_idChar listed (Bool.and_eq_true_iff.mp theirs).2
  rw [sign] at idChar
  cases idChar

/-- The form of a mention, in code units. -/
def mentionForm : LinkForm Unit16 where
  at_ := unit '@'
  opening := unit '['
  closing := unit ']'
  left := unit '('
  right := unit ')'
  Named name := name.length ≤ MAX_MENTION_NAME
  Fits id := fits uuidClasses id = true
  at_apart := by decide
  closing_apart := by decide
  plain _ fit := ⟨notMem_id (by decide) (by decide) fit, notMem_id (by decide) (by decide) fit,
    notMem_id (by decide) (by decide) fit⟩

variable {text name id rest : Text}

theorem link_eq (name id rest : Text) : mentionForm.link name id ++ rest =
    unit '@' :: unit '[' :: (name ++ unit ']' :: unit '(' :: (id ++ unit ')' :: rest)) := by
  simp [LinkForm.link, LinkForm.ending, mentionForm]

theorem format_eq (name id : Text) : formatMentionMarkup name id = mentionForm.link name id := by
  simp [formatMentionMarkup, LinkForm.link, LinkForm.ending, mentionForm]

theorem behindOpening_iff : behindOpening text = some rest ↔ text = unit '@' :: unit '[' :: rest := by
  constructor
  · intro opened
    unfold behindOpening at opened
    split at opened
    · obtain ⟨⟨rfl, rfl⟩, same⟩ := Option.ite_none_right_eq_some.mp opened
      cases same
      rfl
    · cases opened
  · rintro rfl
    simp [behindOpening]

theorem matchMention_iff : matchMention text = some (name, id, rest) ↔
    mentionForm.Valid name id ∧ text = mentionForm.link name id ++ rest := by
  constructor
  · intro matched
    obtain ⟨inner, opened, matched⟩ := Option.bind_eq_some_iff.mp matched
    obtain rfl := behindOpening_iff.mp opened
    obtain ⟨⟨short, marks, fit, ended⟩, same⟩ := Option.ite_none_right_eq_some.mp matched
    obtain ⟨rfl, rest_⟩ := Prod.mk.inj (Option.some.inj same)
    obtain ⟨rfl, rfl⟩ := Prod.mk.inj rest_
    have first : inner.take (inner.takeWhile (· ≠ unit ']')).length = inner.takeWhile (· ≠ unit ']') :=
      (List.prefix_iff_eq_take.mp (List.takeWhile_prefix _)).symm
    have closed : unit ']' ∉ inner.takeWhile (· ≠ unit ']') := fun member => by
      simpa using List.mem_takeWhile_imp member
    generalize inner.takeWhile (· ≠ unit ']') = name at *
    refine ⟨⟨closed, short, fit⟩, ?_⟩
    have parts : inner = name ++ inner.drop name.length := by
      have both := List.take_append_drop name.length inner
      rw [first] at both
      exact both.symm
    generalize inner.drop name.length = after at *
    have afterParts : after = unit ']' :: unit '(' :: after.drop 2 := by
      have both := List.take_append_drop 2 after
      rw [marks] at both
      exact both.symm
    have ending : (after.drop 2).drop uuidClasses.length = unit ')' :: after.drop (3 + uuidClasses.length) := by
      obtain ⟨more, same⟩ := List.head?_eq_some_iff.mp ended
      rw [List.drop_drop, same]
      have next := congrArg (List.drop 1) same
      rw [List.drop_drop] at next
      rw [← Nat.add_right_comm] at next
      exact congrArg (unit ')' :: ·) next.symm
    have idParts := List.take_append_drop uuidClasses.length (after.drop 2)
    rw [ending] at idParts
    rw [link_eq, idParts, ← afterParts, ← parts]
  · rintro ⟨valid, rfl⟩
    have closed : unit ']' ∉ name := valid.closed
    have clear : ∀ u ∈ name, (decide (u ≠ unit ']')) = true := by
      intro u member
      exact decide_eq_true fun same => closed (same ▸ member)
    have length : uuidClasses.length = id.length := (fits_length valid.fits).symm
    have opened := behindOpening_iff.mpr (link_eq name id rest)
    have cut : (name ++ unit ']' :: unit '(' :: (id ++ unit ')' :: rest)).takeWhile (· ≠ unit ']') = name := by
      rw [List.takeWhile_append_of_pos clear]
      simp
    have idCut : (List.drop 2 (unit ']' :: unit '(' :: (id ++ unit ')' :: rest))).take id.length = id := List.take_left
    have endCut : List.drop (2 + id.length) (unit ']' :: unit '(' :: (id ++ unit ')' :: rest)) = unit ')' :: rest := by
      rw [Nat.add_comm]
      exact List.drop_left
    have restCut : List.drop (3 + id.length) (unit ']' :: unit '(' :: (id ++ unit ')' :: rest)) = rest := by
      have next := congrArg (List.drop 1) endCut
      rw [List.drop_drop] at next
      rw [← Nat.add_right_comm] at next
      exact next
    rw [matchMention, opened]
    simp only [Option.bind_eq_bind, Option.bind_some, cut, List.drop_left, length, idCut, endCut, restCut]
    exact if_pos ⟨valid.named, rfl, valid.fits, rfl⟩

end Form

section Reading

variable {plain tail text name id rest : Text} {index : Nat}

theorem matchMention_none : matchMention text = none ↔ ¬mentionForm.Starts text := by
  constructor
  · rintro none_ ⟨name, id, rest, valid, same⟩
    rw [matchMention_iff.mpr ⟨valid, same⟩] at none_
    cases none_
  · intro still
    rw [Option.eq_none_iff_forall_ne_some]
    rintro ⟨name, id, rest⟩ matched
    obtain ⟨valid, same⟩ := matchMention_iff.mp matched
    exact still ⟨name, id, rest, valid, same⟩

theorem matchAll_skip (before after : Text) (index : Nat) :
    matchAll before.length index (before ++ after) = matchAll 0 (index + before.length) after := by
  induction before generalizing index with
  | nil => rfl
  | cons u before ih =>
      rw [List.length_cons, List.cons_append, matchAll, ih]
      congr 1
      omega

theorem matchAll_silent (silent : ∀ s, s <:+ plain → s ≠ [] → ¬mentionForm.Starts (s ++ tail)) :
    matchAll 0 index (plain ++ tail) = matchAll 0 (index + plain.length) tail := by
  induction plain generalizing index with
  | nil => rfl
  | cons u plain ih =>
      have none_ : matchMention (u :: (plain ++ tail)) = none :=
        matchMention_none.mpr (silent (u :: plain) List.suffix_rfl (by simp))
      rw [List.cons_append, matchAll, none_]
      dsimp only
      rw [ih fun s ends => silent s (ends.trans (List.suffix_cons u plain)), List.length_cons]
      congr 1
      omega

theorem matchAll_link (valid : mentionForm.Valid name id) : matchAll 0 index (mentionForm.link name id ++ rest) =
    ⟨index, name, id, index + (mentionForm.link name id).length⟩ ::
      matchAll 0 (index + (mentionForm.link name id).length) rest := by
  have matched : matchMention (mentionForm.link name id ++ rest) = some (name, id, rest) :=
    matchMention_iff.mpr ⟨valid, rfl⟩
  obtain ⟨inner, whole⟩ : ∃ inner, mentionForm.link name id = unit '@' :: inner := ⟨_, rfl⟩
  rw [whole, List.cons_append] at matched ⊢
  rw [matchAll, matched]
  dsimp only
  have skipped : (inner ++ rest).length - rest.length = inner.length := by simp
  have length : (inner ++ rest).length + 1 - rest.length = (unit '@' :: inner).length := by
    simp
    omega
  rw [skipped, length, matchAll_skip, List.length_cons, Nat.add_assoc, Nat.add_comm 1]

/-- A match moved to a later place. -/
def moved (n : Nat) (found : Match) : Match := { found with index := n + found.index, stop := n + found.stop }

theorem matchAll_moved (skip n index : Nat) (text : Text) :
    matchAll skip (n + index) text = (matchAll skip index text).map (moved n) := by
  induction text generalizing skip index with
  | nil => cases skip <;> rfl
  | cons u rest ih =>
      cases skip with
      | succ skip =>
          rw [matchAll, matchAll, Nat.add_assoc, ih]
      | zero =>
          rw [matchAll, matchAll]
          cases matchMention (u :: rest) with
          | none =>
              dsimp only
              rw [Nat.add_assoc, ih]
          | some found =>
              dsimp only
              rw [Nat.add_assoc n index 1, ih, List.map_cons, moved, Nat.add_assoc n index]

theorem matchAll_quiet (quiet : mentionForm.Quiet plain) : matchAll 0 0 plain = [] := by
  have silent : ∀ s, s <:+ plain → s ≠ [] → ¬mentionForm.Starts (s ++ []) := by
    intro s ends _
    rw [List.append_nil]
    exact quiet s ends
  have read : matchAll 0 0 (plain ++ []) = matchAll 0 (0 + plain.length) [] := matchAll_silent silent
  rw [List.append_nil] at read
  rw [read, matchAll]

theorem matchAll_first (quiet : mentionForm.Quiet plain) (free : ¬mentionForm.Swallows plain name)
    (valid : mentionForm.Valid name id) : matchAll 0 0 (plain ++ (mentionForm.link name id ++ rest)) =
      ⟨plain.length, name, id, plain.length + (mentionForm.link name id).length⟩ ::
        (matchAll 0 0 rest).map (moved (plain.length + (mentionForm.link name id).length)) := by
  rw [matchAll_silent fun _ ends some_ => quiet.before free valid ends some_, Nat.zero_add, matchAll_link valid]
  exact congrArg _ (matchAll_moved 0 _ 0 rest)

def markOf (found : Match) : LinkForm.Mark Unit16 := (found.index, found.name, found.userId)

def marks (text : Text) : List (LinkForm.Mark Unit16) := (matchAll 0 0 text).map markOf

theorem marks_reads : mentionForm.Reads marks where
  quiet plain quiet := by
    rw [marks, matchAll_quiet quiet]
    rfl
  link plain name id rest quiet free valid := by
    rw [marks, matchAll_first quiet free valid, List.map_cons, List.map_map, marks, List.map_map]
    rfl

end Reading

section Tokens

def plainToken (plain : Text) : List MentionToken := if plain = [] then [] else [.text plain]

/-- The mentions that are shown, each with its place in the text. -/
def shown : (offset : Nat) → List MentionToken → List (LinkForm.Mark Unit16)
  | _, [] => []
  | offset, .text text :: rest => shown (offset + text.length) rest
  | offset, .mention name userId :: rest =>
      (offset, name, userId) :: shown (offset + (formatMentionMarkup name userId).length) rest

variable {before body plain name id rest : Text}

theorem slice_moved (start stop : Nat) :
    slice (before ++ body) (before.length + start) (before.length + stop) = slice body start stop := by
  rw [slice, List.take_length_add_append, List.drop_length_add_append]
  rfl

theorem tokensFrom_moved (last : Nat) (found : List Match) :
    tokensFrom (before ++ body) (before.length + last) (found.map (moved before.length)) = tokensFrom body last found := by
  induction found generalizing last with
  | nil =>
      rw [List.map_nil, tokensFrom, tokensFrom, List.length_append, List.drop_length_add_append]
      simp only [Nat.add_lt_add_iff_left]
  | cons first rest ih =>
      rw [List.map_cons, tokensFrom, tokensFrom]
      simp only [moved, ih, slice_moved, gt_iff_lt, Nat.add_lt_add_iff_left]

theorem tokenize_quiet (quiet : mentionForm.Quiet plain) : tokenizeMentions plain = plainToken plain := by
  rw [tokenizeMentions, matchAll_quiet quiet, tokensFrom]
  cases plain with
  | nil => rfl
  | cons u plain => simp [plainToken]

theorem tokenize_first (quiet : mentionForm.Quiet plain) (free : ¬mentionForm.Swallows plain name)
    (valid : mentionForm.Valid name id) : tokenizeMentions (plain ++ (mentionForm.link name id ++ rest)) =
      plainToken plain ++ .mention name id :: tokenizeMentions rest := by
  have later : tokensFrom ((plain ++ mentionForm.link name id) ++ rest) ((plain ++ mentionForm.link name id).length + 0)
      ((matchAll 0 0 rest).map (moved (plain ++ mentionForm.link name id).length)) = tokenizeMentions rest :=
    tokensFrom_moved 0 _
  rw [List.length_append, Nat.add_zero, List.append_assoc] at later
  have first : slice (plain ++ (mentionForm.link name id ++ rest)) 0 plain.length = plain := by
    rw [slice, List.take_left, List.drop_zero]
  rw [tokenizeMentions, matchAll_first quiet free valid, tokensFrom, later, first]
  cases plain with
  | nil => rfl
  | cons u plain => simp [plainToken]

theorem shown_plain (offset : Nat) (tokens : List MentionToken) :
    shown offset (plainToken plain ++ tokens) = shown (offset + plain.length) tokens := by
  cases plain with
  | nil => rfl
  | cons u plain => simp [plainToken, shown]

/-- The mentions are shown where they are matched. -/
theorem shown_tokenize (offset : Nat) (text : Text) :
    shown offset (tokenizeMentions text) = (marks text).map (LinkForm.shift offset) := by
  induction text using LinkForm.link_induction (F := mentionForm) generalizing offset with
  | quiet plain quiet =>
      have read : shown offset (plainToken plain ++ []) = shown (offset + plain.length) [] := shown_plain offset []
      rw [List.append_nil] at read
      rw [tokenize_quiet quiet, read, marks_reads.quiet plain quiet]
      rfl
  | link_ plain name id rest quiet free valid ih =>
      rw [tokenize_first quiet free valid, shown_plain, shown, ih, marks_reads.link plain name id rest quiet free valid,
        List.map_cons, List.map_map, LinkForm.shift_shift, format_eq, Nat.add_assoc]
      rfl

theorem shown_eq (text : Text) : shown 0 (tokenizeMentions text) = marks text := by
  rw [shown_tokenize]
  refine (List.map_congr_left fun mark _ => ?_).trans (List.map_id _)
  simp [LinkForm.shift]

theorem parsed_of_mark {k : Nat} (found : (k, name, id) ∈ marks body) : id ∈ parseMentions body := by
  obtain ⟨match_, member, same⟩ := List.mem_map.mp found
  cases same
  rw [parseMentions, List.mem_eraseDups]
  exact List.mem_map_of_mem member

end Tokens

section Insertion

/-- Where the markup is put: for an active query at its start, else at the selection. -/
def insertionStart (value : Text) (selectionStart : Nat) : Nat :=
  (getActiveMentionQuery value selectionStart).getD selectionStart

variable {value name userId : Text} {selectionStart selectionEnd : Nat}

theorem insert_eq : insertMentionMarkup value selectionStart selectionEnd name userId =
    ⟨value.take (insertionStart value selectionStart) ++
        (mentionForm.link name userId ++ unit ' ' :: value.drop selectionEnd),
      insertionStart value selectionStart + (mentionForm.link name userId ++ [unit ' ']).length⟩ := by
  unfold insertMentionMarkup insertionStart
  rw [format_eq]
  cases getActiveMentionQuery value selectionStart <;> simp

theorem insertionStart_le : insertionStart value selectionStart ≤ selectionStart := by
  unfold insertionStart
  cases active : getActiveMentionQuery value selectionStart with
  | none => exact Nat.le_refl _
  | some start =>
      obtain ⟨behind, _, rest⟩ := Option.bind_eq_some_iff.mp active
      have length : (value.take selectionStart).length ≤ selectionStart := List.length_take_le _ _
      dsimp only at rest
      split at rest
      · cases rest
      · split at rest
        · cases rest
        · split at rest
          · cases rest
          · cases rest
            simp only [Option.getD_some]
            omega

/-- What inserting a mention is to do. -/
structure Inserts (value : Text) (selectionStart selectionEnd : Nat) (name userId : Text) : Prop where
  parsed : userId ∈ parseMentions (insertMentionMarkup value selectionStart selectionEnd name userId).value
  there : (insertionStart value selectionStart, name, userId) ∈
    shown 0 (tokenizeMentions (insertMentionMarkup value selectionStart selectionEnd name userId).value)
  before : ∀ k name' userId', (k, name', userId') ∈ shown 0 (tokenizeMentions value) →
    k + (formatMentionMarkup name' userId').length ≤ insertionStart value selectionStart →
    (k, name', userId') ∈ shown 0
    (tokenizeMentions (insertMentionMarkup value selectionStart selectionEnd name userId).value)
  after : ∀ k name' userId', (k, name', userId') ∈ shown 0 (tokenizeMentions value) → selectionEnd ≤ k →
    ((insertMentionMarkup value selectionStart selectionEnd name userId).cursor + (k - selectionEnd), name', userId') ∈
      shown 0 (tokenizeMentions (insertMentionMarkup value selectionStart selectionEnd name userId).value)

/-- A name that a mention can hold, behind a text that does not swallow it. -/
structure Insertable (before name : Text) : Prop where
  closed : unit ']' ∉ name
  short : name.length ≤ MAX_MENTION_NAME
  free : ¬mentionForm.Swallows before name

theorem inserts_of_insertable (order : selectionStart ≤ selectionEnd) (range : selectionEnd ≤ value.length)
    (uuid : fits uuidClasses userId = true)
    (insertable : Insertable (value.take (insertionStart value selectionStart)) name) :
    Inserts value selectionStart selectionEnd name userId := by
  have valid : mentionForm.Valid name userId := ⟨insertable.closed, insertable.short, uuid⟩
  have starts := @insertionStart_le value selectionStart
  have length : (value.take (insertionStart value selectionStart)).length = insertionStart value selectionStart :=
    List.length_take_of_le (by omega)
  have space : marks (unit ' ' :: value.drop selectionEnd) = (marks (value.drop selectionEnd)).map (LinkForm.shift 1) :=
    marks_reads.cons (LinkForm.not_starts_of_ne (by decide))
  have whole := marks_reads.append_link (y := unit ' ' :: value.drop selectionEnd) insertable.free valid
  rw [length] at whole
  have there : (insertionStart value selectionStart, name, userId) ∈
      marks (insertMentionMarkup value selectionStart selectionEnd name userId).value := by
    rw [insert_eq, whole]
    simp
  constructor
  · exact parsed_of_mark there
  · rw [shown_eq]
    exact there
  · intro k name' userId' found inside
    rw [shown_eq] at found ⊢
    rw [insert_eq, whole]
    refine List.mem_append_left _ (marks_reads.before (z := value.drop (insertionStart value selectionStart)) ?_ ?_)
    · rwa [List.take_append_drop]
    · rwa [length, ← format_eq]
  · intro k name' userId' found beyond
    rw [shown_eq] at found ⊢
    rw [insert_eq, whole, space]
    have front : (value.take selectionEnd).length = selectionEnd := List.length_take_of_le range
    have behind : (k - selectionEnd, name', userId') ∈ marks (value.drop selectionEnd) := by
      have later := marks_reads.after (x := value.take selectionEnd) (y := value.drop selectionEnd) (k := k)
        (by rwa [List.take_append_drop]) (by omega)
      rwa [front] at later
    refine List.mem_append_right _ (List.mem_cons_of_mem _ ?_)
    rw [List.map_map, LinkForm.shift_shift]
    refine List.mem_map.mpr ⟨_, behind, ?_⟩
    simp [LinkForm.shift, Nat.add_assoc]

theorem insertable_of_inserts (order : selectionStart ≤ selectionEnd) (range : selectionEnd ≤ value.length)
    (inserts : Inserts value selectionStart selectionEnd name userId) :
    Insertable (value.take (insertionStart value selectionStart)) name := by
  have starts := @insertionStart_le value selectionStart
  have length : (value.take (insertionStart value selectionStart)).length = insertionStart value selectionStart :=
    List.length_take_of_le (by omega)
  have there := inserts.there
  rw [shown_eq, insert_eq] at there
  obtain ⟨before, rest, same, place, free, valid⟩ := marks_reads.split there
  obtain ⟨rfl, _⟩ := List.append_inj same (length.trans place.symm)
  exact ⟨valid.closed, valid.named, free⟩

/-- Picking a member inserts a mention of them and leaves the others as they are, exactly where their name can stand
in a mention and nothing opened ahead of it swallows it. -/
theorem inserts_iff_insertable (value : Text) (selectionStart selectionEnd : Nat) (name userId : Text)
    (order : selectionStart ≤ selectionEnd) (range : selectionEnd ≤ value.length) (uuid : fits uuidClasses userId = true) :
    Inserts value selectionStart selectionEnd name userId ↔
      Insertable (value.take (insertionStart value selectionStart)) name :=
  ⟨insertable_of_inserts order range, inserts_of_insertable order range uuid⟩

end Insertion

def adaId : Text := toText Redaction.adaId

theorem inserts_iff_insertable_ada : Inserts (toText "Hi @A") 5 5 (toText "Ada") adaId ↔
    Insertable ((toText "Hi @A").take (insertionStart (toText "Hi @A") 5)) (toText "Ada") :=
  inserts_iff_insertable _ 5 5 _ _ (by decide) (by decide +kernel) (by decide +kernel)

/-- A name with a bracket of its own cannot be inserted. -/
theorem bracket_not_inserted : fits uuidClasses adaId = true ∧ ¬Inserts [] 0 0 (toText "Ada ]") adaId := by
  refine ⟨by decide +kernel, fun inserts => ?_⟩
  have insertable := insertable_of_inserts (by decide) (by decide) inserts
  have inside : unit ']' ∈ toText "Ada ]" := by decide +kernel
  exact insertable.closed inside

end Kurul.Client.Mentions
