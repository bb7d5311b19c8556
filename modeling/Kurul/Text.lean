import Mathlib

/-! Text as the services look through it: `LIKE` patterns and the mention tokens
inside comment bodies. Regular expressions are written out as the matching they do. -/
namespace Kurul

/-- PostgreSQL's `LIKE`: `%` stands for any text, `_` for one character, and a
backslash takes the next character as it is. -/
def like : List Char → List Char → Bool
  | [], text => text.isEmpty
  | '%' :: pattern, text => text.tails.any (like pattern)
  | '_' :: pattern, _ :: text => like pattern text
  | '\\' :: escaped :: pattern, c :: text => escaped = c && like pattern text
  | p :: pattern, c :: text => p = c && like pattern text
  | _ :: _, [] => false

/-- The `contains` filter, which hands its operand to `LIKE` as a pattern. -/
def contains (pattern text : String) : Bool := like ('%' :: pattern.toList ++ ['%']) text.toList

def escapeChar (special : Char) (text : List Char) : List Char :=
  text.flatMap fun c => if c = special then ['\\', c] else [c]

def escapeLikePattern (value : String) : String :=
  .ofList (escapeChar '_' (escapeChar '%' (escapeChar '\\' value.toList)))

theorem escapeChars (text : List Char) :
    escapeChar '_' (escapeChar '%' (escapeChar '\\' text)) =
      text.flatMap fun c => if c = '\\' ∨ c = '%' ∨ c = '_' then ['\\', c] else [c] := by
  simp only [escapeChar, List.flatMap_assoc]
  congr 1
  funext c
  by_cases backslash : c = '\\'
  · subst backslash; rfl
  · by_cases percent : c = '%'
    · subst percent; rfl
    · by_cases underscore : c = '_'
      · subst underscore; rfl
      · simp [backslash, percent, underscore]

/-- An escaped text in front of a `%` matches what begins with it. -/
theorem like_escaped (value text : List Char) :
    like (value.flatMap (fun c => if c = '\\' ∨ c = '%' ∨ c = '_' then ['\\', c] else [c]) ++ ['%'])
      text ↔ value <+: text := by
  induction value generalizing text with
  | nil => simp [like, List.isEmpty_iff]
  | cons c rest ih =>
      by_cases special : c = '\\' ∨ c = '%' ∨ c = '_'
      · cases text with
        | nil => simp [special, like]
        | cons first text => simp [special, like, ih, List.cons_prefix_cons]
      · obtain ⟨backslash, percent, underscore⟩ : c ≠ '\\' ∧ c ≠ '%' ∧ c ≠ '_' := by
          simpa only [not_or] using special
        cases text with
        | nil => simp [special, like]
        | cons first text =>
            simp only [special, if_false, List.flatMap_cons, List.cons_append, List.nil_append,
              List.cons_prefix_cons, ← ih text]
            rw [like] <;> simp [backslash, percent, underscore]

/-- An escaped operand is looked for as it stands. -/
theorem contains_escapeLikePattern (value text : String) :
    contains (escapeLikePattern value) text ↔ value.toList <:+: text.toList := by
  simp only [contains, escapeLikePattern, String.toList_ofList, escapeChars, List.cons_append, like,
    List.any_eq_true, List.mem_tails, like_escaped, List.infix_iff_prefix_suffix, and_comm]

/-- The length that a JavaScript pattern counts in. -/
def utf16Length (text : List Char) : Nat := (text.map fun c => if c.val < 0x10000 then 1 else 2).sum

/-- Longest display name that is read in a mention. -/
def MAX_MENTION_NAME : Nat := 200

/-- What follows `@[name](`: the name runs to the first bracket that closes. -/
def mentionOpening : List Char → Option (List Char)
  | '@' :: '[' :: rest =>
      match rest.dropWhile (· ≠ ']') with
      | ']' :: '(' :: after =>
          if utf16Length (rest.takeWhile (· ≠ ']')) ≤ MAX_MENTION_NAME then some after else none
      | _ => none
  | _ => none

/-- One character of each class, and what follows. -/
def matchClasses : List (Char → Bool) → List Char → Option (List Char × List Char)
  | [], text => some ([], text)
  | _ :: _, [] => none
  | class_ :: classes, c :: text =>
      if class_ c then (matchClasses classes text).map fun (taken, after) => (c :: taken, after)
      else none

/-- A mention at the head of the text: the id it names, and what follows it. -/
def matchMention (idClasses : List (Char → Bool)) (text : List Char) :
    Option (List Char × List Char) := do
  let (id, after) ← matchClasses idClasses (← mentionOpening text)
  match after with
  | ')' :: rest => some (id, rest)
  | _ => none

def isHex (c : Char) : Bool :=
  ('0' ≤ c && c ≤ '9') || ('a' ≤ c && c ≤ 'f') || ('A' ≤ c && c ≤ 'F')

/-- The `uuid(7)` shape, in either case. -/
def uuidClasses : List (Char → Bool) :=
  List.replicate 8 isHex ++ [(· == '-')] ++ List.replicate 4 isHex ++ [(· == '-'), (· == '7')] ++
    List.replicate 3 isHex ++ [(· == '-'), (['8', '9', 'a', 'b', 'A', 'B'].contains ·)] ++
      List.replicate 3 isHex ++ [(· == '-')] ++ List.replicate 12 isHex

/-- The ids of all mentions, from the left and without overlap. `skip` characters
belong to the mention before. -/
def mentionIds : (skip : Nat) → List Char → List (List Char)
  | _, [] => []
  | skip + 1, _ :: rest => mentionIds skip rest
  | 0, c :: rest =>
      match matchMention uuidClasses (c :: rest) with
      | some (id, after) => id :: mentionIds (rest.length - after.length) rest
      | none => mentionIds 0 rest

def parseMentions (body : String) : List String :=
  ((mentionIds 0 body.toList).map String.ofList).eraseDups

/-- Every mention of the id replaced. An id is hexadecimal, so its case is that of ASCII. -/
def replaceMentions (idClasses : List (Char → Bool)) (replacement : List Char) :
    (skip : Nat) → List Char → List Char
  | _, [] => []
  | skip + 1, _ :: rest => replaceMentions idClasses replacement skip rest
  | 0, c :: rest =>
      match matchMention idClasses (c :: rest) with
      | some (_, after) =>
          replacement ++ replaceMentions idClasses replacement (rest.length - after.length) rest
      | none => c :: replaceMentions idClasses replacement 0 rest

def redactMentionsOf (body userId replacement : String) : String :=
  .ofList (replaceMentions (userId.toList.map fun c d => c.toLower = d.toLower)
    ("@[" ++ replacement ++ "](" ++ userId ++ ")").toList 0 body.toList)

end Kurul
