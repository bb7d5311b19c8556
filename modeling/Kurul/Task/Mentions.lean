import Kurul.Text

/-! A comment body as it is shown: plain text and mentions, found by the same expression that
finds the ids to notify. -/
namespace Kurul

inductive MentionToken where
  | text (text : String)
  | mention (name userId : String)
  deriving DecidableEq

def plainText (text : List Char) : List MentionToken :=
  if text = [] then [] else [.text (.ofList text)]

/-- What stands between `@[` and the first bracket that closes. -/
def mentionName (text : List Char) : String := .ofList ((text.drop 2).takeWhile (· ≠ ']'))

/-- `plain` is the text since the last mention; `skip` characters belong to that mention. -/
def tokenize : (skip : Nat) → (plain : List Char) → List Char → List MentionToken
  | _, plain, [] => plainText plain
  | skip + 1, plain, _ :: rest => tokenize skip plain rest
  | 0, plain, c :: rest =>
      match matchMention uuidClasses (c :: rest) with
      | some (id, after) =>
          plainText plain ++ .mention (mentionName (c :: rest)) (.ofList id) ::
            tokenize (rest.length - after.length) [] rest
      | none => tokenize 0 (plain ++ [c]) rest

def tokenizeMentions (body : String) : List MentionToken := tokenize 0 [] body.toList

/-- Some mention that is shown carries this id. -/
def ShownAs (body userId : String) : Prop := ∃ name, .mention name userId ∈ tokenizeMentions body

theorem mention_notMem_plainText {plain : List Char} {name userId : String} :
    .mention name userId ∉ plainText plain := by
  unfold plainText
  split <;> simp

theorem mention_mem_tokenize {skip : Nat} {plain text : List Char} {userId : String} :
    (∃ name, .mention name userId ∈ tokenize skip plain text) ↔
      userId ∈ (mentionIds skip text).map String.ofList := by
  induction text generalizing skip plain with
  | nil =>
      cases skip <;> simp [tokenize, mentionIds, mention_notMem_plainText]
  | cons c rest ih =>
      cases skip with
      | succ skip =>
          rw [tokenize, mentionIds]
          exact ih
      | zero =>
          rw [tokenize, mentionIds]
          cases matchMention uuidClasses (c :: rest) with
          | none => exact ih
          | some found =>
              simp only [List.mem_append, mention_notMem_plainText, false_or, List.mem_cons, exists_or,
                MentionToken.mention.injEq, List.map_cons]
              rw [ih]
              simp

/-- The ids that are parsed are those of the mentions that are shown, as they are spelled. -/
theorem mem_parseMentions {body userId : String} : userId ∈ parseMentions body ↔ ShownAs body userId := by
  unfold parseMentions ShownAs tokenizeMentions
  rw [List.mem_eraseDups]
  exact mention_mem_tokenize.symm

end Kurul
