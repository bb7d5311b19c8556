import Kurul.Account.AccountDeletion
import Kurul.Task.Redaction

/-! The name of an account in a comment, before its deletion and after. A name is written between the brackets
of the markup as it is, so it may hold brackets, and mentions, of its own. -/
namespace Kurul.Redaction

open Sequence (LinkForm)

section Settled

variable {user replacement text front name rest : List Char}

/-- Each mention of the user is the one that redaction writes. -/
def Settled (user replacement : List Char) (tokens : List MentionToken) : Prop :=
  ∀ name userId, .mention name userId ∈ tokens → SameId userId.toList user →
    name = .ofList replacement ∧ userId = .ofList user

theorem settled_plainText {plain : List Char} : Settled user replacement (plainText plain) :=
  fun _ _ member => absurd member mention_notMem_plainText

theorem settled_cons {plain : List Char} {shown userId : String} {tokens : List MentionToken} :
    Settled user replacement (plainText plain ++ .mention shown userId :: tokens) ↔
      (SameId userId.toList user → shown = .ofList replacement ∧ userId = .ofList user) ∧
        Settled user replacement tokens := by
  constructor
  · intro settled
    refine ⟨fun same => settled _ _ (by simp) same, fun name id member same => ?_⟩
    exact settled name id (List.mem_append_right _ (List.mem_cons_of_mem _ member)) same
  · rintro ⟨first, later⟩ name id member same
    rcases List.mem_append.mp member with inside | behind
    · exact absurd inside mention_notMem_plainText
    · rcases List.mem_cons.mp behind with here | there
      · cases here
        exact first same
      · exact later name id there same

/-- Redaction leaves a text where nothing is left to redact. -/
theorem redact_eq_iff (uuid : OfClasses uuidClasses user) (fine : mentionForm.Valid replacement user) (text : List Char) :
    redact user replacement text = text ↔ Settled user replacement (read text) := by
  induction text using LinkForm.link_induction (F := mentionForm) with
  | quiet plain quiet =>
      rw [redact_quiet uuid quiet, read_quiet quiet]
      exact ⟨fun _ => settled_plainText, fun _ => rfl⟩
  | link_ plain name id rest quiet free valid ih =>
      have before : read (plain ++ (mentionForm.link name id ++ rest)) =
          plainText plain ++ .mention (.ofList name) (.ofList id) :: read rest := tokenize_link quiet free valid
      rw [redact_silent uuid (silent_link quiet free valid), before, settled_cons, ← ih, String.toList_ofList,
        List.append_cancel_left_eq]
      by_cases same : SameId id user
      · rw [redact_user uuid valid same]
        constructor
        · intro whole
          obtain ⟨rfl, rfl, still⟩ := LinkForm.link_unique fine valid whole
          exact ⟨fun _ => ⟨rfl, rfl⟩, still⟩
        · rintro ⟨written, still⟩
          obtain ⟨name_, id_⟩ := written same
          rw [ofList_inj name_, ofList_inj id_, still]
      · rw [redact_other uuid valid same, List.append_cancel_left_eq]
        exact ⟨fun still => ⟨fun theirs => absurd theirs same, still⟩, And.right⟩

theorem utf16_suffix {s : List Char} (ends : s <:+ text) : utf16Length s ≤ utf16Length text := by
  obtain ⟨front, rfl⟩ := ends
  simp [utf16Length]

/-- Redaction reads a text from some opening on as it reads it there alone, but for what ends behind the opening.
A text that it leaves it leaves from there on. -/
theorem redact_front (uuid : OfClasses uuidClasses user) (fine : mentionForm.Valid replacement user)
    (plain_ : '@' ∉ replacement)
    (front text : List Char) : (∃ before, redact user replacement (front ++ '@' :: '[' :: text) =
        before ++ redact user replacement ('@' :: '[' :: text)) ∧
      (redact user replacement (front ++ '@' :: '[' :: text) = front ++ '@' :: '[' :: text →
        redact user replacement ('@' :: '[' :: text) = '@' :: '[' :: text) := by
  induction size : front.length using Nat.strong_induction_on generalizing front with
  | _ n ih =>
      cases front with
      | nil => exact ⟨⟨[], rfl⟩, id⟩
      | cons c front =>
          cases matched : matchMention (userClasses user) (c :: front ++ '@' :: '[' :: text) with
          | none =>
              have read : redact user replacement (c :: front ++ '@' :: '[' :: text) =
                  c :: redact user replacement (front ++ '@' :: '[' :: text) := by
                rw [redact, List.cons_append, replaceMentions, ← List.cons_append, matched]
                rfl
              obtain ⟨⟨before, parts⟩, still⟩ := ih front.length (by simp [← size]) front rfl
              rw [read]
              refine ⟨⟨c :: before, by rw [parts]; rfl⟩, fun same => still ?_⟩
              rw [List.cons_append] at same
              exact (List.cons.inj same).2
          | some found =>
              obtain ⟨id, rest⟩ := found
              obtain ⟨name, valid, same, whole⟩ := (matchUser uuid).mp matched
              have shorter : ∀ inner, inner <:+ name → mentionForm.Named inner := by
                intro inner inside
                exact (utf16_suffix inside).trans valid.named
              rcases LinkForm.link_over valid shorter whole with ⟨between, ahead⟩ | ⟨inner, inside_, rest_, valid'⟩
              · -- the mention ends before the opening
                rw [ahead, List.append_assoc, redact_user uuid valid same]
                have few : between.length < n := by
                  rw [← size, ahead]
                  simp [LinkForm.link]
                  omega
                obtain ⟨⟨before, parts⟩, still⟩ := ih between.length few between rfl
                refine ⟨⟨mentionForm.link replacement user ++ before, by rw [parts, List.append_assoc]⟩, fun fixed => ?_⟩
                obtain ⟨_, _, behind⟩ := LinkForm.link_unique fine valid fixed
                exact still behind
              · have rest_ : '@' :: '[' :: text = mentionForm.link inner id ++ rest := rest_
                rw [whole, redact_user uuid valid same, rest_, redact_user uuid valid' same]
                refine ⟨⟨[], rfl⟩, fun fixed => ?_⟩
                obtain ⟨rfl, _, _⟩ := LinkForm.link_unique fine valid fixed
                rcases inside_ with none_ | inside
                · cases none_
                · exact absurd inside plain_

/-- In front of whatever follows, the markup of any name is read as it is alone. -/
theorem redact_markup (uuid : OfClasses uuidClasses user) (fine : mentionForm.Valid replacement user)
    (name rest : List Char) :
    redact user replacement (mentionForm.link name user ++ rest) =
        redact user replacement (mentionForm.link name user) ++ redact user replacement rest ∧
      (redact user replacement (mentionForm.link name user ++ rest) = mentionForm.link name user ++ rest →
        redact user replacement (mentionForm.link name user) = mentionForm.link name user) := by
  have closed : ∀ s, s <:+ mentionForm.link name user → s ≠ [] → mentionForm.Starts (s ++ rest) → mentionForm.Starts s := by
    intro s ends some_ starts
    exact LinkForm.starts_inside (w := '@' :: '[' :: name) uuid ends some_ starts
  revert closed
  generalize mentionForm.link name user = markup
  intro closed
  induction markup using LinkForm.link_induction (F := mentionForm) with
  | quiet plain quiet =>
      have silent : Silent plain rest := fun s ends some_ starts => quiet s ends (closed s ends some_ starts)
      rw [redact_silent uuid silent, redact_quiet uuid quiet]
      exact ⟨rfl, fun _ => rfl⟩
  | link_ plain name id tail quiet free valid ih =>
      have tails : tail <:+ plain ++ (mentionForm.link name id ++ tail) :=
        (List.suffix_append _ _).trans (List.suffix_append _ _)
      obtain ⟨parts, still⟩ := ih fun s ends => closed s (ends.trans tails)
      have before : redact user replacement (plain ++ (mentionForm.link name id ++ tail)) =
          plain ++ redact user replacement (mentionForm.link name id ++ tail) :=
        redact_silent uuid (silent_link quiet free valid)
      have behind : redact user replacement (plain ++ (mentionForm.link name id ++ tail) ++ rest) =
          plain ++ redact user replacement (mentionForm.link name id ++ (tail ++ rest)) := by
        rw [List.append_assoc, List.append_assoc]
        exact redact_silent uuid (silent_link quiet free valid)
      rw [before, behind]
      by_cases same : SameId id user
      · rw [redact_user uuid valid same, redact_user uuid valid same, parts]
        refine ⟨by simp, fun fixed => ?_⟩
        have fixed : mentionForm.link replacement user ++ (redact user replacement tail ++ redact user replacement rest) =
            mentionForm.link name id ++ (tail ++ rest) := by simpa using fixed
        obtain ⟨rfl, rfl, tails_⟩ := LinkForm.link_unique fine valid fixed
        rw [still (parts.trans tails_)]
      · rw [redact_other uuid valid same, redact_other uuid valid same, parts]
        refine ⟨by simp, fun fixed => ?_⟩
        have fixed : redact user replacement tail ++ redact user replacement rest = tail ++ rest := by simpa using fixed
        rw [still (parts.trans fixed)]

/-- Where no mention is swallowed, the markup of a name stays exactly where redaction leaves it alone. -/
theorem markup_stays_iff (uuid : OfClasses uuidClasses user) (fine : mentionForm.Valid replacement user)
    (plain_ : '@' ∉ replacement) (apart : Apart user replacement (read text))
    (written : mentionForm.link name user <:+: text) :
    mentionForm.link name user <:+: redact user replacement text ↔
      redact user replacement (mentionForm.link name user) = mentionForm.link name user := by
  constructor
  · rintro ⟨front, behind, whole⟩
    have again := redact_redact uuid fine text apart
    rw [← whole, List.append_assoc] at again
    exact (redact_markup uuid fine name behind).2 ((redact_front uuid fine plain_ front _).2 again)
  · intro left
    obtain ⟨front, behind, rfl⟩ := written
    rw [List.append_assoc]
    obtain ⟨before, whole⟩ := (redact_front uuid fine plain_ front (name ++ mentionForm.ending user ++ behind)).1
    have markup : mentionForm.link name user ++ behind = '@' :: '[' :: (name ++ mentionForm.ending user ++ behind) := rfl
    rw [markup, whole, ← markup, (redact_markup uuid fine name behind).1, left]
    exact ⟨before, redact user replacement behind, List.append_assoc _ _ _⟩

end Settled

section Bodies

variable {userId body : String}

/-- The token of a member as the editor writes it. -/
def formatMentionMarkup (name userId : String) : String := "@[" ++ name ++ "](" ++ userId ++ ")"

/-- A comment's body after the deletion of an account: only a body that spells the id out is looked at. -/
def erasedBody (userId body : String) : String :=
  if contains userId body then redactMentionsOf body userId ANONYMOUS_USER_NAME else body

/-- What is left of a name in a body: mentions of the user are anonymous, markup with the name is gone, and all
other tokens are as before. -/
structure NameErased (name userId body after : String) : Prop where
  tokens : List.Forall₂ (Anonymised userId.toList ANONYMOUS_USER_NAME.toList) (tokenizeMentions body)
    (tokenizeMentions after)
  markup : name ≠ ANONYMOUS_USER_NAME → (formatMentionMarkup name userId).toList <:+: body.toList →
    ¬(formatMentionMarkup name userId).toList <:+: after.toList

/-- A body from which the name can be erased. -/
structure Erasable (name userId body : String) : Prop where
  spelled : ¬userId.toList <:+: body.toList → ∀ shown userId', .mention shown userId' ∈ tokenizeMentions body →
    SameId userId'.toList userId.toList → shown = ANONYMOUS_USER_NAME
  apart : userId.toList <:+: body.toList → Apart userId.toList ANONYMOUS_USER_NAME.toList (tokenizeMentions body)
  markup : name ≠ ANONYMOUS_USER_NAME → (formatMentionMarkup name userId).toList <:+: body.toList →
    ¬Settled userId.toList ANONYMOUS_USER_NAME.toList (tokenizeMentions (formatMentionMarkup name userId))

theorem format_toList (name userId : String) :
    (formatMentionMarkup name userId).toList = mentionForm.link name.toList userId.toList := by
  simp [formatMentionMarkup, LinkForm.link, LinkForm.ending, mentionForm]

/-- An id has no wildcards, so the filter finds the bodies that spell it out. -/
theorem contains_uuid (uuid : OfClasses uuidClasses userId.toList) :
    contains userId body = true ↔ userId.toList <:+: body.toList := by
  have ordinary : ∀ c ∈ userId.toList, (if c = '\\' ∨ c = '%' ∨ c = '_' then ['\\', c] else [c]) = [c] := by
    intro c member
    have idChar := uuid_idChars uuid c member
    rw [if_neg]
    rintro (rfl | rfl | rfl) <;> exact absurd idChar (by decide)
  have literal : escapeLikePattern userId = userId := by
    rw [escapeLikePattern, escapeChars, List.flatMap_congr ordinary, List.flatMap_singleton', String.ofList_toList]
  rw [← contains_escapeLikePattern, literal]

theorem anonymous_fine (uuid : OfClasses uuidClasses userId.toList) :
    mentionForm.Valid ANONYMOUS_USER_NAME.toList userId.toList := default_fine uuid

theorem anonymous_plain : '@' ∉ ANONYMOUS_USER_NAME.toList := by decide

theorem spelled_in_markup (name : String) : userId.toList <:+: (formatMentionMarkup name userId).toList := by
  rw [format_toList]
  exact ⟨'@' :: '[' :: (name.toList ++ [']', '(']), [')'], by simp [LinkForm.link, LinkForm.ending, mentionForm]⟩

/-- A body that does not spell the id out stays as it is. -/
theorem untouched_iff (name : String) (absent : ¬userId.toList <:+: body.toList) :
    NameErased name userId body body ↔ Erasable name userId body := by
  have unwritten : ¬(formatMentionMarkup name userId).toList <:+: body.toList :=
    fun written => absent ((spelled_in_markup name).trans written)
  have tokens_iff : List.Forall₂ (Anonymised userId.toList ANONYMOUS_USER_NAME.toList) (tokenizeMentions body)
      (tokenizeMentions body) ↔ ∀ shown userId', .mention shown userId' ∈ tokenizeMentions body →
        SameId userId'.toList userId.toList → shown = ANONYMOUS_USER_NAME := by
    rw [List.forall₂_same]
    constructor
    · intro kept shown userId' member same
      have here := kept _ member
      rw [Anonymised, if_pos same] at here
      obtain ⟨_, renamed, _⟩ := here
      cases renamed
      exact String.ofList_toList
    · intro anonymous token member
      cases token with
      | text text => rfl
      | mention shown userId' =>
          by_cases same : SameId userId'.toList userId.toList
          · rw [Anonymised, if_pos same, anonymous shown userId' member same, String.ofList_toList]
            exact ⟨userId', rfl, same⟩
          · rw [Anonymised, if_neg same]
  constructor
  · intro erased
    exact ⟨fun _ => tokens_iff.mp erased.tokens, fun spelled => absurd spelled absent, fun _ written =>
      absurd written unwritten⟩
  · intro erasable
    exact ⟨tokens_iff.mpr (erasable.spelled absent), fun _ written => absurd written unwritten⟩

/-- A name is erased from a body exactly where it is erasable. -/
theorem name_erased_iff (uuid : OfClasses uuidClasses userId.toList) (name body : String) :
    NameErased name userId body (erasedBody userId body) ↔ Erasable name userId body := by
  by_cases spelled : userId.toList <:+: body.toList
  · have fine := anonymous_fine uuid
    have rewritten : erasedBody userId body = .ofList (redact userId.toList ANONYMOUS_USER_NAME.toList body.toList) := by
      rw [erasedBody, if_pos ((contains_uuid uuid).mpr spelled), redactMentionsOf_eq]
    have tokens_iff : List.Forall₂ (Anonymised userId.toList ANONYMOUS_USER_NAME.toList) (tokenizeMentions body)
        (tokenizeMentions (erasedBody userId body)) ↔
          Apart userId.toList ANONYMOUS_USER_NAME.toList (tokenizeMentions body) := by
      rw [rewritten, tokenizeMentions, tokenizeMentions, String.toList_ofList]
      constructor
      · exact apart_of_anonymised uuid fine body.toList
      · intro apart
        change List.Forall₂ _ (read body.toList) (read (redact userId.toList ANONYMOUS_USER_NAME.toList body.toList))
        rw [(read_redact_iff uuid fine body.toList).mpr apart]
        exact anonymised_map
    have markup_iff (apart : Apart userId.toList ANONYMOUS_USER_NAME.toList (tokenizeMentions body))
        (written : (formatMentionMarkup name userId).toList <:+: body.toList) :
        (formatMentionMarkup name userId).toList <:+: (erasedBody userId body).toList ↔
          Settled userId.toList ANONYMOUS_USER_NAME.toList (tokenizeMentions (formatMentionMarkup name userId)) := by
      rw [rewritten, String.toList_ofList, tokenizeMentions, format_toList]
      rw [format_toList] at written
      exact (markup_stays_iff uuid fine anonymous_plain apart written).trans (redact_eq_iff uuid fine _)
    constructor
    · intro erased
      have apart := tokens_iff.mp erased.tokens
      refine ⟨fun absent => absurd spelled absent, fun _ => apart, fun other written settled => ?_⟩
      exact erased.markup other written ((markup_iff apart written).mpr settled)
    · intro erasable
      have apart := erasable.apart spelled
      refine ⟨tokens_iff.mpr apart, fun other written stays => ?_⟩
      exact erasable.markup other written ((markup_iff apart written).mp stays)
  · have same : erasedBody userId body = body := if_neg fun found => spelled ((contains_uuid uuid).mp found)
    rw [same]
    exact untouched_iff name spelled

end Bodies
end Kurul.Redaction
