import Kurul.Sequence.Links
import Kurul.Task.Mentions

/-! Redaction of mentions. A shorter name may let an opened bracket ahead of it take the mention into
its own name. -/
namespace Kurul.Redaction

open Sequence (LinkForm)

/-- The text is as long as the classes, and each character is of its class. -/
def OfClasses (classes : List (Char → Bool)) (id : List Char) : Prop :=
  List.Forall₂ (fun class_ c => class_ c = true) classes id

def isIdChar (c : Char) : Bool := isHex c || c = '-'

theorem class_kinds {class_ : Char → Bool} (listed : class_ ∈ uuidClasses) : class_ = isHex ∨ class_ = (· == '-') ∨
    class_ = (· == '7') ∨ class_ = (['8', '9', 'a', 'b', 'A', 'B'].contains ·) := by
  simp only [uuidClasses, List.mem_append, List.mem_replicate, List.mem_cons, List.not_mem_nil, or_false] at listed
  tauto

theorem class_idChar {class_ : Char → Bool} (listed : class_ ∈ uuidClasses) {c : Char} (fits : class_ c = true) :
    isIdChar c = true := by
  unfold isIdChar
  rcases class_kinds listed with rfl | rfl | rfl | rfl
  · rw [fits, Bool.true_or]
  · simp [of_decide_eq_true fits]
  · obtain rfl : c = '7' := by simpa using fits
    decide
  · have one : c = '8' ∨ c = '9' ∨ c = 'a' ∨ c = 'b' ∨ c = 'A' ∨ c = 'B' := by simpa using fits
    rcases one with rfl | rfl | rfl | rfl | rfl | rfl <;> decide

theorem uuid_idChars {id : List Char} (uuid : OfClasses uuidClasses id) : ∀ c ∈ id, isIdChar c = true := by
  intro c member
  obtain ⟨n, below, rfl⟩ := List.getElem_of_mem member
  have length := uuid.length_eq
  exact class_idChar (List.getElem_mem (by omega)) (uuid.get (by omega) below)

/-- The form of a mention that the comments know. -/
def mentionForm : LinkForm Char where
  at_ := '@'
  opening := '['
  closing := ']'
  left := '('
  right := ')'
  Named name := utf16Length name ≤ MAX_MENTION_NAME
  Fits := OfClasses uuidClasses
  at_apart := by decide
  closing_apart := by decide
  plain := by
    intro id uuid
    refine ⟨fun member => ?_, fun member => ?_, fun member => ?_⟩ <;>
      exact absurd (uuid_idChars uuid _ member) (by decide)

section Matching

variable {classes : List (Char → Bool)} {text id rest name : List Char}

theorem mentionOpening_iff {after : List Char} : mentionOpening text = some after ↔
    ∃ name, text = '@' :: '[' :: (name ++ ']' :: '(' :: after) ∧ ']' ∉ name ∧ utf16Length name ≤ MAX_MENTION_NAME := by
  constructor
  · intro opened
    unfold mentionOpening at opened
    split at opened
    · rename_i inner
      split at opened
      · rename_i after' ends
        obtain ⟨short, same⟩ := Option.ite_none_right_eq_some.mp opened
        cases same
        refine ⟨inner.takeWhile (· ≠ ']'), ?_, ?_, short⟩
        · rw [← ends, List.takeWhile_append_dropWhile]
        · intro member
          simpa using List.mem_takeWhile_imp member
      · cases opened
    · cases opened
  · rintro ⟨name, rfl, closed, short⟩
    have clear : ∀ c ∈ name, (decide (c ≠ ']')) = true := by
      intro c member
      exact decide_eq_true fun same => closed (same ▸ member)
    simp only [mentionOpening, List.takeWhile_append_of_pos clear, List.dropWhile_append_of_pos clear]
    simp [short]

theorem matchClasses_iff : matchClasses classes text = some (id, rest) ↔ OfClasses classes id ∧ text = id ++ rest := by
  induction classes generalizing text id with
  | nil =>
      simp only [matchClasses, Option.some.injEq, Prod.mk.injEq, OfClasses, List.forall₂_nil_left_iff]
      constructor
      · rintro ⟨rfl, rfl⟩
        exact ⟨rfl, rfl⟩
      · rintro ⟨rfl, rfl⟩
        exact ⟨rfl, rfl⟩
  | cons class_ classes ih =>
      cases text with
      | nil =>
          simp only [matchClasses, OfClasses, List.forall₂_cons_left_iff]
          constructor
          · intro none_
            cases none_
          · rintro ⟨⟨c, id, _, _, rfl⟩, same⟩
            cases same
      | cons c text =>
          simp only [matchClasses, OfClasses, List.forall₂_cons_left_iff]
          by_cases fits : class_ c = true
          · rw [if_pos fits]
            constructor
            · intro matched
              obtain ⟨⟨taken, after⟩, inner, same⟩ := Option.map_eq_some_iff.mp matched
              obtain ⟨rfl, rfl⟩ := Prod.mk.inj same
              obtain ⟨rest_, rfl⟩ := ih.mp inner
              exact ⟨⟨c, taken, fits, rest_, rfl⟩, rfl⟩
            · rintro ⟨⟨d, taken, _, rest_, rfl⟩, same⟩
              obtain ⟨rfl, rfl⟩ := List.cons.inj same
              have inner : matchClasses classes (taken.append rest) = some (taken, rest) := ih.mpr ⟨rest_, rfl⟩
              rw [inner]
              rfl
          · rw [if_neg fits]
            constructor
            · intro none_
              cases none_
            · rintro ⟨⟨d, taken, fits', _, rfl⟩, same⟩
              obtain ⟨rfl, _⟩ := List.cons.inj same
              exact absurd fits' fits

theorem matchMention_iff : matchMention classes text = some (id, rest) ↔
    ∃ name, text = '@' :: '[' :: (name ++ ']' :: '(' :: (id ++ ')' :: rest)) ∧ ']' ∉ name ∧
      utf16Length name ≤ MAX_MENTION_NAME ∧ OfClasses classes id := by
  constructor
  · intro matched
    obtain ⟨inner, opened, matched⟩ := Option.bind_eq_some_iff.mp matched
    obtain ⟨⟨id', after⟩, classed, ended⟩ := Option.bind_eq_some_iff.mp matched
    obtain ⟨name, rfl, closed, short⟩ := mentionOpening_iff.mp opened
    obtain ⟨fits, rfl⟩ := matchClasses_iff.mp classed
    dsimp only at ended
    split at ended
    · cases ended
      exact ⟨name, rfl, closed, short, fits⟩
    · cases ended
  · rintro ⟨name, rfl, closed, short, fits⟩
    have opened : mentionOpening ('@' :: '[' :: (name ++ ']' :: '(' :: (id ++ ')' :: rest))) = some (id ++ ')' :: rest) :=
      mentionOpening_iff.mpr ⟨name, rfl, closed, short⟩
    have classed : matchClasses classes (id ++ ')' :: rest) = some (id, ')' :: rest) := matchClasses_iff.mpr ⟨fits, rfl⟩
    simp [matchMention, opened, classed]

/-- The tokens' expression finds the links of the form. -/
theorem matchMention_link : matchMention uuidClasses text = some (id, rest) ↔
    ∃ name, mentionForm.Valid name id ∧ text = mentionForm.link name id ++ rest := by
  rw [matchMention_iff]
  constructor
  · rintro ⟨name, rfl, closed, short, fits⟩
    refine ⟨name, ⟨closed, short, fits⟩, ?_⟩
    simp [LinkForm.link, LinkForm.ending, mentionForm]
  · rintro ⟨name, valid, rfl⟩
    refine ⟨name, ?_, valid.closed, valid.named, valid.fits⟩
    simp [LinkForm.link, LinkForm.ending, mentionForm]

theorem matchMention_none : matchMention uuidClasses text = none ↔ ¬mentionForm.Starts text := by
  constructor
  · rintro none_ ⟨name, id, rest, valid, same⟩
    rw [matchMention_link.mpr ⟨name, valid, same⟩] at none_
    cases none_
  · intro still
    rw [Option.eq_none_iff_forall_ne_some]
    rintro ⟨id, rest⟩ matched
    obtain ⟨name, valid, same⟩ := matchMention_link.mp matched
    exact still ⟨name, id, rest, valid, same⟩

end Matching

section Reading

variable {plain pending before after tail name id rest : List Char}

/-- The expression finds nothing that begins in the text, whatever stands behind. -/
def Silent (plain tail : List Char) : Prop := ∀ s, s <:+ plain → s ≠ [] → ¬mentionForm.Starts (s ++ tail)

theorem silent_quiet (quiet : mentionForm.Quiet plain) : Silent plain [] := by
  intro s ends _
  rw [List.append_nil]
  exact quiet s ends

theorem silent_link (quiet : mentionForm.Quiet plain) (free : ¬mentionForm.Swallows plain name)
    (valid : mentionForm.Valid name id) : Silent plain (mentionForm.link name id ++ rest) :=
  fun _ ends some_ => quiet.before free valid ends some_

theorem silent_tail {c : Char} (silent : Silent (c :: plain) tail) : Silent plain tail :=
  fun s ends => silent s (ends.trans (List.suffix_cons c plain))

theorem tokenize_skip (before after : List Char) :
    tokenize before.length pending (before ++ after) = tokenize 0 pending after := by
  induction before with
  | nil => rfl
  | cons c before ih =>
      rw [List.length_cons, List.cons_append, tokenize]
      exact ih

theorem tokenize_silent (silent : Silent plain tail) :
    tokenize 0 pending (plain ++ tail) = tokenize 0 (pending ++ plain) tail := by
  induction plain generalizing pending with
  | nil => simp
  | cons c plain ih =>
      have none_ : matchMention uuidClasses (c :: (plain ++ tail)) = none :=
        matchMention_none.mpr (silent (c :: plain) List.suffix_rfl (by simp))
      rw [List.cons_append, tokenize, none_]
      dsimp only
      rw [ih (silent_tail silent), List.append_assoc, List.singleton_append]

theorem tokenize_quiet (quiet : mentionForm.Quiet plain) : tokenize 0 [] plain = plainText plain := by
  have read : tokenize 0 [] (plain ++ []) = tokenize 0 ([] ++ plain) [] := tokenize_silent (silent_quiet quiet)
  rw [List.append_nil, List.nil_append] at read
  rw [read, tokenize]

/-- What a link is to the two readers: a match, and the rest behind it. -/
theorem link_cons (valid : mentionForm.Valid name id) (rest : List Char) : ∃ inner,
    mentionForm.link name id ++ rest = '@' :: (inner ++ rest) ∧
      matchMention uuidClasses ('@' :: (inner ++ rest)) = some (id, rest) ∧
      mentionName ('@' :: (inner ++ rest)) = .ofList name := by
  refine ⟨'[' :: (name ++ mentionForm.ending id), by simp [LinkForm.link, mentionForm], ?_, ?_⟩
  · refine matchMention_link.mpr ⟨name, valid, ?_⟩
    simp [LinkForm.link, mentionForm]
  · have closed : ']' ∉ name := valid.closed
    have clear : ∀ c ∈ name, (decide (c ≠ ']')) = true := by
      intro c member
      exact decide_eq_true fun same => closed (same ▸ member)
    have cut : (name ++ ']' :: '(' :: (id ++ ')' :: rest)).takeWhile (· ≠ ']') = name := by
      rw [List.takeWhile_append_of_pos clear]
      simp
    have ended : mentionForm.ending id ++ rest = ']' :: '(' :: (id ++ ')' :: rest) := LinkForm.ending_append id rest
    rw [mentionName, List.cons_append, List.append_assoc, ended]
    exact congrArg String.ofList cut

theorem tokenize_at (valid : mentionForm.Valid name id) : tokenize 0 pending (mentionForm.link name id ++ rest) =
    plainText pending ++ .mention (.ofList name) (.ofList id) :: tokenize 0 [] rest := by
  obtain ⟨inner, whole, matched, named⟩ := link_cons valid rest
  rw [whole, tokenize, matched, named]
  dsimp only
  rw [List.length_append, Nat.add_sub_cancel, tokenize_skip]

theorem tokenize_link (quiet : mentionForm.Quiet plain) (free : ¬mentionForm.Swallows plain name)
    (valid : mentionForm.Valid name id) : tokenize 0 [] (plain ++ (mentionForm.link name id ++ rest)) =
      plainText plain ++ .mention (.ofList name) (.ofList id) :: tokenize 0 [] rest := by
  rw [tokenize_silent (silent_link quiet free valid), List.nil_append, tokenize_at valid]

end Reading

section Case

theorem toLower_other {d : Char} (other : ¬d.toNat < 128) : d.toLower = d := by
  have same : d.toNat = d.val.toNat := rfl
  have letters : 'A'.val.toNat = 65 ∧ 'Z'.val.toNat = 90 := by decide
  rw [Char.toLower, dif_neg]
  simp only [ge_iff_le, UInt32.le_iff_toNat_le]
  omega

theorem toLower_ascii {c : Char} (ascii : c.toNat < 128) : c.toLower.toNat < 128 := by
  have all : ∀ n < 128, (Char.ofNat n).toLower.toNat < 128 := by decide +kernel
  have here := all c.toNat ascii
  rwa [Char.ofNat_toNat] at here

theorem ascii_of_toLower {c d : Char} (ascii : c.toNat < 128) (same : c.toLower = d.toLower) : d.toNat < 128 := by
  by_contra other
  have low := toLower_ascii ascii
  rw [same, toLower_other other] at low
  exact other low

theorem idChar_ascii {c : Char} (idChar : isIdChar c = true) : c.toNat < 128 := by
  have same : c.toNat = c.val.toNat := rfl
  have letters : '9'.val.toNat = 57 ∧ 'f'.val.toNat = 102 ∧ 'F'.val.toNat = 70 := by decide
  simp only [isIdChar, isHex, Bool.or_eq_true, Bool.and_eq_true, decide_eq_true_eq, Char.le_def,
    UInt32.le_iff_toNat_le] at idChar
  rcases idChar with range | rfl
  · omega
  · decide

theorem kind_toLower : ∀ kind ∈ [isHex, (· == '-'), (· == '7'), (['8', '9', 'a', 'b', 'A', 'B'].contains ·)], ∀ n < 128,
    kind (Char.ofNat n).toLower = kind (Char.ofNat n) := by decide +kernel

/-- The classes of an id take a letter in either case. -/
theorem class_toLower {class_ : Char → Bool} (listed : class_ ∈ uuidClasses) {c d : Char} (fits : class_ c = true)
    (same : c.toLower = d.toLower) : class_ d = true := by
  have ascii := idChar_ascii (class_idChar listed fits)
  have member : class_ ∈ [isHex, (· == '-'), (· == '7'), (['8', '9', 'a', 'b', 'A', 'B'].contains ·)] := by
    rcases class_kinds listed with rfl | rfl | rfl | rfl <;> simp
  have lower : ∀ e : Char, e.toNat < 128 → class_ e.toLower = class_ e := by
    intro e ascii
    have here := kind_toLower class_ member e.toNat ascii
    rwa [Char.ofNat_toNat] at here
  calc class_ d
      _ = class_ d.toLower := (lower d (ascii_of_toLower ascii same)).symm
      _ = class_ c.toLower := by rw [same]
      _ = class_ c := lower c ascii
      _ = true := fits

end Case

section Redact

variable {user replacement plain tail name id rest text : List Char}

def userClasses (user : List Char) : List (Char → Bool) := user.map fun c d => c.toLower = d.toLower

def SameId (id user : List Char) : Prop := id.map Char.toLower = user.map Char.toLower

instance (id user : List Char) : Decidable (SameId id user) := inferInstanceAs (Decidable (_ = _))

theorem userClasses_iff : OfClasses (userClasses user) id ↔ SameId id user := by
  unfold OfClasses userClasses SameId
  induction user generalizing id with
  | nil => simp
  | cons c user ih =>
      cases id with
      | nil => simp
      | cons d id =>
          rw [List.map_cons, List.forall₂_cons, ih]
          simp [eq_comm]

/-- An id that is a user's but for the case is an id of the same form. -/
theorem SameId.uuid (same : SameId id user) (uuid : OfClasses uuidClasses user) : OfClasses uuidClasses id := by
  have both : ∀ classes, (∀ class_ ∈ classes, class_ ∈ uuidClasses) → ∀ user id, SameId id user →
      OfClasses classes user → OfClasses classes id := by
    intro classes
    induction classes with
    | nil =>
        intro _ user id same fits
        obtain rfl : user = [] := by simpa [OfClasses] using fits
        obtain rfl : id = [] := by simpa [SameId] using same
        exact .nil
    | cons class_ classes ih =>
        intro listed user id same fits
        obtain ⟨here, later⟩ := List.forall_mem_cons.mp listed
        cases fits with
        | @cons _ c _ user fit fits =>
            cases id with
            | nil => simp [SameId] at same
            | cons d id =>
                obtain ⟨letter, same⟩ : d.toLower = c.toLower ∧ SameId id user := by simpa [SameId] using same
                exact .cons (class_toLower here fit letter.symm) (ih later user id same fits)
  exact both uuidClasses (fun _ listed => listed) user id same uuid

/-- The redactor's expression finds the mentions of the user, and nothing else. -/
theorem matchUser (uuid : OfClasses uuidClasses user) : matchMention (userClasses user) text = some (id, rest) ↔
    ∃ name, mentionForm.Valid name id ∧ SameId id user ∧ text = mentionForm.link name id ++ rest := by
  rw [matchMention_iff]
  constructor
  · rintro ⟨name, rfl, closed, short, fits⟩
    have same := userClasses_iff.mp fits
    refine ⟨name, ⟨closed, short, same.uuid uuid⟩, same, ?_⟩
    simp [LinkForm.link, LinkForm.ending, mentionForm]
  · rintro ⟨name, valid, same, rfl⟩
    refine ⟨name, ?_, valid.closed, valid.named, userClasses_iff.mpr same⟩
    simp [LinkForm.link, LinkForm.ending, mentionForm]

theorem matchUser_none (uuid : OfClasses uuidClasses user)
    (apart : ∀ name id rest, mentionForm.Valid name id → text = mentionForm.link name id ++ rest → ¬SameId id user) :
    matchMention (userClasses user) text = none := by
  rw [Option.eq_none_iff_forall_ne_some]
  rintro ⟨id, rest⟩ matched
  obtain ⟨name, valid, same, whole⟩ := (matchUser uuid).mp matched
  exact apart name id rest valid whole same

/-- `redactMentionsOf` on the characters. -/
def redact (user replacement text : List Char) : List Char :=
  replaceMentions (userClasses user) (mentionForm.link replacement user) 0 text

theorem redact_skip (before after : List Char) :
    replaceMentions (userClasses user) (mentionForm.link replacement user) before.length (before ++ after) =
      redact user replacement after := by
  induction before with
  | nil => rfl
  | cons c before ih =>
      rw [List.length_cons, List.cons_append, replaceMentions]
      exact ih

theorem redact_past (still : ∀ s, s <:+ plain → s ≠ [] → matchMention (userClasses user) (s ++ tail) = none) :
    redact user replacement (plain ++ tail) = plain ++ redact user replacement tail := by
  induction plain with
  | nil => rfl
  | cons c plain ih =>
      have none_ : matchMention (userClasses user) (c :: (plain ++ tail)) = none :=
        still (c :: plain) List.suffix_rfl (by simp)
      have later := ih fun s ends => still s (ends.trans (List.suffix_cons c plain))
      rw [List.cons_append, redact, replaceMentions, none_]
      exact congrArg (c :: ·) later

theorem redact_silent (uuid : OfClasses uuidClasses user) (silent : Silent plain tail) :
    redact user replacement (plain ++ tail) = plain ++ redact user replacement tail := by
  apply redact_past
  intro s ends some_
  apply matchUser_none uuid
  rintro name id rest valid whole _
  exact silent s ends some_ ⟨name, id, rest, valid, whole⟩

/-- Another user's mention stays as it is. -/
theorem redact_other (uuid : OfClasses uuidClasses user) (valid : mentionForm.Valid name id) (other : ¬SameId id user) :
    redact user replacement (mentionForm.link name id ++ rest) = mentionForm.link name id ++
      redact user replacement rest := by
  apply redact_past
  intro s ends some_
  apply matchUser_none uuid
  intro name' id' rest' valid' whole
  have clear : ']' ∉ '@' :: '[' :: name := by
    have closed : ']' ∉ name := valid.closed
    simp [closed]
  obtain ⟨rfl, _, _⟩ := LinkForm.begins_inside (w := '@' :: '[' :: name) clear valid.fits ends some_ valid' whole
  exact other

theorem redact_user (uuid : OfClasses uuidClasses user) (valid : mentionForm.Valid name id) (same : SameId id user) :
    redact user replacement (mentionForm.link name id ++ rest) =
      mentionForm.link replacement user ++ redact user replacement rest := by
  obtain ⟨inner, whole, _, _⟩ := link_cons valid rest
  have matched : matchMention (userClasses user) ('@' :: (inner ++ rest)) = some (id, rest) :=
    (matchUser uuid).mpr ⟨name, valid, same, whole.symm⟩
  rw [whole, redact, replaceMentions, matched]
  dsimp only
  rw [List.length_append, Nat.add_sub_cancel, redact_skip]

end Redact

section Tokens

variable {user replacement text plain name id rest : List Char}

def read (text : List Char) : List MentionToken := tokenize 0 [] text

/-- What redaction is to make of a token. -/
def redactedToken (user replacement : List Char) : MentionToken → MentionToken
  | .text text => .text text
  | .mention name userId =>
      if SameId userId.toList user then .mention (.ofList replacement) (.ofList user) else .mention name userId

/-- No mention of the user stands right behind a text that would swallow it under its new name. -/
def Apart (user replacement : List Char) (tokens : List MentionToken) : Prop :=
  ∀ plain name userId, [.text plain, .mention name userId] <:+: tokens → SameId userId.toList user →
    ¬mentionForm.Swallows plain.toList replacement

theorem map_plainText : (plainText plain).map (redactedToken user replacement) = plainText plain := by
  unfold plainText
  split <;> rfl

theorem apart_plainText : Apart user replacement (plainText plain) := by
  intro text name userId inside
  have short := inside.length_le
  unfold plainText at short
  split at short <;> simp at short

theorem apart_mention {tokens : List MentionToken} {shown userId : String} :
    Apart user replacement (.mention shown userId :: tokens) ↔ Apart user replacement tokens := by
  constructor
  · exact fun apart text name userId inside => apart text name userId (List.infix_cons inside)
  · intro apart text name userId inside
    rcases List.infix_cons_iff.mp inside with first | later
    · exact absurd (List.cons_prefix_cons.mp first).1 (by simp)
    · exact apart text name userId later

/-- The tokens of a text, a mention behind it and what follows. -/
theorem apart_cons {tokens : List MentionToken} {shown userId : String} :
    Apart user replacement (plainText plain ++ .mention shown userId :: tokens) ↔
      (SameId userId.toList user → ¬mentionForm.Swallows plain replacement) ∧ Apart user replacement tokens := by
  unfold plainText
  split
  · rename_i empty
    subst empty
    rw [List.nil_append, apart_mention]
    exact ⟨fun apart => ⟨fun _ => LinkForm.not_swallows_nil, apart⟩, And.right⟩
  · rw [List.singleton_append]
    constructor
    · intro apart
      refine ⟨fun same => ?_, ?_⟩
      · have here := apart (.ofList plain) shown userId ⟨[], tokens, rfl⟩ same
        rwa [String.toList_ofList] at here
      · exact apart_mention.mp fun text name userId inside => apart text name userId (List.infix_cons inside)
    · rintro ⟨free, apart⟩ text name userId' inside same
      rcases List.infix_cons_iff.mp inside with first | later
      · obtain ⟨text_, second⟩ := List.cons_prefix_cons.mp first
        obtain ⟨mention_, _⟩ := List.cons_prefix_cons.mp second
        cases text_
        cases mention_
        rw [String.toList_ofList]
        exact free same
      · exact apart_mention.mpr apart text name userId' later same

theorem read_quiet (quiet : mentionForm.Quiet plain) : read plain = plainText plain := tokenize_quiet quiet

theorem redact_quiet (uuid : OfClasses uuidClasses user) (quiet : mentionForm.Quiet plain) :
    redact user replacement plain = plain := by
  have past : redact user replacement (plain ++ []) = plain ++ redact user replacement [] :=
    redact_silent uuid (silent_quiet quiet)
  rw [List.append_nil] at past
  rw [past]
  exact List.append_nil plain

theorem ofList_inj {first second : List Char} (same : String.ofList first = String.ofList second) : first = second := by
  simpa using congrArg String.toList same

/-- A mention that a text swallows under its name is not shown behind that text. -/
theorem swallowed (swallows : mentionForm.Swallows plain name) (userId : String) (tokens : List MentionToken) :
    read (plain ++ (mentionForm.link name id ++ rest)) ≠ plainText plain ++ .mention (.ofList name) userId :: tokens := by
  intro shown
  have some_ : plain ≠ [] := by
    rintro rfl
    exact LinkForm.not_swallows_nil swallows
  rcases LinkForm.first_link (F := mentionForm) (plain ++ (mentionForm.link name id ++ rest)) with quiet | first
  · rw [read_quiet quiet] at shown
    have length := congrArg List.length shown
    simp [plainText, some_] at length
  · obtain ⟨plain', name', id', rest', whole, quiet, free, valid'⟩ := first
    rw [whole, read, tokenize_link quiet free valid'] at shown
    by_cases empty : plain' = []
    · simp [plainText, empty, some_] at shown
    · simp only [plainText, if_neg empty, if_neg some_, List.singleton_append, List.cons.injEq, MentionToken.text.injEq,
        MentionToken.mention.injEq] at shown
      obtain ⟨plain_, ⟨name_, _⟩, _⟩ := shown
      rw [ofList_inj plain_, ofList_inj name_] at free
      exact free swallows

/-- What an erasure may make of a token: the user is named anonymously, all else stays. -/
def Anonymised (user anonymous : List Char) : MentionToken → MentionToken → Prop
  | .text text, shown => shown = .text text
  | .mention name userId, shown =>
      if SameId userId.toList user then ∃ userId', shown = .mention (.ofList anonymous) userId' ∧ SameId userId'.toList user
      else shown = .mention name userId

theorem anonymised_redactedToken (token : MentionToken) :
    Anonymised user replacement token (redactedToken user replacement token) := by
  cases token with
  | text text => rfl
  | mention name userId =>
      by_cases same : SameId userId.toList user
      · rw [Anonymised, redactedToken, if_pos same, if_pos same]
        refine ⟨.ofList user, rfl, ?_⟩
        rw [String.toList_ofList]
        exact rfl
      · rw [Anonymised, redactedToken, if_neg same, if_neg same]

theorem anonymised_map {tokens : List MentionToken} :
    List.Forall₂ (Anonymised user replacement) tokens (tokens.map (redactedToken user replacement)) := by
  rw [List.forall₂_map_right_iff]
  exact List.forall₂_same.mpr fun token _ => anonymised_redactedToken token

/-- Behind the same text and one token each. -/
theorem anonymised_behind {first second : MentionToken} {tokens shown : List MentionToken}
    (kept : List.Forall₂ (Anonymised user replacement) (plainText plain ++ first :: tokens) (plainText plain ++ second :: shown)) :
    Anonymised user replacement first second ∧ List.Forall₂ (Anonymised user replacement) tokens shown := by
  unfold plainText at kept
  split at kept
  · exact List.forall₂_cons.mp kept
  · exact List.forall₂_cons.mp (List.forall₂_cons.mp kept).2

/-- Names are erased from the tokens only where no mention is swallowed. -/
theorem apart_of_anonymised (uuid : OfClasses uuidClasses user) (fine : mentionForm.Valid replacement user)
    (text : List Char)
    (kept : List.Forall₂ (Anonymised user replacement) (read text) (read (redact user replacement text))) :
    Apart user replacement (read text) := by
  induction text using LinkForm.link_induction (F := mentionForm) with
  | quiet plain quiet =>
      rw [read_quiet quiet]
      exact apart_plainText
  | link_ plain name id rest quiet free valid ih =>
      have before : read (plain ++ (mentionForm.link name id ++ rest)) =
          plainText plain ++ .mention (.ofList name) (.ofList id) :: read rest := tokenize_link quiet free valid
      rw [redact_silent uuid (silent_link quiet free valid), before] at kept
      rw [before, apart_cons, String.toList_ofList]
      by_cases same : SameId id user
      · rw [redact_user uuid valid same] at kept
        by_cases swallows : mentionForm.Swallows plain replacement
        · -- the tokens behind cannot begin with this text and a mention under the new name
          have some_ : plain ≠ [] := by
            rintro rfl
            exact LinkForm.not_swallows_nil swallows
          have text_ : plainText plain = [.text (.ofList plain)] := if_neg some_
          rw [text_, List.singleton_append] at kept
          obtain ⟨_, tokens, shown, kept, whole⟩ := List.forall₂_cons_left_iff.mp kept
          obtain ⟨second, more, shown', _, rfl⟩ := List.forall₂_cons_left_iff.mp kept
          rw [Anonymised, String.toList_ofList, if_pos same] at shown'
          obtain ⟨userId', rfl, _⟩ := shown'
          cases shown
          refine absurd whole ?_
          rw [← List.singleton_append, ← text_]
          exact swallowed swallows userId' more
        · have after : read (plain ++ (mentionForm.link replacement user ++ redact user replacement rest)) =
              plainText plain ++ .mention (.ofList replacement) (.ofList user) :: read (redact user replacement rest) :=
            tokenize_link quiet swallows fine
          rw [after] at kept
          exact ⟨fun _ => swallows, ih (anonymised_behind kept).2⟩
      · have after : read (plain ++ (mentionForm.link name id ++ redact user replacement rest)) =
            plainText plain ++ .mention (.ofList name) (.ofList id) :: read (redact user replacement rest) :=
          tokenize_link quiet free valid
        rw [redact_other uuid valid same, after] at kept
        exact ⟨fun theirs => absurd theirs same, ih (anonymised_behind kept).2⟩

/-- The tokens change in their names alone exactly where no mention is swallowed. -/
theorem read_redact_iff (uuid : OfClasses uuidClasses user) (fine : mentionForm.Valid replacement user) (text : List Char) :
    read (redact user replacement text) = (read text).map (redactedToken user replacement) ↔
      Apart user replacement (read text) := by
  constructor
  · intro shown
    apply apart_of_anonymised uuid fine
    rw [shown]
    exact anonymised_map
  · induction text using LinkForm.link_induction (F := mentionForm) with
    | quiet plain quiet =>
        intro _
        rw [redact_quiet uuid quiet, read_quiet quiet, map_plainText]
    | link_ plain name id rest quiet free valid ih =>
        intro apart
        have before : read (plain ++ (mentionForm.link name id ++ rest)) =
            plainText plain ++ .mention (.ofList name) (.ofList id) :: read rest := tokenize_link quiet free valid
        rw [before, apart_cons, String.toList_ofList] at apart
        rw [redact_silent uuid (silent_link quiet free valid), before, List.map_append, map_plainText, List.map_cons,
          ← ih apart.2]
        by_cases same : SameId id user
        · have after : read (plain ++ (mentionForm.link replacement user ++ redact user replacement rest)) =
              plainText plain ++ .mention (.ofList replacement) (.ofList user) :: read (redact user replacement rest) :=
            tokenize_link quiet (apart.1 same) fine
          rw [redact_user uuid valid same, redactedToken, String.toList_ofList, if_pos same, after]
        · have after : read (plain ++ (mentionForm.link name id ++ redact user replacement rest)) =
              plainText plain ++ .mention (.ofList name) (.ofList id) :: read (redact user replacement rest) :=
            tokenize_link quiet free valid
          rw [redact_other uuid valid same, redactedToken, String.toList_ofList, if_neg same, after]

theorem redact_redact (uuid : OfClasses uuidClasses user) (fine : mentionForm.Valid replacement user) (text : List Char)
    (apart : Apart user replacement (read text)) :
    redact user replacement (redact user replacement text) = redact user replacement text := by
  induction text using LinkForm.link_induction (F := mentionForm) with
  | quiet plain quiet => rw [redact_quiet uuid quiet, redact_quiet uuid quiet]
  | link_ plain name id rest quiet free valid ih =>
      have before : read (plain ++ (mentionForm.link name id ++ rest)) =
          plainText plain ++ .mention (.ofList name) (.ofList id) :: read rest := tokenize_link quiet free valid
      rw [before, apart_cons, String.toList_ofList] at apart
      rw [redact_silent uuid (silent_link quiet free valid)]
      by_cases same : SameId id user
      · have stays : ¬mentionForm.Swallows plain replacement := apart.1 same
        rw [redact_user uuid valid same, redact_silent uuid (silent_link quiet stays fine), redact_user uuid fine rfl,
          ih apart.2]
      · rw [redact_other uuid valid same, redact_silent uuid (silent_link quiet free valid), redact_other uuid valid same,
          ih apart.2]

end Tokens

section Bodies

/-- Some mention of the tokens carries the id, in either case. -/
def Mentions (tokens : List MentionToken) (id : List Char) : Prop :=
  ∃ name userId, .mention name userId ∈ tokens ∧ SameId userId.toList id

theorem redactedToken_theirs {user replacement : List Char} {name userId : String} (theirs : SameId userId.toList user) :
    redactedToken user replacement (.mention name userId) = .mention (.ofList replacement) (.ofList user) := if_pos theirs

theorem redactedToken_other {user replacement : List Char} {name userId : String} (other : ¬SameId userId.toList user) :
    redactedToken user replacement (.mention name userId) = .mention name userId := if_neg other

theorem mentions_redacted {user replacement id : List Char} {tokens : List MentionToken} :
    Mentions (tokens.map (redactedToken user replacement)) id ↔ Mentions tokens id := by
  constructor
  · rintro ⟨name, userId, member, same⟩
    obtain ⟨token, listed, made⟩ := List.mem_map.mp member
    cases token with
    | text text => cases made
    | mention name' userId' =>
        refine ⟨name', userId', listed, ?_⟩
        by_cases theirs : SameId userId'.toList user
        · rw [redactedToken_theirs theirs] at made
          cases made
          rw [String.toList_ofList] at same
          exact theirs.trans same
        · rw [redactedToken_other theirs] at made
          cases made
          exact same
  · rintro ⟨name, userId, member, same⟩
    have made : redactedToken user replacement (.mention name userId) ∈ tokens.map (redactedToken user replacement) :=
      List.mem_map_of_mem member
    by_cases theirs : SameId userId.toList user
    · rw [redactedToken_theirs theirs] at made
      refine ⟨_, _, made, ?_⟩
      rw [String.toList_ofList]
      exact theirs.symm.trans same
    · rw [redactedToken_other theirs] at made
      exact ⟨_, _, made, same⟩

theorem mentions_tokenize {body : String} {id : List Char} :
    Mentions (tokenizeMentions body) id ↔ ∃ userId ∈ parseMentions body, SameId userId.toList id := by
  constructor
  · rintro ⟨name, userId, member, same⟩
    exact ⟨userId, mem_parseMentions.mpr ⟨name, member⟩, same⟩
  · rintro ⟨userId, parsed, same⟩
    obtain ⟨name, member⟩ := mem_parseMentions.mp parsed
    exact ⟨name, userId, member, same⟩

def DEFAULT_MENTION_REDACTION : String := "Deleted user"

/-- What the redaction of a user's mentions is to do to a body. -/
structure RedactsOnly (body userId : String) : Prop where
  tokens : tokenizeMentions (redactMentionsOf body userId DEFAULT_MENTION_REDACTION) =
    (tokenizeMentions body).map (redactedToken userId.toList DEFAULT_MENTION_REDACTION.toList)
  ids : ∀ id, (∃ userId' ∈ parseMentions (redactMentionsOf body userId DEFAULT_MENTION_REDACTION),
    SameId userId'.toList id) ↔
    ∃ userId' ∈ parseMentions body, SameId userId'.toList id
  once : redactMentionsOf (redactMentionsOf body userId DEFAULT_MENTION_REDACTION) userId DEFAULT_MENTION_REDACTION =
    redactMentionsOf body userId DEFAULT_MENTION_REDACTION

variable {body userId : String}

theorem redactMentionsOf_eq (body userId replacement : String) : redactMentionsOf body userId replacement =
    .ofList (redact userId.toList replacement.toList body.toList) := by
  have whole : ("@[" ++ replacement ++ "](" ++ userId ++ ")").toList =
    mentionForm.link replacement.toList userId.toList := by
    simp [LinkForm.link, LinkForm.ending, mentionForm]
  rw [redactMentionsOf, whole]
  rfl

theorem default_fine (uuid : OfClasses uuidClasses userId.toList) :
    mentionForm.Valid DEFAULT_MENTION_REDACTION.toList userId.toList where
  closed := by
    have closed : ']' ∉ DEFAULT_MENTION_REDACTION.toList := by decide
    exact closed
  named := by
    have short : utf16Length DEFAULT_MENTION_REDACTION.toList ≤ MAX_MENTION_NAME := by decide
    exact short
  fits := uuid

/-- Of the id of a user: redaction changes the names of their mentions and nothing else, exactly where none of
them stands behind a text that would swallow it under the new name. -/
theorem redacts_only_iff (body userId : String) (uuid : OfClasses uuidClasses userId.toList) : RedactsOnly body userId ↔
    Apart userId.toList DEFAULT_MENTION_REDACTION.toList (tokenizeMentions body) := by
  have fine := default_fine uuid
  have tokens_iff := read_redact_iff uuid fine body.toList
  constructor
  · intro redacts
    refine tokens_iff.mp ?_
    have shown := redacts.tokens
    rw [redactMentionsOf_eq, tokenizeMentions, String.toList_ofList] at shown
    exact shown
  · intro apart
    have shown : tokenizeMentions (redactMentionsOf body userId DEFAULT_MENTION_REDACTION) =
        (tokenizeMentions body).map (redactedToken userId.toList DEFAULT_MENTION_REDACTION.toList) := by
      rw [redactMentionsOf_eq, tokenizeMentions, String.toList_ofList]
      exact tokens_iff.mpr apart
    refine ⟨shown, fun id => ?_, ?_⟩
    · rw [← mentions_tokenize, ← mentions_tokenize, shown, mentions_redacted]
    · rw [redactMentionsOf_eq, redactMentionsOf_eq, String.toList_ofList, redact_redact uuid fine body.toList apart]

end Bodies

def adaId : String := "018f3c2e-7a00-7000-8000-00000000000a"

theorem adaId_uuid : OfClasses uuidClasses adaId.toList := by
  have read : matchClasses uuidClasses adaId.toList = some (adaId.toList, []) := by decide +kernel
  exact (matchClasses_iff.mp read).1

theorem redacts_only_iff_ada : RedactsOnly "Hi @[Ada](018f3c2e-7a00-7000-8000-00000000000a)" adaId ↔
    Apart adaId.toList DEFAULT_MENTION_REDACTION.toList
      (tokenizeMentions "Hi @[Ada](018f3c2e-7a00-7000-8000-00000000000a)") :=
  redacts_only_iff _ adaId adaId_uuid

/-- An opened bracket, half a line of text, and a mention with a name of sixty letters. -/
def openedBody : String :=
  .ofList ("@[".toList ++ List.replicate 150 'x' ++ mentionForm.link (List.replicate 60 'y') adaId.toList)

theorem bracket_swallows_name : OfClasses uuidClasses adaId.toList ∧ ¬RedactsOnly openedBody adaId := by
  refine ⟨adaId_uuid, fun redacts => ?_⟩
  have two : (tokenizeMentions openedBody).length = 2 := by
    rw [tokenizeMentions, openedBody, String.toList_ofList]
    decide +kernel
  have one : (tokenizeMentions (redactMentionsOf openedBody adaId DEFAULT_MENTION_REDACTION)).length = 1 := by
    rw [tokenizeMentions, redactMentionsOf_eq, openedBody, String.toList_ofList, String.toList_ofList]
    decide +kernel
  rw [redacts.tokens, List.length_map, two] at one
  cases one

end Kurul.Redaction
