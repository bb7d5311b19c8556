import Kurul.Client.Mentions

/-! The mentions of a comment body, read over characters and over code units: either reader finds in a
body, or in its encoding, what the other one finds. -/
namespace Kurul.Client.Mentions

open Encoding (encodeUtf16 units)
open Redaction (OfClasses)
open Sequence (LinkForm)

section Encoded

variable {c : Char} {text name id rest : List Char}

theorem val_unit (ascii : c.toNat < 128) : (unit c).val = c.toNat := Nat.mod_eq_of_lt (by omega)

theorem units_ascii (ascii : c.toNat < 128) : units c = [unit c] := if_pos (by omega)

theorem plain_unit (ascii : c.toNat < 128) : Encoding.isSurrogate (unit c) = false := by
  simp only [Encoding.isSurrogate, Encoding.isLead, Encoding.isTrail, Bool.or_eq_false_iff, Bool.and_eq_false_iff,
    decide_eq_false_iff_not, val_unit ascii]
  omega

theorem encode_append (before after : List Char) :
    encodeUtf16 (before ++ after) = encodeUtf16 before ++ encodeUtf16 after := List.flatMap_append

theorem encode_cons (c : Char) (text : List Char) : encodeUtf16 (c :: text) = units c ++ encodeUtf16 text := rfl

theorem encode_singleton (c : Char) : encodeUtf16 [c] = units c := List.flatMap_singleton ..

theorem unit_mem_encode (ascii : c.toNat < 128) : unit c ∈ encodeUtf16 text ↔ c ∈ text := by
  rw [Encoding.mem_encodeUtf16 (plain_unit ascii), val_unit ascii]
  constructor
  · rintro ⟨d, member, same⟩
    rwa [Char.toNat_inj.mp same] at member
  · exact fun member => ⟨c, member, rfl⟩

theorem length_encode (text : List Char) : (encodeUtf16 text).length = utf16Length text := by
  induction text with
  | nil => rfl
  | cons c text ih =>
      have here : (units c).length = if c.val < 0x10000 then 1 else 2 := by
        unfold units
        simp only [UInt32.lt_iff_toNat_lt, Char.toNat]
        split <;> simp_all
      rw [encode_cons, List.length_append, ih, here, utf16Length, utf16Length, List.map_cons, List.sum_cons]

theorem encode_eq_nil (empty : encodeUtf16 text = []) : text = [] :=
  Encoding.encodeUtf16_injective empty

/-- An encoded text is cut where the text is, at the first place of an ASCII character. -/
theorem encode_cut (ascii : c.toNat < 128) {first more : Text} (clear : unit c ∉ first)
    (same : encodeUtf16 text = first ++ unit c :: more) :
    ∃ before after, text = before ++ c :: after ∧ encodeUtf16 before = first ∧ encodeUtf16 after = more := by
  have member : c ∈ text := by
    apply (unit_mem_encode ascii).mp
    rw [same]
    exact List.mem_append_right _ List.mem_cons_self
  obtain ⟨before, after, whole, absent⟩ := List.eq_append_cons_of_mem member
  have parts : encodeUtf16 before ++ unit c :: encodeUtf16 after = first ++ unit c :: more := by
    rw [← same, whole, encode_append, encode_cons, units_ascii ascii, List.singleton_append]
  obtain ⟨front, back⟩ := Sequence.cut_unique (mt (unit_mem_encode ascii).mp absent) clear parts
  exact ⟨before, after, whole, front, back⟩

theorem encode_head (ascii : c.toNat < 128) {more : Text} (same : encodeUtf16 text = unit c :: more) :
    ∃ after, text = c :: after ∧ encodeUtf16 after = more := by
  obtain ⟨before, after, whole, nothing, back⟩ := encode_cut ascii List.not_mem_nil same
  obtain rfl := encode_eq_nil nothing
  exact ⟨after, whole, back⟩

theorem encode_link (name id : List Char) :
    encodeUtf16 (Redaction.mentionForm.link name id) = mentionForm.link (encodeUtf16 name) (encodeUtf16 id) := by
  have sign : ∀ c : Char, c.toNat < 128 → ∀ text, encodeUtf16 (c :: text) = unit c :: encodeUtf16 text := by
    intro c ascii text
    rw [encode_cons, units_ascii ascii, List.singleton_append]
  have written := link_eq (encodeUtf16 name) (encodeUtf16 id) []
  rw [List.append_nil] at written
  rw [written, LinkForm.link, LinkForm.ending]
  simp only [Redaction.mentionForm]
  rw [sign '@' (by decide), sign '[' (by decide), encode_append, sign ']' (by decide), sign '(' (by decide),
    encode_append, sign ')' (by decide)]
  rfl

theorem encode_ascii (ascii : ∀ c ∈ id, c.toNat < 128) : encodeUtf16 id = id.map unit := by
  induction id with
  | nil => rfl
  | cons c id ih =>
      rw [encode_cons, units_ascii (ascii c List.mem_cons_self), ih fun d later => ascii d (List.mem_cons_of_mem _ later)]
      rfl

theorem unitClass_unit (ascii : c.toNat < 128) (class_ : Char → Bool) : unitClass class_ (unit c) = class_ c := by
  rw [unitClass, val_unit ascii, Char.ofNat_toNat, decide_eq_true ascii, Bool.true_and]

theorem fits_map {classes : List (Char → Bool)} (ascii : ∀ c ∈ id, c.toNat < 128) :
    fits classes (id.map unit) = true ↔ OfClasses classes id := by
  induction classes generalizing id with
  | nil => cases id <;> simp [fits, OfClasses]
  | cons class_ classes ih =>
      cases id with
      | nil => simp [fits, OfClasses]
      | cons c id =>
          rw [List.map_cons, fits, unitClass_unit (ascii c List.mem_cons_self), Bool.and_eq_true,
            ih fun d later => ascii d (List.mem_cons_of_mem _ later), OfClasses, OfClasses, List.forall₂_cons]

/-- A unit below 128 is an ASCII character. -/
theorem ascii_of_encoded (low : ∀ u ∈ encodeUtf16 text, u.val < 128) : ∀ c ∈ text, c.toNat < 128 := by
  intro c member
  have all : ∀ u ∈ units c, u.val < 128 := fun u inside => low u (List.mem_flatMap.mpr ⟨c, member, inside⟩)
  have valid : c.toNat.isValidChar := c.valid
  unfold Nat.isValidChar at valid
  unfold units at all
  split at all
  · rename_i small
    have here := all _ (List.mem_singleton.mpr rfl)
    simp only [Encoding.toUnit] at here
    omega
  · have here := all _ List.mem_cons_self
    simp only [Encoding.toUnit] at here
    omega

theorem fits_encode : fits uuidClasses (encodeUtf16 id) = true ↔ OfClasses uuidClasses id := by
  constructor
  · intro fit
    have ascii : ∀ c ∈ id, c.toNat < 128 := by
      apply ascii_of_encoded
      intro u member
      obtain ⟨class_, _, theirs⟩ := fits_class fit u member
      exact of_decide_eq_true (Bool.and_eq_true_iff.mp theirs).1
    rw [encode_ascii ascii] at fit
    exact (fits_map ascii).mp fit
  · intro classed
    have ascii : ∀ c ∈ id, c.toNat < 128 := fun c member => Redaction.idChar_ascii (Redaction.uuid_idChars classed c member)
    rw [encode_ascii ascii]
    exact (fits_map ascii).mpr classed

theorem valid_encode : mentionForm.Valid (encodeUtf16 name) (encodeUtf16 id) ↔ Redaction.mentionForm.Valid name id := by
  have named : (encodeUtf16 name).length ≤ MAX_MENTION_NAME ↔ utf16Length name ≤ MAX_MENTION_NAME := by
    rw [length_encode]
  constructor
  · rintro ⟨closed, short, fit⟩
    exact ⟨mt (unit_mem_encode (by decide)).mpr closed, named.mp short, fits_encode.mp fit⟩
  · rintro ⟨closed, short, fit⟩
    exact ⟨mt (unit_mem_encode (by decide)).mp closed, named.mpr short, fits_encode.mpr fit⟩

theorem starts_encode : mentionForm.Starts (encodeUtf16 text) ↔ Redaction.mentionForm.Starts text := by
  constructor
  · rintro ⟨name', id', rest', valid, whole⟩
    rw [link_eq] at whole
    obtain ⟨marked, rfl, behindMark⟩ := encode_head (by decide) whole
    obtain ⟨opened, rfl, behindOpening⟩ := encode_head (by decide) behindMark
    obtain ⟨name, closed, rfl, rfl, behindName⟩ := encode_cut (by decide) valid.closed behindOpening
    obtain ⟨bound, rfl, behindLeft⟩ := encode_head (by decide) behindName
    obtain ⟨id, rest, rfl, rfl, -⟩ := encode_cut (by decide) (mentionForm.plain _ valid.fits).2.2 behindLeft
    refine ⟨name, id, rest, valid_encode.mp valid, ?_⟩
    simp [LinkForm.link, LinkForm.ending, Redaction.mentionForm]
  · rintro ⟨name, id, rest, valid, rfl⟩
    rw [encode_append, encode_link]
    exact LinkForm.starts_link (valid_encode.mpr valid)

/-- No mention begins within a character. -/
theorem silent_units (still : ¬Redaction.mentionForm.Starts (c :: text)) :
    ∀ s, s <:+ units c → s ≠ [] → ¬mentionForm.Starts (s ++ encodeUtf16 text) := by
  intro s ends some_
  have whole : ¬mentionForm.Starts (encodeUtf16 (c :: text)) := mt starts_encode.mp still
  rw [encode_cons] at whole
  unfold units at ends whole
  split at ends
  · rename_i small
    rw [if_pos small] at whole
    rcases List.suffix_cons_iff.mp ends with rfl | nothing
    · exact whole
    · exact absurd (List.suffix_nil.mp nothing) some_
  · rename_i large
    rw [if_neg large] at whole
    rcases List.suffix_cons_iff.mp ends with rfl | inner
    · exact whole
    · rcases List.suffix_cons_iff.mp inner with rfl | nothing
      · have other : Encoding.toUnit (0xdc00 + (c.toNat - 0x10000) % 0x400) ≠ unit '@' := by
          intro same
          have values := congrArg Fin.val same
          have sign : '@'.toNat = 64 := rfl
          rw [val_unit (by decide)] at values
          simp only [Encoding.toUnit] at values
          omega
        exact LinkForm.not_starts_of_ne other
      · exact absurd (List.suffix_nil.mp nothing) some_

end Encoded

section Readers

variable {text name id rest : List Char}

def encodeToken : Kurul.MentionToken → MentionToken
  | .text text => .text (encodeUtf16 text.toList)
  | .mention name userId => .mention (encodeUtf16 name.toList) (encodeUtf16 userId.toList)

theorem mentionIds_skip (before after : List Char) : mentionIds before.length (before ++ after) = mentionIds 0 after := by
  induction before with
  | nil => rfl
  | cons c before ih =>
      rw [List.length_cons, List.cons_append, mentionIds]
      exact ih

theorem mentionIds_link (valid : Redaction.mentionForm.Valid name id) :
    mentionIds 0 (Redaction.mentionForm.link name id ++ rest) = id :: mentionIds 0 rest := by
  obtain ⟨inner, whole, matched, -⟩ := Redaction.link_cons valid rest
  rw [whole, mentionIds, matched]
  dsimp only
  rw [List.length_append, Nat.add_sub_cancel, mentionIds_skip]

theorem userIds_encode (text : List Char) (index : Nat) :
    (matchAll 0 index (encodeUtf16 text)).map Match.userId = (mentionIds 0 text).map encodeUtf16 := by
  induction text using LinkForm.reading (F := Redaction.mentionForm) generalizing index with
  | nil => rfl
  | link name id rest valid ih =>
      rw [encode_append, encode_link, matchAll_link (valid_encode.mpr valid), mentionIds_link valid, List.map_cons,
        List.map_cons, ih]
  | plain c rest still ih =>
      rw [encode_cons, matchAll_silent (silent_units still), ih, mentionIds, Redaction.matchMention_none.mpr still]

/-- The text between two mentions, as it is cut out of the encoded body. -/
theorem plainText_encode (before pending tail : List Char) :
    (if (encodeUtf16 (before ++ pending)).length > (encodeUtf16 before).length then
        [MentionToken.text (slice (encodeUtf16 (before ++ pending ++ tail)) (encodeUtf16 before).length
          (encodeUtf16 (before ++ pending)).length)]
      else []) = (plainText pending).map encodeToken := by
  have cut : slice (encodeUtf16 (before ++ pending ++ tail)) (encodeUtf16 before).length
      (encodeUtf16 (before ++ pending)).length = encodeUtf16 pending := by
    rw [slice, encode_append (before ++ pending), List.take_left, encode_append, List.drop_left]
  rw [cut, encode_append, List.length_append]
  by_cases nothing : pending = []
  · rw [nothing, plainText, if_pos rfl]
    exact if_neg (Nat.lt_irrefl _)
  · have some_ : 0 < (encodeUtf16 pending).length := List.length_pos_of_ne_nil (mt encode_eq_nil nothing)
    rw [plainText, if_neg nothing, if_pos (by omega), List.map_singleton, encodeToken, String.toList_ofList]

/-- From any place: `pending` is what was passed over since the last mention. -/
theorem tokensFrom_encode (before pending text : List Char) :
    tokensFrom (encodeUtf16 (before ++ pending ++ text)) (encodeUtf16 before).length
        (matchAll 0 (encodeUtf16 (before ++ pending)).length (encodeUtf16 text)) =
      (tokenize 0 pending text).map encodeToken := by
  induction text using LinkForm.reading (F := Redaction.mentionForm) generalizing before pending with
  | nil =>
      have last := plainText_encode before pending []
      rw [List.append_nil, slice, List.take_length] at last
      rw [List.append_nil, tokenize, ← last]
      rfl
  | link name id rest valid ih =>
      have later := ih (before ++ pending ++ Redaction.mentionForm.link name id) []
      rw [List.append_nil, List.append_assoc (before ++ pending), encode_append (before ++ pending) (_ ++ rest),
        ← encode_append] at later
      rw [encode_append (Redaction.mentionForm.link name id), encode_link, matchAll_link (valid_encode.mpr valid),
        tokensFrom, plainText_encode, Redaction.tokenize_at valid, List.map_append, List.map_cons, encodeToken,
        String.toList_ofList, String.toList_ofList, ← later, encode_append _ (Redaction.mentionForm.link name id),
        encode_link, List.length_append]
  | plain c rest still ih =>
      have later := ih before (pending ++ [c])
      have onward : before ++ (pending ++ [c]) ++ rest = before ++ pending ++ c :: rest := by simp
      have passed : (encodeUtf16 (before ++ (pending ++ [c]))).length =
          (encodeUtf16 (before ++ pending)).length + (units c).length := by
        rw [← List.append_assoc, encode_append, List.length_append, encode_singleton]
      rw [onward, passed] at later
      rw [encode_cons, matchAll_silent (silent_units still), later, tokenize, Redaction.matchMention_none.mpr still]

theorem eraseDups_map {α β : Type} [BEq α] [LawfulBEq α] [BEq β] [LawfulBEq β] {f : α → β}
    (injective : Function.Injective f) (items : List α) : (items.map f).eraseDups = items.eraseDups.map f := by
  induction size : items.length using Nat.strong_induction_on generalizing items with
  | _ n ih =>
      cases items with
      | nil => rfl
      | cons a items =>
          have others : (items.map f).filter (fun b => !b == f a) = (items.filter fun b => !b == a).map f := by
            rw [List.filter_map]
            congr 1
            apply List.filter_congr
            intro b _
            rw [Function.comp_apply, Bool.eq_iff_iff]
            simp [injective.eq_iff]
          have shorter : (items.filter fun b => !b == a).length < n := by
            rw [← size, List.length_cons]
            exact Nat.lt_succ_of_le (List.length_filter_le _ _)
          rw [List.map_cons, List.eraseDups_cons, List.eraseDups_cons, others, ih _ shorter _ rfl, List.map_cons]

/-- A token as it is written in a body. -/
def MentionToken.markup : MentionToken → Text
  | .text text => text
  | .mention name userId => formatMentionMarkup name userId

theorem pending_markup (before pending tail : Text) :
    (if (before ++ pending).length > before.length then
        [MentionToken.text (slice (before ++ pending ++ tail) before.length (before ++ pending).length)]
      else []).flatMap MentionToken.markup = pending := by
  rw [slice, List.take_left, List.drop_left, List.length_append]
  cases pending with
  | nil => simp
  | cons u pending => simp [MentionToken.markup]

/-- What has been passed over and what is ahead are spelled by the tokens that are still to come. -/
theorem tokensFrom_markup (before pending text : Text) :
    (tokensFrom (before ++ pending ++ text) before.length (matchAll 0 (before ++ pending).length text)).flatMap
      MentionToken.markup = pending ++ text := by
  induction text using LinkForm.reading (F := mentionForm) generalizing before pending with
  | nil =>
      have last := pending_markup before pending []
      rw [List.append_nil, slice, List.take_length] at last
      rw [List.append_nil, List.append_nil]
      exact last
  | link name id rest valid ih =>
      have later := ih (before ++ pending ++ mentionForm.link name id) []
      rw [List.append_nil, List.append_assoc (before ++ pending), List.length_append] at later
      rw [matchAll_link valid, tokensFrom, List.flatMap_append, pending_markup, List.flatMap_cons, later, List.nil_append,
        MentionToken.markup, format_eq]
  | plain u rest still ih =>
      have later := ih before (pending ++ [u])
      have onward : before ++ (pending ++ [u]) ++ rest = before ++ pending ++ u :: rest := by simp
      have passed : (before ++ (pending ++ [u])).length = (before ++ pending).length + 1 := by
        rw [← List.append_assoc, List.length_append, List.length_singleton]
      rw [onward, passed] at later
      rw [matchAll, matchMention_none.mpr still]
      dsimp only
      rw [later, List.append_assoc, List.singleton_append]

/-- The tokens of a body spell it out, those of its encoding are the encoded ones, and the editor names the
ids that the server reads. -/
theorem readers_agree : (∀ text : Text, (tokenizeMentions text).flatMap MentionToken.markup = text) ∧
    ∀ body : String, tokenizeMentions (encodeUtf16 body.toList) = (Kurul.tokenizeMentions body).map encodeToken ∧
      parseMentions (encodeUtf16 body.toList) =
        (Kurul.parseMentions body).map fun userId => encodeUtf16 userId.toList := by
  refine ⟨fun text => tokensFrom_markup [] [] text, fun body => ⟨tokensFrom_encode [] [] body.toList, ?_⟩⟩
  have injective : Function.Injective fun userId : String => encodeUtf16 userId.toList :=
    Encoding.encodeUtf16_injective.comp fun _ _ => String.toList_inj.mp
  rw [parseMentions, Kurul.parseMentions, ← eraseDups_map injective, userIds_encode, List.map_map]
  congr 2
  funext id
  exact congrArg encodeUtf16 String.toList_ofList.symm

end Readers

end Kurul.Client.Mentions
