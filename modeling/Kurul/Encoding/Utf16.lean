import Mathlib

/-! UTF-16: text in code units, the characters it stands for, and what cutting it can break. -/
namespace Kurul.Encoding

abbrev Unit16 := Fin 0x10000

/-- White space and line ends, as `\s` matches them and `trim` takes them away. -/
def isWhiteSpace (code : Nat) : Bool :=
  [9, 10, 11, 12, 13, 32, 0xa0, 0x1680, 0x2028, 0x2029, 0x202f, 0x205f, 0x3000, 0xfeff].contains code ||
    (0x2000 ≤ code && code ≤ 0x200a)

def isLead (unit : Unit16) : Bool := 0xd800 ≤ unit.val && unit.val ≤ 0xdbff

def isTrail (unit : Unit16) : Bool := 0xdc00 ≤ unit.val && unit.val ≤ 0xdfff

def isSurrogate (unit : Unit16) : Bool := isLead unit || isTrail unit

def toUnit (n : Nat) : Unit16 := ⟨n % 0x10000, Nat.mod_lt n (Nat.zero_lt_succ _)⟩

/-- The units of one character. -/
def units (c : Char) : List Unit16 :=
  if c.toNat < 0x10000 then [toUnit c.toNat]
  else [toUnit (0xd800 + (c.toNat - 0x10000) / 0x400), toUnit (0xdc00 + (c.toNat - 0x10000) % 0x400)]

def encodeUtf16 (text : List Char) : List Unit16 := text.flatMap units

/-- The characters of a text; none where a surrogate stands alone. -/
def decodeUtf16 : List Unit16 → Option (List Char)
  | [] => some []
  | unit :: rest =>
      if isLead unit then
        match rest with
        | [] => none
        | trail :: rest =>
            if isTrail trail then
              (decodeUtf16 rest).map
                (Char.ofNat (0x10000 + (unit.val - 0xd800) * 0x400 + (trail.val - 0xdc00)) :: ·)
            else none
      else if isTrail unit then none
      else (decodeUtf16 rest).map (Char.ofNat unit.val :: ·)

/-- The characters of a text as it is encoded: U+FFFD for every surrogate that stands alone. -/
def toWellFormed : List Unit16 → List Char
  | [] => []
  | [unit] => if isSurrogate unit then [Char.ofNat 0xfffd] else [Char.ofNat unit.val]
  | unit :: trail :: rest =>
      if isLead unit && isTrail trail then
        Char.ofNat (0x10000 + (unit.val - 0xd800) * 0x400 + (trail.val - 0xdc00)) :: toWellFormed rest
      else (if isSurrogate unit then Char.ofNat 0xfffd else Char.ofNat unit.val) :: toWellFormed (trail :: rest)

/-- No surrogate stands alone. -/
inductive WellFormed : List Unit16 → Prop where
  | nil : WellFormed []
  | plain {unit : Unit16} {rest : List Unit16} : isSurrogate unit = false → WellFormed rest → WellFormed (unit :: rest)
  | pair {lead trail : Unit16} {rest : List Unit16} : isLead lead = true → isTrail trail = true → WellFormed rest →
      WellFormed (lead :: trail :: rest)

section Text

variable {unit lead trail : Unit16} {text rest before after : List Unit16}

theorem decodeUtf16_plain (plain : isSurrogate unit = false) :
    decodeUtf16 (unit :: rest) = (decodeUtf16 rest).map (Char.ofNat unit.val :: ·) := by
  obtain ⟨noLead, noTrail⟩ := Bool.or_eq_false_iff.mp plain
  rw [decodeUtf16.eq_def]
  simp [noLead, noTrail]

theorem decodeUtf16_pair (isLead_ : isLead lead = true) (isTrail_ : isTrail trail = true) :
    decodeUtf16 (lead :: trail :: rest) = (decodeUtf16 rest).map
      (Char.ofNat (0x10000 + (lead.val - 0xd800) * 0x400 + (trail.val - 0xdc00)) :: ·) := by
  rw [decodeUtf16.eq_def]
  simp [isLead_, isTrail_]

theorem wellFormed_plain (plain : isSurrogate unit = false) : WellFormed (unit :: rest) ↔ WellFormed rest := by
  constructor
  · intro formed
    cases formed with
    | plain _ formed => exact formed
    | pair isLead_ _ _ => simp [isSurrogate, isLead_] at plain
  · exact WellFormed.plain plain

theorem wellFormed_pair (isLead_ : isLead lead = true) (isTrail_ : isTrail trail = true) :
    WellFormed (lead :: trail :: rest) ↔ WellFormed rest := by
  constructor
  · intro formed
    cases formed with
    | plain plain _ => simp [isSurrogate, isLead_] at plain
    | pair _ _ formed => exact formed
  · exact WellFormed.pair isLead_ isTrail_

theorem wellFormed_lead (isLead_ : isLead lead = true) : ¬WellFormed [lead] := by
  rintro (_ | ⟨plain, _⟩)
  simp [isSurrogate, isLead_] at plain

theorem lead_not_trail (isLead_ : isLead unit = true) : isTrail unit = false := by
  simp only [isLead, isTrail, Bool.and_eq_true, decide_eq_true_eq, Bool.and_eq_false_iff, decide_eq_false_iff_not] at *
  omega

/-- Behind a well-formed text the rest is by itself. -/
theorem WellFormed.append_iff (first : WellFormed before) : WellFormed (before ++ after) ↔ WellFormed after := by
  induction first with
  | nil => rfl
  | @plain unit rest surrogate _ ih => rw [List.cons_append, wellFormed_plain surrogate, ih]
  | @pair lead trail rest isLead_ isTrail_ _ ih =>
      rw [List.cons_append, List.cons_append, wellFormed_pair isLead_ isTrail_, ih]

/-- A text may be taken apart in front of a unit that is no surrogate. -/
theorem wellFormed_middle (plain : isSurrogate unit = false) (formed : WellFormed (before ++ unit :: after)) :
    WellFormed before ∧ WellFormed after := by
  generalize whole : before ++ unit :: after = text at formed
  induction formed generalizing before with
  | nil => simp at whole
  | @plain u rest surrogate formed ih =>
      cases before with
      | nil =>
          obtain ⟨rfl, rfl⟩ := List.cons.inj whole
          exact ⟨WellFormed.nil, formed⟩
      | cons b before =>
          obtain ⟨rfl, tail⟩ := List.cons.inj whole
          obtain ⟨first, second⟩ := ih tail
          exact ⟨(wellFormed_plain surrogate).mpr first, second⟩
  | @pair lead trail rest isLead_ isTrail_ formed ih =>
      have apart : ∀ {u}, isLead u = true ∨ isTrail u = true → u ≠ unit := by
        rintro u is_ rfl
        rcases is_ with is_ | is_ <;> simp [isSurrogate, is_] at plain
      cases before with
      | nil => exact absurd (List.cons.inj whole).1.symm (apart (Or.inl isLead_))
      | cons b before =>
          obtain ⟨rfl, tail⟩ := List.cons.inj whole
          cases before with
          | nil => exact absurd (List.cons.inj tail).1.symm (apart (Or.inr isTrail_))
          | cons c before =>
              obtain ⟨rfl, later⟩ := List.cons.inj tail
              obtain ⟨first, second⟩ := ih later
              exact ⟨(wellFormed_pair isLead_ isTrail_).mpr first, second⟩

/-- Leaving out units that are no surrogates. -/
theorem WellFormed.filter {p : Unit16 → Bool} (keeps : ∀ unit, isSurrogate unit = true → p unit = true)
    (formed : WellFormed text) : WellFormed (text.filter p) := by
  induction formed with
  | nil => exact WellFormed.nil
  | @plain unit rest surrogate _ ih =>
      by_cases kept : p unit = true
      · rw [List.filter_cons_of_pos kept]
        exact (wellFormed_plain surrogate).mpr ih
      · rwa [List.filter_cons_of_neg kept]
  | @pair lead trail rest isLead_ isTrail_ _ ih =>
      rw [List.filter_cons_of_pos (keeps lead (by simp [isSurrogate, isLead_])),
        List.filter_cons_of_pos (keeps trail (by simp [isSurrogate, isTrail_]))]
      exact (wellFormed_pair isLead_ isTrail_).mpr ih

/-- A cut leaves a text well formed unless it falls behind a lead. -/
theorem WellFormed.take_iff (formed : WellFormed text) (n : Nat) :
    WellFormed (text.take n) ↔ ∀ last ∈ (text.take n).getLast?, isLead last = false := by
  induction formed generalizing n with
  | nil => simp [WellFormed.nil]
  | @plain unit rest surrogate _ ih =>
      cases n with
      | zero => simp [WellFormed.nil]
      | succ n =>
          rw [List.take_succ_cons, wellFormed_plain surrogate, ih]
          have noLead := (Bool.or_eq_false_iff.mp surrogate).1
          cases shorter : rest.take n with
          | nil => simp [noLead]
          | cons b more => rw [List.getLast?_cons_cons]
  | @pair lead trail rest isLead_ isTrail_ _ ih =>
      cases n with
      | zero => simp [WellFormed.nil]
      | succ n =>
          cases n with
          | zero => simp [wellFormed_lead isLead_, isLead_]
          | succ n =>
              rw [List.take_succ_cons, List.take_succ_cons, wellFormed_pair isLead_ isTrail_, ih,
                List.getLast?_cons_cons]
              cases shorter : rest.take n with
              | nil =>
                  have noLead : isLead trail = false := by
                    by_contra is_
                    have contrary := lead_not_trail (by simpa using is_ : isLead trail = true)
                    rw [isTrail_] at contrary
                    cases contrary
                  simp [noLead]
              | cons b more => rw [List.getLast?_cons_cons]

theorem toNat_ofNat {n : Nat} (valid : n.isValidChar) : (Char.ofNat n).toNat = n := by
  rw [Char.ofNat, dif_pos valid]
  rfl

theorem WellFormed.decodes (formed : WellFormed text) : ∃ chars, decodeUtf16 text = some chars ∧
    encodeUtf16 chars = text := by
  induction formed with
  | nil => exact ⟨[], rfl, rfl⟩
  | @plain unit rest surrogate _ ih =>
      obtain ⟨chars, read, written⟩ := ih
      refine ⟨Char.ofNat unit.val :: chars, by rw [decodeUtf16_plain surrogate, read]; rfl, ?_⟩
      have small := unit.isLt
      have valid : unit.val.isValidChar := by
        simp only [isSurrogate, isLead, isTrail, Bool.or_eq_false_iff, Bool.and_eq_false_iff, decide_eq_false_iff_not]
          at surrogate
        unfold Nat.isValidChar
        omega
      rw [encodeUtf16, List.flatMap_cons, units, toNat_ofNat valid, if_pos small]
      simp only [List.singleton_append, List.cons.injEq]
      refine ⟨Fin.ext ?_, written⟩
      simp only [toUnit]
      omega
  | @pair lead trail rest isLead_ isTrail_ _ ih =>
      obtain ⟨chars, read, written⟩ := ih
      refine ⟨_, by rw [decodeUtf16_pair isLead_ isTrail_, read]; rfl, ?_⟩
      simp only [isLead, isTrail, Bool.and_eq_true, decide_eq_true_eq] at isLead_ isTrail_
      have valid : (0x10000 + (lead.val - 0xd800) * 0x400 + (trail.val - 0xdc00)).isValidChar := by
        unfold Nat.isValidChar
        omega
      rw [encodeUtf16, List.flatMap_cons, units, toNat_ofNat valid, if_neg (by omega)]
      simp only [List.cons_append, List.nil_append, List.cons.injEq]
      refine ⟨Fin.ext ?_, Fin.ext ?_, written⟩
      · simp only [toUnit]
        omega
      · simp only [toUnit]
        omega

theorem mem_units (plain : isSurrogate unit = false) (c : Char) : unit ∈ units c ↔ c.toNat = unit.val := by
  have small := unit.isLt
  unfold units
  split
  · simp only [List.mem_singleton, Fin.ext_iff, toUnit]
    omega
  · have valid : c.toNat.isValidChar := c.valid
    unfold Nat.isValidChar at valid
    simp only [isSurrogate, isLead, isTrail, Bool.or_eq_false_iff, Bool.and_eq_false_iff, decide_eq_false_iff_not]
      at plain
    simp only [List.mem_cons, List.not_mem_nil, or_false, Fin.ext_iff, toUnit]
    omega

/-- A unit that is no surrogate stands for a character by itself. -/
theorem mem_encodeUtf16 (plain : isSurrogate unit = false) {chars : List Char} :
    unit ∈ encodeUtf16 chars ↔ ∃ c ∈ chars, c.toNat = unit.val := by
  rw [encodeUtf16, List.mem_flatMap]
  simp only [mem_units plain]

theorem decodeUtf16_encodeUtf16 (chars : List Char) : decodeUtf16 (encodeUtf16 chars) = some chars := by
  induction chars with
  | nil => rfl
  | cons c chars ih =>
      have valid : c.toNat.isValidChar := c.valid
      unfold Nat.isValidChar at valid
      rw [encodeUtf16, List.flatMap_cons, ← encodeUtf16, units]
      split
      · rename_i small
        have whole : (toUnit c.toNat).val = c.toNat := Nat.mod_eq_of_lt small
        have plain : isSurrogate (toUnit c.toNat) = false := by
          simp only [isSurrogate, isLead, isTrail, whole, Bool.or_eq_false_iff, Bool.and_eq_false_iff,
            decide_eq_false_iff_not]
          omega
        rw [List.singleton_append, decodeUtf16_plain plain, ih, whole, Char.ofNat_toNat, Option.map_some]
      · have front : (toUnit (0xd800 + (c.toNat - 0x10000) / 0x400)).val = 0xd800 + (c.toNat - 0x10000) / 0x400 :=
          Nat.mod_eq_of_lt (by omega)
        have back : (toUnit (0xdc00 + (c.toNat - 0x10000) % 0x400)).val = 0xdc00 + (c.toNat - 0x10000) % 0x400 :=
          Nat.mod_eq_of_lt (by omega)
        have together : 0x10000 + (0xd800 + (c.toNat - 0x10000) / 0x400 - 0xd800) * 0x400 +
            (0xdc00 + (c.toNat - 0x10000) % 0x400 - 0xdc00) = c.toNat := by
          omega
        rw [List.cons_append, List.singleton_append, decodeUtf16_pair, front, back, together, ih, Char.ofNat_toNat,
          Option.map_some]
        · simp only [isLead, front, Bool.and_eq_true, decide_eq_true_eq]
          omega
        · simp only [isTrail, back, Bool.and_eq_true, decide_eq_true_eq]
          omega

theorem encodeUtf16_injective : Function.Injective encodeUtf16 := by
  intro chars others same
  have decoded := congrArg decodeUtf16 same
  rw [decodeUtf16_encodeUtf16, decodeUtf16_encodeUtf16] at decoded
  exact Option.some.inj decoded

end Text
end Kurul.Encoding
