import Kurul.Sequence.Splitting

/-! POSIX paths: normal forms as lists of segments, and the way from one to another as text. -/
namespace Kurul.Posix

/-- The two signs that paths know. -/
structure Signs (α : Type) where
  slash : α
  dot : α
  apart : slash ≠ dot

namespace Signs

variable {α : Type} [DecidableEq α] (S : Signs α)

def isAbsolute (path : List α) : Bool := path.head? = some S.slash

/-- One segment further, or one back. -/
def walk (base : List (List α)) (segment : List α) : List (List α) :=
  if segment = [] ∨ segment = [S.dot] then base
  else if segment = [S.dot, S.dot] then base.dropLast
  else base ++ [segment]

/-- The normal form of a path, seen from a base. -/
def resolve (base : List (List α)) (path : List α) : List (List α) :=
  (path.splitOn S.slash).foldl S.walk (if S.isAbsolute path then [] else base)

def joined (segments : List (List α)) : List α := [S.slash].intercalate segments

def commonLength : List (List α) → List (List α) → Nat
  | a :: source, b :: target => if a = b then commonLength source target + 1 else 0
  | _, _ => 0

/-- Up to where both paths part, and down again. -/
def relative (source target : List (List α)) : List α :=
  S.joined (List.replicate (source.length - commonLength source target) [S.dot, S.dot] ++
    target.drop (commonLength source target))

/-- A segment that names something. -/
structure Proper (segment : List α) : Prop where
  some_ : segment ≠ []
  slashless : S.slash ∉ segment
  notDot : segment ≠ [S.dot]
  notDots : segment ≠ [S.dot, S.dot]

/-- A segment that begins like the way up. -/
def Dotted (segment : List α) : Prop := [S.dot, S.dot] <+: segment

instance (segment : List α) : Decidable (S.Dotted segment) := inferInstanceAs (Decidable (_ <+: _))

variable {S} {base path source target rest : List (List α)} {segment text : List α}

theorem walk_proper (proper : S.Proper segment) : S.walk base segment = base ++ [segment] := by
  simp [walk, proper.some_, proper.notDot, proper.notDots]

theorem foldl_walk (proper : ∀ segment ∈ path, S.Proper segment) : path.foldl S.walk base = base ++ path := by
  induction path generalizing base with
  | nil => simp
  | cons segment path ih =>
      obtain ⟨here, later⟩ := List.forall_mem_cons.mp proper
      rw [List.foldl_cons, walk_proper here, ih later, List.append_assoc, List.singleton_append]

theorem walk_keeps (proper : ∀ segment ∈ base, S.Proper segment) (slashless : S.slash ∉ segment) :
    ∀ other ∈ S.walk base segment, S.Proper other := by
  unfold walk
  split
  · exact proper
  · rename_i some_
    split
    · exact fun other member => proper other (List.dropLast_subset base member)
    · rename_i notDots
      obtain ⟨some_, notDot⟩ := not_or.mp some_
      intro other member
      rcases List.mem_append.mp member with earlier | last
      · exact proper other earlier
      · rw [List.mem_singleton.mp last]
        exact ⟨some_, slashless, notDot, notDots⟩

/-- A normal form holds nothing but names. -/
theorem resolve_proper (proper : ∀ segment ∈ base, S.Proper segment) : ∀ segment ∈ S.resolve base text,
    S.Proper segment := by
  have steps : ∀ (segments base : List (List α)), (∀ segment ∈ segments, S.slash ∉ segment) →
      (∀ segment ∈ base, S.Proper segment) → ∀ segment ∈ segments.foldl S.walk base, S.Proper segment := by
    intro segments
    induction segments with
    | nil => exact fun _ _ proper => proper
    | cons segment segments ih =>
        intro base slashless proper
        obtain ⟨here, later⟩ := List.forall_mem_cons.mp slashless
        exact ih _ later (walk_keeps proper here)
  apply steps _ _ fun _ => Sequence.notMem_of_mem_splitOn
  split
  · simp
  · exact proper

omit [DecidableEq α] in
theorem joined_cons (segment : List α) (rest : List (List α)) :
    S.joined (segment :: rest) = segment ++ (if rest = [] then [] else S.slash :: S.joined rest) := by
  cases rest with
  | nil => simp [joined, List.intercalate]
  | cons next rest =>
      rw [joined, List.intercalate_cons_cons, if_neg (by simp), List.append_assoc]
      rfl

theorem joined_inside (proper : S.Proper segment) (rest : List (List α)) :
    S.joined (segment :: rest) ≠ [] ∧ S.isAbsolute (S.joined (segment :: rest)) = false := by
  rw [joined_cons]
  cases segment with
  | nil => exact absurd rfl proper.some_
  | cons a segment =>
      have apart : a ≠ S.slash := fun same => proper.slashless (same ▸ List.mem_cons_self)
      simp [isAbsolute, apart]

/-- A path of names, written out and resolved, leads there. -/
theorem resolve_joined (some_ : path ≠ []) (proper : ∀ segment ∈ path, S.Proper segment) :
    S.resolve base (S.joined path) = base ++ path := by
  have split : (S.joined path).splitOn S.slash = path :=
    List.splitOn_intercalate _ (fun segment member => (proper segment member).slashless) some_
  have inside : S.isAbsolute (S.joined path) = false := by
    cases path with
    | nil => exact absurd rfl some_
    | cons segment rest => exact (joined_inside (proper segment List.mem_cons_self) rest).2
  rw [resolve, split, inside]
  exact foldl_walk proper

theorem resolve_name (proper : S.Proper segment) : S.resolve base segment = base ++ [segment] := by
  have one : S.joined [segment] = segment := by simp [joined_cons]
  have path : S.resolve base (S.joined [segment]) = base ++ [segment] :=
    resolve_joined (by simp) (by simpa using proper)
  rwa [one] at path

theorem commonLength_append (source rest : List (List α)) : commonLength source (source ++ rest) = source.length := by
  induction source with
  | nil => cases rest <;> rfl
  | cons segment source ih =>
      rw [List.cons_append, commonLength, if_pos rfl, ih, List.length_cons]

theorem relative_inside (source rest : List (List α)) : S.relative source (source ++ rest) = S.joined rest := by
  rw [relative, commonLength_append, Nat.sub_self, List.drop_left]
  rfl

theorem commonLength_lt (outside : ¬source <+: target) : commonLength source target < source.length := by
  induction source generalizing target with
  | nil => simp at outside
  | cons a source ih =>
      cases target with
      | nil => simp [commonLength]
      | cons b target =>
          unfold commonLength
          split
          · rename_i same
            subst same
            have further : ¬source <+: target := fun inside => outside (List.cons_prefix_cons.mpr ⟨rfl, inside⟩)
            have fewer := ih further
            rw [List.length_cons]
            omega
          · simp

/-- The way to what is not below begins with the way up. -/
theorem relative_outside (outside : ¬source <+: target) : S.Dotted (S.relative source target) := by
  have fewer := commonLength_lt outside
  obtain ⟨n, up⟩ : ∃ n, source.length - commonLength source target = n + 1 := ⟨_, (Nat.succ_pred (by omega)).symm⟩
  rw [Dotted, relative, up, List.replicate_succ, List.cons_append, joined_cons]
  exact List.prefix_append _ _

omit [DecidableEq α] in
/-- The text of a path is dotted where its first name is. -/
theorem dotted_joined (proper : S.Proper segment) (rest : List (List α)) :
    S.Dotted (S.joined (segment :: rest)) ↔ S.Dotted segment := by
  unfold Dotted
  rw [joined_cons]
  cases segment with
  | nil => exact absurd rfl proper.some_
  | cons a segment =>
      cases segment with
      | cons b segment => simp
      | nil =>
          split
          · simp
          · simp [Ne.symm S.apart]

theorem joined_inj {other : List (List α)} (proper : ∀ segment ∈ path, S.Proper segment)
    (proper' : ∀ segment ∈ other, S.Proper segment) (some_ : path ≠ []) (some_' : other ≠ [])
    (same : S.joined path = S.joined other) : path = other := by
  have first : S.resolve [] (S.joined path) = [] ++ path := resolve_joined some_ proper
  have second : S.resolve [] (S.joined other) = [] ++ other := resolve_joined some_' proper'
  rw [same, second] at first
  simpa using first.symm

end Signs
end Kurul.Posix
