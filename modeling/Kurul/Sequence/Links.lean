import Mathlib

/-! Links written inside a text as `@[name](id)`: where they begin, and how a text falls into links and
the plain text between them when it is read from the left. -/
namespace Kurul.Sequence

/-- A list is cut in one way at the first place of an element. -/
theorem cut_unique {α : Type} {mark : α} {first first' rest rest' : List α} (clear : mark ∉ first) (clear' : mark ∉ first')
    (same : first ++ mark :: rest = first' ++ mark :: rest') : first = first' ∧ rest = rest' := by
  induction first generalizing first' with
  | nil =>
      cases first' with
      | nil => exact ⟨rfl, (List.cons.inj same).2⟩
      | cons a more => exact absurd (List.cons.inj same).1 fun head => clear' (head ▸ List.mem_cons_self)
  | cons a more ih =>
      cases first' with
      | nil => exact absurd (List.cons.inj same).1.symm fun head => clear (head ▸ List.mem_cons_self)
      | cons b more' =>
          obtain ⟨rfl, tails⟩ := List.cons.inj same
          obtain ⟨rfl, rest⟩ := ih (fun inside => clear (List.mem_cons_of_mem _ inside))
            (fun inside => clear' (List.mem_cons_of_mem _ inside)) tails
          exact ⟨rfl, rest⟩

/-- The signs of a link, and what its two parts may be. -/
structure LinkForm (α : Type) where
  at_ : α
  opening : α
  closing : α
  left : α
  right : α
  Named : List α → Prop
  Fits : List α → Prop
  at_apart : at_ ≠ opening ∧ at_ ≠ closing ∧ at_ ≠ left ∧ at_ ≠ right
  closing_apart : closing ≠ opening ∧ closing ≠ left ∧ closing ≠ right
  plain : ∀ id, Fits id → at_ ∉ id ∧ closing ∉ id ∧ right ∉ id

namespace LinkForm

variable {α : Type} (F : LinkForm α)

/-- What follows the name. -/
def ending (id : List α) : List α := F.closing :: F.left :: (id ++ [F.right])

def link (name id : List α) : List α := F.at_ :: F.opening :: (name ++ F.ending id)

structure Valid (name id : List α) : Prop where
  closed : F.closing ∉ name
  named : F.Named name
  fits : F.Fits id

/-- A link stands at the head of the text. -/
def Starts (text : List α) : Prop := ∃ name id rest, F.Valid name id ∧ text = F.link name id ++ rest

/-- No link begins in the text taken by itself. -/
def Quiet (plain : List α) : Prop := ∀ s, s <:+ plain → ¬F.Starts s

/-- The text ends in an opened link that takes a following one with this name into its own. -/
def Swallows (plain name : List α) : Prop :=
  ∃ before inner, plain = before ++ F.at_ :: F.opening :: inner ∧ F.closing ∉ inner ∧
    F.Named (inner ++ F.at_ :: F.opening :: name)

variable {F} {name id rest plain text s : List α}

theorem ending_append (id rest : List α) : F.ending id ++ rest = F.closing :: F.left :: (id ++ F.right :: rest) := by
  simp [ending]

theorem link_append (name id rest : List α) :
    F.link name id ++ rest = F.at_ :: F.opening :: (name ++ (F.ending id ++ rest)) := by
  simp [link]

theorem at_notMem_ending (fits : F.Fits id) : F.at_ ∉ F.ending id := by
  obtain ⟨opening, closing, left, right⟩ := F.at_apart
  simp [ending, closing, left, right, (F.plain id fits).1]

theorem Starts.append (starts : F.Starts s) (rest : List α) : F.Starts (s ++ rest) := by
  obtain ⟨name, id, more, valid, rfl⟩ := starts
  exact ⟨name, id, more ++ rest, valid, List.append_assoc _ _ _⟩

theorem not_starts_nil : ¬F.Starts [] := by
  rintro ⟨name, id, more, _, same⟩
  rw [link_append] at same
  cases same

theorem starts_link (valid : F.Valid name id) : F.Starts (F.link name id ++ rest) := ⟨name, id, rest, valid, rfl⟩

/-- A text is read from the left: a link is taken whole, anything else is passed over one by one. -/
@[elab_as_elim]
theorem reading {motive : List α → Prop} (text : List α) (nil : motive [])
    (link : ∀ name id rest, F.Valid name id → motive rest → motive (F.link name id ++ rest))
    (plain : ∀ a rest, ¬F.Starts (a :: rest) → motive rest → motive (a :: rest)) : motive text := by
  induction size : text.length using Nat.strong_induction_on generalizing text with
  | _ n ih =>
      cases text with
      | nil => exact nil
      | cons a rest =>
          by_cases starts : F.Starts (a :: rest)
          · obtain ⟨name, id, more, valid, same⟩ := starts
            rw [same]
            refine link name id more valid (ih more.length ?_ more rfl)
            have length := congrArg List.length same
            rw [link_append] at length
            simp only [List.length_cons, List.length_append] at length size
            omega
          · exact plain a rest starts (ih rest.length (by simp only [List.length_cons] at size; omega) rest rfl)

theorem not_starts_of_ne {c : α} (other : c ≠ F.at_) : ¬F.Starts (c :: text) := by
  rintro ⟨name, id, more, _, same⟩
  rw [link_append] at same
  exact other (List.cons.inj same).1

/-- A beginning without the mark ends before the first place of the mark. -/
theorem prefix_of_clear {mark : α} {p q x y : List α} (clear : mark ∉ p) (same : q ++ mark :: x = p ++ y) :
    ∃ k, q = p ++ k := by
  rcases List.append_eq_append_iff.mp same with ⟨c, more, tail⟩ | ⟨c, more, _⟩
  · cases c with
    | nil => exact ⟨[], by simpa using more.symm⟩
    | cons a c =>
        obtain ⟨rfl, _⟩ := List.cons.inj tail
        exact absurd (more ▸ List.mem_append_right _ List.mem_cons_self) clear
  · exact ⟨c, more⟩

/-- A link that begins in front of another one either ends before it or takes it into its name. -/
theorem starts_before (some_ : s ≠ []) (valid : F.Valid name id) (starts : F.Starts (s ++ (F.link name id ++ rest))) :
    F.Starts s ∨ F.Swallows s name ∧ ∃ inner, s = F.at_ :: F.opening :: inner := by
  obtain ⟨name', id', rest', valid', same⟩ := starts
  rw [link_append, link_append] at same
  cases s with
  | nil => exact absurd rfl some_
  | cons c s =>
      obtain ⟨rfl, second⟩ := List.cons.inj same
      cases s with
      | nil => exact absurd (List.cons.inj second).1 F.at_apart.1
      | cons d inner =>
          obtain ⟨rfl, third⟩ := List.cons.inj second
          have flat : inner ++ F.link name id ++ rest = name' ++ F.ending id' ++ rest' := by
            rw [List.append_assoc, List.append_assoc, link_append]
            exact third
          by_cases closed : F.closing ∈ inner
          · left
            obtain ⟨first, more, rfl, clear⟩ := List.eq_append_cons_of_mem closed
            rw [List.append_assoc, List.append_assoc, List.append_assoc, ending_append] at flat
            obtain ⟨rfl, tails⟩ := cut_unique clear valid'.closed flat
            have ended : more ++ F.at_ :: (F.opening :: (name ++ (F.ending id ++ rest))) =
                (F.left :: (id' ++ [F.right])) ++ rest' := by
              rw [← link_append]
              exact tails.trans (by simp)
            have noAt : F.at_ ∉ F.left :: (id' ++ [F.right]) := fun member =>
              at_notMem_ending valid'.fits (List.mem_cons_of_mem _ member)
            obtain ⟨k, rfl⟩ := prefix_of_clear noAt ended
            exact ⟨first, id', k, valid', by simp [link, ending]⟩
          · right
            have whole : (inner ++ F.at_ :: F.opening :: name) ++ F.closing :: (F.left :: (id ++ F.right :: rest)) =
                name' ++ F.closing :: (F.left :: (id' ++ F.right :: rest')) := by
              simpa [link, ending] using flat
            have clear : F.closing ∉ inner ++ F.at_ :: F.opening :: name := by
              simp [closed, valid.closed, F.closing_apart.1, Ne.symm F.at_apart.2.1]
            obtain ⟨rfl, _⟩ := cut_unique clear valid'.closed whole
            exact ⟨⟨[], inner, rfl, closed, valid'.named⟩, inner, rfl⟩

/-- What begins inside a link, or in a part of it, is a link with the same id that ends with it. -/
theorem begins_inside {w name' id' rest' : List α} (clear : F.closing ∉ w) (fits : F.Fits id)
    (ends : s <:+ w ++ F.ending id)
    (some_ : s ≠ []) (valid : F.Valid name' id') (same : s ++ rest = F.link name' id' ++ rest') :
    id' = id ∧ rest' = rest ∧ s = F.link name' id := by
  induction w with
  | nil =>
      have starts : F.Starts (s ++ rest) := ⟨name', id', rest', valid, same⟩
      cases s with
      | nil => exact absurd rfl some_
      | cons c s =>
          have other : c ≠ F.at_ := by
            rintro rfl
            exact at_notMem_ending fits (ends.subset List.mem_cons_self)
          exact absurd starts (not_starts_of_ne other)
  | cons c w ih =>
      rw [List.cons_append] at ends
      rcases List.suffix_cons_iff.mp ends with rfl | later
      · rw [link_append, List.cons_append] at same
        obtain ⟨rfl, second⟩ := List.cons.inj same
        cases w with
        | nil =>
            rw [List.nil_append, ending] at second
            exact absurd (List.cons.inj second).1 F.closing_apart.1
        | cons d inner =>
            obtain ⟨rfl, third⟩ := List.cons.inj second
            have closed : F.closing ∉ inner := fun member =>
              clear (List.mem_cons_of_mem _ (List.mem_cons_of_mem _ member))
            have whole : inner ++ F.closing :: (F.left :: (id ++ F.right :: rest)) =
                name' ++ F.closing :: (F.left :: (id' ++ F.right :: rest')) := by
              simpa [ending] using third
            obtain ⟨rfl, tails⟩ := cut_unique closed valid.closed whole
            obtain ⟨rfl, rfl⟩ := cut_unique (F.plain id fits).2.2 (F.plain id' valid.fits).2.2 (List.cons.inj tails).2
            exact ⟨rfl, rfl, rfl⟩
      · exact ih (fun member => clear (List.mem_cons_of_mem _ member)) later

/-- Two links at the head of one text are the same. -/
theorem link_unique {name' id' rest' : List α} (valid : F.Valid name id) (valid' : F.Valid name' id')
    (same : F.link name id ++ rest = F.link name' id' ++ rest') : name = name' ∧ id = id' ∧ rest = rest' := by
  have clear : F.closing ∉ F.at_ :: F.opening :: name := by
    simp [valid.closed, F.closing_apart.1, Ne.symm F.at_apart.2.1]
  have some_ : F.link name id ≠ [] := by simp [link]
  obtain ⟨rfl, rfl, whole⟩ := begins_inside clear valid.fits List.suffix_rfl some_ valid' same
  refine ⟨?_, rfl, rfl⟩
  simpa [link] using whole

/-- The part of a text that ends like a link, from some place on. -/
theorem suffix_of_ending {w : List α} (fits : F.Fits id) (ends : s <:+ w ++ F.ending id) (opens : s.head? = some F.at_) :
    ∃ v, v <:+ w ∧ s = v ++ F.ending id := by
  rcases List.suffix_or_suffix_of_suffix ends (List.suffix_append w (F.ending id)) with inside | ⟨v, rfl⟩
  · exact absurd (inside.subset (List.mem_of_head? opens)) (at_notMem_ending fits)
  · refine ⟨v, ?_, rfl⟩
    obtain ⟨more, whole⟩ := ends
    exact ⟨more, List.append_cancel_right ((List.append_assoc _ _ _).trans whole)⟩

theorem Starts.head (starts : F.Starts (s ++ rest)) (some_ : s ≠ []) : s.head? = some F.at_ := by
  obtain ⟨name, id, more, _, same⟩ := starts
  cases s with
  | nil => exact absurd rfl some_
  | cons c s =>
      rw [link_append] at same
      exact congrArg some (List.cons.inj same).1

/-- What begins in a text that ends like a link ends in it too. -/
theorem starts_inside {w : List α} (fits : F.Fits id) (ends : s <:+ w ++ F.ending id) (some_ : s ≠ [])
    (starts : F.Starts (s ++ rest)) : F.Starts s := by
  obtain ⟨v, _, rfl⟩ := suffix_of_ending fits ends (starts.head some_)
  obtain ⟨name', id', rest', valid', same⟩ := starts
  by_cases closed : F.closing ∈ v
  · obtain ⟨first, more, rfl, clear⟩ := List.eq_append_cons_of_mem closed
    have clear' : F.closing ∉ F.at_ :: F.opening :: name' := by
      simp [valid'.closed, F.closing_apart.1, Ne.symm F.at_apart.2.1]
    have whole : first ++ F.closing :: (more ++ F.closing :: (F.left :: (id ++ F.right :: rest))) =
        (F.at_ :: F.opening :: name') ++ F.closing :: (F.left :: (id' ++ F.right :: rest')) := by
      simpa [link, ending] using same
    obtain ⟨rfl, tails⟩ := cut_unique clear clear' whole
    have ended : more ++ F.closing :: (F.left :: (id ++ F.right :: rest)) = (F.left :: (id' ++ [F.right])) ++ rest' :=
      tails.trans (by simp)
    have noClosing : F.closing ∉ F.left :: (id' ++ [F.right]) := by
      simp [F.closing_apart.2.1, F.closing_apart.2.2, (F.plain id' valid'.fits).2.1]
    obtain ⟨k, rfl⟩ := prefix_of_clear noClosing ended
    exact ⟨name', id', k ++ F.ending id, valid', by simp [link, ending]⟩
  · obtain ⟨rfl, _, whole⟩ := begins_inside closed fits List.suffix_rfl some_ valid' same
    exact ⟨name', id', [], valid', by simpa using whole⟩

/-- A link at the head of a text with another opening in it ends before that, or has it in its name. -/
theorem link_over (valid : F.Valid name id) (shorter : ∀ inner, inner <:+ name → F.Named inner)
    (whole : s ++ F.at_ :: F.opening :: text = F.link name id ++ rest) : (∃ between, s = F.link name id ++ between) ∨
      ∃ inner, (s = [] ∨ F.at_ ∈ name) ∧ F.at_ :: F.opening :: text = F.link inner id ++ rest ∧ F.Valid inner id := by
  rcases List.append_eq_append_iff.mp whole with ⟨c, long, tail⟩ | ⟨between, short, _⟩
  · cases c with
    | nil => exact Or.inl ⟨[], by simpa using long.symm⟩
    | cons a c =>
        obtain ⟨rfl, second⟩ := List.cons.inj tail
        have ends : F.at_ :: c <:+ (F.at_ :: F.opening :: name) ++ F.ending id := ⟨s, long.symm⟩
        obtain ⟨v, part, same⟩ := suffix_of_ending valid.fits ends rfl
        match v, part, same with
        | [], _, same => exact absurd (List.cons.inj same).1 F.at_apart.2.1
        | [_], _, same =>
            obtain ⟨rfl, rfl⟩ := List.cons.inj same
            exact absurd (List.cons.inj second).1.symm F.closing_apart.1
        | a :: b :: inner, part, same =>
            obtain ⟨rfl, rfl⟩ := List.cons.inj same
            obtain ⟨rfl, _⟩ := List.cons.inj second
            have inside : inner <:+ name := by
              have behind : inner <:+ F.at_ :: F.opening :: name :=
                ((List.suffix_cons _ _).trans (List.suffix_cons _ _)).trans part
              refine List.suffix_of_suffix_length_le behind ((List.suffix_cons _ _).trans (List.suffix_cons _ _)) ?_
              simpa using part.length_le
            refine Or.inr ⟨inner, ?_, by simp [tail, link], fun member => valid.closed (inside.subset member),
              shorter inner inside, valid.fits⟩
            have wide : F.at_ :: F.opening :: name ++ F.ending id = (s ++ F.at_ :: F.opening :: inner) ++ F.ending id := by
              simpa [link] using long
            have front : F.at_ :: F.opening :: name = s ++ F.at_ :: F.opening :: inner := List.append_cancel_right wide
            match s, front with
            | [], _ => exact Or.inl rfl
            | [_], front => exact absurd (List.cons.inj (List.cons.inj front).2).1.symm F.at_apart.1
            | _ :: _ :: more, front =>
                right
                rw [(List.cons.inj (List.cons.inj front).2).2]
                exact List.mem_append_right more List.mem_cons_self
  · exact Or.inl ⟨between, short⟩

theorem Swallows.of_suffix (swallows : F.Swallows s name) (ends : s <:+ plain) : F.Swallows plain name := by
  obtain ⟨more, rfl⟩ := ends
  obtain ⟨before, inner, rfl, closed, named⟩ := swallows
  exact ⟨more ++ before, inner, (List.append_assoc _ _ _).symm, closed, named⟩

theorem swallow_starts {inner : List α} (closed : F.closing ∉ inner) (named : F.Named (inner ++ F.at_ :: F.opening :: name))
    (valid : F.Valid name id) : F.at_ :: F.opening :: inner ++ (F.link name id ++ rest) =
      F.link (inner ++ F.at_ :: F.opening :: name) id ++ rest ∧ F.Valid (inner ++ F.at_ :: F.opening :: name) id := by
  refine ⟨by simp [link], ?_, named, valid.fits⟩
  simp [closed, valid.closed, F.closing_apart.1, Ne.symm F.at_apart.2.1]

/-- In front of a link nothing begins in a quiet text that does not swallow it. -/
theorem Quiet.before (quiet : F.Quiet plain) (free : ¬F.Swallows plain name) (valid : F.Valid name id) (ends : s <:+ plain)
    (some_ : s ≠ []) : ¬F.Starts (s ++ (F.link name id ++ rest)) := by
  intro starts
  rcases starts_before some_ valid starts with inside | ⟨swallows, _⟩
  · exact quiet s ends inside
  · exact free (swallows.of_suffix ends)

theorem quiet_nil : F.Quiet [] := by
  intro s ends
  rw [List.suffix_nil.mp ends]
  exact not_starts_nil

theorem quiet_cons {c : α} (none_ : ¬F.Starts (c :: plain)) (quiet : F.Quiet plain) : F.Quiet (c :: plain) := by
  intro s ends
  rcases List.suffix_cons_iff.mp ends with rfl | later
  · exact none_
  · exact quiet s later

theorem not_swallows_nil : ¬F.Swallows [] name := by
  rintro ⟨before, inner, same, _⟩
  cases before <;> cases same

/-- One more element in front of a quiet beginning, where nothing begins with it. -/
theorem quiet_before_cons {c : α} (none_ : ¬F.Starts (c :: (plain ++ (F.link name id ++ rest)))) (quiet : F.Quiet plain)
    (free : ¬F.Swallows plain name) (valid : F.Valid name id) : F.Quiet (c :: plain) ∧ ¬F.Swallows (c :: plain) name := by
  refine ⟨quiet_cons (fun inside => none_ (inside.append _)) quiet, ?_⟩
  rintro ⟨before, inner, same, closed, named⟩
  cases before with
  | nil =>
      obtain ⟨rfl, rfl⟩ := List.cons.inj same
      obtain ⟨whole, valid'⟩ := @swallow_starts α F name id rest inner closed named valid
      exact none_ ⟨_, _, rest, valid', whole⟩
  | cons b before =>
      obtain ⟨rfl, rfl⟩ := List.cons.inj same
      exact free ⟨before, inner, rfl, closed, named⟩

/-- The first link of a text, if there is one. -/
theorem first_link (text : List α) : F.Quiet text ∨ ∃ plain name id rest,
    text = plain ++ (F.link name id ++ rest) ∧ F.Quiet plain ∧ ¬F.Swallows plain name ∧ F.Valid name id := by
  induction text with
  | nil => exact Or.inl quiet_nil
  | cons c text ih =>
      by_cases starts : F.Starts (c :: text)
      · obtain ⟨name, id, rest, valid, same⟩ := starts
        exact Or.inr ⟨[], name, id, rest, same, quiet_nil, not_swallows_nil, valid⟩
      · rcases ih with quiet | ⟨plain, name, id, rest, rfl, quiet, free, valid⟩
        · exact Or.inl (quiet_cons starts quiet)
        · obtain ⟨quiet, free⟩ := quiet_before_cons starts quiet free valid
          exact Or.inr ⟨c :: plain, name, id, rest, rfl, quiet, free, valid⟩

/-- A text is quiet, or a quiet beginning, a link that it does not swallow, and a text. -/
theorem link_induction {P : List α → Prop} (quiet : ∀ plain, F.Quiet plain → P plain)
    (link_ : ∀ plain name id rest, F.Quiet plain → ¬F.Swallows plain name → F.Valid name id → P rest →
      P (plain ++ (F.link name id ++ rest))) (text : List α) : P text := by
  induction size : text.length using Nat.strong_induction_on generalizing text with
  | _ n ih =>
      rcases first_link (F := F) text with still | ⟨plain, name, id, rest, rfl, still, free, valid⟩
      · exact quiet text still
      · apply link_ plain name id rest still free valid
        refine ih rest.length ?_ rest rfl
        rw [← size]
        simp [link]
        omega

/-- A text swallows what it does behind its last link. -/
theorem Swallows.past_link (valid : F.Valid name id) {other : List α}
    (swallows : F.Swallows (plain ++ (F.link name id ++ rest)) other) : F.Swallows rest other := by
  obtain ⟨before, inner, same, closed, named⟩ := swallows
  have opened : F.at_ :: F.opening :: inner <:+ plain ++ (F.link name id ++ rest) := ⟨before, same.symm⟩
  have behind : rest <:+ plain ++ (F.link name id ++ rest) := ⟨plain ++ F.link name id, List.append_assoc _ _ _⟩
  rcases List.suffix_or_suffix_of_suffix opened behind with ⟨more, here⟩ | ⟨w, here⟩
  · exact ⟨more, inner, here.symm, closed, named⟩
  · cases w with
    | nil => exact ⟨[], inner, here, closed, named⟩
    | cons c w =>
        obtain ⟨rfl, _⟩ := List.cons.inj here
        have clear : F.closing ∉ F.at_ :: w := by
          intro member
          have inside : F.closing ∈ F.at_ :: F.opening :: inner := here ▸ List.mem_append_left rest member
          simp [closed, F.closing_apart.1, Ne.symm F.at_apart.2.1] at inside
        have ends : F.at_ :: w <:+ (plain ++ F.at_ :: F.opening :: name) ++ F.ending id := by
          have whole : before ++ F.at_ :: w ++ rest = (plain ++ F.at_ :: F.opening :: name) ++ F.ending id ++ rest := by
            rw [List.append_assoc, here, ← same]
            simp [link]
          exact ⟨before, List.append_cancel_right whole⟩
        have tail : F.ending id <:+ (plain ++ F.at_ :: F.opening :: name) ++ F.ending id := List.suffix_append _ _
        rcases List.suffix_or_suffix_of_suffix ends tail with inside | outside
        · exact absurd (inside.subset List.mem_cons_self) (at_notMem_ending valid.fits)
        · exact absurd (outside.subset List.mem_cons_self) clear

/-- A place, and the link found there. -/
abbrev Mark (α : Type) := Nat × List α × List α

def shift (n : Nat) (mark : Mark α) : Mark α := (n + mark.1, mark.2)

theorem shift_shift (m n : Nat) : shift m ∘ shift n = (shift (m + n) : Mark α → Mark α) := by
  funext mark
  simp [shift, Nat.add_assoc]

/-- A function that gives the links of a text as they are met from the left. -/
structure Reads (F : LinkForm α) (marks : List α → List (Mark α)) : Prop where
  quiet : ∀ plain, F.Quiet plain → marks plain = []
  link : ∀ plain name id rest, F.Quiet plain → ¬F.Swallows plain name → F.Valid name id →
    marks (plain ++ (F.link name id ++ rest)) =
      (plain.length, name, id) :: (marks rest).map (shift (plain.length + (F.link name id).length))

section Reads

variable {marks : List α → List (Mark α)} (reads : F.Reads marks) {x y z : List α} {k : Nat} {mark : Mark α}
include reads

theorem Reads.cons {c : α} (none_ : ¬F.Starts (c :: text)) : marks (c :: text) = (marks text).map (shift 1) := by
  rcases first_link (F := F) text with quiet | ⟨plain, name, id, rest, rfl, quiet, free, valid⟩
  · rw [reads.quiet text quiet, reads.quiet _ (quiet_cons none_ quiet)]
    rfl
  · obtain ⟨quiet', free'⟩ := quiet_before_cons none_ quiet free valid
    have whole := reads.link (c :: plain) name id rest quiet' free' valid
    rw [List.cons_append] at whole
    rw [whole, reads.link plain name id rest quiet free valid, List.map_cons, List.map_map, shift_shift, List.length_cons,
      shift, Nat.add_comm 1 plain.length, ← Nat.add_assoc, Nat.add_comm 1 plain.length]

theorem Reads.head (valid : F.Valid name id) :
    marks (F.link name id ++ rest) = (0, name, id) :: (marks rest).map (shift (F.link name id).length) := by
  have read := reads.link [] name id rest quiet_nil not_swallows_nil valid
  rwa [List.nil_append, List.length_nil, Nat.zero_add] at read

/-- A mark is a link of the text that what stands ahead of it does not swallow. -/
theorem Reads.split (found : (k, name, id) ∈ marks text) : ∃ before rest, text = before ++ (F.link name id ++ rest) ∧
    before.length = k ∧ ¬F.Swallows before name ∧ F.Valid name id := by
  induction text using link_induction (F := F) generalizing k with
  | quiet plain quiet =>
      rw [reads.quiet plain quiet] at found
      cases found
  | link_ plain name' id' rest quiet free valid ih =>
      rw [reads.link plain name' id' rest quiet free valid] at found
      rcases List.mem_cons.mp found with first | later
      · cases first
        exact ⟨plain, rest, rfl, rfl, free, valid⟩
      · obtain ⟨⟨k', n, i⟩, member, same⟩ := List.mem_map.mp later
        cases same
        obtain ⟨before, rest', rfl, rfl, free', valid'⟩ := ih member
        refine ⟨plain ++ (F.link name' id' ++ before), rest', by simp, by simp; omega, ?_, valid'⟩
        exact fun swallows => free' (swallows.past_link valid)

theorem Reads.before (found : (k, name, id) ∈ marks (x ++ z)) (inside : k + (F.link name id).length ≤ x.length) :
    (k, name, id) ∈ marks x := by
  induction x using link_induction (F := F) generalizing k with
  | quiet plain quiet =>
      obtain ⟨before, rest, same, rfl, _, valid⟩ := reads.split found
      have whole : before ++ F.link name id <+: plain := by
        refine List.prefix_of_prefix_length_le (List.prefix_append _ rest) ?_ (by simpa using inside)
        rw [List.append_assoc, ← same]
        exact List.prefix_append plain z
      obtain ⟨more, rfl⟩ := whole
      refine absurd (starts_link valid) (quiet (F.link name id ++ more) ?_)
      exact ⟨before, (List.append_assoc _ _ _).symm⟩
  | link_ plain name' id' rest quiet free valid ih =>
      rw [List.append_assoc, List.append_assoc, reads.link plain name' id' _ quiet free valid] at found
      rw [reads.link plain name' id' rest quiet free valid]
      rcases List.mem_cons.mp found with first | later
      · exact first ▸ List.mem_cons_self
      · obtain ⟨⟨k', n, i⟩, member, same⟩ := List.mem_map.mp later
        cases same
        refine List.mem_cons_of_mem _ (List.mem_map_of_mem (f := shift _) (ih member ?_))
        simp at inside
        omega

theorem Reads.append_link (free : ¬F.Swallows x name) (valid : F.Valid name id) :
    marks (x ++ (F.link name id ++ y)) =
      marks x ++ (x.length, name, id) :: (marks y).map (shift (x.length + (F.link name id).length)) := by
  induction x using link_induction (F := F) with
  | quiet plain quiet =>
      rw [reads.link plain name id y quiet free valid, reads.quiet plain quiet]
      rfl
  | link_ plain name' id' rest quiet free' valid' ih =>
      have free_ : ¬F.Swallows rest name := fun swallows =>
        free (swallows.of_suffix ⟨plain ++ F.link name' id', List.append_assoc _ _ _⟩)
      rw [List.append_assoc, List.append_assoc, reads.link plain name' id' _ quiet free' valid', ih free_,
        reads.link plain name' id' rest quiet free' valid', List.map_append, List.map_cons, List.map_map, shift_shift]
      simp [shift, Nat.add_assoc]

/-- The end of a link hides nothing behind it. -/
theorem Reads.behind (valid : F.Valid name id) (ends : z <:+ F.link name id) (found : mark ∈ marks y) :
    shift z.length mark ∈ marks (z ++ y) := by
  induction z with
  | nil => simpa [shift] using found
  | cons c z ih =>
      by_cases starts : F.Starts (c :: z ++ y)
      · obtain ⟨name', id', rest', valid', same⟩ := starts
        have clear : F.closing ∉ F.at_ :: F.opening :: name := by
          simp [valid.closed, F.closing_apart.1, Ne.symm F.at_apart.2.1]
        obtain ⟨rfl, rfl, whole⟩ := begins_inside clear valid.fits ends (by simp) valid' same
        rw [whole, reads.head valid']
        exact List.mem_cons_of_mem _ (List.mem_map_of_mem found)
      · have later := ih ((List.suffix_cons c z).trans ends)
        have step : marks (c :: z ++ y) = (marks (z ++ y)).map (shift 1) := reads.cons starts
        have moved : shift 1 (shift z.length mark) ∈ (marks (z ++ y)).map (shift 1) := List.mem_map_of_mem later
        have same : shift 1 (shift z.length mark) = shift (c :: z).length mark := by
          simp [shift]
          omega
        rwa [step, ← same]

theorem Reads.after (found : (k, name, id) ∈ marks (x ++ y)) (beyond : x.length ≤ k) :
    (k - x.length, name, id) ∈ marks y := by
  induction size : x.length using Nat.strong_induction_on generalizing x k with
  | _ n ih =>
      cases x with
      | nil =>
          rw [← size]
          simpa using found
      | cons c x =>
          by_cases starts : F.Starts (c :: x ++ y)
          · obtain ⟨name', id', rest', valid', same⟩ := starts
            rw [same, reads.head valid'] at found
            rcases List.mem_cons.mp found with first | later
            · cases first
              simp at beyond
            · obtain ⟨⟨k', n', i'⟩, member, moved⟩ := List.mem_map.mp later
              cases moved
              rcases List.append_eq_append_iff.mp same with ⟨w, long, rfl⟩ | ⟨w, short, rfl⟩
              · -- the link ends behind the front part
                have behind := reads.behind valid' ⟨c :: x, long.symm⟩ member
                have lengths := congrArg List.length long
                have place : (F.link name' id').length + k' - n = w.length + k' := by
                  simp only [List.length_append] at lengths
                  omega
                rw [place]
                exact behind
              · have lengths := congrArg List.length short
                simp only [List.length_append] at lengths
                have some_ : 0 < (F.link name' id').length := by simp [LinkForm.link]
                have beyond' : w.length ≤ k' := by omega
                have later := ih w.length (by omega) member beyond' rfl
                have place : (F.link name' id').length + k' - n = k' - w.length := by omega
                rwa [place]
          · have step : marks (c :: x ++ y) = (marks (x ++ y)).map (shift 1) := reads.cons starts
            rw [step] at found
            obtain ⟨⟨k', n', i'⟩, member, moved⟩ := List.mem_map.mp found
            cases moved
            rw [List.length_cons] at size beyond
            have later := ih x.length (by omega) member (by omega) rfl
            have place : 1 + k' - n = k' - x.length := by omega
            rwa [place]

end Reads

end LinkForm
end Kurul.Sequence
