import Mathlib

/-! A worklist. Nodes are known by their keys; a node with a new key is kept and put on the
stack, and the stack is worked off until nothing is left. What is kept then are the keys of all
that the roots lead to. -/
namespace Kurul.Worklist

variable {α κ : Type} [DecidableEq κ]

structure State (α κ : Type) where
  seen : List κ := []
  stack : List α := []

section Search

variable (key : α → κ) (next : α → List α)

/-- One node after the other; a new one is the next to be looked at. -/
def discover (s : State α κ) : List α → State α κ
  | [] => s
  | a :: rest =>
      if key a ∈ s.seen then discover s rest
      else discover { seen := key a :: s.seen, stack := a :: s.stack } rest

/-- So many rounds at most. -/
def explore : Nat → State α κ → List κ
  | 0, s => s.seen
  | n + 1, s =>
      match s.stack with
      | [] => s.seen
      | a :: rest => explore n (discover key { s with stack := rest } (next a))

/-- What the roots lead to. -/
inductive Reached (roots : List α) : α → Prop where
  | root {a : α} : a ∈ roots → Reached roots a
  | step {a b : α} : Reached roots a → b ∈ next a → Reached roots b

end Search

variable {key : α → κ} {next : α → List α} {roots nodes : List α} {s : State α κ}

theorem seen_discover : ∀ k ∈ s.seen, k ∈ (discover key s nodes).seen := by
  induction nodes generalizing s with
  | nil => exact fun _ member => member
  | cons a rest ih =>
      intro k member
      unfold discover
      split
      · exact ih k member
      · exact ih k (List.mem_cons_of_mem _ member)

theorem stack_discover : ∀ a ∈ s.stack, a ∈ (discover key s nodes).stack := by
  induction nodes generalizing s with
  | nil => exact fun _ member => member
  | cons a rest ih =>
      intro b member
      unfold discover
      split
      · exact ih b member
      · exact ih b (List.mem_cons_of_mem _ member)

theorem discovered : ∀ a ∈ nodes, key a ∈ (discover key s nodes).seen := by
  induction nodes generalizing s with
  | nil => simp
  | cons a rest ih =>
      intro b member
      unfold discover
      rcases List.mem_cons.mp member with rfl | member
      · split
        · exact seen_discover _ (by assumption)
        · exact seen_discover _ List.mem_cons_self
      · split <;> exact ih b member

/-- A key that was not seen before is that of a node which is on the stack now. -/
theorem new_discover {k : κ} (member : k ∈ (discover key s nodes).seen) :
    k ∈ s.seen ∨ ∃ a ∈ nodes, key a = k ∧ a ∈ (discover key s nodes).stack := by
  induction nodes generalizing s with
  | nil => exact .inl member
  | cons a rest ih =>
      unfold discover at member ⊢
      split at member
      · rename_i known
        rw [if_pos known]
        rcases ih member with old | ⟨b, listed, same, there⟩
        · exact .inl old
        · exact .inr ⟨b, List.mem_cons_of_mem _ listed, same, there⟩
      · rename_i new
        rw [if_neg new]
        rcases ih member with old | ⟨b, listed, same, there⟩
        · rcases List.mem_cons.mp old with rfl | old
          · exact .inr ⟨a, List.mem_cons_self, rfl, stack_discover _ List.mem_cons_self⟩
          · exact .inl old
        · exact .inr ⟨b, List.mem_cons_of_mem _ listed, same, there⟩

theorem mem_stack_discover {b : α} (member : b ∈ (discover key s nodes).stack) : b ∈ s.stack ∨ b ∈ nodes := by
  induction nodes generalizing s with
  | nil => exact .inl member
  | cons a rest ih =>
      unfold discover at member
      split at member
      · exact (ih member).imp_right (List.mem_cons_of_mem _)
      · rcases ih member with old | listed
        · rcases List.mem_cons.mp old with rfl | old
          · exact .inr List.mem_cons_self
          · exact .inl old
        · exact .inr (List.mem_cons_of_mem _ listed)

/-- How many nodes are still to be looked at, found or not. -/
def rounds (keys : List κ) (s : State α κ) : Nat := (keys.filter (· ∉ s.seen)).length + s.stack.length

theorem rounds_discover {keys : List κ} (inside : ∀ a ∈ nodes, key a ∈ keys) :
    rounds keys (discover key s nodes) ≤ rounds keys s := by
  induction nodes generalizing s with
  | nil => exact le_rfl
  | cons a rest ih =>
      have later : ∀ b ∈ rest, key b ∈ keys := fun b member => inside b (List.mem_cons_of_mem _ member)
      unfold discover
      split
      · exact ih later
      · rename_i new
        refine (ih later).trans ?_
        have fewer : (keys.filter (· ∉ key a :: s.seen)).length < (keys.filter (· ∉ s.seen)).length := by
          have narrower : keys.filter (· ∉ key a :: s.seen) = (keys.filter (· ∉ s.seen)).filter (· ≠ key a) := by
            rw [List.filter_filter]
            apply List.filter_congr
            intro k _
            by_cases same : k = key a <;> simp [same]
          rw [narrower]
          apply List.length_filter_lt_length_iff_exists.mpr
          exact ⟨key a, List.mem_filter.mpr ⟨inside a List.mem_cons_self, by simpa using new⟩, by simp⟩
        simp only [rounds, List.length_cons]
        omega

/-- A search under way: what was kept is reached, and what is kept and not on the stack has
been looked at. -/
structure Searching (key : α → κ) (next : α → List α) (roots : List α) (s : State α κ) : Prop where
  sound : ∀ k ∈ s.seen, ∃ a, Reached next roots a ∧ key a = k
  stacked : ∀ a ∈ s.stack, Reached next roots a
  rooted : ∀ a ∈ roots, key a ∈ s.seen
  looked : ∀ a, Reached next roots a → key a ∈ s.seen → a ∈ s.stack ∨ ∀ b ∈ next a, key b ∈ s.seen

/-- Keys tell the nodes apart. -/
def Apart (key : α → κ) (next : α → List α) (roots : List α) : Prop :=
  ∀ a b, Reached next roots a → Reached next roots b → key a = key b → a = b

theorem Searching.start (apart : Apart key next roots) : Searching key next roots (discover key {} roots) where
  sound k member := by
    rcases new_discover member with old | ⟨a, listed, same, _⟩
    · cases old
    · exact ⟨a, .root listed, same⟩
  stacked a member := by
    rcases mem_stack_discover member with old | listed
    · cases old
    · exact .root listed
  rooted := discovered
  looked a reached member := by
    rcases new_discover member with old | ⟨b, listed, same, there⟩
    · cases old
    · cases apart b a (.root listed) reached same
      exact .inl there

theorem Searching.look {seen : List κ} {a : α} {rest : List α} (apart : Apart key next roots)
    (searching : Searching key next roots ⟨seen, a :: rest⟩) :
    Searching key next roots (discover key ⟨seen, rest⟩ (next a)) := by
  have here := searching.stacked a List.mem_cons_self
  refine ⟨?_, ?_, ?_, ?_⟩
  · intro k member
    rcases new_discover member with old | ⟨b, listed, same, _⟩
    · exact searching.sound k old
    · exact ⟨b, .step here listed, same⟩
  · intro b member
    rcases mem_stack_discover member with old | listed
    · exact searching.stacked b (List.mem_cons_of_mem _ old)
    · exact .step here listed
  · exact fun b listed => seen_discover _ (searching.rooted b listed)
  · intro b reached member
    rcases new_discover member with old | ⟨c, listed, same, there⟩
    · rcases searching.looked b reached old with stacked | seen_
      · rcases List.mem_cons.mp stacked with rfl | stacked
        · exact .inr discovered
        · exact .inl (stack_discover b stacked)
      · exact .inr fun c listed => seen_discover _ (seen_ c listed)
    · cases apart c b (.step here listed) reached same
      exact .inl there

omit [DecidableEq κ] in
theorem Searching.done {k : κ} (searching : Searching key next roots s) (empty : s.stack = []) :
    k ∈ s.seen ↔ ∃ a, Reached next roots a ∧ key a = k := by
  refine ⟨searching.sound k, ?_⟩
  rintro ⟨a, reached, rfl⟩
  induction reached with
  | root listed => exact searching.rooted _ listed
  | @step a b reached listed ih =>
      rcases searching.looked a reached ih with stacked | seen
      · rw [empty] at stacked
        cases stacked
      · exact seen b listed

/-- With rounds enough, what is kept is what is reached. -/
theorem Searching.explored {keys : List κ} {n : Nat} {k : κ} (apart : Apart key next roots)
    (inside : ∀ a, Reached next roots a → key a ∈ keys) (searching : Searching key next roots s)
    (enough : rounds keys s ≤ n) :
    k ∈ explore key next n s ↔ ∃ a, Reached next roots a ∧ key a = k := by
  induction n generalizing s with
  | zero =>
      apply searching.done
      apply List.eq_nil_of_length_eq_zero
      simp only [rounds] at enough
      omega
  | succ n ih =>
      obtain ⟨seen, stack⟩ := s
      cases stack with
      | nil => exact searching.done rfl
      | cons a rest =>
          have here := searching.stacked a List.mem_cons_self
          apply ih (searching.look apart)
          have fewer := rounds_discover (s := ⟨seen, rest⟩) fun b (listed : b ∈ next a) => inside b (.step here listed)
          simp only [rounds, List.length_cons] at enough fewer ⊢
          omega

theorem mem_explore {keys : List κ} {k : κ} (apart : Apart key next roots)
    (inside : ∀ a, Reached next roots a → key a ∈ keys) :
    k ∈ explore key next keys.length (discover key {} roots) ↔ ∃ a, Reached next roots a ∧ key a = k := by
  apply (Searching.start apart).explored apart inside
  refine (rounds_discover fun a listed => inside a (.root listed)).trans ?_
  simp [rounds]

end Kurul.Worklist
