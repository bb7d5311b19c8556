import Mathlib

/-! Machines that take one move after the other and may refuse one, and the runs whose
moves all meet a condition on the state they are taken in. -/
namespace Kurul.Machine

variable {S A : Type} {step : S → A → Option S} {P : S → A → Prop} {I : S → Prop} {s t : S}

def run (step : S → A → Option S) (s : S) : List A → Option S
  | [] => some s
  | move :: rest => (step s move).bind fun next => run step next rest

/-- Every move of the run meets the condition where it is taken. -/
def Meets (step : S → A → Option S) (P : S → A → Prop) (s : S) : List A → Prop
  | [] => True
  | move :: rest => P s move ∧ ∀ next, step s move = some next → Meets step P next rest

/-- Every state on the way is one of these. -/
def Always (step : S → A → Option S) (I : S → Prop) (s : S) : List A → Prop
  | [] => I s
  | move :: rest => I s ∧ ∀ next, step s move = some next → Always step I next rest

theorem Always.first {moves : List A} (always : Always step I s moves) : I s := by
  cases moves with
  | nil => exact always
  | cons _ _ => exact always.1

theorem always_last {moves : List A} (always : Always step I s moves) (ran : run step s moves = some t) : I t := by
  induction moves generalizing s with
  | nil =>
      cases ran
      exact always
  | cons move rest ih =>
      obtain ⟨next, stepped, ran⟩ := Option.bind_eq_some_iff.mp ran
      exact ih (always.2 next stepped) ran

/-- What every move keeps holds on every way, and so does what follows from it. -/
theorem always_of_kept {J : S → Prop} (kept : ∀ s move next, I s → step s move = some next → I next)
    (enough : ∀ s, I s → J s) (start : I s) (moves : List A) : Always step J s moves := by
  induction moves generalizing s with
  | nil => exact enough s start
  | cons move rest ih => exact ⟨enough s start, fun next stepped => ih (kept s move next start stepped)⟩

/-- What the moves that meet the condition keep holds on the way of a run whose moves do. -/
theorem always_of_meets {J : S → Prop} (kept : ∀ s move next, I s → P s move → step s move = some next → I next)
    (enough : ∀ s, I s → J s) (start : I s) {moves : List A} (meets : Meets step P s moves) : Always step J s moves := by
  induction moves generalizing s with
  | nil => exact enough s start
  | cons move rest ih =>
      exact ⟨enough s start, fun next stepped => ih (kept s move next start meets.1 stepped) (meets.2 next stepped)⟩

/-- Conditions that are met together. -/
theorem Meets.and {Q : S → A → Prop} {moves : List A} (meets : Meets step P s moves) (others : Meets step Q s moves) :
    Meets step (fun s move => P s move ∧ Q s move) s moves := by
  induction moves generalizing s with
  | nil => trivial
  | cons move rest ih => exact ⟨⟨meets.1, others.1⟩, fun next stepped => ih (meets.2 next stepped) (others.2 next stepped)⟩

/-- A run of moves that are found to meet the condition one by one. -/
def checks (step : S → A → Option S) (check : S → A → Bool) (s : S) : List A → Bool
  | [] => true
  | move :: rest => check s move && (step s move).all fun next => checks step check next rest

theorem meets_of_checks (check : S → A → Bool) (sound : ∀ s move, check s move = true → P s move)
    {moves : List A} (checked : checks step check s moves = true) : Meets step P s moves := by
  induction moves generalizing s with
  | nil => trivial
  | cons move rest ih =>
      obtain ⟨here, later⟩ := Bool.and_eq_true_iff.mp checked
      refine ⟨sound s move here, ?_⟩
      intro next stepped
      rw [stepped] at later
      exact ih later

/-- What the moves that meet the condition keep is kept by the run. -/
theorem run_keeps (kept : ∀ s move next, I s → P s move → step s move = some next → I next)
    {moves : List A} (start : I s) (meets : Meets step P s moves) (ran : run step s moves = some t) : I t := by
  induction moves generalizing s with
  | nil =>
      cases ran
      exact start
  | cons move rest ih =>
      obtain ⟨next, stepped, ran⟩ := Option.bind_eq_some_iff.mp ran
      exact ih (kept s move next start meets.1 stepped) (meets.2 next stepped) ran

/-- Where the machine keeps `I` on its own and the moves that meet the condition are the ones
that keep `J`, the runs that stay in `J` are the ones whose moves meet it. -/
theorem always_iff_meets {J : S → Prop}
    (kept : ∀ s move next, I s → step s move = some next → I next)
    (exact_ : ∀ s move next, I s → J s → step s move = some next → (J next ↔ P s move))
    {moves : List A} (start : I s) (started : J s) (ran : run step s moves = some t) :
    Always step J s moves ↔ Meets step P s moves := by
  induction moves generalizing s with
  | nil => exact ⟨fun _ => trivial, fun _ => started⟩
  | cons move rest ih =>
      obtain ⟨next, stepped, ran⟩ := Option.bind_eq_some_iff.mp ran
      have here := exact_ s move next start started stepped
      constructor
      · rintro ⟨_, always⟩
        have later := always next stepped
        refine ⟨here.mp later.first, ?_⟩
        intro other stepped'
        cases stepped.symm.trans stepped'
        exact (ih (kept s move next start stepped) later.first ran).mp later
      · rintro ⟨met, meets⟩
        refine ⟨started, ?_⟩
        intro other stepped'
        cases stepped.symm.trans stepped'
        exact (ih (kept s move next start stepped) (here.mpr met) ran).mpr (meets next stepped)

/-- Two conditions that come to the same in the states kept come to the same along a run. -/
theorem meets_iff {Q : S → A → Prop} (kept : ∀ s move next, I s → step s move = some next → I next)
    (same : ∀ s move next, I s → step s move = some next → (P s move ↔ Q s move))
    {moves : List A} (start : I s) (ran : run step s moves = some t) : Meets step P s moves ↔ Meets step Q s moves := by
  induction moves generalizing s with
  | nil => exact Iff.rfl
  | cons move rest ih =>
      obtain ⟨next, stepped, ran⟩ := Option.bind_eq_some_iff.mp ran
      have later := ih (kept s move next start stepped) ran
      unfold Meets
      rw [same s move next start stepped, stepped]
      simp only [Option.some.injEq, forall_eq', later]

end Kurul.Machine
