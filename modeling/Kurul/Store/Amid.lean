import Kurul.Store.Interleaving
import Mathlib

/-! One program among atomic changes that others make between its steps, with a clock that
never goes back. What is asked at each of its commits holds of all its runs. -/
namespace Kurul.Store

variable {Row Key Event Input Error α β γ T : Type} [Keyed Row Key] [DecidableEq Key] [Preorder T]

/-- The surroundings of a program: the changes made between its steps, closed under doing
none and doing more, and the time that comes with an input. -/
structure Surroundings (Row Input T : Type) where
  changes : List Row → List Row → Prop
  time : Input → T
  refl : ∀ rows, changes rows rows
  trans : ∀ {rows rows' rows''}, changes rows rows' → changes rows' rows'' → changes rows rows''

/-- From these rows and uncommitted writes at this time, whatever happens in between, each
commit is fine, and the end is as it should be. -/
def Prog.Amid (E : Surroundings Row Input T) (fine : T → List Row → List (Write Row Key) → Prop)
    (post : α → T → List Row → List (Write Row Key) → Prop) :
    Prog Row Key Event Input Error α → T → List Row → List (Write Row Key) → Prop
  | .pure value, now, rows, W => post value now rows W
  | .throw _, _, _, _ => True
  | .input next, now, rows, W => ∀ x, now ≤ E.time x → (next x).Amid E fine post (E.time x) rows W
  | .emit _ next, now, rows, W => next.Amid E fine post now rows W
  | .rollback next, now, rows, _ => next.Amid E fine post now rows []
  | .commit next, now, rows, W => ∀ rows', E.changes rows rows' →
      fine now rows' W ∧ (next (.ok ())).Amid E fine post now (applyAll rows' W) []
  | .statement exec next, now, rows, W => ∀ rows', E.changes rows rows' →
      (∀ error, exec (applyAll rows' W) = .error error →
        (next (.error error)).Amid E fine post now rows' W) ∧
      ∀ o, exec (applyAll rows' W) = .ok o →
        (next (.ok o.result)).Amid E fine post now rows' (W ++ o.writes)

/-- The step of a program that nobody blocks, at this time and on these rows. -/
def Thread.advance (time : Input → T) (x : Input) (now : T) (rows : List Row)
    (t : Thread Row Key Event Input Error α) :
    Option (T × List Row × Thread Row Key Event Input Error α) :=
  match t.prog with
  | .pure _ | .throw _ => none
  | .input next => some (time x, rows, { t with prog := next x })
  | .emit _ next => some (now, rows, { t with prog := next })
  | .rollback next => some (now, rows, { t with prog := next, pending := [] })
  | .commit next =>
      some (now, applyAll rows t.pending, { t with prog := next (.ok ()), pending := [] })
  | .statement exec next =>
      match exec (applyAll rows t.pending) with
      | .error error => some (now, rows, { t with prog := next (.error error) })
      | .ok o => some (now, rows, ⟨next (.ok o.result), t.pending ++ o.writes,
          t.seen ++ [applyAll rows t.pending]⟩)

namespace Prog.Amid

variable {E : Surroundings Row Input T} {fine : T → List Row → List (Write Row Key) → Prop}
  {post : α → T → List Row → List (Write Row Key) → Prop} {now : T} {rows : List Row}
  {W : List (Write Row Key)}

theorem ending {post' : β → T → List Row → List (Write Row Key) → Prop}
    {p : Prog Row Key Event Input Error α} {ok : α → Prog Row Key Event Input Error β}
    {failed : Error → Prog Row Key Event Input Error β} (amid : p.Amid E fine post now rows W)
    (succeeds : ∀ value now rows W, post value now rows W → (ok value).Amid E fine post' now rows W)
    (fails : ∀ error now rows W, (failed error).Amid E fine post' now rows W) :
    (p.ending ok failed).Amid E fine post' now rows W := by
  induction p generalizing now rows W with
  | pure value => exact succeeds _ _ _ _ amid
  | throw error => exact fails _ _ _ _
  | input next ih => exact fun x later => ih x (amid x later)
  | emit event next ih => exact ih amid
  | rollback next ih => exact ih amid
  | commit next ih =>
      intro rows' changed
      obtain ⟨now, rest⟩ := amid rows' changed
      exact ⟨now, ih _ rest⟩
  | statement exec next ih =>
      intro rows' changed
      obtain ⟨refused, answered⟩ := amid rows' changed
      constructor
      · intro error ran
        exact ih _ (refused error ran)
      · intro o ran
        exact ih _ (answered o ran)

theorem andThen {post' : β → T → List Row → List (Write Row Key) → Prop}
    {p : Prog Row Key Event Input Error α} {f : α → Prog Row Key Event Input Error β}
    (amid : p.Amid E fine post now rows W)
    (rest : ∀ value now rows W, post value now rows W → (f value).Amid E fine post' now rows W) :
    (p.bind f).Amid E fine post' now rows W :=
  amid.ending rest fun _ _ _ _ => trivial

theorem bind {post' : β → T → List Row → List (Write Row Key) → Prop}
    {p : Prog Row Key Event Input Error α} {f : α → Prog Row Key Event Input Error β}
    (amid : p.Amid E fine (fun value now rows W => (f value).Amid E fine post' now rows W) now rows W) :
    (p.bind f).Amid E fine post' now rows W :=
  amid.andThen fun _ _ _ _ rest => rest

theorem query {post : β → T → List Row → List (Write Row Key) → Prop} {exec : Statement Row Key Error β}
    (answered : ∀ rows' o, E.changes rows rows' → exec (applyAll rows' W) = .ok o →
      post o.result now rows' (W ++ o.writes)) :
    (Prog.query exec : Prog Row Key Event Input Error β).Amid E fine post now rows W := by
  intro rows' changed
  constructor
  · intro error _
    trivial
  · intro o ran
    exact answered rows' o changed ran

theorem read {post : β → T → List Row → List (Write Row Key) → Prop} {answer : List Row → β}
    (rest : ∀ rows', E.changes rows rows' → post (answer (applyAll rows' W)) now rows' W) :
    (Prog.query (.read answer) : Prog Row Key Event Input Error β).Amid E fine post now rows W := by
  apply query
  intro rows' o changed ran
  cases ran
  simpa using rest rows' changed

theorem transaction {p : Prog Row Key Event Input Error α}
    (amid : p.Amid E fine (fun value now rows W => ∀ rows', E.changes rows rows' →
      fine now rows' W ∧ post value now (applyAll rows' W) []) now rows W) :
    p.transaction.Amid E fine post now rows W :=
  amid.ending (fun _ _ _ _ commits => commits) fun _ _ _ _ => trivial

/-- A loop keeps what every round of it keeps. -/
theorem forEach {I : T → List Row → List (Write Row Key) → Prop}
    {body : β → Prog Row Key Event Input Error Unit} {items : List β} (start : I now rows W)
    (round : ∀ item now rows W, I now rows W → (body item).Amid E fine (fun _ => I) now rows W) :
    (Prog.forEach items body).Amid E fine (fun _ => I) now rows W := by
  induction items generalizing now rows W with
  | nil => exact start
  | cons item rest ih => exact (round item now rows W start).andThen fun _ _ _ _ kept => ih kept

end Prog.Amid

/-- What is left of the program was as it should be on rows that have become these. -/
def Thread.Amid (E : Surroundings Row Input T) (fine : T → List Row → List (Write Row Key) → Prop)
    (post : α → T → List Row → List (Write Row Key) → Prop) (now : T) (rows : List Row)
    (t : Thread Row Key Event Input Error α) : Prop :=
  ∃ before, E.changes before rows ∧ t.prog.Amid E fine post now before t.pending

namespace Thread.Amid

variable {E : Surroundings Row Input T} {fine : T → List Row → List (Write Row Key) → Prop}
  {post : α → T → List Row → List (Write Row Key) → Prop} {now now' : T} {rows rows' : List Row}
  {t t' : Thread Row Key Event Input Error α} {x : Input}

theorem changed (amid : t.Amid E fine post now rows) (moved : E.changes rows rows') :
    t.Amid E fine post now rows' := by
  obtain ⟨before, came, holds⟩ := amid
  exact ⟨before, E.trans came moved, holds⟩

/-- One step: what it commits is fine, and the rest stays as it should be. -/
theorem advance (amid : t.Amid E fine post now rows) (later : now ≤ E.time x)
    (moved : t.advance E.time x now rows = some (now', rows', t')) :
    t'.Amid E fine post now' rows' ∧ now ≤ now' ∧
      (rows' = rows ∨ fine now rows t.pending ∧ rows' = applyAll rows t.pending) := by
  obtain ⟨before, came, holds⟩ := amid
  unfold Thread.advance at moved
  cases here : t.prog with
  | pure | throw => simp [here] at moved
  | input next =>
      rw [here] at holds
      simp only [here, Option.some.injEq, Prod.mk.injEq] at moved
      obtain ⟨rfl, rfl, rfl⟩ := moved
      exact ⟨⟨before, came, holds x later⟩, later, .inl rfl⟩
  | emit event next =>
      rw [here] at holds
      simp only [here, Option.some.injEq, Prod.mk.injEq] at moved
      obtain ⟨rfl, rfl, rfl⟩ := moved
      exact ⟨⟨before, came, holds⟩, le_rfl, .inl rfl⟩
  | rollback next =>
      rw [here] at holds
      simp only [here, Option.some.injEq, Prod.mk.injEq] at moved
      obtain ⟨rfl, rfl, rfl⟩ := moved
      exact ⟨⟨before, came, holds⟩, le_rfl, .inl rfl⟩
  | commit next =>
      rw [here] at holds
      simp only [here, Option.some.injEq, Prod.mk.injEq] at moved
      obtain ⟨rfl, rfl, rfl⟩ := moved
      obtain ⟨now, rest⟩ := holds _ came
      exact ⟨⟨_, E.refl _, rest⟩, le_rfl, .inr ⟨now, rfl⟩⟩
  | statement exec next =>
      rw [here] at holds
      obtain ⟨refused, answered⟩ := holds _ came
      simp only [here] at moved
      split at moved
      · rename_i error ran
        cases moved
        exact ⟨⟨_, E.refl _, refused error ran⟩, le_rfl, .inl rfl⟩
      · rename_i o ran
        cases moved
        exact ⟨⟨_, E.refl _, answered o ran⟩, le_rfl, .inl rfl⟩

/-- At its end a program has come to what was asked, on rows that have become these. -/
theorem ends {value : α} (amid : t.Amid E fine post now rows) (done : t.prog = .pure value) :
    ∃ before, E.changes before rows ∧ post value now before t.pending := by
  obtain ⟨before, came, holds⟩ := amid
  rw [done] at holds
  exact ⟨before, came, holds⟩

end Thread.Amid

omit [Preorder T] in
/-- A program that has not come to its end can take a step. -/
theorem Thread.advances (time : Input → T) (x : Input) (now : T) (rows : List Row)
    (t : Thread Row Key Event Input Error α) :
    (t.advance time x now rows).isSome ∨ (∃ value, t.prog = .pure value) ∨ ∃ error, t.prog = .throw error := by
  cases here : t.prog with
  | pure value => exact .inr (.inl ⟨value, rfl⟩)
  | throw error => exact .inr (.inr ⟨error, rfl⟩)
  | statement exec next =>
      left
      simp only [advance, here]
      split <;> rfl
  | _ =>
      left
      simp [advance, here]

omit [Preorder T] in
/-- However it is interleaved, a program comes to its end. -/
theorem Thread.advance_wellFounded (time : Input → T) :
    WellFounded fun later earlier : Thread Row Key Event Input Error α =>
      ∃ x now rows now' rows', earlier.advance time x now rows = some (now', rows', later) := by
  have all : ∀ (p : Prog Row Key Event Input Error α) (t : Thread Row Key Event Input Error α),
      t.prog = p → Acc (fun later earlier : Thread Row Key Event Input Error α =>
        ∃ x now rows now' rows', earlier.advance time x now rows = some (now', rows', later)) t := by
    intro p
    induction p with
    | pure | throw =>
        intro t here
        constructor
        rintro later ⟨x, now, rows, now', rows', moved⟩
        simp [advance, here] at moved
    | input next ih =>
        intro t here
        constructor
        rintro later ⟨x, now, rows, now', rows', moved⟩
        simp only [advance, here, Option.some.injEq, Prod.mk.injEq] at moved
        exact ih x later (by rw [← moved.2.2])
    | emit event next ih =>
        intro t here
        constructor
        rintro later ⟨x, now, rows, now', rows', moved⟩
        simp only [advance, here, Option.some.injEq, Prod.mk.injEq] at moved
        exact ih later (by rw [← moved.2.2])
    | rollback next ih =>
        intro t here
        constructor
        rintro later ⟨x, now, rows, now', rows', moved⟩
        simp only [advance, here, Option.some.injEq, Prod.mk.injEq] at moved
        exact ih later (by rw [← moved.2.2])
    | commit next ih =>
        intro t here
        constructor
        rintro later ⟨x, now, rows, now', rows', moved⟩
        simp only [advance, here, Option.some.injEq, Prod.mk.injEq] at moved
        exact ih _ later (by rw [← moved.2.2])
    | statement exec next ih =>
        intro t here
        constructor
        rintro later ⟨x, now, rows, now', rows', moved⟩
        simp only [advance, here] at moved
        split at moved
        · cases moved
          exact ih _ _ rfl
        · cases moved
          exact ih _ _ rfl
  exact ⟨fun t => all t.prog t rfl⟩

end Kurul.Store
