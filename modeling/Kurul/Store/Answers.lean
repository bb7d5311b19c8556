import Kurul.Store.Interleaving

/-! What programs answer, by the views their statements ran on. The fact is about one
program and whatever it is shown, so it holds in every interleaving. -/
namespace Kurul.Store

variable {Row Key Event Input Error α β γ ι : Type}

namespace Prog

/-- An answer the program comes to fits the views it has had by then. -/
def Answers (fits : List (List Row) → α → Prop) :
    Prog Row Key Event Input Error α → List (List Row) → Prop
  | .pure value, seen => fits seen value
  | .throw _, _ => True
  | .input next, seen => ∀ x, (next x).Answers fits seen
  | .emit _ next, seen | .rollback next, seen => next.Answers fits seen
  | .commit next, seen => ∀ answer, (next answer).Answers fits seen
  | .statement exec next, seen => (∀ error, (next (.error error)).Answers fits seen) ∧
      ∀ view o, exec view = .ok o → (next (.ok o.result)).Answers fits (seen ++ [view])

namespace Answers

variable {fits : List (List Row) → α → Prop} {seen : List (List Row)}

theorem ending {fits' : List (List Row) → β → Prop} {p : Prog Row Key Event Input Error α}
    {ok : α → Prog Row Key Event Input Error β} {failed : Error → Prog Row Key Event Input Error β}
    (answers : p.Answers fits seen)
    (succeeds : ∀ value seen, fits seen value → (ok value).Answers fits' seen)
    (fails : ∀ error seen, (failed error).Answers fits' seen) :
    (p.ending ok failed).Answers fits' seen := by
  induction p generalizing seen with
  | pure value => exact succeeds value seen answers
  | throw error => exact fails error seen
  | input next ih => exact fun x => ih x (answers x)
  | emit event next ih => exact ih answers
  | commit next ih => exact fun answer => ih answer (answers answer)
  | rollback next ih => exact ih answers
  | statement exec next ih =>
      constructor
      · intro error
        exact ih _ (answers.1 error)
      · intro view o ran
        exact ih _ (answers.2 view o ran)

theorem andThen {fits' : List (List Row) → β → Prop} {p : Prog Row Key Event Input Error α}
    {f : α → Prog Row Key Event Input Error β} (answers : p.Answers fits seen)
    (rest : ∀ value seen, fits seen value → (f value).Answers fits' seen) :
    (p.bind f).Answers fits' seen :=
  answers.ending rest fun _ _ => trivial

theorem bind {fits' : List (List Row) → β → Prop} {p : Prog Row Key Event Input Error α}
    {f : α → Prog Row Key Event Input Error β}
    (answers : p.Answers (fun seen value => (f value).Answers fits' seen) seen) :
    (p.bind f).Answers fits' seen :=
  answers.andThen fun _ _ rest => rest

/-- Where all views keep a fact and the fact is enough, the program does not matter. -/
theorem any {I : List (List Row) → Prop} (grows : ∀ seen view, I seen → I (seen ++ [view]))
    (fit : ∀ seen value, I seen → fits seen value) (start : I seen)
    (p : Prog Row Key Event Input Error α) : p.Answers fits seen := by
  induction p generalizing seen with
  | pure value => exact fit seen value start
  | throw error => trivial
  | input next ih => exact fun x => ih x start
  | emit event next ih => exact ih start
  | commit next ih => exact fun answer => ih answer start
  | rollback next ih => exact ih start
  | statement exec next ih =>
      constructor
      · intro error
        exact ih _ start
      · intro view o _
        exact ih _ (grows _ _ start)

theorem require {fits : List (List Row) → Unit → Prop} {test : Bool} {error : Error}
    (passed : test = true → fits seen ()) :
    (Prog.require test error : Prog Row Key Event Input Error Unit).Answers fits seen := by
  cases test with
  | false => trivial
  | true => exact passed rfl

theorem getOrThrow {value : Option α} {error : Error} (hit : ∀ a, value = some a → fits seen a) :
    (Prog.getOrThrow value error : Prog Row Key Event Input Error α).Answers fits seen := by
  cases value with
  | none => trivial
  | some a => exact hit a rfl

theorem read {answer : List Row → α} (rest : ∀ view, fits (seen ++ [view]) (answer view)) :
    (query (.read answer) : Prog Row Key Event Input Error α).Answers fits seen := by
  constructor
  · intro error
    trivial
  · intro view o ran
    cases ran
    exact rest view

theorem found {answer : List Row → Option α} {error : Error}
    (hit : ∀ view a, answer view = some a → fits (seen ++ [view]) a) :
    (Prog.found (.read answer) error : Prog Row Key Event Input Error α).Answers fits seen := by
  apply bind
  apply read
  intro view
  exact getOrThrow (hit view)

end Answers

/-- What the program has answered, once it is at its end. -/
def answer : Prog Row Key Event Input Error α → Option α
  | .pure value => some value
  | _ => none

theorem of_answer {p : Prog Row Key Event Input Error α} {value : α} (answered : p.answer = some value) :
    p = .pure value := by
  cases p with
  | pure other =>
      cases answered
      rfl
  | _ => contradiction

end Prog

variable [DecidableEq ι] [DecidableEq Key] [Keyed Row Key]
  {s u : System ι Row Key Event Input Error α}
  {allowed : System ι Row Key Event Input Error α → Action ι Input Error → Prop}

theorem System.answers_step {fits : ι → List (List Row) → α → Prop} {action : Action ι Input Error}
    (answers : ∀ i, (s.threads i).prog.Answers (fits i) (s.threads i).seen)
    (stepped : s.step action = some u) :
    ∀ i, (u.threads i).prog.Answers (fits i) (u.threads i).seen := by
  have moves : ∀ i (t : Thread Row Key Event Input Error α), t.prog.Answers (fits i) t.seen →
      u.threads = (s.setThread i t).threads →
        ∀ j, (u.threads j).prog.Answers (fits j) (u.threads j).seen := by
    intro i t moved threads j
    rw [threads, threads_setThread]
    by_cases same : j = i
    · subst same
      simpa using moved
    · simpa [same] using answers j
  cases action with
  | run i x =>
      have here := answers i
      cases kind : (s.threads i).prog with
      | pure | throw => simp [step, kind] at stepped
      | input next =>
          rw [kind] at here
          simp only [step, kind, Option.some.injEq] at stepped
          subst stepped
          exact moves i _ (here x) rfl
      | emit event next =>
          rw [kind] at here
          simp only [step, kind, Option.some.injEq] at stepped
          subst stepped
          apply moves i { s.threads i with prog := next } here
          simp
      | commit next =>
          rw [kind] at here
          simp only [step, kind, Option.some.injEq] at stepped
          subst stepped
          apply moves i { s.threads i with prog := next (.ok ()), pending := [] } (here _)
          simp
      | rollback next =>
          rw [kind] at here
          simp only [step, kind, Option.some.injEq] at stepped
          subst stepped
          apply moves i { s.threads i with prog := next, pending := [] } here
          simp
      | statement exec next =>
          rw [kind] at here
          simp only [step, kind] at stepped
          split at stepped
          · cases stepped
            exact moves i _ (here.1 _) rfl
          · rename_i o ran
            split at stepped
            · contradiction
            · cases stepped
              apply moves i ⟨next (.ok o.result), (s.threads i).pending ++ o.writes,
                (s.threads i).seen ++ [applyAll s.rows (s.threads i).pending]⟩ (here.2 _ o ran)
              rfl
  | fail i error =>
      have here := answers i
      cases kind : (s.threads i).prog with
      | pure | throw | input | emit | rollback => simp [step, kind] at stepped
      | commit next =>
          rw [kind] at here
          simp only [step, kind, Option.some.injEq] at stepped
          subst stepped
          apply moves i { s.threads i with prog := next (.error error), pending := [] } (here _)
          simp
      | statement exec next =>
          rw [kind] at here
          simp only [step, kind, Option.some.injEq] at stepped
          subst stepped
          exact moves i _ (here.1 _) rfl

/-- Whatever the interleaving, every thread's answer fits what it was shown. -/
theorem System.Reaches.answers {fits : ι → List (List Row) → α → Prop} (run : Reaches allowed s u)
    (start : ∀ i, (s.threads i).prog.Answers (fits i) (s.threads i).seen) :
    ∀ i, (u.threads i).prog.Answers (fits i) (u.threads i).seen := by
  induction run with
  | refl => exact start
  | next _ _ stepped ih => exact answers_step ih stepped

end Kurul.Store
