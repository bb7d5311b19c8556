import Kurul.Store.RelyGuarantee

/-! Interleaved programs that each take effect at one point: at their commit, or at a
statement from which they go on without one. Taking the programs in the order of these points
gives the committed state, and a program that has ended comes before one that has not started. -/

namespace Kurul.Store

variable {Row Key Event Input Error State α β ι : Type} [Keyed Row Key] [DecidableEq Key]

/-- The program takes effect at its one commit, or at a statement where it has none; it does
not succeed before. -/
def Settles (inv : Assertion Row) (state : List Row → State) (effect : State → State) :
    Prog Row Key Event Input Error α → Bool → List (Write Row Key) →
      (α → Bool → List (Write Row Key) → Prop) → Prop
  | .pure value, placed, W, post => post value placed W
  | .throw _, _, _, _ => True
  | .input next, placed, W, post => ∀ value, Settles inv state effect (next value) placed W post
  | .emit _ next, placed, W, post => Settles inv state effect next placed W post
  | .rollback next, placed, _, post => Settles inv state effect next placed [] post
  | .commit next, placed, _, post =>
      placed = false ∧ (∀ error, Settles inv state effect (next (.error error)) false [] post) ∧
        Settles inv state effect (next (.ok ())) true [] post
  | .statement exec next, placed, W, post =>
      (∀ error, Settles inv state effect (next (.error error)) placed W post) ∧
      ∀ rows, inv rows → ∀ o, exec (applyAll rows W) = .ok o →
        Settles inv state effect (next (.ok o.result)) placed (W ++ o.writes) post ∨
          (placed = false ∧ effect (state rows) = state rows ∧
            Settles inv state effect (next (.ok o.result)) true (W ++ o.writes) post)

namespace Settles

variable {inv : Assertion Row} {state : List Row → State} {effect : State → State} {placed : Bool}
  {W : List (Write Row Key)}

theorem ending {post : α → Bool → List (Write Row Key) → Prop} {post' : β → Bool → List (Write Row Key) → Prop}
    {p : Prog Row Key Event Input Error α} {next : α → Prog Row Key Event Input Error β}
    {handler : Error → Prog Row Key Event Input Error β}
    (settles : Settles inv state effect p placed W post)
    (succeeds : ∀ value placed W, post value placed W → Settles inv state effect (next value) placed W post')
    (fails : ∀ error placed W, Settles inv state effect (handler error) placed W post') :
    Settles inv state effect (p.ending next handler) placed W post' := by
  induction p generalizing placed W with
  | pure value => exact succeeds _ _ _ settles
  | throw error => exact fails _ _ _
  | input next ih => exact fun value => ih value (settles value)
  | emit event next ih => exact ih settles
  | rollback next ih => exact ih settles
  | commit next ih => exact ⟨settles.1, fun error => ih _ (settles.2.1 error), ih _ settles.2.2⟩
  | statement exec next ih =>
      refine ⟨fun error => ih _ (settles.1 error), fun rows kept o ran => ?_⟩
      rcases settles.2 rows kept o ran with on | ⟨first, idle, on⟩
      · exact .inl (ih _ on)
      · exact .inr ⟨first, idle, ih _ on⟩

theorem bind {post : β → Bool → List (Write Row Key) → Prop} {p : Prog Row Key Event Input Error α}
    {next : α → Prog Row Key Event Input Error β}
    (settles : Settles inv state effect p placed W fun value placed W =>
      Settles inv state effect (next value) placed W post) :
    Settles inv state effect (p.bind next) placed W post :=
  settles.ending (fun _ _ _ on => on) fun _ _ _ => trivial

/-- A transaction that nothing has taken the place of. -/
theorem transaction {post : α → Bool → List (Write Row Key) → Prop} {p : Prog Row Key Event Input Error α}
    (settles : Settles inv state effect p placed W fun value placed _ => placed = false ∧ post value true []) :
    Settles inv state effect p.transaction placed W post :=
  settles.ending (fun _ _ _ done => ⟨done.1, fun _ => trivial, done.2⟩) fun _ _ _ => trivial

/-- A statement that is not the point. -/
theorem query {post : β → Bool → List (Write Row Key) → Prop} {exec : Statement Row Key Error β}
    (rest : ∀ rows, inv rows → ∀ o, exec (applyAll rows W) = .ok o → post o.result placed (W ++ o.writes)) :
    Settles inv state effect (Prog.query exec : Prog Row Key Event Input Error β) placed W post :=
  ⟨fun _ => trivial, fun rows kept o ran => .inl (rest rows kept o ran)⟩

/-- A lookup that may be the point: where what it finds leaves nothing to do. -/
theorem found {post : β → Bool → List (Write Row Key) → Prop} {answer : List Row → Option β} {error : Error}
    (hit : ∀ rows b, inv rows → answer rows = some b →
      post b false [] ∨ (effect (state rows) = state rows ∧ post b true [])) :
    Settles inv state effect
      (Prog.found (Statement.read answer) error : Prog Row Key Event Input Error β) false [] post := by
  refine ⟨fun _ => trivial, fun rows kept o ran => ?_⟩
  cases ran
  cases answered : answer rows with
  | none =>
      left
      simp [Prog.ofExcept, Prog.ending, Prog.getOrThrow, Settles, answered]
  | some b =>
      rcases hit rows b kept answered with on | ⟨idle, on⟩
      · left
        simpa [Prog.ofExcept, Prog.ending, Prog.getOrThrow, Settles, answered] using on
      · right
        refine ⟨rfl, idle, ?_⟩
        simpa [Prog.ofExcept, Prog.ending, Prog.getOrThrow, Settles, answered] using on

theorem ofExcept {post : β → Bool → List (Write Row Key) → Prop} {value : Except Error β}
    (succeeded : ∀ b, value = .ok b → post b placed W) :
    Settles inv state effect (Prog.ofExcept value : Prog Row Key Event Input Error β) placed W post := by
  cases value with
  | error => trivial
  | ok b => exact succeeded b rfl

end Settles

variable [DecidableEq ι]

/-- The committed state is the effect of the programs in this order, which holds all that have
ended well. -/
structure Settled (inv : Assertion Row) (state : List Row → State) (effect : ι → State → State) (start : State)
    (s : System ι Row Key Event Input Error α) (order : List ι) : Prop where
  nodup : order.Nodup
  account : state s.rows = order.foldl (fun x i => effect i x) start
  threads : ∀ i, Settles inv state (effect i) (s.threads i).prog (decide (i ∈ order)) (s.threads i).pending
    fun _ placed _ => placed = true

namespace Settled

variable {inv : Assertion Row} {state : List Row → State} {effect : ι → State → State} {start : State}
  {s u : System ι Row Key Event Input Error α} {order : List ι} {i : ι}

theorem succeeded (settled : Settled inv state effect start s order)
    (ended : (s.threads i).prog.succeeded) : i ∈ order := by
  have settles := settled.threads i
  cases here : (s.threads i).prog with
  | pure value =>
      rw [here] at settles
      exact of_decide_eq_true settles
  | _ => simp [here, Prog.succeeded] at ended

/-- A thread goes on without taking effect. -/
theorem stay (settled : Settled inv state effect start s order) (thread : Thread Row Key Event Input Error α)
    (rows : u.rows = s.rows) (threads : u.threads = Function.update s.threads i thread)
    (settles : Settles inv state (effect i) thread.prog (decide (i ∈ order)) thread.pending
      fun _ placed _ => placed = true) : Settled inv state effect start u order := by
  refine ⟨settled.nodup, rows ▸ settled.account, fun j => ?_⟩
  by_cases same : j = i
  · subst same
    rw [threads, Function.update_self]
    exact settles
  · rw [threads, Function.update_of_ne same]
    exact settled.threads j

/-- A thread takes effect. -/
theorem place (settled : Settled inv state effect start s order) (thread : Thread Row Key Event Input Error α)
    (fresh : i ∉ order) (rows : state u.rows = effect i (state s.rows))
    (threads : u.threads = Function.update s.threads i thread)
    (settles : Settles inv state (effect i) thread.prog true thread.pending fun _ placed _ => placed = true) :
    Settled inv state effect start u (order ++ [i]) := by
  refine ⟨?_, ?_, fun j => ?_⟩
  · rw [List.nodup_append]
    refine ⟨settled.nodup, List.nodup_singleton i, ?_⟩
    rintro j member k last rfl
    exact fresh (List.mem_singleton.mp last ▸ member)
  · rw [rows, settled.account, List.foldl_append]
    rfl
  · by_cases same : j = i
    · subst same
      rw [threads, Function.update_self]
      simpa using settles
    · rw [threads, Function.update_of_ne same]
      simpa [same] using settled.threads j

/-- Each step lets at most its own thread take effect. -/
theorem step {P : Protocol Row Key} {allow : ι → Assertion Row} {promise : ι → Promise Row Key}
    {action : Action ι Input Error} (sound : Sound P allow promise s) (permits : ∀ i rows, allow i rows)
    (commits : ∀ i l rows, (promise i).commit l rows → state (l.view rows) = effect i (state rows))
    (settled : Settled P.inv state effect start s order) (stepped : s.step action = some u) :
    ∃ more, Settled P.inv state effect start u (order ++ more) ∧ ∀ i ∈ more, i = action.actor := by
  have stays : ∀ {u : System ι Row Key Event Input Error α} {k : ι},
      Settled P.inv state effect start u order →
      ∃ more, Settled P.inv state effect start u (order ++ more) ∧ ∀ i ∈ more, i = k :=
    fun settled => ⟨[], by simpa using settled, by simp⟩
  cases action with
  | run i value =>
      have settles := settled.threads i
      cases here : (s.threads i).prog with
      | pure | throw => simp [System.step, here] at stepped
      | input next =>
          simp only [System.step, here, Option.some.injEq] at stepped
          subst stepped
          rw [here] at settles
          exact stays (settled.stay { s.threads i with prog := next value } (by rfl) (by rfl) (settles value))
      | emit event next =>
          simp only [System.step, here, Option.some.injEq] at stepped
          subst stepped
          rw [here] at settles
          exact stays (settled.stay { s.threads i with prog := next } (by rfl) (by rfl) settles)
      | rollback next =>
          simp only [System.step, here, Option.some.injEq] at stepped
          subst stepped
          rw [here] at settles
          exact stays (settled.stay { s.threads i with prog := next, pending := [] } (by rfl) (by rfl) settles)
      | commit next =>
          have promised := (sound.commit i here (permits i _)).1
          simp only [System.step, here, Option.some.injEq] at stepped
          subst stepped
          rw [here] at settles
          obtain ⟨fresh, _, on⟩ := settles
          refine ⟨[i], ?_, by simp [Action.actor]⟩
          exact settled.place { s.threads i with prog := next (.ok ()), pending := [] }
            (of_decide_eq_false fresh) (commits i _ _ promised) (by rfl) on
      | statement exec next =>
          rw [here] at settles
          simp only [System.step, here] at stepped
          split at stepped
          · rename_i error refused
            cases stepped
            exact stays (settled.stay { s.threads i with prog := next (.error error) } (by rfl) (by rfl)
              (settles.1 error))
          · rename_i o answered
            split at stepped
            · contradiction
            · cases stepped
              rcases settles.2 s.rows sound.inv o answered with on | ⟨fresh, idle, on⟩
              · exact stays (settled.stay ⟨next (.ok o.result), _, _⟩ (by rfl) (by rfl) on)
              · refine ⟨[i], ?_, by simp [Action.actor]⟩
                exact settled.place ⟨next (.ok o.result), _, _⟩ (of_decide_eq_false fresh) idle.symm (by rfl) on
  | fail i error =>
      have settles := settled.threads i
      cases here : (s.threads i).prog with
      | pure | throw | input | emit | rollback => simp [System.step, here] at stepped
      | commit next =>
          simp only [System.step, here, Option.some.injEq] at stepped
          subst stepped
          rw [here] at settles
          refine stays (settled.stay { s.threads i with prog := next (.error error), pending := [] }
            (by rfl) (by rfl) ?_)
          rw [settles.1]
          exact settles.2.1 error
      | statement exec next =>
          simp only [System.step, here, Option.some.injEq] at stepped
          subst stepped
          rw [here] at settles
          exact stays (settled.stay { s.threads i with prog := next (.error error) } (by rfl) (by rfl)
            (settles.1 error))

end Settled

/-- An order of the programs of a run: it holds those that ended well, the committed state is
their effect in this order, and it agrees with the order of time. -/
structure SerialOrder (state : List Row → State) (effect : ι → State → State)
    (s : System ι Row Key Event Input Error α) (actions : List (Action ι Input Error))
    (u : System ι Row Key Event Input Error α) (order : List ι) : Prop where
  nodup : order.Nodup
  account : state u.rows = order.foldl (fun x i => effect i x) (state s.rows)
  ended : ∀ i, (u.threads i).prog.succeeded → i ∈ order
  before : ∀ first t, first <+: actions → s.runs first = some t →
    ∀ i j, (t.threads i).prog.succeeded → (∀ action ∈ first, action.actor ≠ j) → j ∈ order → [i, j].Sublist order

section Runs

variable {P : Protocol Row Key} {allow : ι → Assertion Row} {promise : ι → Promise Row Key}
  {state : List Row → State} {effect : ι → State → State} {start : State}
  {s u : System ι Row Key Event Input Error α} {actions : List (Action ι Input Error)} {order : List ι}

/-- A run as far as these actions, with the threads that have taken effect in it. -/
structure SettledBy (P : Protocol Row Key) (state : List Row → State) (effect : ι → State → State) (start : State)
    (actions : List (Action ι Input Error)) (u : System ι Row Key Event Input Error α) (order : List ι) :
    Prop where
  settled : Settled P.inv state effect start u order
  acted : ∀ i ∈ order, ∃ action ∈ actions, action.actor = i

/-- The order only grows along a run. -/
theorem SettledBy.of_runs (sound : Sound P allow promise s) (permits : ∀ i rows, allow i rows)
    (commits : ∀ i l rows, (promise i).commit l rows → state (l.view rows) = effect i (state rows))
    (settles : ∀ i, Settles P.inv state (effect i) (s.threads i).prog false (s.threads i).pending
      fun _ placed _ => placed = true) (ran : s.runs actions = some u) :
    ∃ order, Sound P allow promise u ∧ SettledBy P state effect (state s.rows) actions u order ∧
      ∀ first t, first <+: actions → s.runs first = some t →
        ∃ early, early <+: order ∧ SettledBy P state effect (state s.rows) first t early := by
  induction actions using List.reverseRecOn generalizing u with
  | nil =>
      cases ran
      have none_ : SettledBy P state effect (state s.rows) [] s [] :=
        ⟨⟨List.nodup_nil, rfl, by simpa using settles⟩, by simp⟩
      refine ⟨[], sound, none_, fun first t early reached => ?_⟩
      cases List.prefix_nil.mp early
      cases reached
      exact ⟨[], List.prefix_rfl, none_⟩
  | append_singleton actions action ih =>
      rw [System.runs_append] at ran
      obtain ⟨before, ranBefore, last⟩ := Option.bind_eq_some_iff.mp ran
      have stepped : before.step action = some u := by simpa [System.runs] using last
      obtain ⟨order, soundBefore, settled, history⟩ := ih ranBefore
      obtain ⟨more, settledNow, own⟩ := settled.settled.step soundBefore permits commits stepped
      have acted : ∀ i ∈ order ++ more, ∃ other ∈ actions ++ [action], other.actor = i := by
        intro i member
        rcases List.mem_append.mp member with old | new
        · obtain ⟨other, listed, same⟩ := settled.acted i old
          exact ⟨other, List.mem_append_left _ listed, same⟩
        · exact ⟨action, by simp, (own i new).symm⟩
      refine ⟨order ++ more, soundBefore.step (fun i _ _ _ _ => permits i _) stepped, ⟨settledNow, acted⟩,
        fun first t early reached => ?_⟩
      rcases List.prefix_concat_iff.mp early with rfl | shorter
      · rw [System.runs_append, ran] at reached
        cases reached
        exact ⟨_, List.prefix_rfl, settledNow, acted⟩
      · obtain ⟨placed, inside, settledThen⟩ := history first t shorter reached
        exact ⟨placed, inside.trans (List.prefix_append ..), settledThen⟩

/-- Any run has a serial order. -/
theorem serialOrder_of_runs (sound : Sound P allow promise s) (permits : ∀ i rows, allow i rows)
    (commits : ∀ i l rows, (promise i).commit l rows → state (l.view rows) = effect i (state rows))
    (settles : ∀ i, Settles P.inv state (effect i) (s.threads i).prog false (s.threads i).pending
      fun _ placed _ => placed = true) (ran : s.runs actions = some u) :
    ∃ order, SerialOrder state effect s actions u order := by
  obtain ⟨order, _, ⟨settled, _⟩, history⟩ := SettledBy.of_runs sound permits commits settles ran
  refine ⟨order, settled.nodup, settled.account, fun i ended => settled.succeeded ended, ?_⟩
  intro first t early reached i j ended untouched member
  obtain ⟨placed, ⟨rest, rfl⟩, settledThen⟩ := history first t early reached
  have inside : i ∈ placed := settledThen.settled.succeeded ended
  have later : j ∈ rest := by
    rcases List.mem_append.mp member with already | later
    · obtain ⟨action, listed, own⟩ := settledThen.acted j already
      exact absurd own (untouched action listed)
    · exact later
  exact List.Sublist.append (List.singleton_sublist.mpr inside) (List.singleton_sublist.mpr later)

end Runs

end Kurul.Store
