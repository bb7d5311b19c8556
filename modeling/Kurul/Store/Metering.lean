import Kurul.Store.Admission
import Kurul.Store.Interleaving
import Kurul.Store.Weights

/-! Interleaved programs against a ceiling on the weight of the committed rows. A program
is admitted by a statement that found room for one more, and takes that much with its
commit; nothing else it commits weighs anything. -/

namespace Kurul.Store

variable {Row Key Event Input Error α β γ ι : Type}

namespace Prog

/-- Some commit may still come. -/
def MayCommit : Prog Row Key Event Input Error α → Prop
  | .pure _ | .throw _ => False
  | .input next => ∃ value, (next value).MayCommit
  | .emit _ next | .rollback next => next.MayCommit
  | .commit _ => True
  | .statement _ next => ∃ answer, (next answer).MayCommit

/-- What is left of a program, whatever it has been answered. -/
inductive Leads : Prog Row Key Event Input Error α → Prog Row Key Event Input Error α → Prop
  | refl (p : Prog Row Key Event Input Error α) : Leads p p
  | input {p next} (value : Input) : Leads p (.input next) → Leads p (next value)
  | emit {p event next} : Leads p (.emit event next) → Leads p next
  | rollback {p next} : Leads p (.rollback next) → Leads p next
  | commit {p next} (answer : Except Error Unit) : Leads p (.commit next) → Leads p (next answer)
  | statement {p} {β : Type} {exec : Statement Row Key Error β} {next} (answer : Except Error β) :
      Leads p (.statement exec next) → Leads p (next answer)

theorem Leads.trans {p q r : Prog Row Key Event Input Error α} (first : p.Leads q) (second : q.Leads r) :
    p.Leads r := by
  induction second with
  | refl => exact first
  | input value _ ih => exact .input value ih
  | emit _ ih => exact .emit ih
  | rollback _ ih => exact .rollback ih
  | commit answer _ ih => exact .commit answer ih
  | statement answer _ ih => exact .statement answer ih

end Prog

variable [Keyed Row Key] [DecidableEq Key]

/-- A ceiling on the weight of rows: what holds of the committed rows, and the writes that
keep it. -/
structure Gauge (Row Key : Type) [Keyed Row Key] [DecidableEq Key] where
  weight : Row → Nat
  quota : Nat
  inv : List Row → Prop
  quiet : Write Row Key → Prop
  unique : ∀ {rows}, inv rows → UniqueKeys rows
  keeps : ∀ {rows} {W : List (Write Row Key)}, inv rows → (∀ write ∈ W, quiet write) → inv (applyAll rows W)

namespace Gauge

variable (G : Gauge Row Key)

/-- The program takes weight only where it was admitted, and is `flying` from there on. -/
def Metered (flying : Prog Row Key Event Input Error α → Prop)
    (ok : α → Bool → List (Write Row Key) → Prop) (failed : Error → Bool → List (Write Row Key) → Prop) :
    Prog Row Key Event Input Error α → Bool → List (Write Row Key) → Prop
  | .pure value, claim, W => ok value claim W
  | .throw error, claim, W => failed error claim W
  | .input next, claim, W => ∀ value, Metered flying ok failed (next value) claim W
  | .emit _ next, claim, W => Metered flying ok failed next claim W
  | .rollback next, _, _ => Metered flying ok failed next false []
  | .commit next, claim, W =>
      (∀ error, Metered flying ok failed (next (.error error)) false []) ∧
      (∀ write ∈ W, G.quiet write) ∧ (W.map (Write.adds G.weight)).sum ≤ claim.toNat ∧
      Metered flying ok failed (next (.ok ())) false []
  | .statement exec next, claim, W =>
      (∀ error, Metered flying ok failed (next (.error error)) claim W) ∧
      ∀ rows, G.inv rows → ∀ o, exec (applyAll rows W) = .ok o →
        Metered flying ok failed (next (.ok o.result)) claim (W ++ o.writes) ∨
          (flying (next (.ok o.result)) ∧ total G.weight rows + 1 ≤ G.quota ∧
            Metered flying ok failed (next (.ok o.result)) true (W ++ o.writes))

namespace Metered

variable {G} {ok : α → Bool → List (Write Row Key) → Prop}
  {failed : Error → Bool → List (Write Row Key) → Prop} {claim : Bool} {W : List (Write Row Key)}

theorem ending {flying : Prog Row Key Event Input Error β → Prop}
    {ok' : β → Bool → List (Write Row Key) → Prop} {failed' : Error → Bool → List (Write Row Key) → Prop}
    {p : Prog Row Key Event Input Error α} {next : α → Prog Row Key Event Input Error β}
    {handler : Error → Prog Row Key Event Input Error β}
    (metered : G.Metered (fun q => flying (q.ending next handler)) ok failed p claim W)
    (succeeds : ∀ value claim W, ok value claim W → G.Metered flying ok' failed' (next value) claim W)
    (fails : ∀ error claim W, failed error claim W →
      G.Metered flying ok' failed' (handler error) claim W) :
    G.Metered flying ok' failed' (p.ending next handler) claim W := by
  induction p generalizing claim W with
  | pure value => exact succeeds _ _ _ metered
  | throw error => exact fails _ _ _ metered
  | input next ih => exact fun value => ih value (metered value)
  | emit event next ih => exact ih metered
  | rollback next ih => exact ih metered
  | commit next ih =>
      exact ⟨fun error => ih _ (metered.1 error), metered.2.1, metered.2.2.1, ih _ metered.2.2.2⟩
  | statement exec next ih =>
      refine ⟨fun error => ih _ (metered.1 error), fun rows inv o ran => ?_⟩
      rcases metered.2 rows inv o ran with on | ⟨flies, room, on⟩
      · exact .inl (ih _ on)
      · exact .inr ⟨flies, room, ih _ on⟩

theorem bind {flying : Prog Row Key Event Input Error β → Prop}
    {ok' : β → Bool → List (Write Row Key) → Prop}
    {p : Prog Row Key Event Input Error α} {next : α → Prog Row Key Event Input Error β}
    (metered : G.Metered (fun q => flying (q.bind next))
      (fun value claim W => G.Metered flying ok' failed (next value) claim W) failed p claim W) :
    G.Metered flying ok' failed (p.bind next) claim W :=
  metered.ending (fun _ _ _ on => on) fun _ _ _ refused => refused

theorem catching {flying : Prog Row Key Event Input Error α → Prop}
    {p : Prog Row Key Event Input Error α} {handler : Error → Prog Row Key Event Input Error α}
    (metered : G.Metered (fun q => flying (q.catching handler)) ok
      (fun error claim W => G.Metered flying ok failed (handler error) claim W) p claim W) :
    G.Metered flying ok failed (p.catching handler) claim W :=
  metered.ending (fun _ _ _ fine => fine) fun _ _ _ handled => handled

theorem weaken {flying flying' : Prog Row Key Event Input Error α → Prop}
    {ok' : α → Bool → List (Write Row Key) → Prop} {failed' : Error → Bool → List (Write Row Key) → Prop}
    {p : Prog Row Key Event Input Error α} (metered : G.Metered flying ok failed p claim W)
    (flies : ∀ q, flying q → flying' q) (succeeds : ∀ value claim W, ok value claim W → ok' value claim W)
    (fails : ∀ error claim W, failed error claim W → failed' error claim W) :
    G.Metered flying' ok' failed' p claim W := by
  induction p generalizing claim W with
  | pure value => exact succeeds _ _ _ metered
  | throw error => exact fails _ _ _ metered
  | input next ih => exact fun value => ih value (metered value)
  | emit event next ih => exact ih metered
  | rollback next ih => exact ih metered
  | commit next ih =>
      exact ⟨fun error => ih _ (metered.1 error), metered.2.1, metered.2.2.1, ih _ metered.2.2.2⟩
  | statement exec next ih =>
      refine ⟨fun error => ih _ (metered.1 error), fun rows inv o ran => ?_⟩
      rcases metered.2 rows inv o ran with on | ⟨flying, room, on⟩
      · exact .inl (ih _ on)
      · exact .inr ⟨flies _ flying, room, ih _ on⟩

theorem andThen {flying : Prog Row Key Event Input Error β → Prop}
    {ok' : β → Bool → List (Write Row Key) → Prop}
    {p : Prog Row Key Event Input Error α} {next : α → Prog Row Key Event Input Error β}
    {Q : α → Bool → List (Write Row Key) → Prop}
    (metered : G.Metered (fun q => flying (q.bind next)) Q failed p claim W)
    (rest : ∀ value claim W, Q value claim W → G.Metered flying ok' failed (next value) claim W) :
    G.Metered flying ok' failed (p.bind next) claim W :=
  (metered.weaken (fun _ flies => flies) rest fun _ _ _ refused => refused).bind

variable {flying : Prog Row Key Event Input Error α → Prop}

/-- A statement that admits nobody. -/
theorem query {exec : Statement Row Key Error α} (fails : ∀ error, failed error claim W)
    (answered : ∀ rows, G.inv rows → ∀ o, exec (applyAll rows W) = .ok o → ok o.result claim (W ++ o.writes)) :
    G.Metered flying ok failed (Prog.query exec) claim W :=
  ⟨fails, fun rows inv o ran => .inl (answered rows inv o ran)⟩

theorem read {answer : List Row → α} (fails : ∀ error, failed error claim W)
    (rest : ∀ rows, G.inv rows → ok (answer (applyAll rows W)) claim W) :
    G.Metered flying ok failed (Prog.query (Statement.read answer)) claim W := by
  apply query fails
  intro rows inv o ran
  cases ran
  simpa using rest rows inv

theorem found {answer : List Row → Option α} {error : Error} (fails : ∀ error, failed error claim W)
    (rest : ∀ rows, G.inv rows → ∀ value, answer (applyAll rows W) = some value → ok value claim W) :
    G.Metered flying ok failed (Prog.found (Statement.read answer) error) claim W := by
  apply bind
  apply read fails
  intro rows inv
  cases answered : answer (applyAll rows W) with
  | none => exact fails error
  | some value => exact rest rows inv value answered

theorem require {flying : Prog Row Key Event Input Error Unit → Prop}
    {ok : Unit → Bool → List (Write Row Key) → Prop} {test : Bool} {error : Error}
    (refused : failed error claim W) (passed : test = true → ok () claim W) :
    G.Metered flying ok failed (Prog.require test error) claim W := by
  cases test with
  | false => exact refused
  | true => exact passed rfl

theorem transaction {p : Prog Row Key Event Input Error α}
    (metered : G.Metered (fun q => flying q.transaction)
      (fun value claim W => (∀ error, failed error false []) ∧ (∀ write ∈ W, G.quiet write) ∧
        (W.map (Write.adds G.weight)).sum ≤ claim.toNat ∧ ok value false [])
      (fun error _ _ => failed error false []) p claim W) :
    G.Metered flying ok failed p.transaction claim W :=
  metered.ending (fun _ _ _ on => on) fun _ _ _ refused => refused

theorem forEach {flying : Prog Row Key Event Input Error Unit → Prop}
    {J : Bool → List (Write Row Key) → Prop} {body : β → Prog Row Key Event Input Error Unit}
    {items : List β} (start : J claim W)
    (round : ∀ item ∈ items, ∀ claim W, J claim W →
      G.Metered (fun _ => False) (fun _ => J) failed (body item) claim W) :
    G.Metered flying (fun _ => J) failed (Prog.forEach items body) claim W := by
  induction items generalizing claim W with
  | nil => exact start
  | cons item rest ih =>
      apply bind
      apply (round item List.mem_cons_self claim W start).weaken
      · exact fun _ none_ => none_.elim
      · intro _ claim W kept
        exact ih kept fun other member => round other (List.mem_cons_of_mem _ member)
      · exact fun _ _ _ refused => refused

theorem collect {γ : Type} {flying : Prog Row Key Event Input Error (List γ) → Prop}
    {J : Bool → List (Write Row Key) → Prop} {body : β → Prog Row Key Event Input Error γ}
    {items : List β} (start : J claim W)
    (round : ∀ item ∈ items, ∀ claim W, J claim W →
      G.Metered (fun _ => False) (fun _ => J) failed (body item) claim W) :
    G.Metered flying (fun _ => J) failed (Prog.collect items body) claim W := by
  induction items generalizing flying claim W with
  | nil => exact start
  | cons item rest ih =>
      apply bind
      apply (round item List.mem_cons_self claim W start).weaken
      · exact fun _ none_ => none_.elim
      · intro first claim W kept
        apply bind
        exact (ih kept fun other member => round other (List.mem_cons_of_mem _ member)).weaken
          (fun _ flies => flies) (fun _ _ _ kept => kept) fun _ _ _ refused => refused
      · exact fun _ _ _ refused => refused

end Metered

variable {G} [DecidableEq ι] {k : Nat} {s u : System ι Row Key Event Input Error α}

/-- Between its admission and its commit. -/
def Underway (flying : Prog Row Key Event Input Error α → Prop) (prog : Prog Row Key Event Input Error α) :
    Prop :=
  flying prog ∧ prog.MayCommit

/-- What the threads of a system claim. -/
structure Accounted (G : Gauge Row Key) (flying : ι → Prog Row Key Event Input Error α → Prop) (k : Nat)
    (s : System ι Row Key Event Input Error α) (claim : ι → Bool) : Prop where
  inv : G.inv s.rows
  metered : ∀ i, G.Metered (flying i) (fun _ _ _ => True) (fun _ _ _ => True) (s.threads i).prog
    (claim i) (s.threads i).pending
  flies : ∀ i, claim i → (s.threads i).prog.MayCommit → flying i (s.threads i).prog
  within : Within (fun _ => 1) (G.quota + (k - 1) * 1) (total G.weight s.rows)
    fun i => claim i ∧ (s.threads i).prog.MayCommit

variable {flying : ι → Prog Row Key Event Input Error α → Prop} {claim : ι → Bool} {i : ι}

/-- A thread goes on with its claim, or lets it go; the rows stay. -/
theorem Accounted.moved (accounted : Accounted G flying k s claim) (thread : Thread Row Key Event Input Error α)
    (rows : u.rows = s.rows) (threads : u.threads = Function.update s.threads i thread) (c : Bool)
    (metered : G.Metered (flying i) (fun _ _ _ => True) (fun _ _ _ => True) thread.prog c thread.pending)
    (kept : c → claim i) (leads : thread.prog.MayCommit → (s.threads i).prog.MayCommit)
    (flies : c → flying i (s.threads i).prog → flying i thread.prog) :
    Accounted G flying k u (Function.update claim i c) := by
  have own : u.threads i = thread := by rw [threads, Function.update_self]
  have other : ∀ j, j ≠ i → u.threads j = s.threads j := by
    intro j apart
    rw [threads, Function.update_of_ne apart]
  have still : ∀ j, Function.update claim i c j ∧ (u.threads j).prog.MayCommit →
      claim j ∧ (s.threads j).prog.MayCommit := by
    rintro j ⟨claims, may⟩
    by_cases same : j = i
    · subst same
      rw [Function.update_self] at claims
      rw [own] at may
      exact ⟨kept claims, leads may⟩
    · rw [Function.update_of_ne same] at claims
      rw [other j same] at may
      exact ⟨claims, may⟩
  refine ⟨rows ▸ accounted.inv, ?_, ?_, ?_⟩
  · intro j
    by_cases same : j = i
    · subst same
      rw [own, Function.update_self]
      exact metered
    · rw [other j same, Function.update_of_ne same]
      exact accounted.metered j
  · intro j claims may
    by_cases same : j = i
    · subst same
      have before := still j ⟨claims, may⟩
      rw [Function.update_self] at claims
      rw [own]
      exact flies claims (accounted.flies j before.1 before.2)
    · rw [Function.update_of_ne same] at claims
      rw [other j same] at may ⊢
      exact accounted.flies j claims may
  · rw [rows]
    exact accounted.within.mono (Nat.le_refl _) still

/-- A statement finds room for one more. -/
theorem Accounted.enter (accounted : Accounted G flying k s claim) (thread : Thread Row Key Event Input Error α)
    (rows : u.rows = s.rows) (threads : u.threads = Function.update s.threads i thread)
    (metered : G.Metered (flying i) (fun _ _ _ => True) (fun _ _ _ => True) thread.prog true thread.pending)
    (flies : flying i thread.prog) (room : total G.weight s.rows + 1 ≤ G.quota)
    (few : AtMost k fun i => Underway (flying i) (u.threads i).prog) :
    Accounted G flying k u (Function.update claim i true) := by
  have own : u.threads i = thread := by rw [threads, Function.update_self]
  have other : ∀ j, j ≠ i → u.threads j = s.threads j := by
    intro j apart
    rw [threads, Function.update_of_ne apart]
  have flies' : ∀ j, Function.update claim i true j → (u.threads j).prog.MayCommit →
      flying j (u.threads j).prog := by
    intro j claims may
    by_cases same : j = i
    · subst same
      rw [own]
      exact flies
    · rw [Function.update_of_ne same] at claims
      rw [other j same] at may ⊢
      exact accounted.flies j claims may
  refine ⟨rows ▸ accounted.inv, ?_, flies', ?_⟩
  · intro j
    by_cases same : j = i
    · subst same
      rw [own, Function.update_self]
      exact metered
    · rw [other j same, Function.update_of_ne same]
      exact accounted.metered j
  · rw [rows]
    apply accounted.within.enter room (fun _ => Nat.le_refl 1)
    · rintro j ⟨claims, may⟩
      by_cases same : j = i
      · exact .inl same
      · rw [Function.update_of_ne same] at claims
        rw [other j same] at may
        exact .inr ⟨claims, may⟩
    · exact few.mono fun j ⟨claims, may⟩ => ⟨flies' j claims may, may⟩

/-- A commit takes what the thread claims, and the claim is over. -/
theorem Accounted.commit (accounted : Accounted G flying k s claim) (thread : Thread Row Key Event Input Error α)
    (rows : u.rows = applyAll s.rows (s.threads i).pending)
    (threads : u.threads = Function.update s.threads i thread)
    (metered : G.Metered (flying i) (fun _ _ _ => True) (fun _ _ _ => True) thread.prog false thread.pending)
    (may : (s.threads i).prog.MayCommit) (quiet : ∀ write ∈ (s.threads i).pending, G.quiet write)
    (weighs : ((s.threads i).pending.map (Write.adds G.weight)).sum ≤ (claim i).toNat) :
    Accounted G flying k u (Function.update claim i false) := by
  have own : u.threads i = thread := by rw [threads, Function.update_self]
  have other : ∀ j, j ≠ i → u.threads j = s.threads j := by
    intro j apart
    rw [threads, Function.update_of_ne apart]
  have more := total_applyAll_le G.weight (G.unique accounted.inv) (s.threads i).pending
  have rest : ∀ j, Function.update claim i false j ∧ (u.threads j).prog.MayCommit →
      j ≠ i ∧ claim j ∧ (s.threads j).prog.MayCommit := by
    rintro j ⟨claims, may⟩
    by_cases same : j = i
    · subst same
      rw [Function.update_self] at claims
      cases claims
    · rw [Function.update_of_ne same] at claims
      rw [other j same] at may
      exact ⟨same, claims, may⟩
  refine ⟨?_, ?_, ?_, ?_⟩
  · rw [rows]
    exact G.keeps accounted.inv quiet
  · intro j
    by_cases same : j = i
    · subst same
      rw [own, Function.update_self]
      exact metered
    · rw [other j same, Function.update_of_ne same]
      exact accounted.metered j
  · intro j claims may
    have before := rest j ⟨claims, may⟩
    rw [other j before.1]
    exact accounted.flies j before.2.1 before.2.2
  · rw [rows]
    cases claims : claim i with
    | true =>
        rw [claims, Bool.toNat_true] at weighs
        have settled := accounted.within.settle (j := i) ⟨claims, may⟩ rest
        exact settled.mono (by omega) fun _ inside => inside
    | false =>
        rw [claims, Bool.toNat_false] at weighs
        exact accounted.within.mono (by omega) fun j inside => (rest j inside).2

/-- Where the programs that are under way stay so, every step keeps the accounts. -/
theorem Accounted.step {action : Action ι Input Error}
    (closed : ∀ i p q, flying i p → p.Leads q → flying i q) (accounted : Accounted G flying k s claim)
    (few : AtMost k fun i => Underway (flying i) (u.threads i).prog) (stepped : s.step action = some u) :
    ∃ claim', Accounted G flying k u claim' := by
  cases action with
  | run i value =>
      have metered := accounted.metered i
      cases here : (s.threads i).prog with
      | pure | throw => simp [System.step, here] at stepped
      | input next =>
          simp only [System.step, here, Option.some.injEq] at stepped
          subst stepped
          rw [here] at metered
          refine ⟨Function.update claim i (claim i), ?_⟩
          refine accounted.moved { s.threads i with prog := next value } (by rfl) (by rfl) (claim i)
            (metered value) id ?_ ?_
          · rw [here]
            exact fun may => ⟨value, may⟩
          · rw [here]
            exact fun _ flies => closed i _ _ flies (.input value (.refl _))
      | emit event next =>
          simp only [System.step, here, Option.some.injEq] at stepped
          subst stepped
          rw [here] at metered
          refine ⟨Function.update claim i (claim i), ?_⟩
          refine accounted.moved { s.threads i with prog := next } (by rfl) (by rfl) (claim i) metered id ?_ ?_
          · rw [here]
            exact fun may => may
          · rw [here]
            exact fun _ flies => closed i _ _ flies (.emit (.refl _))
      | rollback next =>
          simp only [System.step, here, Option.some.injEq] at stepped
          subst stepped
          rw [here] at metered
          refine ⟨Function.update claim i false, ?_⟩
          refine accounted.moved { s.threads i with prog := next, pending := [] } (by rfl) (by rfl) false metered
            (by simp) ?_ (by simp)
          · rw [here]
            exact fun may => may
      | commit next =>
          simp only [System.step, here, Option.some.injEq] at stepped
          subst stepped
          rw [here] at metered
          refine ⟨Function.update claim i false, ?_⟩
          exact accounted.commit { s.threads i with prog := next (.ok ()), pending := [] } (by rfl) (by rfl) metered.2.2.2
            (by rw [here]; trivial) metered.2.1 metered.2.2.1
      | statement exec next =>
          rw [here] at metered
          simp only [System.step, here] at stepped
          split at stepped
          · rename_i error refused
            cases stepped
            refine ⟨Function.update claim i (claim i), ?_⟩
            refine accounted.moved { s.threads i with prog := next (.error error) } (by rfl) (by rfl) (claim i)
              (metered.1 error) id ?_ ?_
            · rw [here]
              exact fun may => ⟨_, may⟩
            · rw [here]
              exact fun _ flies => closed i _ _ flies (.statement _ (.refl _))
          · rename_i o answered
            split at stepped
            · contradiction
            · cases stepped
              rcases metered.2 s.rows accounted.inv o answered with on | ⟨flies, room, on⟩
              · refine ⟨Function.update claim i (claim i), ?_⟩
                refine accounted.moved ⟨next (.ok o.result), _, _⟩ (by rfl) (by rfl) (claim i) on id ?_ ?_
                · rw [here]
                  exact fun may => ⟨_, may⟩
                · rw [here]
                  exact fun _ flies => closed i _ _ flies (.statement _ (.refl _))
              · refine ⟨Function.update claim i true, ?_⟩
                exact accounted.enter ⟨next (.ok o.result), _, _⟩ (by rfl) (by rfl) on flies room few
  | fail i error =>
      have metered := accounted.metered i
      cases here : (s.threads i).prog with
      | pure | throw | input | emit | rollback => simp [System.step, here] at stepped
      | commit next =>
          simp only [System.step, here, Option.some.injEq] at stepped
          subst stepped
          rw [here] at metered
          refine ⟨Function.update claim i false, ?_⟩
          refine accounted.moved { s.threads i with prog := next (.error error), pending := [] } (by rfl) (by rfl) false
            (metered.1 error) (by simp) ?_ (by simp)
          · rw [here]
            exact fun _ => trivial
      | statement exec next =>
          simp only [System.step, here, Option.some.injEq] at stepped
          subst stepped
          rw [here] at metered
          refine ⟨Function.update claim i (claim i), ?_⟩
          refine accounted.moved { s.threads i with prog := next (.error error) } (by rfl) (by rfl) (claim i)
            (metered.1 error) id ?_ ?_
          · rw [here]
            exact fun may => ⟨_, may⟩
          · rw [here]
            exact fun _ flies => closed i _ _ flies (.statement _ (.refl _))

variable (flying) in
/-- The weight of a run in which few are under way at a time. -/
theorem total_le_of_reaches (closed : ∀ i p q, flying i p → p.Leads q → flying i q)
    (run : s.Reaches (fun t action => ∀ u, t.step action = some u →
      AtMost k fun i => Underway (flying i) (u.threads i).prog) u)
    (inv : G.inv s.rows) (fits : total G.weight s.rows ≤ G.quota)
    (metered : ∀ i, G.Metered (flying i) (fun _ _ _ => True) (fun _ _ _ => True) (s.threads i).prog false
      (s.threads i).pending) : total G.weight u.rows ≤ G.quota + (k - 1) := by
  have accounts : ∃ claim, Accounted G flying k u claim := by
    apply run.invariant (P := fun t => ∃ claim, Accounted G flying k t claim)
    · rintro t action u ⟨claim, accounted⟩ few stepped
      exact accounted.step closed (few u stepped) stepped
    · exact ⟨fun _ => false, inv, metered, by simp, .start (by simp) (fits.trans (Nat.le_add_right ..))⟩
  obtain ⟨claim, accounted⟩ := accounts
  simpa using accounted.within.used_le

end Gauge
end Kurul.Store
