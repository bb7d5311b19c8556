import Kurul.Store.Program

/-! Read-committed interleaving of database programs. Statements are atomic, each
sees the rows committed when it runs, and one that needs a row lock another
program holds has to wait. -/

namespace Kurul.Store

variable {Row Key Event Input Error α ι : Type}

/-- A program under way: what is left of it, the writes it has not committed and
the views its statements have run on, the oldest first. -/
structure Thread (Row Key Event Input Error α : Type) where
  prog : Prog Row Key Event Input Error α
  pending : List (Write Row Key) := []
  seen : List (List Row) := []

structure Lock (ι Key : Type) where
  owner : ι
  key : Key
  mode : LockMode

structure System (ι Row Key Event Input Error α : Type) where
  rows : List Row
  threads : ι → Thread Row Key Event Input Error α
  locks : List (Lock ι Key) := []
  events : List Event := []

/-- One move of a run: a program takes its next step, given the value it may ask
for, or the database refuses its next statement or commit. -/
inductive Action (ι Input Error : Type) where
  | run (i : ι) (value : Input)
  | fail (i : ι) (error : Error)

def Action.actor : Action ι Input Error → ι
  | .run i _ => i
  | .fail i _ => i

theorem LockMode.conflicts_comm (a b : LockMode) : a.conflicts b = b.conflicts a := by
  cases a <;> cases b <;> rfl

/-- Locks of two programs that may be held at the same time. -/
def Apart (mine theirs : Held Key) : Prop :=
  ∀ a ∈ mine, ∀ b ∈ theirs, a.1 = b.1 → a.2.conflicts b.2 = false

theorem Apart.symm (apart : Apart mine theirs) : Apart theirs mine :=
  fun a member b member' same => by
    rw [LockMode.conflicts_comm]; exact apart b member' a member same.symm

variable [DecidableEq ι]

namespace System

def held (s : System ι Row Key Event Input Error α) (i : ι) : Held Key :=
  (s.locks.filter (fun lock => lock.owner = i)).map (fun lock => (lock.key, lock.mode))

def setThread (s : System ι Row Key Event Input Error α) (i : ι)
    (thread : Thread Row Key Event Input Error α) : System ι Row Key Event Input Error α :=
  { s with threads := Function.update s.threads i thread }

def release (s : System ι Row Key Event Input Error α) (i : ι) :
    System ι Row Key Event Input Error α :=
  { s with locks := s.locks.filter (fun lock => lock.owner ≠ i) }

def takeLocks (s : System ι Row Key Event Input Error α) (i : ι) (added : Held Key) :
    System ι Row Key Event Input Error α :=
  { s with locks := s.locks ++ added.map (fun lock => ⟨i, lock.1, lock.2⟩) }

def publish (s : System ι Row Key Event Input Error α) (event : Event) :
    System ι Row Key Event Input Error α :=
  { s with events := s.events ++ [event] }

/-- Makes these rows the committed ones. -/
def install (s : System ι Row Key Event Input Error α) (rows : List Row) :
    System ι Row Key Event Input Error α :=
  { s with rows }

section Updates

variable (s : System ι Row Key Event Input Error α) (i j : ι)
  (thread : Thread Row Key Event Input Error α) (added : Held Key) (event : Event)
  (rows : List Row)

@[simp] theorem rows_setThread : (s.setThread i thread).rows = s.rows := rfl
@[simp] theorem rows_release : (s.release i).rows = s.rows := rfl
omit [DecidableEq ι] in
@[simp] theorem rows_takeLocks : (s.takeLocks i added).rows = s.rows := rfl
omit [DecidableEq ι] in
@[simp] theorem rows_publish : (s.publish event).rows = s.rows := rfl
omit [DecidableEq ι] in
@[simp] theorem rows_install : (s.install rows).rows = rows := rfl

@[simp] theorem threads_setThread :
    (s.setThread i thread).threads j = if j = i then thread else s.threads j := by
  simp [setThread, Function.update_apply]

@[simp] theorem threads_release : (s.release i).threads = s.threads := rfl
omit [DecidableEq ι] in
@[simp] theorem threads_takeLocks : (s.takeLocks i added).threads = s.threads := rfl
omit [DecidableEq ι] in
@[simp] theorem threads_publish : (s.publish event).threads = s.threads := rfl
omit [DecidableEq ι] in
@[simp] theorem threads_install : (s.install rows).threads = s.threads := rfl

@[simp] theorem held_setThread : (s.setThread i thread).held j = s.held j := rfl
@[simp] theorem held_publish : (s.publish event).held j = s.held j := rfl
@[simp] theorem held_install : (s.install rows).held j = s.held j := rfl

@[simp] theorem held_release : (s.release i).held j = if j = i then [] else s.held j := by
  by_cases same : j = i
  · simp only [held, release, List.filter_filter, same, if_true]
    simp
  · simp only [held, release, List.filter_filter, same, if_false]
    congr 1
    apply List.filter_congr
    intro lock _
    by_cases mine : lock.owner = j <;> simp [mine, same]

@[simp] theorem held_takeLocks :
    (s.takeLocks i added).held j = if j = i then s.held j ++ added else s.held j := by
  by_cases same : j = i
  · simp [held, takeLocks, same, List.filter_append, List.filter_map, Function.comp_def]
  · simp [held, takeLocks, same, Ne.symm same, List.filter_append, List.filter_map,
      Function.comp_def]

end Updates

variable [DecidableEq Key]

/-- Some other program holds a lock that one of these would conflict with. -/
def blocked (s : System ι Row Key Event Input Error α) (i : ι) (wanted : Held Key) : Bool :=
  wanted.any fun lock => s.locks.any fun other =>
    other.owner ≠ i && other.key = lock.1 && other.mode.conflicts lock.2

/-- A program that is not blocked gets locks compatible with those of every other. -/
theorem apart_of_not_blocked {s : System ι Row Key Event Input Error α} {wanted : Held Key}
    (free : s.blocked i wanted = false) (different : j ≠ i) : Apart wanted (s.held j) := by
  intro a member b held same
  obtain ⟨lock, kept, rfl⟩ := List.mem_map.mp held
  rw [List.mem_filter] at kept
  simp only [blocked, List.any_eq_false] at free
  have passed := free a member
  simp only [List.any_eq_true, not_exists, not_and, Bool.and_eq_true, decide_eq_true_eq] at passed
  rw [LockMode.conflicts_comm]
  by_contra conflict
  have owner : lock.owner = j := by simpa using kept.2
  exact passed lock kept.1 ⟨by simpa [owner] using different, same.symm⟩ (by simpa using conflict)

variable [Keyed Row Key]

def step (s : System ι Row Key Event Input Error α) :
    Action ι Input Error → Option (System ι Row Key Event Input Error α)
  | .run i value =>
      let t := s.threads i
      match t.prog with
      | .pure _ | .throw _ => none
      | .input next => some (s.setThread i { t with prog := next value })
      | .emit event next => some ((s.setThread i { t with prog := next }).publish event)
      | .commit next =>
          some (((s.setThread i { t with prog := next (.ok ()), pending := [] }).release i).install
            (applyAll s.rows t.pending))
      | .rollback next => some ((s.setThread i { t with prog := next, pending := [] }).release i)
      | .statement exec next =>
          let view := applyAll s.rows t.pending
          match exec view with
          | .error error => some (s.setThread i { t with prog := next (.error error) })
          | .ok o =>
              if s.blocked i o.footprint then none
              else
                some ((s.setThread i
                  ⟨next (.ok o.result), t.pending ++ o.writes, t.seen ++ [view]⟩).takeLocks
                    i o.footprint)
  | .fail i error =>
      let t := s.threads i
      match t.prog with
      | .statement _ next => some (s.setThread i { t with prog := next (.error error) })
      | .commit next =>
          some ((s.setThread i { t with prog := next (.error error), pending := [] }).release i)
      | _ => none

/-- The states a run can pass through when every step it takes is allowed. -/
inductive Reaches
    (allowed : System ι Row Key Event Input Error α → Action ι Input Error → Prop)
    (s : System ι Row Key Event Input Error α) : System ι Row Key Event Input Error α → Prop where
  | refl : Reaches allowed s s
  | next : Reaches allowed s t → allowed t action → t.step action = some u → Reaches allowed s u

/-- A schedule carried out from the left. -/
def runs (s : System ι Row Key Event Input Error α) :
    List (Action ι Input Error) → Option (System ι Row Key Event Input Error α)
  | [] => some s
  | action :: rest => (s.step action).bind fun t => t.runs rest

/-- The same where every step also passes a check. -/
def runsChecked (check : System ι Row Key Event Input Error α → Action ι Input Error → Bool)
    (s : System ι Row Key Event Input Error α) :
    List (Action ι Input Error) → Option (System ι Row Key Event Input Error α)
  | [] => some s
  | action :: rest =>
      if check s action then (s.step action).bind fun t => t.runsChecked check rest else none

variable {s t u : System ι Row Key Event Input Error α}
  {allowed : System ι Row Key Event Input Error α → Action ι Input Error → Prop}

/-- What a step of one thread comes to, locks and events aside: it ran a statement,
it committed, or it only moved on. -/
inductive Effect (s u : System ι Row Key Event Input Error α) (i : ι)
    (action : Action ι Input Error) : Prop where
  | ran {β : Type} (exec : Statement Row Key Error β)
      (next : Except Error β → Prog Row Key Event Input Error α) (o : Outcome Row Key β)
      (here : (s.threads i).prog = .statement exec next)
      (answered : exec (applyAll s.rows (s.threads i).pending) = .ok o) (rows : u.rows = s.rows)
      (thread : u.threads i = ⟨next (.ok o.result), (s.threads i).pending ++ o.writes,
        (s.threads i).seen ++ [applyAll s.rows (s.threads i).pending]⟩)
  | committed (value : Input) (next : Except Error Unit → Prog Row Key Event Input Error α)
      (acts : action = .run i value) (here : (s.threads i).prog = .commit next)
      (rows : u.rows = applyAll s.rows (s.threads i).pending)
      (thread : u.threads i = ⟨next (.ok ()), [], (s.threads i).seen⟩)
  | moved (rows : u.rows = s.rows) (seen : (u.threads i).seen = (s.threads i).seen)
      (ended : (s.threads i).prog.Over → (u.threads i).prog.Over)

theorem Effect.of_moved {i : ι} {action : Action ι Input Error} {thread : Thread Row Key Event Input Error α}
    (rows : u.rows = s.rows)
    (threads : u.threads = (s.setThread i thread).threads) (seen : thread.seen = (s.threads i).seen)
    {prog : Prog Row Key Event Input Error α} (here : (s.threads i).prog = prog)
    (ended : prog.Over → thread.prog.Over) :
    Effect s u i action ∧ ∀ j, j ≠ i → u.threads j = s.threads j := by
  have own : u.threads i = thread := by rw [threads, threads_setThread, if_pos rfl]
  refine ⟨.moved rows (own ▸ seen) (own ▸ here ▸ ended), fun j other => ?_⟩
  rw [threads, threads_setThread, if_neg other]

theorem step_effect {action : Action ι Input Error} (stepped : s.step action = some u) :
    Effect s u action.actor action ∧ ∀ j, j ≠ action.actor → u.threads j = s.threads j := by
  cases action with
  | run i value =>
      cases here : (s.threads i).prog with
      | pure | throw => simp [step, here] at stepped
      | input next =>
          simp only [step, here, Option.some.injEq] at stepped
          subst stepped
          exact Effect.of_moved rfl rfl rfl here fun ended => ended value
      | emit event next =>
          simp only [step, here, Option.some.injEq] at stepped
          subst stepped
          exact Effect.of_moved rfl rfl rfl here fun ended => ended
      | rollback next =>
          simp only [step, here, Option.some.injEq] at stepped
          subst stepped
          exact Effect.of_moved rfl rfl rfl here fun ended => ended
      | commit next =>
          simp only [step, here, Option.some.injEq] at stepped
          subst stepped
          exact ⟨.committed value next rfl here rfl (by simp [Action.actor]), fun j other => by
            simp [show j ≠ i from other]⟩
      | statement exec next =>
          simp only [step, here] at stepped
          split at stepped
          · cases stepped
            exact Effect.of_moved rfl rfl rfl here fun ended => ended.elim
          · rename_i o answered
            split at stepped
            · contradiction
            · cases stepped
              exact ⟨.ran exec next o here answered rfl (by simp [Action.actor]), fun j other => by
                simp [show j ≠ i from other]⟩
  | fail i error =>
      cases here : (s.threads i).prog with
      | pure | throw | input | emit | rollback => simp [step, here] at stepped
      | commit next =>
          simp only [step, here, Option.some.injEq] at stepped
          subst stepped
          exact Effect.of_moved rfl rfl rfl here fun ended => ended _
      | statement exec next =>
          simp only [step, here, Option.some.injEq] at stepped
          subst stepped
          exact Effect.of_moved rfl rfl rfl here fun ended => ended.elim

theorem Reaches.trans (first : Reaches allowed s t) (second : Reaches allowed t u) :
    Reaches allowed s u := by
  induction second with
  | refl => exact first
  | next _ permitted stepped ih => exact .next ih permitted stepped

theorem runs_append (s : System ι Row Key Event Input Error α) (first later : List (Action ι Input Error)) :
    s.runs (first ++ later) = (s.runs first).bind fun t => t.runs later := by
  induction first generalizing s with
  | nil => rfl
  | cons action rest ih => cases stepped : s.step action <;> simp [runs, stepped, ih]

theorem Reaches.of_runs (free : ∀ s action, allowed s action) (actions : List (Action ι Input Error))
    (ran : s.runs actions = some t) : Reaches allowed s t := by
  induction actions generalizing s with
  | nil => cases ran; exact .refl
  | cons action rest ih =>
      obtain ⟨middle, stepped, ran⟩ := Option.bind_eq_some_iff.mp ran
      exact Reaches.trans (.next .refl (free _ _) stepped) (ih ran)

/-- A schedule whose steps are allowed as long as something holds that they keep. -/
theorem Reaches.of_runs_keeping {I : System ι Row Key Event Input Error α → Prop}
    {actions : List (Action ι Input Error)}
    (keeps : ∀ {s action u}, action ∈ actions → I s → s.step action = some u → I u)
    (permits : ∀ {s action}, action ∈ actions → I s → allowed s action) (start : I s)
    (ran : s.runs actions = some t) : Reaches allowed s t := by
  induction actions generalizing s with
  | nil => cases ran; exact .refl
  | cons action rest ih =>
      obtain ⟨middle, stepped, ran⟩ := Option.bind_eq_some_iff.mp ran
      apply Reaches.trans (.next .refl (permits List.mem_cons_self start) stepped)
      apply ih _ _ (keeps List.mem_cons_self start stepped) ran
      · intro _ _ _ member
        exact keeps (List.mem_cons_of_mem _ member)
      · intro _ _ member
        exact permits (List.mem_cons_of_mem _ member)

theorem Reaches.of_runsChecked
    {check : System ι Row Key Event Input Error α → Action ι Input Error → Bool}
    (passed : ∀ s action, check s action → allowed s action) (actions : List (Action ι Input Error))
    (ran : s.runsChecked check actions = some t) : Reaches allowed s t := by
  induction actions generalizing s with
  | nil => cases ran; exact .refl
  | cons action rest ih =>
      rw [runsChecked, Option.ite_none_right_eq_some] at ran
      obtain ⟨middle, stepped, after⟩ := Option.bind_eq_some_iff.mp ran.2
      exact Reaches.trans (.next .refl (passed _ _ ran.1) stepped) (ih after)

theorem Reaches.get (actions : List (Action ι Input Error)) (ran : (s.runs actions).isSome) :
    Reaches (fun _ _ => True) s ((s.runs actions).get ran) :=
  .of_runs (fun _ _ => trivial) actions (Option.some_get ran).symm

theorem Reaches.invariant {P : System ι Row Key Event Input Error α → Prop}
    (preserves : ∀ {t action u}, P t → allowed t action → t.step action = some u → P u)
    (run : Reaches allowed s t) (initial : P s) : P t := by
  induction run with
  | refl => exact initial
  | next _ permitted stepped ih => exact preserves ih permitted stepped

end System
end Kurul.Store
