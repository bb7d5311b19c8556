import Mathlib

/-! Rows deleted in batches. A statement takes at most so many of the rows that match, which of
them is up to the server, and any statement may fail before or after it took effect. A loop
goes on until a batch comes back short or its passes are used up. -/
namespace Kurul.Store.Batches

/-- Rows under keys. `unlink` is what becomes of a row when those under some keys go. -/
class Linked (α : Type) (κ : outParam Type) where
  key : α → κ
  unlink : List κ → α → α
  key_unlink (gone : List κ) (a : α) : key (unlink gone a) = key a
  unlink_nil (a : α) : unlink [] a = a
  unlink_unlink (gone more : List κ) (a : α) : unlink more (unlink gone a) = unlink (gone ++ more) a

open Linked

attribute [simp] key_unlink unlink_nil unlink_unlink

/-- No two rows are under one key. -/
structure Stock (α : Type) {κ : Type} [Linked α κ] where
  rows : List α
  distinct : (rows.map key).Nodup

variable {α κ : Type} [Linked α κ] [DecidableEq κ] {p q : α → Bool} {gone more : List κ}

namespace Stock

variable {stock : Stock α}

omit [DecidableEq κ] in
theorem eq_of_rows {other : Stock α} (rows : stock.rows = other.rows) : stock = other := by
  cases stock
  cases other
  cases rows
  rfl

def without (stock : Stock α) (gone : List κ) : Stock α where
  rows := (stock.rows.filter (key · ∉ gone)).map (unlink gone)
  distinct := by
    have keys : (key ∘ unlink gone : α → κ) = key := funext (key_unlink gone)
    rw [List.map_map, keys]
    exact stock.distinct.sublist (List.filter_sublist.map key)

/-- The keys of the rows that match. -/
def candidates (stock : Stock α) (p : α → Bool) : List κ := (stock.rows.filter p).map key

omit [DecidableEq κ] in
theorem candidates_nodup : (stock.candidates p).Nodup := stock.distinct.sublist (List.filter_sublist.map key)

omit [DecidableEq κ] in
theorem mem_candidates {k : κ} : k ∈ stock.candidates p ↔ ∃ a ∈ stock.rows, p a = true ∧ key a = k := by
  simp [candidates, and_assoc]

@[simp] theorem without_nil : stock.without [] = stock := by
  have same : (unlink [] : α → α) = id := funext unlink_nil
  exact eq_of_rows (by simp [without, same])

@[simp] theorem without_without : (stock.without gone).without more = stock.without (gone ++ more) := by
  apply eq_of_rows
  simp [without, List.filter_map, Function.comp_def, List.filter_filter, Bool.and_comm]

theorem mem_without {a : α} :
    a ∈ (stock.without gone).rows ↔ ∃ old ∈ stock.rows, key old ∉ gone ∧ unlink gone old = a := by
  simp [without, and_assoc]

end Stock

/-- Rows match or not whatever other rows go. -/
def Steady (p : α → Bool) : Prop := ∀ gone a, p (unlink gone a) = p a

namespace Stock

variable {stock : Stock α}

theorem candidates_without (steady : Steady p) :
    (stock.without gone).candidates p = (stock.candidates p).filter (· ∉ gone) := by
  simp [candidates, without, List.filter_map, Function.comp_def, steady _ _, List.filter_filter, Bool.and_comm]

/-- Rows that do not match may go without a change to those that do. -/
theorem candidates_apart (steady : Steady p) (apart : ∀ k ∈ gone, k ∉ stock.candidates p) :
    (stock.without gone).candidates p = stock.candidates p := by
  rw [candidates_without steady, List.filter_eq_self]
  intro k member
  exact decide_eq_true fun taken => apart k taken member

end Stock

/-- The keys of different rows that match. -/
structure Takes (p : α → Bool) (stock : Stock α) (gone : List κ) : Prop where
  once : gone.Nodup
  match_ : ∀ k ∈ gone, k ∈ stock.candidates p

namespace Takes

variable {stock : Stock α}

omit [DecidableEq κ] in
theorem nil : Takes p stock [] := ⟨List.nodup_nil, by simp⟩

omit [DecidableEq κ] in
theorem mono (takes : Takes p stock gone) (weaker : ∀ a, p a = true → q a = true) : Takes q stock gone where
  once := takes.once
  match_ k member := by
    obtain ⟨a, row, matches_, same⟩ := Stock.mem_candidates.mp (takes.match_ k member)
    exact Stock.mem_candidates.mpr ⟨a, row, weaker a matches_, same⟩

omit [DecidableEq κ] in
theorem matches_ {a : α} (takes : Takes p stock gone) (row : a ∈ stock.rows) (taken : key a ∈ gone) : p a = true := by
  obtain ⟨b, other, matches_, same⟩ := Stock.mem_candidates.mp (takes.match_ _ taken)
  exact List.inj_on_of_nodup_map stock.distinct other row same ▸ matches_

theorem append (steady : Steady p) (first : Takes p stock gone) (second : Takes p (stock.without gone) more) :
    Takes p stock (gone ++ more) := by
  have later : ∀ k ∈ more, k ∈ stock.candidates p ∧ k ∉ gone := by
    intro k member
    have left := second.match_ k member
    rw [Stock.candidates_without steady] at left
    simpa using left
  constructor
  · refine List.nodup_append'.mpr ⟨first.once, second.once, ?_⟩
    intro k taken again
    exact (later k again).2 taken
  · intro k member
    exact (List.mem_append.mp member).elim (first.match_ k) fun again => (later k again).1

/-- What went and what is left make up what there was. -/
theorem length_left (steady : Steady p) (takes : Takes p stock gone) :
    gone.length + ((stock.without gone).candidates p).length = (stock.candidates p).length := by
  have went : ((stock.candidates p).filter (· ∈ gone)).Perm gone :=
    (List.perm_ext_iff_of_nodup (Stock.candidates_nodup.filter _) takes.once).mpr fun k => by
      simpa using takes.match_ k
  rw [Stock.candidates_without steady, ← went.length_eq]
  simpa using (List.length_eq_length_filter_add (l := stock.candidates p) (· ∈ gone)).symm

end Takes

inductive Outcome where
  | done | refused | lost
  deriving DecidableEq

/-- What is not said of the server: in which order it comes on the rows of a statement, and
what becomes of the statement. -/
structure Server (κ : Type) where
  order : Nat → List κ → List κ
  perm (turn : Nat) (keys : List κ) : (order turn keys).Perm keys
  outcome : Nat → Outcome

/-- The rows left, and how many statements have run. -/
structure Progress (α : Type) {κ : Type} [Linked α κ] where
  stock : Stock α
  turn : Nat := 0

/-- A program that stops at the first statement that fails. -/
abbrev Job (α : Type) {κ : Type} [Linked α κ] (β : Type) : Type := OptionT (StateM (Progress α)) β

def Job.on {β : Type} (job : Job α β) (s : Progress α) : Option β × Progress α := job.run.run s

/-- Deletes the first rows that match, up to a batch, and says how many they were. -/
def deleteBatch (server : Server κ) (size : Nat) (p : α → Bool) : Job α Nat :=
  OptionT.mk fun s =>
    let chosen := (server.order s.turn (s.stock.candidates p)).take size
    match server.outcome s.turn with
    | .done => (some chosen.length, { stock := s.stock.without chosen, turn := s.turn + 1 })
    | .lost => (none, { stock := s.stock.without chosen, turn := s.turn + 1 })
    | .refused => (none, { s with turn := s.turn + 1 })

def untilShort (size : Nat) (runBatch : Job α Nat) : Nat → Nat → Job α Nat
  | 0, total => pure total
  | passes + 1, total => do
      let deleted ← runBatch
      if deleted < size then return total + deleted
      else untilShort size runBatch passes (total + deleted)

section Runs

variable {β γ : Type} {server : Server κ} {size : Nat} {s : Progress α}

omit [DecidableEq κ] in
@[simp] theorem pure_on (b : β) : (pure b : Job α β).on s = (some b, s) := rfl

omit [DecidableEq κ] in
/-- A job goes on from where its first part ended, unless that failed. -/
theorem bind_on (job : Job α β) (rest : β → Job α γ) :
    (job >>= rest).on s = match job.on s with
      | (none, t) => (none, t)
      | (some b, t) => (rest b).on t := by
  change (match job.on s with
    | (answer, t) => (match answer with
      | some b => (rest b).run
      | none => pure none : StateM (Progress α) (Option γ)).run t) = _
  rcases job.on s with ⟨_ | b, t⟩ <;> rfl

/-- A job that ends with an answer, unless one of its statements fails. -/
structure Answers (server : Server κ) (job : Job α β) : Prop where
  later : ∀ s, s.turn ≤ (job.on s).2.turn
  answered : ∀ s, (∀ turn, s.turn ≤ turn → turn < (job.on s).2.turn → server.outcome turn = .done) → (job.on s).1.isSome

omit [DecidableEq κ] in
theorem Answers.pure {b : β} : Answers server (Pure.pure b : Job α β) := ⟨fun _ => Nat.le_refl _, fun _ _ => rfl⟩

omit [DecidableEq κ] in
theorem Answers.bind {job : Job α β} {rest : β → Job α γ} (first : Answers server job)
    (then_ : ∀ b, Answers server (rest b)) :
    Answers server (job >>= rest) := by
  constructor
  · intro s
    have here := first.later s
    rw [bind_on]
    rcases ran : job.on s with ⟨_ | b, t⟩
    · rwa [ran] at here
    · rw [ran] at here
      exact here.trans ((then_ b).later t)
  · intro s done
    have here := first.later s
    have answered := first.answered s
    rw [bind_on] at done ⊢
    rcases ran : job.on s with ⟨_ | b, t⟩
    · rw [ran] at done answered
      exact answered done
    · rw [ran] at done answered here
      have more := (then_ b).later t
      exact (then_ b).answered t fun turn after before => done turn (here.trans after) before

theorem Answers.deleteBatch : Answers server (deleteBatch server size p) := by
  constructor
  · intro s
    unfold Job.on Batches.deleteBatch
    cases outcome : server.outcome s.turn <;> simp [OptionT.mk, OptionT.run, StateT.run, outcome]
  · intro s done
    unfold Job.on Batches.deleteBatch at done ⊢
    cases outcome : server.outcome s.turn with
    | done => simp [OptionT.mk, OptionT.run, StateT.run, outcome]
    | lost | refused =>
        have here := done s.turn (Nat.le_refl _)
        simp [OptionT.mk, OptionT.run, StateT.run, outcome] at here

omit [DecidableEq κ] in
theorem Answers.untilShort {runBatch : Job α Nat} (batch : Answers server runBatch) (passes total : Nat) :
    Answers server (untilShort size runBatch passes total) := by
  induction passes generalizing total with
  | zero => exact .pure
  | succ passes ih =>
      unfold Batches.untilShort
      refine batch.bind fun deleted => ?_
      split
      · exact .pure
      · exact ih (total + deleted)

/-- How a session with one condition ends that has deleted these. -/
structure Swept (p : α → Bool) (passes size total : Nat) (s : Progress α) (ran : Option Nat × Progress α)
    (gone : List κ) : Prop where
  takes : Takes p s.stock gone
  stock : ran.2.stock = s.stock.without gone
  turn : ran.2.turn ≤ s.turn + passes
  counted : ∀ n, ran.1 = some n → n = total + gone.length
  full : ran.1.isSome → gone.length = min (passes * size) (s.stock.candidates p).length

theorem deleteBatch_swept (server : Server κ) (size : Nat) (p : α → Bool) (s : Progress α) :
    ∃ gone, Swept p 1 size 0 s ((deleteBatch server size p).on s) gone := by
  have perm := server.perm s.turn (s.stock.candidates p)
  have taken : Takes p s.stock ((server.order s.turn (s.stock.candidates p)).take size) :=
    ⟨(perm.nodup_iff.mpr Stock.candidates_nodup).sublist (List.take_sublist _ _),
      fun k member => perm.mem_iff.mp (List.mem_of_mem_take member)⟩
  unfold Job.on deleteBatch
  cases outcome : server.outcome s.turn with
  | done =>
      refine ⟨_, taken, ?_, ?_, ?_, ?_⟩
      all_goals simp [OptionT.mk, OptionT.run, StateT.run, outcome, perm.length_eq]
  | lost =>
      refine ⟨_, taken, ?_, ?_, ?_, ?_⟩
      all_goals simp [OptionT.mk, OptionT.run, StateT.run, outcome]
  | refused =>
      refine ⟨[], Takes.nil, ?_, ?_, ?_, ?_⟩
      all_goals simp [OptionT.mk, OptionT.run, StateT.run, outcome]

/-- A full batch leaves as many passes for what is left. -/
theorem untilShort_swept (steady : Steady p) (passes total : Nat) (s : Progress α) :
    ∃ gone, Swept p passes size total s ((untilShort size (deleteBatch server size p) passes total).on s) gone := by
  induction passes generalizing total s with
  | zero => exact ⟨[], Takes.nil, by simp [untilShort], by simp [untilShort], by simp [untilShort], by simp⟩
  | succ passes ih =>
      obtain ⟨first, swept⟩ := deleteBatch_swept server size p s
      unfold untilShort
      rw [bind_on]
      rcases batch : (deleteBatch server size p).on s with ⟨_ | deleted, t⟩
      · rw [batch] at swept
        have turn := swept.turn
        exact ⟨first, swept.takes, swept.stock, by simp only at turn ⊢; omega, by simp, by simp⟩
      · rw [batch] at swept
        have turn : t.turn ≤ s.turn + 1 := swept.turn
        have counted : deleted = 0 + first.length := swept.counted deleted rfl
        have full : first.length = min (1 * size) (s.stock.candidates p).length := swept.full rfl
        have product : (passes + 1) * size = passes * size + size := Nat.succ_mul passes size
        by_cases short : deleted < size
        · simp only [short, if_true, pure_on]
          exact ⟨first, swept.takes, swept.stock, by simp only; omega, by simp; omega, by simp; omega⟩
        · simp only [short, if_false]
          obtain ⟨more, later⟩ := ih (total + deleted) t
          have stock : t.stock = s.stock.without first := swept.stock
          have left := swept.takes.length_left steady
          have takes := later.takes
          have moved := later.stock
          have turned := later.turn
          have filled := later.full
          rw [stock] at takes moved filled
          refine ⟨first ++ more, swept.takes.append steady takes, ?_, by omega, ?_, ?_⟩
          · rw [moved, Stock.without_without]
          · intro n answered
            rw [later.counted n answered, List.length_append]
            omega
          · intro answered
            rw [List.length_append, filled answered]
            omega

end Runs

end Kurul.Store.Batches
