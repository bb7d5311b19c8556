import Kurul.Retention.Backup
import Mathlib

/-! The grace period of the orphan sweep against the dumps that can still be restored. Dumps
are kept by count and files by time, so the two only agree while every cycle keeps to the
schedule; and a file ages from its last write, not from the loss of its row, so a dump covers it
for a shorter time, the older the file was when the dump was taken. -/
namespace Kurul.Backup

open Machine

variable {config : Config} {s next : Sidecar} {action : Action} {dump : Dump} {file : Stored} {budget : Int} {x y z : Nat}

/-- `keep` times this long is within the budget. -/
def Near (config : Config) (budget : Int) (x y : Nat) : Prop :=
  (config.keep : Int) * (((x : Int) - y) * 1000) ≤ budget

instance (config : Config) (budget : Int) (x y : Nat) : Decidable (Near config budget x y) :=
  inferInstanceAs (Decidable (_ ≤ _))

theorem grace_pos (config : Config) : 0 < orphanGraceMs config.schedule :=
  lt_of_lt_of_le (by decide) (le_max_right _ _)

theorem Near.refl (config : Config) (positive : 0 ≤ budget) (x : Nat) : Near config budget x x := by
  simpa [Near] using positive

theorem Near.mono {x' y' : Nat} (near : Near config budget x y) (earlier : x' ≤ x) (later : y ≤ y') :
    Near config budget x' y' := by
  refine le_trans ?_ near
  apply mul_le_mul_of_nonneg_left _ (Int.natCast_nonneg _)
  omega

/-- How old a dump may get before the sweep may remove a file of its own: the grace period less the age that the
file had when the dump was started. -/
def lead (config : Config) (dump : Dump) (file : Stored) : Int :=
  orphanGraceMs config.schedule - ((dump.started : Int) - file.modifiedAt) * 1000

namespace Sidecar

/-- The oldest dumps on disk, as many as are kept; newer ones no prune has counted yet. -/
def counted (config : Config) (s : Sidecar) : List Dump :=
  (listing s.dumps).drop ((listing s.dumps).length - config.keep)

/-- The dump that is being taken, were it done now. -/
def underWay (s : Sidecar) : List Dump :=
  match s.phase with
  | .dumping stamp refs => [⟨stamp, s.now, refs⟩]
  | _ => []

/-- Time passes only while the newest counted dump and the running one are recent. -/
def OnSchedule (config : Config) (budget : Int) (s : Sidecar) : Action → Prop
  | .pass seconds =>
      (∀ dump ∈ (s.counted config).head?, Near config budget (s.now + seconds) dump.started) ∧
      ∀ dump ∈ s.underWay, Near config budget (s.now + seconds) dump.started
  | _ => True

instance (config : Config) (budget : Int) (s : Sidecar) : (action : Action) → Decidable (s.OnSchedule config budget action)
  | .pass _ => inferInstanceAs (Decidable (_ ∧ _))
  | .stamped | .dumped _ | .archived _ | .pushed | .woke | .stop | .start | .caughtUp _ | .store _ | .deleteRow _ =>
      inferInstanceAs (Decidable True)

/-- A kept dump is not older than its lead over a file whose row is gone: where time passes, where a row goes, and
where a dump is done. -/
def InTime (config : Config) (s : Sidecar) : Action → Prop
  | .pass seconds => ∀ dump ∈ s.dumps, ∀ file ∈ dump.refs, file ∉ s.rows →
      (((s.now + seconds : Nat) : Int) - dump.started) * 1000 ≤ lead config dump file
  | .deleteRow key => ∀ dump ∈ s.dumps, ∀ file ∈ dump.refs, file.key = key →
      ((s.now : Int) - dump.started) * 1000 ≤ lead config dump file
  | .dumped true => ∀ dump ∈ s.underWay, ∀ file ∈ dump.refs, file ∉ s.rows →
      ((s.now : Int) - dump.started) * 1000 ≤ lead config dump file
  | _ => True

instance (config : Config) (s : Sidecar) : (action : Action) → Decidable (s.InTime config action)
  | .pass _ => inferInstanceAs (Decidable (∀ dump ∈ s.dumps, _))
  | .deleteRow _ => inferInstanceAs (Decidable (∀ dump ∈ s.dumps, _))
  | .dumped true => inferInstanceAs (Decidable (∀ dump ∈ s.underWay, _))
  | .stamped | .dumped false | .archived _ | .pushed | .woke | .stop | .start | .caughtUp _ | .store _ =>
      inferInstanceAs (Decidable True)

/-- Rows are deleted only of files that no dump refers to, or that are younger than the grace period by a dump's life. -/
def LosesYoung (config : Config) (life : Int) (s : Sidecar) : Action → Prop
  | .deleteRow key => ∀ dump ∈ s.dumps ++ s.underWay, ∀ file ∈ dump.refs, file.key = key →
      ((s.now : Int) - file.modifiedAt) * 1000 + life ≤ orphanGraceMs config.schedule
  | _ => True

instance (config : Config) (life : Int) (s : Sidecar) : (action : Action) → Decidable (s.LosesYoung config life action)
  | .deleteRow _ => inferInstanceAs (Decidable (∀ dump ∈ s.dumps ++ s.underWay, _))
  | .pass _ | .stamped | .dumped _ | .archived _ | .pushed | .woke | .stop | .start | .caughtUp _ | .store _ =>
      inferInstanceAs (Decidable True)

/-- An action that leaves the clock, the rows and the running dump to others. -/
def Idle : Action → Prop
  | .pass _ | .stamped | .dumped true | .store _ | .deleteRow _ => False
  | _ => True

theorem boot_idle (stamp : Nat) (refs : List Stored) : s.boot config ≠ .dumping stamp refs := by
  simp only [boot]
  split
  · simp
  · split <;> simp

theorem mem_underWay : dump ∈ s.underWay ↔ s.phase = .dumping dump.started dump.refs ∧ dump.mtime = s.now := by
  obtain ⟨started, mtime, refs⟩ := dump
  unfold underWay
  cases s.phase <;> simp
  tauto

/-- All that a step does: of the idle ones, all but the archives and the phase. -/
theorem step_cases (stepped : s.step config action = some next) :
    (∃ seconds, action = .pass seconds ∧ next = { s with now := s.now + seconds }) ∨
    (∃ key, action = .store key ∧ next = { s with rows := ⟨key, s.now⟩ :: s.rows }) ∨
    (∃ key, action = .deleteRow key ∧ next = { s with rows := s.rows.filter (·.key ≠ key) }) ∨
    (action = .stamped ∧ s.free s.now = true ∧ next = { s with phase := .dumping s.now s.rows }) ∨
    (∃ dump, action = .dumped true ∧ s.underWay = [dump] ∧
      next = { s with dumps := dump :: s.dumps, phase := .archiving dump.started }) ∨
    (Idle action ∧ next.now = s.now ∧ next.rows = s.rows ∧ next.underWay = [] ∧
      (next.dumps = s.dumps ∨ next.dumps = prune config.keep s.dumps)) := by
  cases action with
  | pass seconds =>
      left
      simp only [step] at stepped
      split at stepped
      · obtain ⟨_, same⟩ := Option.ite_none_right_eq_some.mp stepped
        exact ⟨seconds, rfl, (Option.some.inj same).symm⟩
      · exact ⟨seconds, rfl, (Option.some.inj stepped).symm⟩
  | store key => exact .inr (.inl ⟨key, rfl, (Option.some.inj stepped).symm⟩)
  | deleteRow key => exact .inr (.inr (.inl ⟨key, rfl, (Option.some.inj stepped).symm⟩))
  | stamped =>
      simp only [step] at stepped
      split at stepped
      · obtain ⟨free, same⟩ := Option.ite_none_right_eq_some.mp stepped
        exact .inr (.inr (.inr (.inl ⟨rfl, free, (Option.some.inj same).symm⟩)))
      · contradiction
  | dumped ok =>
      simp only [step] at stepped
      split at stepped
      · rename_i stamp refs here
        cases ok with
        | true =>
            refine .inr (.inr (.inr (.inr (.inl ⟨⟨stamp, s.now, refs⟩, rfl, ?_, (Option.some.inj stepped).symm⟩))))
            rw [underWay, here]
        | false =>
            cases stepped
            exact .inr (.inr (.inr (.inr (.inr ⟨trivial, rfl, rfl, rfl, .inl rfl⟩))))
      · contradiction
  | archived ok =>
      simp only [step] at stepped
      split at stepped
      · cases stepped
        exact .inr (.inr (.inr (.inr (.inr ⟨trivial, rfl, rfl, rfl, .inr rfl⟩))))
      · contradiction
  | pushed =>
      simp only [step] at stepped
      split at stepped
      · cases stepped
        exact .inr (.inr (.inr (.inr (.inr ⟨trivial, rfl, rfl, rfl, .inl rfl⟩))))
      · contradiction
  | woke =>
      simp only [step] at stepped
      split at stepped
      · obtain ⟨_, same⟩ := Option.ite_none_right_eq_some.mp stepped
        cases same
        exact .inr (.inr (.inr (.inr (.inr ⟨trivial, rfl, rfl, rfl, .inl rfl⟩))))
      · contradiction
  | stop =>
      cases stepped
      exact .inr (.inr (.inr (.inr (.inr ⟨trivial, rfl, rfl, rfl, .inl rfl⟩))))
  | start =>
      simp only [step] at stepped
      split at stepped
      · cases stepped
        refine .inr (.inr (.inr (.inr (.inr ⟨trivial, rfl, rfl, ?_, .inl rfl⟩))))
        rw [List.eq_nil_iff_forall_not_mem]
        exact fun dump member => boot_idle _ _ (mem_underWay.mp member).1
      · contradiction
  | caughtUp archived =>
      simp only [step] at stepped
      split at stepped
      · cases stepped
        exact .inr (.inr (.inr (.inr (.inr ⟨trivial, rfl, rfl, rfl, .inr rfl⟩))))
      · contradiction

theorem mem_prune {keep : Nat} {dumps : List Dump} (member : dump ∈ prune keep dumps) : dump ∈ dumps :=
  (List.mem_insertionSort _).mp (List.mem_of_mem_take member)

/-- Dumps newest first, none longer after the one before it than the schedule says. -/
structure Spaced (config : Config) (budget : Int) (s : Sidecar) : Prop where
  sorted : s.dumps.Pairwise fun a b => b.started < a.started
  past : ∀ dump ∈ s.dumps, dump.started ≤ s.now
  gaps : s.dumps.IsChain fun a b => Near config budget a.started b.started
  fresh : ∀ dump ∈ (s.dumps.drop (s.dumps.length - config.keep)).head?, Near config budget s.now dump.started
  running : ∀ dump ∈ s.underWay,
    dump.started ≤ s.now ∧ (∀ old ∈ s.dumps, old.started < dump.started) ∧ Near config budget s.now dump.started

namespace Spaced

theorem listing_eq (spaced : Spaced config budget s) : listing s.dumps = s.dumps :=
  List.Pairwise.insertionSort_eq (spaced.sorted.imp fun later => later.le)

/-- The newest dump is as recent as the newest counted one. -/
theorem newest (spaced : Spaced config budget s) (keep : 1 ≤ config.keep) (head : s.dumps.head? = some dump) :
    Near config budget s.now dump.started := by
  obtain ⟨rest, shape⟩ : ∃ rest, s.dumps = dump :: rest := by
    cases dumps : s.dumps with
    | nil => simp [dumps] at head
    | cons first rest =>
        rw [dumps] at head
        cases head
        exact ⟨rest, rfl⟩
  have nonempty : s.dumps.drop (s.dumps.length - config.keep) ≠ [] := by
    rw [Ne, List.drop_eq_nil_iff, shape, List.length_cons]
    omega
  obtain ⟨other, first⟩ : ∃ other, (s.dumps.drop (s.dumps.length - config.keep)).head? = some other :=
    ⟨_, List.head?_eq_some_head nonempty⟩
  apply (spaced.fresh other first).mono (Nat.le_refl _)
  have member : other ∈ dump :: rest := shape ▸ List.mem_of_mem_drop (List.mem_of_mem_head? first)
  have order := shape ▸ spaced.sorted
  rcases List.mem_cons.mp member with rfl | later
  · exact Nat.le_refl _
  · exact (List.rel_of_pairwise_cons order later).le

theorem prune_eq (spaced : Spaced config budget s) : prune config.keep s.dumps = s.dumps.take config.keep := by
  rw [prune, spaced.listing_eq]

/-- What a prune leaves. -/
theorem pruned (spaced : Spaced config budget s) (keep : 1 ≤ config.keep) (now : next.now = s.now)
    (idle : next.underWay = []) (pruned : next.dumps = prune config.keep s.dumps) : Spaced config budget next := by
  rw [spaced.prune_eq] at pruned
  constructor
  · rw [pruned]
    exact spaced.sorted.sublist (List.take_sublist _ _)
  · rw [pruned, now]
    exact fun dump member => spaced.past dump (List.mem_of_mem_take member)
  · rw [pruned]
    exact spaced.gaps.take _
  · rw [pruned, now]
    intro dump head
    have few : (s.dumps.take config.keep).length - config.keep = 0 := by
      rw [List.length_take]
      omega
    rw [few, List.drop_zero, List.head?_take] at head
    exact spaced.newest keep (by simpa [show config.keep ≠ 0 by omega] using head)
  · rw [idle]
    simp

/-- A dump is done. -/
theorem dumped (spaced : Spaced config budget s) (keep : 1 ≤ config.keep) (here : s.underWay = [dump]) :
    Spaced config budget { s with dumps := dump :: s.dumps, phase := .archiving dump.started } := by
  obtain ⟨begun, newer, near⟩ := spaced.running dump (by simp [here])
  constructor
  · exact List.pairwise_cons.mpr ⟨newer, spaced.sorted⟩
  · intro other member
    rcases List.mem_cons.mp member with rfl | old
    · exact begun
    · exact spaced.past other old
  · refine List.isChain_cons.mpr ⟨?_, spaced.gaps⟩
    intro first head
    exact (spaced.newest keep head).mono begun (Nat.le_refl _)
  · intro other head
    simp only [List.length_cons] at head
    by_cases few : s.dumps.length + 1 ≤ config.keep
    · rw [Nat.sub_eq_zero_of_le few, List.drop_zero] at head
      cases head
      exact near
    · rw [show s.dumps.length + 1 - config.keep = (s.dumps.length - config.keep) + 1 by omega,
        List.drop_succ_cons] at head
      exact spaced.fresh other head
  · simp [underWay]

theorem pass (spaced : Spaced config budget s) {seconds : Nat} (scheduled : s.OnSchedule config budget (.pass seconds)) :
    Spaced config budget { s with now := s.now + seconds } where
  sorted := spaced.sorted
  past dump member := (spaced.past dump member).trans (Nat.le_add_right _ _)
  gaps := spaced.gaps
  fresh dump head := by
    apply scheduled.1 dump
    rw [counted, spaced.listing_eq]
    exact head
  running dump member := by
    have here : (⟨dump.started, s.now, dump.refs⟩ : Dump) ∈ s.underWay := mem_underWay.mpr ⟨(mem_underWay.mp member).1, rfl⟩
    obtain ⟨begun, newer, _⟩ := spaced.running _ here
    have recent := scheduled.2 _ here
    exact ⟨begun.trans (Nat.le_add_right _ _), newer, recent⟩

/-- Every command of the script keeps the dumps spaced. -/
theorem step (spaced : Spaced config budget s) (positive : 0 ≤ budget) (keep : 1 ≤ config.keep)
    (scheduled : s.OnSchedule config budget action) (stepped : s.step config action = some next) :
    Spaced config budget next := by
  rcases step_cases stepped with ⟨seconds, rfl, rfl⟩ | ⟨key, rfl, rfl⟩ | ⟨key, rfl, rfl⟩ | ⟨rfl, free, rfl⟩ |
    ⟨dump, rfl, here, rfl⟩ | ⟨_, now, _, idle, dumps⟩
  · exact spaced.pass scheduled
  · exact { spaced with }
  · exact { spaced with }
  · refine ⟨spaced.sorted, spaced.past, spaced.gaps, spaced.fresh, ?_⟩
    intro dump member
    obtain ⟨started, _⟩ := mem_underWay.mp member
    injection started with started
    rw [← started]
    refine ⟨Nat.le_refl _, fun old member => ?_, .refl config positive s.now⟩
    have apart : old.started ≠ s.now := by
      simp only [Sidecar.free, Bool.and_eq_true, List.all_eq_true, decide_eq_true_eq] at free
      exact free.1 old member
    exact lt_of_le_of_ne (spaced.past old member) apart
  · exact spaced.dumped keep here
  · rcases dumps with same | pruned
    · refine ⟨same ▸ spaced.sorted, ?_, same ▸ spaced.gaps, ?_, by simp [idle]⟩
      · rw [same, now]
        exact spaced.past
      · rw [same, now]
        exact spaced.fresh
    · exact spaced.pruned keep now idle pruned

/-- Down a chain of spaced dumps every one adds a step of the schedule at most. -/
theorem near_chain {first : Dump} {rest : List Dump} {m : Int} (positive : 0 ≤ budget)
    (chain : (first :: rest).IsChain fun a b => Near config budget a.started b.started)
    (near : (config.keep : Int) * (((x : Int) - first.started) * 1000) ≤ m * budget) :
    ∀ dump ∈ first :: rest, (config.keep : Int) * (((x : Int) - dump.started) * 1000) ≤
      (m + rest.length) * budget := by
  induction rest generalizing first m with
  | nil =>
      intro dump member
      cases List.mem_singleton.mp member
      simpa using near
  | cons second later ih =>
      obtain ⟨gap, chain⟩ := List.isChain_cons_cons.mp chain
      intro dump member
      rcases List.mem_cons.mp member with rfl | member
      · refine near.trans (mul_le_mul_of_nonneg_right ?_ positive)
        rw [List.length_cons]
        omega
      · have further : (config.keep : Int) * (((x : Int) - second.started) * 1000) ≤
            (m + 1) * budget := by
          simp only [Near] at gap
          nlinarith
        have reached := ih chain further dump member
        rw [List.length_cons]
        push_cast
        linarith

/-- Spaced dumps are all within the budget. -/
theorem within (spaced : Spaced config budget s) (positive : 0 ≤ budget) (keep : 1 ≤ config.keep)
    (member : dump ∈ s.dumps) :
    ((s.now : Int) - dump.started) * 1000 ≤ budget := by
  have bound : (config.keep : Int) * (((s.now : Int) - dump.started) * 1000) ≤
      config.keep * budget := by
    cases shape : s.dumps.drop (s.dumps.length - config.keep) with
    | nil =>
        rw [List.drop_eq_nil_iff] at shape
        have : 0 < s.dumps.length := List.length_pos_of_mem member
        omega
    | cons first rest =>
        have near : Near config budget s.now first.started := spaced.fresh first (by rw [shape]; rfl)
        have whole := List.take_append_drop (s.dumps.length - config.keep) s.dumps
        rw [shape] at whole
        rw [← whole] at member
        rcases List.mem_append.mp member with newer | old
        · have order := spaced.sorted
          rw [← whole] at order
          have later := (List.pairwise_append.mp order).2.2 dump newer first List.mem_cons_self
          refine (near.mono (Nat.le_refl _) later.le).trans ?_
          nlinarith
        · have chain := spaced.gaps.drop (s.dumps.length - config.keep)
          rw [shape] at chain
          have reached := near_chain (m := 1) positive chain (by rw [one_mul]; exact near) dump old
          have few : rest.length + 1 ≤ config.keep := by
            have length := congrArg List.length shape
            simp only [List.length_drop, List.length_cons] at length
            omega
          refine reached.trans (mul_le_mul_of_nonneg_right ?_ positive)
          omega
  exact le_of_mul_le_mul_left bound (by omega)

end Spaced

/-- Within its lead, a dump has no file that the sweep may remove. -/
theorem eligible_iff : s.Eligible config file ↔
    file ∉ s.rows ∧ ¬ ((s.now : Int) - dump.started) * 1000 ≤ lead config dump file := by
  unfold Eligible lead
  constructor
  · exact fun ⟨gone, old⟩ => ⟨gone, by omega⟩
  · exact fun ⟨gone, old⟩ => ⟨gone, by omega⟩

theorem spared_iff : s.Spared config ↔ ∀ dump ∈ s.dumps, ∀ file ∈ dump.refs, file ∉ s.rows →
    ((s.now : Int) - dump.started) * 1000 ≤ lead config dump file := by
  refine forall₂_congr fun dump _ => forall₂_congr fun file _ => ?_
  rw [@eligible_iff config s dump file, not_and, not_not]

theorem inTime_of_idle (idle : Idle action) : s.InTime config action := by
  cases action with
  | pass _ | deleteRow _ => cases idle
  | dumped ok =>
      cases ok with
      | true => cases idle
      | false => trivial
  | _ => trivial

/-- From a state in which the files are spared, they stay so exactly where the dumps keep their lead. -/
theorem spared_step (spared : s.Spared config) (stepped : s.step config action = some next) :
    next.Spared config ↔ s.InTime config action := by
  rw [spared_iff] at spared ⊢
  rcases step_cases stepped with ⟨seconds, rfl, rfl⟩ | ⟨key, rfl, rfl⟩ | ⟨key, rfl, rfl⟩ | ⟨rfl, free, rfl⟩ |
    ⟨dump, rfl, here, rfl⟩ | ⟨idle, now, rows, _, dumps⟩
  · exact Iff.rfl
  · refine ⟨fun _ => trivial, fun _ dump member file listed gone => ?_⟩
    exact spared dump member file listed fun row => gone (List.mem_cons_of_mem _ row)
  · constructor
    · intro kept dump member file listed named
      refine kept dump member file listed ?_
      simp [List.mem_filter, named]
    · intro inTime dump member file listed gone
      by_cases named : file.key = key
      · exact inTime dump member file listed named
      · exact spared dump member file listed fun row => gone (List.mem_filter.mpr ⟨row, by simpa using named⟩)
  · exact ⟨fun _ => trivial, fun _ => spared⟩
  · constructor
    · intro kept other member
      rw [here, List.mem_singleton] at member
      exact member ▸ kept dump List.mem_cons_self
    · intro inTime other member
      rcases List.mem_cons.mp member with rfl | old
      · exact inTime other (by simp [here])
      · exact spared other old
  · refine ⟨fun _ => inTime_of_idle idle, fun _ dump member => ?_⟩
    rw [now, rows]
    rcases dumps with same | pruned
    · exact spared dump (same ▸ member)
    · exact spared dump (mem_prune (pruned ▸ member))

/-- Every file that a dump refers to has its row, or the dump has at least this lead over it. -/
def Leads (config : Config) (life : Int) (s : Sidecar) : Prop :=
  ∀ dump ∈ s.dumps ++ s.underWay, ∀ file ∈ dump.refs, file ∈ s.rows ∨ life ≤ lead config dump file

/-- A row that goes takes its file while it is young, and no later dump refers to it. -/
theorem Leads.step {life : Int} (leads : Leads config life s) (spaced : Spaced config budget s)
    (young : s.LosesYoung config life action) (stepped : s.step config action = some next) : Leads config life next := by
  rcases step_cases stepped with ⟨seconds, rfl, rfl⟩ | ⟨key, rfl, rfl⟩ | ⟨key, rfl, rfl⟩ | ⟨rfl, free, rfl⟩ |
    ⟨dump, rfl, here, rfl⟩ | ⟨idle, now, rows, running, dumps⟩
  · intro dump member
    rcases List.mem_append.mp member with kept | running
    · exact leads dump (List.mem_append_left _ kept)
    · have here : (⟨dump.started, s.now, dump.refs⟩ : Dump) ∈ s.underWay :=
        mem_underWay.mpr ⟨(mem_underWay.mp running).1, rfl⟩
      exact leads ⟨dump.started, s.now, dump.refs⟩ (List.mem_append_right _ here)
  · exact fun dump member file listed => (leads dump member file listed).imp_left (List.mem_cons_of_mem _)
  · intro dump member file listed
    by_cases named : file.key = key
    · right
      have begun : dump.started ≤ s.now :=
        (List.mem_append.mp member).elim (spaced.past dump) fun running => (spaced.running dump running).1
      have spare := young dump member file listed named
      unfold lead
      omega
    · exact (leads dump member file listed).imp_left fun row => List.mem_filter.mpr ⟨row, by simpa using named⟩
  · intro dump member file listed
    rcases List.mem_append.mp member with kept | running
    · exact leads dump (List.mem_append_left _ kept) file listed
    · obtain ⟨started, _⟩ := mem_underWay.mp running
      injection started with _ refs
      exact .inl (refs ▸ listed)
  · intro other member
    have done : other ∈ dump :: s.dumps := by simpa [underWay] using member
    refine leads other ?_
    rw [here]
    simpa [or_comm] using done
  · intro dump member
    rw [running, List.append_nil] at member
    rw [rows]
    refine leads dump (List.mem_append_left _ ?_)
    rcases dumps with same | pruned
    · exact same ▸ member
    · exact mem_prune (pruned ▸ member)

theorem Leads.spared {life : Int} (leads : Leads config life s)
    (within : ∀ dump ∈ s.dumps, ((s.now : Int) - dump.started) * 1000 ≤ life) :
    s.Spared config := by
  rw [spared_iff]
  intro dump member file listed gone
  rcases leads dump (List.mem_append_left _ member) file listed with row | ahead
  · exact absurd row gone
  · exact (within dump member).trans ahead

end Sidecar

/-- While the cycles keep to the schedule, every kept dump is within the grace period. No kept dump has a file that the
sweep may remove exactly while the dumps keep their lead over the files whose rows are gone; and where no dump lives longer
than it may, it is enough that rows are deleted of young files only. -/
theorem grace_covers_kept_dumps (config : Config) (keep : 1 ≤ config.keep) (now : Nat)
    (rows : List Stored) (actions : List Action) (t : Sidecar)
    (ran : run (Sidecar.step config) { now, rows } actions = some t) :
    (Meets (Sidecar.step config) (Sidecar.OnSchedule config (orphanGraceMs config.schedule)) { now, rows } actions →
      Always (Sidecar.step config) (Sidecar.Covered config) { now, rows } actions) ∧
    (Always (Sidecar.step config) (Sidecar.Spared config) { now, rows } actions ↔
      Meets (Sidecar.step config) (Sidecar.InTime config) { now, rows } actions) ∧
    ∀ life : Nat, Meets (Sidecar.step config) (Sidecar.OnSchedule config life) { now, rows } actions →
      Meets (Sidecar.step config) (Sidecar.LosesYoung config life) { now, rows } actions →
      Always (Sidecar.step config) (Sidecar.Spared config) { now, rows } actions := by
  have start (budget : Int) : Sidecar.Spaced config budget { now, rows } :=
    ⟨by simp, by simp, by simp, by simp, by simp [Sidecar.underWay]⟩
  refine ⟨fun scheduled => ?_, ?_, fun life scheduled young => ?_⟩
  · have positive := (grace_pos config).le
    exact always_of_meets (fun _ _ _ spaced scheduled stepped => Sidecar.Spaced.step spaced positive keep scheduled stepped)
      (fun _ spaced _ member => spaced.within positive keep member) (start _) scheduled
  · exact always_iff_meets (I := fun _ => True) (fun _ _ _ _ _ => trivial)
      (fun _ _ _ _ spared stepped => Sidecar.spared_step spared stepped) trivial (by simp [Sidecar.Spared]) ran
  · have positive := Int.natCast_nonneg life
    refine always_of_meets (I := fun s => Sidecar.Spaced config life s ∧ Sidecar.Leads config life s) ?_ ?_
      ⟨start life, by simp [Sidecar.Leads, Sidecar.underWay]⟩ (scheduled.and young)
    · rintro s action next ⟨spaced, leads⟩ ⟨onTime, young⟩ stepped
      exact ⟨spaced.step positive keep onTime stepped, leads.step spaced young stepped⟩
    · rintro s ⟨spaced, leads⟩
      exact leads.spared fun dump member => spaced.within positive keep member

/-- A cycle whose dump takes this long. -/
def cycle (seconds : Nat) : List Action := [.stamped, .pass seconds, .dumped true, .archived true, .pushed]

/-- One dump a day, and the last one kept. -/
def daily : Config := { keep := 1 }

/-- A dump of one second, and the sleep after it. -/
def firstDay : List Action := .start :: cycle 1 ++ [.pass 86400]

/-- A file is stored eight days before the dump that knows it, and loses its row on the next. -/
def oldFile : List Action := [.store "f", .pass 691200, .start] ++ cycle 0 ++ [.pass 3600, .deleteRow "f"]

theorem kept_dump_uncovered :
    (∃ t, run (Sidecar.step daily) { now := 0, rows := [] } firstDay = some t ∧ ¬ t.Covered daily) ∧
      ∃ t, run (Sidecar.step {}) { now := 0, rows := [] } oldFile = some t ∧ ¬ t.Spared {} := by
  have late : ((run (Sidecar.step daily) { now := 0, rows := [] } firstDay).map fun t => decide (t.Covered daily)) =
      some false := by decide +kernel
  have gone : ((run (Sidecar.step {}) { now := 0, rows := [] } oldFile).map fun t => decide (t.Spared {})) =
      some false := by decide +kernel
  constructor
  · obtain ⟨t, ran, uncovered⟩ := Option.map_eq_some_iff.mp late
    exact ⟨t, ran, of_decide_eq_false uncovered⟩
  · obtain ⟨t, ran, swept⟩ := Option.map_eq_some_iff.mp gone
    exact ⟨t, ran, of_decide_eq_false swept⟩

/-- Hourly dumps, where the floor of the grace period leaves room. -/
def hourly : Config := { interval := 3600 }

/-- A file is stored and known to a dump, and loses its row an hour later; the dump is still kept after a restart. -/
def threeHours : List Action :=
  [.store "f", .start] ++ cycle 60 ++ [.pass 3600, .woke] ++ cycle 60 ++ [.deleteRow "f", .stop, .pass 1200, .start,
    .caughtUp true, .pass 2400, .woke] ++ cycle 60

/-- No dump lives longer than this while seven hourly ones are kept. -/
def dumpLife : Nat := 7 * 3720 * 1000

theorem kept_dumps_covered_hourly :
    ∃ t, run (Sidecar.step hourly) { now := 0, rows := [] } threeHours = some t ∧
      (∃ dump ∈ t.dumps, ∃ file ∈ dump.refs, file ∉ t.rows) ∧ t.Covered hourly ∧ t.Spared hourly := by
  have ran : ((run (Sidecar.step hourly) { now := 0, rows := [] } threeHours).map fun t =>
      decide (∃ dump ∈ t.dumps, ∃ file ∈ dump.refs, file ∉ t.rows)) = some true := by
    decide +kernel
  obtain ⟨t, ran, known⟩ := Option.map_eq_some_iff.mp ran
  have meets (P : Sidecar → Action → Prop) [∀ s action, Decidable (P s action)]
      (checked : checks (Sidecar.step hourly) (fun s action => decide (P s action)) { now := 0, rows := [] } threeHours = true) :
      Meets (Sidecar.step hourly) P { now := 0, rows := [] } threeHours :=
    meets_of_checks _ (fun _ _ passed => of_decide_eq_true passed) checked
  obtain ⟨covered, spared, young⟩ := grace_covers_kept_dumps hourly (by decide) 0 [] threeHours t ran
  have always := spared.mpr (meets (Sidecar.InTime hourly) (by decide +kernel))
  have again := young dumpLife (meets (Sidecar.OnSchedule hourly dumpLife) (by decide +kernel))
    (meets (Sidecar.LosesYoung hourly dumpLife) (by decide +kernel))
  exact ⟨t, ran, of_decide_eq_true known,
    always_last (covered (meets (Sidecar.OnSchedule hourly (orphanGraceMs hourly.schedule)) (by decide +kernel))) ran,
    always_last again ran⟩

end Kurul.Backup
