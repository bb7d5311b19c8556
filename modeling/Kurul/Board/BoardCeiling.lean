import Kurul.Board.BoardService
import Kurul.Cascade
import Kurul.Import.TrelloImportService
import Kurul.Store.Metering

/-! The board ceiling of a workspace under interleaved creations, imports and deletions. Only
an admission by the count lets a commit bring one board more. -/
namespace Kurul

open Store Prog

def boards (workspaceId : Id) (rows : List Row) : Nat :=
  (table rows : List Board).countP (·.workspaceId = workspaceId)

def boardWeight (workspaceId : Id) : Row → Nat
  | .board board => if board.workspaceId = workspaceId then 1 else 0
  | _ => 0

theorem boards_eq_total (workspaceId : Id) (rows : List Row) :
    boards workspaceId rows = total (boardWeight workspaceId) rows := by
  induction rows with
  | nil => rfl
  | cons row rest ih =>
      rw [total_cons, ← ih]
      cases row with
      | board board =>
          simp only [boards, boardWeight, table, ofRow, List.filterMap_cons, List.countP_cons,
            decide_eq_true_eq]
          omega
      | _ => simp [boards, boardWeight, table, ofRow]

/-- The boards of a workspace with a ceiling of `L`. -/
def boardGauge (config : PlanConfig) (workspaceId : Id) (L : Nat) : Gauge Row Key where
  weight := boardWeight workspaceId
  quota := L
  inv rows := UniqueKeys rows ∧ (PlanLimitsService.limitsOf config workspaceId rows).boards = some L
  quiet write := write.Elsewhere Workspace
  unique inv := inv.1
  keeps inv quiet := ⟨inv.1.applyAll _, by rw [PlanLimitsService.limitsOf_elsewhere quiet]; exact inv.2⟩

inductive BoardRequest where
  | create (actorId : Id) (dto : CreateBoardDto) (negotiated : Option Locale)
  | importBoard (actorId : Id) (read : Except Error TrelloExport)
  | remove (boardId actorId : Id)

namespace BoardRequest

variable (config : PlanConfig) (limits : TrelloImportConfig) (workspaceId : Id)

def service : BoardRequest → Service Unit
  | .create actorId dto negotiated => do
      let _ ← BoardService.create config workspaceId actorId dto negotiated
  | .importBoard actorId read => do
      let _ ← TrelloImportService.importBoard config limits workspaceId actorId read
  | .remove boardId actorId => BoardService.remove workspaceId boardId actorId

/-- What a call is left with once its count of the boards is answered. -/
def Counted (call : BoardRequest) (q : Service Unit) : Prop :=
  ∃ (next : Except Error Nat → Service Unit) (current : Nat),
    (call.service config limits workspaceId).Leads (.statement
      (.count fun _ (board : Board) => board.workspaceId = workspaceId) next) ∧
    (next (.ok current)).Leads q

/-- A creation or an import between its count and its commit. -/
def Creating (call : BoardRequest) (q : Service Unit) : Prop :=
  Gauge.Underway (call.Counted config limits workspaceId) q

end BoardRequest

section Metering

variable {config : PlanConfig} {limits : TrelloImportConfig} {workspaceId : Id} {L : Nat} {claim : Bool}
  {W : List (Write Row Key)}

/-- The write brings no board and does not touch a workspace. -/
structure Aside (workspaceId : Id) (write : Write Row Key) : Prop where
  weightless : write.adds (boardWeight workspaceId) = 0
  elsewhere : write.Elsewhere Workspace

/-- What a transaction may commit. -/
structure Payable (workspaceId : Id) (claim : Bool) (W : List (Write Row Key)) : Prop where
  elsewhere : ∀ write ∈ W, write.Elsewhere Workspace
  weighs : (W.map (Write.adds (boardWeight workspaceId))).sum ≤ claim.toNat

theorem Payable.more {writes : List (Write Row Key)} (payable : Payable workspaceId claim W)
    (aside : ∀ write ∈ writes, Aside workspaceId write) : Payable workspaceId claim (W ++ writes) := by
  have none_ : (writes.map (Write.adds (boardWeight workspaceId))).sum = 0 := by
    apply List.sum_eq_zero
    simp only [List.mem_map, forall_exists_index, and_imp]
    rintro _ write member rfl
    exact (aside write member).weightless
  constructor
  · intro write member
    rcases List.mem_append.mp member with old | new
    · exact payable.elsewhere write old
    · exact (aside write new).elsewhere
  · rw [List.map_append, List.sum_append, none_]
    exact payable.weighs

theorem payable_nil : Payable workspaceId claim [] := ⟨by simp, by simp⟩

/-- The rows of the table are neither boards nor workspaces. -/
def Besides (α : Type) [Entity Row α] : Prop :=
  ∀ (workspaceId : Id) (a : α), Aside workspaceId (.put (toRow a))

theorem besides_column : Besides Column :=
  fun _ _ => ⟨rfl, by simp [Write.Elsewhere, Write.target, key, toRow, Row.key]⟩

theorem besides_label : Besides Label :=
  fun _ _ => ⟨rfl, by simp [Write.Elsewhere, Write.target, key, toRow, Row.key]⟩

theorem besides_task : Besides Task :=
  fun _ _ => ⟨rfl, by simp [Write.Elsewhere, Write.target, key, toRow, Row.key]⟩

theorem besides_taskLabel : Besides TaskLabel :=
  fun _ _ => ⟨rfl, by simp [Write.Elsewhere, Write.target, key, toRow, Row.key]⟩

theorem besides_checklist : Besides Checklist :=
  fun _ _ => ⟨rfl, by simp [Write.Elsewhere, Write.target, key, toRow, Row.key]⟩

theorem besides_checklistItem : Besides ChecklistItem :=
  fun _ _ => ⟨rfl, by simp [Write.Elsewhere, Write.target, key, toRow, Row.key]⟩

theorem besides_attachment : Besides Attachment :=
  fun _ _ => ⟨rfl, by simp [Write.Elsewhere, Write.target, key, toRow, Row.key]⟩

theorem besides_activity : Besides Activity :=
  fun _ _ => ⟨rfl, by simp [Write.Elsewhere, Write.target, key, toRow, Row.key]⟩

variable {flying : Prog Row Key Event Input Error α → Prop}

/-- A statement of a transaction that leaves it payable. -/
theorem metered_query {exec : Statement Row Key Error α} (payable : Payable workspaceId claim W)
    (aside : ∀ rows o, exec rows = .ok o → ∀ write ∈ o.writes, Aside workspaceId write) :
    (boardGauge config workspaceId L).Metered flying (fun _ => Payable workspaceId) (fun _ _ _ => True)
      (query exec) claim W :=
  .query (fun _ => trivial) fun _ _ o ran => payable.more (aside _ o ran)

theorem metered_createMany {flying : Service Nat → Prop} {β : Type} [Entity Row β] (besides : Besides β)
    (items : List β) (payable : Payable workspaceId claim W) :
    (boardGauge config workspaceId L).Metered flying (fun _ => Payable workspaceId) (fun _ _ _ => True)
      (query (.createMany items)) claim W := by
  apply metered_query payable
  intro rows o ran write member
  obtain ⟨stored, _, _, written, _⟩ := Statement.createMany_ok ran
  rw [written] at member
  obtain ⟨a, _, rfl⟩ := List.mem_map.mp member
  exact besides workspaceId a

theorem metered_record {flying : Service Activity → Prop} (input : ActivityService.RecordActivityInput)
    (payable : Payable workspaceId claim W) :
    (boardGauge config workspaceId L).Metered flying (fun _ => Payable workspaceId) (fun _ _ _ => True)
      (ActivityService.record input) claim W := by
  intro given
  apply metered_query payable
  intro rows o ran write member
  obtain ⟨_, written, _⟩ := Statement.create_ok ran
  rw [written, List.mem_singleton] at member
  subst member
  exact besides_activity workspaceId _

/-- The transactions of these calls: what they are left with is always payable. -/
theorem metered_transaction {p : Service α}
    (metered : (boardGauge config workspaceId L).Metered (fun q => flying q.transaction)
      (fun _ => Payable workspaceId) (fun _ _ _ => True) p claim W) :
    (boardGauge config workspaceId L).Metered flying (fun _ _ _ => True) (fun _ _ _ => True)
      p.transaction claim W := by
  apply Gauge.Metered.transaction
  apply metered.weaken
  · exact fun _ flies => flies
  · exact fun _ _ _ payable => ⟨fun _ => trivial, payable.elsewhere, payable.weighs, trivial⟩
  · exact fun _ _ _ _ => trivial

/-- Past the check there was room for one more. -/
theorem metered_assertBoardAvailable {flying : Service Unit → Prop}
    (counted : ∀ current, flying (require (current < L) (.planLimitExceeded L current
      "This workspace has reached the number of boards its plan allows"))) :
    (boardGauge config workspaceId L).Metered flying (fun _ claim W => claim = true ∧ W = [])
      (fun _ _ _ => True) (PlanLimitsService.assertBoardAvailable config workspaceId) false [] := by
  apply Gauge.Metered.bind
  apply Gauge.Metered.read fun _ => trivial
  intro rows inv
  rw [applyAll, inv.2]
  refine ⟨fun _ => trivial, ?_⟩
  rintro rows inv o ran
  cases ran
  have same := boards_eq_total workspaceId rows
  by_cases room : boards workspaceId rows < L
  · right
    refine ⟨counted _, ?_, ?_⟩
    · change total (boardWeight workspaceId) rows + 1 ≤ L
      omega
    · exact Gauge.Metered.require trivial fun _ => ⟨rfl, rfl⟩
  · left
    apply Gauge.Metered.require trivial
    intro passed
    exact absurd (decide_eq_true_eq.mp passed) room

theorem metered_seed {flying : Service Column → Prop} (boardId : Id) (column : DefaultColumn)
    (payable : Payable workspaceId claim W) :
    (boardGauge config workspaceId L).Metered flying (fun _ => Payable workspaceId) (fun _ _ _ => True)
      (ColumnService.seed boardId column) claim W :=
  fun _ => payable

theorem metered_seedLabels {flying : Service Unit → Prop} (boardId : Id) (labels : List DefaultLabel)
    (payable : Payable workspaceId claim W) :
    (boardGauge config workspaceId L).Metered flying (fun _ => Payable workspaceId) (fun _ _ _ => True)
      (BoardService.seedLabels boardId labels) claim W := by
  unfold BoardService.seedLabels
  split
  · exact payable
  · apply Gauge.Metered.andThen
    · apply Gauge.Metered.collect payable
      exact fun _ _ _ _ payable _ => payable
    · intro rows claim W payable
      exact (metered_createMany besides_label rows payable).bind

/-- The board itself, on the claim, and what is seeded along with it. -/
theorem metered_createSeeded {flying : Service Board → Prop} (dto : CreateBoardDto) (seed : BoardTemplate) :
    (boardGauge config workspaceId L).Metered flying (fun _ => Payable workspaceId) (fun _ _ _ => True)
      (BoardService.createSeeded workspaceId dto seed) true [] := by
  apply Gauge.Metered.bind
  intro given
  apply Gauge.Metered.bind
  apply Gauge.Metered.query fun _ => trivial
  intro rows _ o ran
  obtain ⟨_, written, _⟩ := Statement.create_ok ran
  have payable : Payable workspaceId true ([] ++ o.writes) := by
    rw [written]
    constructor
    · simp [Write.Elsewhere, Write.target, key, toRow, Row.key]
    · simp [Write.adds, boardWeight, toRow]
  apply Gauge.Metered.andThen
  · apply Gauge.Metered.collect payable
    exact fun column _ _ _ payable => metered_seed _ column payable
  · intro columns claim W payable
    apply Gauge.Metered.andThen (metered_createMany besides_column columns payable)
    intro _ claim W payable
    apply Gauge.Metered.andThen (metered_seedLabels _ _ payable)
    exact fun _ _ _ payable => payable

theorem metered_resolve {flying : Service Locale → Prop} (userId : Id) (negotiated : Option Locale) :
    (boardGauge config workspaceId L).Metered flying
      (fun locale claim W => (∃ stored : Option Locale, locale = (stored.or negotiated).getD DEFAULT_LOCALE) ∧
        claim = false ∧ W = [])
      (fun _ _ _ => True) (LocaleService.resolve userId negotiated) false [] := by
  apply Gauge.Metered.bind
  apply Gauge.Metered.catching
  apply Gauge.Metered.read
  · exact fun _ => ⟨⟨_, rfl⟩, rfl, rfl⟩
  · exact fun _ _ => ⟨⟨_, rfl⟩, rfl, rfl⟩

theorem metered_create (actorId : Id) (dto : CreateBoardDto) (negotiated : Option Locale) :
    (boardGauge config workspaceId L).Metered
      ((BoardRequest.create actorId dto negotiated).Counted config limits workspaceId) (fun _ _ _ => True)
      (fun _ _ _ => True) ((BoardRequest.create actorId dto negotiated).service config limits workspaceId)
      false [] := by
  apply Gauge.Metered.andThen (Q := fun _ _ _ => True)
  · apply Gauge.Metered.andThen (metered_resolve actorId negotiated)
    rintro _ _ _ ⟨⟨stored, rfl⟩, rfl, rfl⟩
    apply Gauge.Metered.andThen
    · apply metered_transaction
      apply Gauge.Metered.andThen
      · apply metered_assertBoardAvailable
        intro current
        have resolved := Leads.statement (.ok stored)
          (.refl ((BoardRequest.create actorId dto negotiated).service config limits workspaceId))
        have limited := Leads.statement (.ok (⟨none, some L, none⟩ : WorkspacePlanLimitsDto)) resolved
        exact ⟨_, current, limited, .refl _⟩
      · rintro _ _ _ ⟨rfl, rfl⟩
        apply Gauge.Metered.andThen (metered_createSeeded dto _)
        intro created claim W payable
        apply Gauge.Metered.andThen (metered_record _ payable)
        exact fun _ _ _ payable => payable
    · exact fun _ _ _ _ => trivial
  · exact fun _ _ _ _ => trivial

theorem metered_writeAll {flying : Service Unit → Prop} {β : Type} [Entity Row β] (besides : Besides β)
    (rows : List β) (payable : Payable workspaceId claim W) :
    (boardGauge config workspaceId L).Metered flying (fun _ => Payable workspaceId) (fun _ _ _ => True)
      (TrelloImportService.writeAll rows) claim W := by
  apply Gauge.Metered.forEach payable
  intro chunk _ claim W payable
  exact (metered_createMany besides chunk payable).bind

theorem metered_writePlan {flying : Service Unit → Prop} (plan : TrelloImportPlan) :
    (boardGauge config workspaceId L).Metered flying (fun _ => Payable workspaceId) (fun _ _ _ => True)
      (TrelloImportService.writePlan workspaceId plan) true [] := by
  apply Gauge.Metered.bind
  apply Gauge.Metered.query fun _ => trivial
  intro rows _ o ran
  obtain ⟨_, written, _⟩ := Statement.create_ok ran
  have payable : Payable workspaceId true ([] ++ o.writes) := by
    rw [written]
    constructor
    · simp [Write.Elsewhere, Write.target, key, toRow, Row.key]
    · simp [Write.adds, boardWeight, toRow]
  apply Gauge.Metered.andThen (metered_writeAll besides_column _ payable)
  intro _ claim W payable
  apply Gauge.Metered.andThen (metered_writeAll besides_label _ payable)
  intro _ claim W payable
  apply Gauge.Metered.andThen (metered_writeAll besides_task _ payable)
  intro _ claim W payable
  apply Gauge.Metered.andThen (metered_writeAll besides_taskLabel _ payable)
  intro _ claim W payable
  apply Gauge.Metered.andThen (metered_writeAll besides_checklist _ payable)
  intro _ claim W payable
  apply Gauge.Metered.andThen (metered_writeAll besides_checklistItem _ payable)
  intro _ claim W payable
  exact metered_writeAll besides_attachment _ payable

theorem metered_importBoard (actorId : Id) (read : Except Error TrelloExport) :
    (boardGauge config workspaceId L).Metered
      ((BoardRequest.importBoard actorId read).Counted config limits workspaceId) (fun _ _ _ => True)
      (fun _ _ _ => True) ((BoardRequest.importBoard actorId read).service config limits workspaceId)
      false [] := by
  cases accepted : TrelloImportService.acceptExport limits read with
  | error error =>
      have opened : (BoardRequest.importBoard actorId read).service config limits workspaceId = .throw error := by
        simp [BoardRequest.service, TrelloImportService.importBoard, accepted, Prog.ofExcept]
      rw [opened]
      trivial
  | ok found =>
      have opened : (BoardRequest.importBoard actorId read).service config limits workspaceId =
          (TrelloImportService.writeImport config workspaceId actorId found.plan).bind fun _ => .pure () := by
        simp [BoardRequest.service, TrelloImportService.importBoard, accepted, Prog.ofExcept]
      rw [opened]
      apply Gauge.Metered.andThen (Q := fun _ _ _ => True)
      · apply Gauge.Metered.andThen
        · apply metered_transaction
          apply Gauge.Metered.andThen
          · apply metered_assertBoardAvailable
            intro current
            have limited := Leads.statement (.ok (⟨none, some L, none⟩ : WorkspacePlanLimitsDto))
              (.refl ((TrelloImportService.writeImport config workspaceId actorId found.plan).bind
                fun _ => .pure ()))
            exact ⟨_, current, by rw [opened]; exact limited, .refl _⟩
          · rintro _ _ _ ⟨rfl, rfl⟩
            apply Gauge.Metered.andThen (metered_writePlan found.plan)
            intro _ claim W payable
            apply Gauge.Metered.andThen (metered_record _ payable)
            exact fun _ _ _ payable => payable
        · exact fun _ _ _ _ => trivial
      · exact fun _ _ _ _ => trivial

/-- Nothing above a board goes with it. -/
theorem aside_deletion {rows : List Row} {keys : List Key} (start : ∀ k ∈ keys, 1 ≤ k.depth)
    {write : Write Row Key} (member : write ∈ deletion rows (cascade rows keys)) :
    Aside workspaceId write := by
  obtain ⟨k, rfl, deep⟩ | ⟨activity, rfl⟩ | ⟨notification, rfl⟩ := deletion_writes start member
  · refine ⟨rfl, ?_⟩
    rintro workspace same
    have : k = Key.workspace workspace.id := same.symm
    simp [this, Key.depth] at deep
  · exact ⟨rfl, by simp [Write.Elsewhere, Write.target, key, toRow, Row.key]⟩
  · exact ⟨rfl, by simp [Write.Elsewhere, Write.target, key, toRow, Row.key]⟩

theorem metered_remove (boardId actorId : Id) :
    (boardGauge config workspaceId L).Metered
      ((BoardRequest.remove boardId actorId).Counted config limits workspaceId) (fun _ _ _ => True)
      (fun _ _ _ => True) ((BoardRequest.remove boardId actorId).service config limits workspaceId)
      false [] := by
  apply metered_transaction
  apply Gauge.Metered.andThen (Q := fun _ => Payable workspaceId)
  · exact Gauge.Metered.found (fun _ => trivial) fun _ _ _ _ => payable_nil
  · intro board claim W payable
    apply Gauge.Metered.andThen (Q := fun _ => Payable workspaceId)
    · exact Gauge.Metered.read (fun _ => trivial) fun _ _ => payable
    · intro taskCount claim W payable
      apply Gauge.Metered.andThen (metered_record _ payable)
      intro _ claim W payable
      apply Gauge.Metered.andThen (Q := fun _ => Payable workspaceId)
      · apply metered_query payable
        intro rows o ran write member
        obtain ⟨_, written⟩ := Statement.deleteMany_ok ran
        rw [written] at member
        apply aside_deletion _ member
        intro k listed
        obtain ⟨board, _, rfl⟩ := List.mem_map.mp listed
        exact Nat.le_refl 1
      · intro count claim W payable
        exact Gauge.Metered.require trivial fun _ => payable

end Metering

/-- The ceiling is overshot only by those that counted before others committed. -/
theorem boards_overshoot_only_by_concurrency {ι : Type} [DecidableEq ι] (config : PlanConfig)
    (limits : TrelloImportConfig) (workspaceId : Id) (L k : Nat) (calls : ι → BoardRequest)
    (s t : System ι Row Key Event Input Error Unit) (unique : UniqueKeys s.rows)
    (ceiling : (PlanLimitsService.limitsOf config workspaceId s.rows).boards = some L)
    (fits : boards workspaceId s.rows ≤ L)
    (start : ∀ i, s.threads i = { prog := (calls i).service config limits workspaceId })
    (run : s.Reaches (fun u action => ∀ v, u.step action = some v →
      AtMost k fun i => (calls i).Creating config limits workspaceId (v.threads i).prog) t) :
    boards workspaceId t.rows ≤ L + (k - 1) := by
  rw [boards_eq_total] at fits ⊢
  apply Gauge.total_le_of_reaches (G := boardGauge config workspaceId L)
    (fun i => (calls i).Counted config limits workspaceId)
  · rintro i p q ⟨next, current, path, left⟩ further
    exact ⟨next, current, path, left.trans further⟩
  · exact run
  · exact ⟨unique, ceiling⟩
  · exact fits
  · intro i
    rw [start i]
    cases calls i with
    | create actorId dto negotiated => exact metered_create actorId dto negotiated
    | importBoard actorId read => exact metered_importBoard actorId read
    | remove boardId actorId => exact metered_remove boardId actorId

/-- A plan of one board in each workspace. -/
def oneBoard : PlanConfig := { instance_ := { boardsPerWorkspace := some 1 } }

/-- Ann creates a board while Bob imports one. -/
def twoBoards : Caller → BoardRequest
  | .ann => .create "ann" { name := "Plan", template := some .bug_triage } none
  | .bob => .importBoard "bob" (.ok { lists := 0, cards := 0, plan := { board := ("trello", "Old", none) } })

def boardSystem (rows : List Row) (calls : Caller → BoardRequest) : System Caller Row Key Event Input Error Unit :=
  { rows, threads := fun i => { prog := (calls i).service oneBoard {} "w" } }

/-- Both count before either commits. -/
def bothCount : List (Action Caller Input Error) :=
  inTurn .ann 1 3 ++ inTurn .bob 10 2 ++ inTurn .ann 20 18 ++ inTurn .bob 40 4

theorem few_callers (P : Caller → Prop) : AtMost 2 P := by
  intro L unique _
  have inside : L ⊆ [.ann, .bob] := by
    intro caller _
    cases caller <;> simp
  exact (unique.subperm inside).length_le

theorem boards_overshoot_by_one :
    (((boardSystem (sampleWorkspace.take 5) twoBoards).runs bothCount).map fun t => boards "w" t.rows) =
      some 2 ∧
    ∀ t, (boardSystem (sampleWorkspace.take 5) twoBoards).runs bothCount = some t →
      boards "w" t.rows ≤ 1 + (2 - 1) := by
  refine ⟨by decide +kernel, fun t ran => ?_⟩
  apply boards_overshoot_only_by_concurrency oneBoard {} "w" 1 2 twoBoards
    (boardSystem (sampleWorkspace.take 5) twoBoards)
  · decide +kernel
  · decide +kernel
  · decide +kernel
  · exact fun _ => rfl
  · exact .of_runs (fun _ _ _ _ => few_callers _) bothCount ran

end Kurul
