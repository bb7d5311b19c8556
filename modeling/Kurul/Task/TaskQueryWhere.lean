import Kurul.Task.TaskService
import Kurul.Text

/-! The filter of the task list as it is sent: a tree of conditions, and which tasks pass it. Text
is looked for by `ILIKE`, on the pattern and the column in one case. -/
namespace Kurul.TaskQueryWhere

open Store

/-- The query of a task list with its bounds as they are on the wire. -/
structure TaskQuery where
  cursor : Option Id := none
  q : Option String := none
  priority : Option (List Priority) := none
  assigneeId : Option (List String) := none
  labelId : Option (List Id) := none
  dueDate : Option String := none
  dueDateGte : Option String := none
  dueDateLte : Option String := none

/-- One condition on a task; both `contains` are insensitive to case. -/
inductive Condition where
  | idGt (cursor : Id)
  | titleContains (q : String)
  | descriptionContains (q : String)
  | priorityIn (priorities : List Priority)
  | assigneesNone
  | assigneesSome (userIds : List Id)
  | labelsSome (labelIds : List Id)
  | dueDateNull
  | dueDateRange (gte lte : Option WireDate)

/-- An entry of `AND`. -/
inductive Conjunct where
  | one (condition : Condition)
  | or (conditions : List Condition)

structure TaskWhereInput where
  boardId : Id
  and : Option (List Conjunct)

/-- A text that is sent and not empty. -/
def given (sent : Option String) : Option String := sent.filter (· ≠ "")

def assigneeOr (assigneeId : List String) : List Condition :=
  (if assigneeId.contains "null" then [.assigneesNone] else []) ++
    let userIds := assigneeId.filter (· ≠ "null")
    if userIds.length > 0 then [.assigneesSome userIds] else []

def assigneeConjunct (assigneeId : List String) : Conjunct :=
  match assigneeOr assigneeId with
  | [condition] => .one condition
  | conditions => .or conditions

/-- One entry for each filter that is given; `newDate` is what `new Date` makes of a text. -/
def conjuncts (newDate : String → WireDate) (query : TaskQuery) : List Conjunct :=
  ((given query.cursor).toList.map fun cursor => .one (.idGt cursor)) ++
  ((given query.q).toList.map fun q =>
    .or [.titleContains (escapeLikePattern q), .descriptionContains (escapeLikePattern q)]) ++
  ((query.priority.filter (·.length > 0)).toList.map fun priorities => .one (.priorityIn priorities)) ++
  ((query.assigneeId.filter (·.length > 0)).toList.map assigneeConjunct) ++
  ((query.labelId.filter (·.length > 0)).toList.map fun labelIds => .one (.labelsSome labelIds)) ++
  (if query.dueDate = some "null" then [.one .dueDateNull] else []) ++
  let dueGte := (given query.dueDateGte).map newDate
  let dueLte := (given query.dueDateLte).map newDate
  if dueGte.isSome || dueLte.isSome then [.one (.dueDateRange dueGte dueLte)] else []

def buildListWhere (newDate : String → WireDate) (boardId : Id) (query : TaskQuery) : TaskWhereInput :=
  { boardId, and := if (conjuncts newDate query).length > 0 then some (conjuncts newDate query) else none }

/-- What `ILIKE` takes a character to before it compares; no other character becomes one of the
three that a pattern gives a meaning. -/
structure CaseFolding where
  fold : Char → Char
  keeps : ∀ c s, s ∈ ['\\', '%', '_'] → (fold c = s ↔ c = s)

namespace CaseFolding

variable (folding : CaseFolding)

def folded (text : List Char) : List Char := text.map folding.fold

def ilike (pattern text : List Char) : Bool := like (folding.folded pattern) (folding.folded text)

/-- `contains` with `mode: 'insensitive'`: `ILIKE '%' || q || '%'`. -/
def contains (q text : String) : Bool := folding.ilike ('%' :: q.toList ++ ['%']) text.toList

/-- The text holds `q`, whatever the case of either. -/
def Occurs (q text : String) : Prop := folding.folded q.toList <:+: folding.folded text.toList

end CaseFolding

section Meaning

variable (folding : CaseFolding) (rows : List Row) (task : Task)

/-- A bound that is no instant is refused by the client, so no task passes it. -/
def withinBound (bound : Option WireDate) (within : DateTime → DateTime → Bool) : Bool :=
  match bound with
  | none => true
  | some .invalid => false
  | some (.instant time) => task.dueDate.any (within time)

def Condition.holds : Condition → Bool
  | .idGt cursor => cursor < task.id
  | .titleContains q => folding.contains q task.title
  | .descriptionContains q => task.description.any (folding.contains q)
  | .priorityIn priorities => priorities.contains task.priority
  | .assigneesNone => (table rows : List TaskAssignee).all fun entry => entry.taskId ≠ task.id
  | .assigneesSome userIds =>
      (table rows : List TaskAssignee).any fun entry => entry.taskId = task.id && userIds.contains entry.userId
  | .labelsSome labelIds =>
      (table rows : List TaskLabel).any fun entry => entry.taskId = task.id && labelIds.contains entry.labelId
  | .dueDateNull => task.dueDate = none
  | .dueDateRange gte lte => withinBound task gte (· ≤ ·) && withinBound task lte (· ≥ ·)

def Conjunct.holds : Conjunct → Bool
  | .one condition => condition.holds folding rows task
  | .or conditions => conditions.any fun condition => condition.holds folding rows task

def TaskWhereInput.holds (where_ : TaskWhereInput) : Bool :=
  task.boardId = where_.boardId && (where_.and.getD []).all fun conjunct => conjunct.holds folding rows task

/-- What the filters say of a task. -/
structure Passes (newDate : String → WireDate) (boardId : Id) (query : TaskQuery) : Prop where
  board : task.boardId = boardId
  cursor : ∀ cursor, given query.cursor = some cursor → cursor < task.id
  q : ∀ q, given query.q = some q →
    folding.Occurs q task.title ∨ ∃ description, task.description = some description ∧ folding.Occurs q description
  priority : ∀ priorities, query.priority = some priorities → priorities ≠ [] → task.priority ∈ priorities
  assigneeId : ∀ ids, query.assigneeId = some ids → ids ≠ [] →
    ("null" ∈ ids ∧ ∀ entry ∈ (table rows : List TaskAssignee), entry.taskId ≠ task.id) ∨
      ∃ entry ∈ (table rows : List TaskAssignee), entry.taskId = task.id ∧ entry.userId ∈ ids ∧ entry.userId ≠ "null"
  labelId : ∀ ids, query.labelId = some ids → ids ≠ [] →
    ∃ entry ∈ (table rows : List TaskLabel), entry.taskId = task.id ∧ entry.labelId ∈ ids
  dueDate : query.dueDate = some "null" → task.dueDate = none
  dueDateGte : ∀ text, given query.dueDateGte = some text →
    ∃ bound due, newDate text = .instant bound ∧ task.dueDate = some due ∧ bound ≤ due
  dueDateLte : ∀ text, given query.dueDateLte = some text →
    ∃ bound due, newDate text = .instant bound ∧ task.dueDate = some due ∧ due ≤ bound

end Meaning

section Text

variable {folding : CaseFolding}

/-- Folding an escaped text is escaping the folded one. -/
theorem folded_escape (text : List Char) :
    folding.folded (text.flatMap fun c => if c = '\\' ∨ c = '%' ∨ c = '_' then ['\\', c] else [c]) =
      (folding.folded text).flatMap fun c => if c = '\\' ∨ c = '%' ∨ c = '_' then ['\\', c] else [c] := by
  have backslash := fun c => folding.keeps c '\\' (by simp)
  have percent := fun c => folding.keeps c '%' (by simp)
  have underscore := fun c => folding.keeps c '_' (by simp)
  unfold CaseFolding.folded
  rw [List.map_flatMap, List.flatMap_map]
  congr 1
  funext c
  by_cases special : c = '\\' ∨ c = '%' ∨ c = '_'
  · have same : folding.fold c = '\\' ∨ folding.fold c = '%' ∨ folding.fold c = '_' := by
      rwa [backslash, percent, underscore]
    rw [if_pos special, if_pos same]
    simp [(backslash '\\').mpr rfl]
  · have same : ¬(folding.fold c = '\\' ∨ folding.fold c = '%' ∨ folding.fold c = '_') := by
      rwa [backslash, percent, underscore]
    rw [if_neg special, if_neg same]
    rfl

theorem contains_escaped (q text : String) :
    folding.contains (escapeLikePattern q) text = true ↔ folding.Occurs q text := by
  have percent : folding.fold '%' = '%' := (folding.keeps '%' '%' (by simp)).mpr rfl
  have pattern : folding.folded ('%' :: (escapeLikePattern q).toList ++ ['%']) =
      '%' :: ((folding.folded q.toList).flatMap
        (fun c => if c = '\\' ∨ c = '%' ∨ c = '_' then ['\\', c] else [c]) ++ ['%']) := by
    rw [escapeLikePattern, String.toList_ofList, escapeChars, ← folded_escape]
    simp [CaseFolding.folded, percent]
  unfold CaseFolding.contains CaseFolding.ilike CaseFolding.Occurs
  rw [pattern, like]
  simp only [List.any_eq_true, List.mem_tails, like_escaped, List.infix_iff_prefix_suffix, and_comm]

end Text

section Filters

variable {folding : CaseFolding} {rows : List Row} {task : Task}

theorem all_toList_map {α : Type} {sent : Option α} {entry : α → Conjunct} :
    ((sent.toList.map entry).all fun conjunct => conjunct.holds folding rows task) = true ↔
      ∀ value, sent = some value → (entry value).holds folding rows task = true := by
  cases sent <;> simp

theorem filter_length {α : Type} {sent : Option (List α)} {ids : List α} :
    sent.filter (·.length > 0) = some ids ↔ sent = some ids ∧ ids ≠ [] := by
  simp [Option.filter_eq_some_iff, List.length_pos_iff]

theorem holds_assigneeConjunct {ids : List String} :
    (assigneeConjunct ids).holds folding rows task = true ↔
      ("null" ∈ ids ∧ ∀ entry ∈ (table rows : List TaskAssignee), entry.taskId ≠ task.id) ∨
        ∃ entry ∈ (table rows : List TaskAssignee), entry.taskId = task.id ∧ entry.userId ∈ ids ∧
          entry.userId ≠ "null" := by
  have either : (assigneeConjunct ids).holds folding rows task =
      (assigneeOr ids).any fun condition => condition.holds folding rows task := by
    unfold assigneeConjunct
    split
    · rename_i condition only
      simp [only, Conjunct.holds]
    · rfl
  have someone : (if (ids.filter (· ≠ "null")).length > 0 then [Condition.assigneesSome (ids.filter (· ≠ "null"))]
      else []).any (fun condition => condition.holds folding rows task) = true ↔
        ∃ entry ∈ (table rows : List TaskAssignee), entry.taskId = task.id ∧ entry.userId ∈ ids ∧
          entry.userId ≠ "null" := by
    split
    · simp [Condition.holds]
    · rename_i none_
      have empty : ids.filter (· ≠ "null") = [] := List.length_eq_zero_iff.mp (by omega)
      constructor
      · intro never
        simp at never
      · rintro ⟨entry, _, _, member, proper⟩
        have inside : entry.userId ∈ ids.filter (· ≠ "null") := List.mem_filter.mpr ⟨member, by simpa using proper⟩
        rw [empty] at inside
        cases inside
  have nobody : (if ids.contains "null" then [Condition.assigneesNone] else []).any
      (fun condition => condition.holds folding rows task) = true ↔
        "null" ∈ ids ∧ ∀ entry ∈ (table rows : List TaskAssignee), entry.taskId ≠ task.id := by
    by_cases wants : "null" ∈ ids <;> simp [wants, Condition.holds]
  rw [either, assigneeOr, List.any_append, Bool.or_eq_true, nobody]
  exact or_congr_right someone

theorem withinBound_iff {bound : Option WireDate} {within : DateTime → DateTime → Bool} :
    withinBound task bound within = true ↔ ∀ date, bound = some date →
      ∃ time due, date = .instant time ∧ task.dueDate = some due ∧ within time due = true := by
  unfold withinBound
  split
  · simp
  · simp
  · simp [Option.any_eq_true]

theorem holds_buildListWhere {newDate : String → WireDate} {boardId : Id} {query : TaskQuery} :
    (buildListWhere newDate boardId query).holds folding rows task =
      (decide (task.boardId = boardId) &&
        (conjuncts newDate query).all fun conjunct => conjunct.holds folding rows task) := by
  unfold TaskWhereInput.holds buildListWhere
  by_cases some_ : (conjuncts newDate query).length > 0
  · simp [some_]
  · have none_ : conjuncts newDate query = [] := List.length_eq_zero_iff.mp (by omega)
    simp [none_]

theorem holds_range {gte lte : Option WireDate} :
    ((if gte.isSome || lte.isSome then [Conjunct.one (.dueDateRange gte lte)] else []).all fun conjunct =>
      conjunct.holds folding rows task) = (withinBound task gte (· ≤ ·) && withinBound task lte (· ≥ ·)) := by
  cases gte <;> cases lte <;> simp [Conjunct.holds, Condition.holds, withinBound]

/-- The predicate that is built holds of a task exactly where every filter that is given does. -/
theorem list_filter_means (folding : CaseFolding) (newDate : String → WireDate) (rows : List Row) (task : Task)
    (boardId : Id) (query : TaskQuery) :
    (buildListWhere newDate boardId query).holds folding rows task = true ↔
      Passes folding rows task newDate boardId query := by
  rw [holds_buildListWhere, Bool.and_eq_true]
  simp only [conjuncts, List.all_append, Bool.and_eq_true, all_toList_map, holds_range, withinBound_iff]
  constructor
  · rintro ⟨board, ⟨⟨⟨⟨⟨cursor, q⟩, priority⟩, assigneeId⟩, labelId⟩, dueDate⟩, gte, lte⟩
    refine ⟨of_decide_eq_true board, ?_, ?_, ?_, ?_, ?_, ?_, ?_, ?_⟩
    · intro value sent
      simpa [Conjunct.holds, Condition.holds] using cursor value sent
    · intro value sent
      simpa [Conjunct.holds, Condition.holds, contains_escaped, Option.any_eq_true] using q value sent
    · intro priorities sent some_
      simpa [Conjunct.holds, Condition.holds] using priority priorities (filter_length.mpr ⟨sent, some_⟩)
    · intro ids sent some_
      exact holds_assigneeConjunct.mp (assigneeId ids (filter_length.mpr ⟨sent, some_⟩))
    · intro ids sent some_
      simpa [Conjunct.holds, Condition.holds] using labelId ids (filter_length.mpr ⟨sent, some_⟩)
    · intro asked
      simpa [asked, Conjunct.holds, Condition.holds] using dueDate
    · intro text sent
      simpa [sent] using gte
    · intro text sent
      simpa [sent] using lte
  · intro passes
    refine ⟨decide_eq_true passes.board, ⟨⟨⟨⟨⟨?_, ?_⟩, ?_⟩, ?_⟩, ?_⟩, ?_⟩, ?_, ?_⟩
    · intro value sent
      simpa [Conjunct.holds, Condition.holds] using passes.cursor value sent
    · intro value sent
      simpa [Conjunct.holds, Condition.holds, contains_escaped, Option.any_eq_true] using passes.q value sent
    · intro priorities sent
      obtain ⟨sent, some_⟩ := filter_length.mp sent
      simpa [Conjunct.holds, Condition.holds] using passes.priority priorities sent some_
    · intro ids sent
      obtain ⟨sent, some_⟩ := filter_length.mp sent
      exact holds_assigneeConjunct.mpr (passes.assigneeId ids sent some_)
    · intro ids sent
      obtain ⟨sent, some_⟩ := filter_length.mp sent
      simpa [Conjunct.holds, Condition.holds] using passes.labelId ids sent some_
    · split
      · rename_i asked
        simpa [Conjunct.holds, Condition.holds] using passes.dueDate asked
      · rfl
    · intro date sent
      obtain ⟨text, there, rfl⟩ := Option.map_eq_some_iff.mp sent
      simpa using passes.dueDateGte text there
    · intro date sent
      obtain ⟨text, there, rfl⟩ := Option.map_eq_some_iff.mp sent
      simpa using passes.dueDateLte text there

end Filters

section Parsed

variable {folding : CaseFolding} {rows : List Row} {task : Task}

def asciiFolding : CaseFolding where
  fold := Char.toLower
  keeps c s special := by
    have value : s.val.toNat = 92 ∨ s.val.toNat = 37 ∨ s.val.toNat = 95 := by
      fin_cases special <;> decide
    unfold Char.toLower
    split
    · rename_i upper
      obtain ⟨low, high⟩ := upper
      rw [ge_iff_le, UInt32.le_iff_toNat_le] at low
      rw [UInt32.le_iff_toNat_le] at high
      have low' : 65 ≤ c.val.toNat := low
      have high' : c.val.toNat ≤ 90 := high
      constructor
      · intro same
        have lowered := congrArg (fun d => d.val.toNat) same
        have sum : (c.val + ('a'.val - 'A'.val)).toNat = c.val.toNat + 32 := by
          rw [UInt32.toNat_add, show ('a'.val - 'A'.val).toNat = 32 from rfl]
          exact Nat.mod_eq_of_lt (by omega)
        simp only [sum] at lowered
        omega
      · intro same
        rw [same] at low' high'
        omega
    · rfl

def instant : WireDate → Option DateTime
  | .instant time => some time
  | .invalid => none

/-- The query once its bounds are read. -/
def TaskQuery.dto (newDate : String → WireDate) (query : TaskQuery) : TaskQueryDto :=
  { cursor := query.cursor
    q := query.q
    priority := query.priority
    assigneeId := query.assigneeId
    labelId := query.labelId
    dueDate := query.dueDate
    dueDateGte := (given query.dueDateGte).bind fun text => instant (newDate text)
    dueDateLte := (given query.dueDateLte).bind fun text => instant (newDate text) }

theorem occurs_ascii (q text : String) : containsInsensitive q text = true ↔ asciiFolding.Occurs q text := by
  unfold containsInsensitive CaseFolding.Occurs CaseFolding.folded
  simp [List.any_eq_true, List.infix_iff_prefix_suffix, and_comm, asciiFolding]

theorem all_given {sent : Option String} {entry : String → Conjunct} :
    (((given sent).toList.map entry).all fun conjunct => conjunct.holds folding rows task) =
      (!truthy sent || sent.all fun value => (entry value).holds folding rows task) := by
  cases sent with
  | none => rfl
  | some value => by_cases empty : value = "" <;> simp [given, truthy, empty, Option.filter_some]

theorem all_listed {α : Type} {sent : Option (List α)} {entry : List α → Conjunct} :
    (((sent.filter (·.length > 0)).toList.map entry).all fun conjunct => conjunct.holds folding rows task) =
      sent.all fun ids => ids.isEmpty || (entry ids).holds folding rows task := by
  cases sent with
  | none => rfl
  | some ids => cases ids <;> simp [Option.filter_some]

theorem all_within {sent : Option String} {newDate : String → WireDate} {within : DateTime → DateTime → Bool}
    (valid : ∀ text, given sent = some text → newDate text ≠ .invalid) :
    withinBound task ((given sent).map newDate) within =
      (((given sent).bind fun text => instant (newDate text)).all fun bound => task.dueDate.any (within bound)) := by
  cases here : given sent with
  | none => rfl
  | some text =>
      cases made : newDate text with
      | invalid => exact absurd made (valid text here)
      | instant time => simp [withinBound, instant, made]

/-- The filter that the service runs is the predicate that is built. -/
theorem buildListWhere_eq (newDate : String → WireDate) (boardId : Id) (query : TaskQuery) (rows : List Row) (task : Task)
    (gte : ∀ text, given query.dueDateGte = some text → newDate text ≠ .invalid)
    (lte : ∀ text, given query.dueDateLte = some text → newDate text ≠ .invalid) :
    Kurul.buildListWhere boardId (query.dto newDate) rows task =
      (buildListWhere newDate boardId query).holds asciiFolding rows task := by
  have text : containsInsensitive = fun q => asciiFolding.contains (escapeLikePattern q) := by
    funext q text
    rw [Bool.eq_iff_iff, occurs_ascii, contains_escaped]
  have searched : ∀ q, (Conjunct.or [.titleContains (escapeLikePattern q),
      .descriptionContains (escapeLikePattern q)]).holds asciiFolding rows task =
        (containsInsensitive q task.title || task.description.any (containsInsensitive q)) := by
    intro q
    simp [Conjunct.holds, Condition.holds, text]
  have undated : ((if query.dueDate = some "null" then [Conjunct.one .dueDateNull] else []).all fun conjunct =>
      conjunct.holds asciiFolding rows task) =
        (decide (query.dueDate ≠ some "null") || decide (task.dueDate = none)) := by
    by_cases asked : query.dueDate = some "null" <;> simp [asked, Conjunct.holds, Condition.holds]
  have assignees : ∀ ids : List String, (ids.isEmpty ||
      (assigneeConjunct ids).holds asciiFolding rows task) = (ids.isEmpty ||
        (ids.contains "null" && ((table rows : List TaskAssignee).filter (·.taskId = task.id)).isEmpty) ||
          ((table rows : List TaskAssignee).filter (·.taskId = task.id)).any fun entry =>
            (ids.filter (· ≠ "null")).contains entry.userId) := by
    intro ids
    cases ids with
    | nil => rfl
    | cons id rest =>
        rw [Bool.eq_iff_iff, Bool.or_assoc, Bool.or_eq_true, Bool.or_eq_true, holds_assigneeConjunct]
        simp [List.isEmpty_iff, List.filter_eq_nil_iff]
  rw [holds_buildListWhere]
  simp only [conjuncts, List.all_append, all_given, all_listed, holds_range, assignees, all_within gte, all_within lte,
    searched, undated]
  simp only [Kurul.buildListWhere, TaskQuery.dto, Conjunct.holds, Condition.holds, Bool.and_assoc]
  rfl

end Parsed

end Kurul.TaskQueryWhere
