import Kurul.Encoding.Percent
import Kurul.Sequence.Splitting
import Kurul.Sequence.Trimming
import Kurul.Task.TaskService

/-! The filter of a board in the address bar: read from the parameters of the page, written back
among them, and read again by the API from the same parameters. -/
namespace Kurul.Client.TaskQuery

open Encoding Sequence

/-- Absent is `undefined`; `assigneeId` may hold the word `null`. -/
structure BoardTaskFilters where
  q : Option String := none
  priority : Option (List Priority) := none
  assigneeId : Option (List String) := none
  labelId : Option (List String) := none
  dueDateNull : Option Bool := none
  dueDateGte : Option String := none
  dueDateLte : Option String := none
  deriving DecidableEq

def FILTER_KEYS : List String := ["q", "priority", "assigneeId", "labelId", "dueDate", "dueDate[gte]", "dueDate[lte]"]

section SearchParams

variable (params : List Param)

def getAll (key : String) : List String := (params.filter fun param => param.1 = key).map Prod.snd

def get (key : String) : Option String := (params.find? fun param => param.1 = key).map Prod.snd

def append (key value : String) : List Param := params ++ [(key, value)]

def delete (key : String) : List Param := params.filter fun param => param.1 ≠ key

end SearchParams

/-- The first value of the key replaced and the others removed; appended where there is none. -/
def set : List Param → String → String → List Param
  | [], key, value => [(key, value)]
  | param :: rest, key, value =>
      if param.1 = key then (key, value) :: delete rest key else param :: set rest key value

def split (text : String) : List String := (text.toList.splitOn ',').map String.ofList

def join (pieces : List String) : String := .ofList ([','].intercalate (pieces.map String.toList))

/-- The trimmed pieces of comma lists, empty ones left out. -/
def pieces (values : List String) : List String :=
  values.flatMap fun entry => ((split entry).map trim).filter (· ≠ "")

def collectList (params : List Param) (key : String) : List String := pieces (getAll params key)

def priorities : List Priority := [.LOW, .MEDIUM, .HIGH, .URGENT]

def toPriority (text : String) : Option Priority := priorities.find? (·.text = text)

def unlessEmpty {α : Type} (values : List α) : Option (List α) := if values.length > 0 then some values else none

def truthyText (value : Option String) : Option String := value.filter (· ≠ "")

def parseFiltersFromSearchParams (params : List Param) : BoardTaskFilters where
  q := truthyText ((get params "q").map trim)
  priority := unlessEmpty ((collectList params "priority").filterMap toPriority)
  assigneeId := unlessEmpty (collectList params "assigneeId")
  labelId := unlessEmpty (collectList params "labelId")
  dueDateNull := if get params "dueDate" = some "null" then some true else none
  dueDateGte := truthyText (get params "dueDate[gte]")
  dueDateLte := truthyText (get params "dueDate[lte]")

/-- The parameter set where there is a value for it. -/
def setSome (key : String) (value : Option String) (params : List Param) : List Param :=
  match value with
  | some value => set params key value
  | none => params

def listed (values : Option (List String)) : Option String := (values.filter (·.length > 0)).map join

def serializeFiltersToSearchParams (filters : BoardTaskFilters) : List Param :=
  [] |> setSome "q" (truthyText (filters.q.map trim))
    |> setSome "priority" (listed (filters.priority.map (List.map Priority.text)))
    |> setSome "assigneeId" (listed filters.assigneeId)
    |> setSome "labelId" (listed filters.labelId)
    |> setSome "dueDate" (if filters.dueDateNull = some true then some "null" else none)
    |> setSome "dueDate[gte]" (truthyText filters.dueDateGte)
    |> setSome "dueDate[lte]" (truthyText filters.dueDateLte)

/-- The copy is read from the text of the current parameters. -/
def mergeFiltersIntoSearchParams (current : List Param) (filters : BoardTaskFilters) : Option (List Param) :=
  (parse (serialize current)).map fun next =>
    let next := (next.map Prod.fst).foldl (fun next key => if FILTER_KEYS.contains key then delete next key else next) next
    (serializeFiltersToSearchParams filters).foldl (fun next param => append next param.1 param.2) next

/-- The API's reading of a list parameter, by the values it occurs with. -/
def toStringList (values : List String) : Option (List String) :=
  if values = [] ∨ values = [""] then none else unlessEmpty (pieces values)

section Pieces

/-- A piece of a comma list. -/
structure IsPiece (text : String) : Prop where
  trimmed : trim text = text
  some_ : text ≠ ""
  whole : ',' ∉ text.toList

theorem toList_trim (text : String) : (trim text).toList = trimmed isTrimmed text.toList := String.toList_ofList

theorem trim_trim (text : String) : trim (trim text) = trim text := by
  rw [← String.toList_inj, toList_trim, toList_trim, trimmed_trimmed]

theorem isPiece_of_mem {values : List String} {piece : String} (member : piece ∈ pieces values) : IsPiece piece := by
  obtain ⟨entry, _, inside⟩ := List.mem_flatMap.mp member
  obtain ⟨made, some_⟩ := List.mem_filter.mp inside
  obtain ⟨raw, cut, rfl⟩ := List.mem_map.mp made
  obtain ⟨chars, split_, rfl⟩ := List.mem_map.mp cut
  refine ⟨trim_trim _, by simpa using some_, ?_⟩
  rw [toList_trim, String.toList_ofList]
  exact fun comma => notMem_of_mem_splitOn split_ (infix_trimmed.subset comma)

theorem split_join {values : List String} (some_ : values ≠ []) (each : ∀ value ∈ values, IsPiece value) :
    split (join values) = values := by
  have cut : (([','].intercalate (values.map String.toList)).splitOn ',') = values.map String.toList := by
    apply List.splitOn_intercalate
    · intro chars listed
      obtain ⟨value, member, rfl⟩ := List.mem_map.mp listed
      exact (each value member).whole
    · simpa using some_
  rw [split, join, String.toList_ofList, cut, List.map_map]
  simp [Function.comp_def]

theorem pieces_join {values : List String} (some_ : values ≠ []) (each : ∀ value ∈ values, IsPiece value) :
    pieces [join values] = values := by
  have kept : (values.map trim).filter (· ≠ "") = values := by
    have same : values.map trim = values :=
      (List.map_congr_left fun value member => (each value member).trimmed).trans (List.map_id' values)
    rw [same, List.filter_eq_self]
    exact fun value member => by simpa using (each value member).some_
  rw [pieces, List.flatMap_singleton, split_join some_ each, kept]

theorem isPiece_text (priority : Priority) : IsPiece priority.text := by
  cases priority <;> exact ⟨by decide, by decide, by decide⟩

theorem toPriority_text (priority : Priority) : toPriority priority.text = some priority := by
  cases priority <;> decide

end Pieces

section Written

/-- Fields with a value, one parameter each. -/
def written (fields : List (String × Option String)) : List Param :=
  fields.flatMap fun field => field.2.toList.map (field.1, ·)

def fields (filters : BoardTaskFilters) : List (String × Option String) := [
  ("q", truthyText (filters.q.map trim)),
  ("priority", listed (filters.priority.map (List.map Priority.text))),
  ("assigneeId", listed filters.assigneeId),
  ("labelId", listed filters.labelId),
  ("dueDate", if filters.dueDateNull = some true then some "null" else none),
  ("dueDate[gte]", truthyText filters.dueDateGte),
  ("dueDate[lte]", truthyText filters.dueDateLte)]

variable {before : List (String × Option String)} {name : String} {value : Option String}

theorem set_absent {params : List Param} {key text : String} (absent : ∀ param ∈ params, param.1 ≠ key) :
    set params key text = params ++ [(key, text)] := by
  induction params with
  | nil => rfl
  | cons param rest ih =>
      rw [set, if_neg (absent param List.mem_cons_self), ih fun other member =>
        absent other (List.mem_cons_of_mem _ member)]
      rfl

theorem setSome_written (new : name ∉ before.map Prod.fst) :
    setSome name value (written before) = written (before ++ [(name, value)]) := by
  have absent : ∀ param ∈ written before, param.1 ≠ name := by
    intro param member same
    obtain ⟨field, listed, inside⟩ := List.mem_flatMap.mp member
    obtain ⟨text, _, rfl⟩ := List.mem_map.mp inside
    exact new (List.mem_map.mpr ⟨field, listed, same⟩)
  cases value with
  | none => simp [setSome, written]
  | some text =>
      rw [setSome, set_absent absent]
      simp [written]

theorem serialize_eq (filters : BoardTaskFilters) : serializeFiltersToSearchParams filters = written (fields filters) := by
  have start : ([] : List Param) = written [] := rfl
  unfold serializeFiltersToSearchParams
  rw [start]
  repeat rw [setSome_written (by simp)]
  rfl

theorem getAll_written {fields : List (String × Option String)} (distinct : (fields.map Prod.fst).Nodup)
    (member : (name, value) ∈ fields) : getAll (written fields) name = value.toList := by
  induction fields with
  | nil => cases member
  | cons field rest ih =>
      obtain ⟨fresh, distinct'⟩ := List.nodup_cons.mp distinct
      have split_ : getAll (written (field :: rest)) name =
          (if field.1 = name then field.2.toList else []) ++ getAll (written rest) name := by
        rw [written, List.flatMap_cons, getAll, List.filter_append, List.map_append]
        congr 1
        by_cases own : field.1 = name <;> cases field.2 <;> simp [own]
      rw [split_]
      rcases List.mem_cons.mp member with rfl | later
      · have none_ : getAll (written rest) name = [] := by
          rw [getAll, List.map_eq_nil_iff, List.filter_eq_nil_iff]
          intro param there
          obtain ⟨other, listed_, inside⟩ := List.mem_flatMap.mp there
          obtain ⟨text, _, rfl⟩ := List.mem_map.mp inside
          intro same
          exact fresh (List.mem_map.mpr ⟨other, listed_, of_decide_eq_true same⟩)
        rw [if_pos rfl, none_, List.append_nil]
      · have other : field.1 ≠ name := by
          rintro rfl
          exact fresh (List.mem_map.mpr ⟨_, later, rfl⟩)
        rw [if_neg other, List.nil_append, ih distinct' later]

theorem get_eq_head? (params : List Param) (key : String) : get params key = (getAll params key).head? := by
  rw [get, getAll, List.head?_map, List.head?_filter]

theorem fields_distinct (filters : BoardTaskFilters) : ((fields filters).map Prod.fst).Nodup := by
  rw [show (fields filters).map Prod.fst = FILTER_KEYS from rfl]
  decide

end Written

section RoundTrip

variable {filters : BoardTaskFilters}

/-- What the address bar can yield. -/
structure Yielded (filters : BoardTaskFilters) : Prop where
  q : ∀ q, filters.q = some q → trim q = q ∧ q ≠ ""
  priority : filters.priority ≠ some []
  assigneeId : ∀ ids, filters.assigneeId = some ids → ids ≠ [] ∧ ∀ id ∈ ids, IsPiece id
  labelId : ∀ ids, filters.labelId = some ids → ids ≠ [] ∧ ∀ id ∈ ids, IsPiece id
  dueDateNull : filters.dueDateNull ≠ some false
  dueDateGte : filters.dueDateGte ≠ some ""
  dueDateLte : filters.dueDateLte ≠ some ""

theorem unlessEmpty_eq_some {α : Type} {values ids : List α} (some_ : unlessEmpty values = some ids) :
    values = ids ∧ ids ≠ [] := by
  unfold unlessEmpty at some_
  split at some_
  · rename_i long
    obtain rfl := Option.some.inj some_
    exact ⟨rfl, List.ne_nil_of_length_pos long⟩
  · cases some_

theorem yielded_parse (params : List Param) : Yielded (parseFiltersFromSearchParams params) := by
  have collected : ∀ key ids, unlessEmpty (collectList params key) = some ids → ids ≠ [] ∧ ∀ id ∈ ids, IsPiece id := by
    intro key ids made
    obtain ⟨rfl, some_⟩ := unlessEmpty_eq_some made
    exact ⟨some_, fun id member => isPiece_of_mem member⟩
  refine ⟨?_, ?_, collected _, collected _, ?_, ?_, ?_⟩
  · intro q made
    obtain ⟨trimmed_, some_⟩ := Option.filter_eq_some_iff.mp made
    obtain ⟨raw, _, rfl⟩ := Option.map_eq_some_iff.mp trimmed_
    exact ⟨trim_trim raw, by simpa using some_⟩
  · exact fun made => (unlessEmpty_eq_some made).2 rfl
  · unfold parseFiltersFromSearchParams
    split <;> simp
  · intro made
    simpa using (Option.filter_eq_some_iff.mp made).2
  · intro made
    simpa using (Option.filter_eq_some_iff.mp made).2

/-- A list of pieces read back from its comma list. -/
theorem pieces_listed {ids : Option (List String)} (each : ∀ values, ids = some values →
    values ≠ [] ∧ ∀ id ∈ values, IsPiece id) : unlessEmpty (pieces (listed ids).toList) = ids := by
  cases ids with
  | none => rfl
  | some values =>
      obtain ⟨some_, pieces_⟩ := each values rfl
      have long : values.length > 0 := List.length_pos_iff.mpr some_
      simp [listed, Option.filter_some, long, pieces_join some_ pieces_, unlessEmpty]

/-- The API reads the same lists. -/
theorem toStringList_listed {ids : Option (List String)} (each : ∀ values, ids = some values →
    values ≠ [] ∧ ∀ id ∈ values, IsPiece id) : toStringList (listed ids).toList = ids := by
  unfold toStringList
  split
  · rename_i idle
    rw [← pieces_listed each]
    rcases idle with empty | blank
    · rw [empty]
      rfl
    · rw [blank]
      decide
  · exact pieces_listed each

theorem each_priority (some_ : filters.priority ≠ some []) : ∀ values,
    filters.priority.map (List.map Priority.text) = some values → values ≠ [] ∧ ∀ id ∈ values, IsPiece id := by
  intro values made
  obtain ⟨priorities, sent, rfl⟩ := Option.map_eq_some_iff.mp made
  constructor
  · intro empty
    rw [List.map_eq_nil_iff] at empty
    exact some_ (by rw [sent, empty])
  · intro id member
    obtain ⟨priority, _, rfl⟩ := List.mem_map.mp member
    exact isPiece_text priority

theorem truthyText_self {value : Option String} (some_ : value ≠ some "") : truthyText value = value := by
  cases value with
  | none => rfl
  | some text =>
      have proper : text ≠ "" := fun same => some_ (congrArg some same)
      simp [truthyText, Option.filter_some, proper]

theorem map_trim_self {value : Option String} (trimmed_ : ∀ text, value = some text → trim text = text) :
    value.map trim = value := by
  cases value with
  | none => rfl
  | some text => rw [Option.map_some, trimmed_ text rfl]

/-- What was yielded is read again wherever its own parameters are the only ones of their names. -/
theorem parse_yielded (yielded : Yielded filters) {params : List Param}
    (values : ∀ name value, (name, value) ∈ fields filters → getAll params name = value.toList) :
    parseFiltersFromSearchParams params = filters := by
  have one : ∀ name value, (name, value) ∈ fields filters → get params name = value := by
    intro name value member
    rw [get_eq_head?, values name value member]
    cases value <;> rfl
  have q : truthyText (filters.q.map trim) = filters.q := by
    rw [map_trim_self fun text sent => (yielded.q text sent).1]
    exact truthyText_self fun blank => (yielded.q "" blank).2 rfl
  have again : (truthyText (filters.q.map trim)).map trim = filters.q.map trim := by
    rw [q]
  have priority : unlessEmpty
    ((pieces (listed (filters.priority.map (List.map Priority.text))).toList).filterMap toPriority) =
      filters.priority := by
    cases sent : filters.priority with
    | none => rfl
    | some priorities =>
        have named : (priorities.map Priority.text).filterMap toPriority = priorities := by
          rw [List.filterMap_map, show toPriority ∘ Priority.text = some from funext toPriority_text, List.filterMap_some]
        have some_ : priorities ≠ [] := fun empty => yielded.priority (by rw [sent, empty])
        obtain ⟨_, each⟩ := each_priority yielded.priority (priorities.map Priority.text) (by rw [sent]; rfl)
        have long : priorities.length > 0 := List.length_pos_iff.mpr some_
        have read := pieces_join (by simpa using some_) each
        simp [listed, Option.filter_some, long, read, named, unlessEmpty]
  have null : (if (if filters.dueDateNull = some true then some "null" else none) = some "null" then some true
      else none) = filters.dueDateNull := by
    cases sent : filters.dueDateNull with
    | none => rfl
    | some flag =>
        cases flag with
        | false => exact absurd sent yielded.dueDateNull
        | true => rfl
  unfold parseFiltersFromSearchParams collectList
  rw [one "q" _ (by simp [fields]; rfl), values "priority" _ (by simp [fields]; rfl),
    values "assigneeId" _ (by simp [fields]; rfl),
    values "labelId" _ (by simp [fields]; rfl), one "dueDate" _ (by simp [fields]; rfl),
    one "dueDate[gte]" _ (by simp [fields]; rfl), one "dueDate[lte]" _ (by simp [fields]; rfl)]
  rw [again, q, priority, pieces_listed yielded.assigneeId, pieces_listed yielded.labelId, null,
    truthyText_self yielded.dueDateGte, truthyText_self yielded.dueDateLte, truthyText_self yielded.dueDateGte,
    truthyText_self yielded.dueDateLte]

end RoundTrip

section Merge

variable {current : List Param} {filters : BoardTaskFilters}

def isFilterParam (param : Param) : Bool := FILTER_KEYS.contains param.1

theorem foldl_delete (keys : List String) (params : List Param) :
    keys.foldl (fun next key => if FILTER_KEYS.contains key then delete next key else next) params =
      params.filter fun param => !(keys.contains param.1 && isFilterParam param) := by
  induction keys generalizing params with
  | nil => simp
  | cons key rest ih =>
      rw [List.foldl_cons, ih]
      by_cases ours : FILTER_KEYS.contains key = true
      · rw [if_pos ours, delete, List.filter_filter]
        apply List.filter_congr
        intro param _
        by_cases own : param.1 = key
        · have mine : isFilterParam param = true := by rw [isFilterParam, own]; exact ours
          simp [own, mine]
        · simp [own]
      · rw [if_neg ours]
        apply List.filter_congr
        intro param _
        by_cases own : param.1 = key
        · have foreign : isFilterParam param = false := by rw [isFilterParam, own]; simpa using ours
          simp [foreign]
        · simp [own]

/-- The parameters that are no filter, and behind them the filter's. -/
theorem merge_eq (current : List Param) (filters : BoardTaskFilters) :
    mergeFiltersIntoSearchParams current filters =
      some ((current.filter fun param => !isFilterParam param) ++ serializeFiltersToSearchParams filters) := by
  have appended : ∀ (added next : List Param),
      added.foldl (fun next param => append next param.1 param.2) next = next ++ added := by
    intro added
    induction added with
    | nil => simp
    | cons param rest ih =>
        intro next
        rw [List.foldl_cons, ih, append, List.append_assoc]
        rfl
  rw [mergeFiltersIntoSearchParams, parse_serialize, Option.map_some]
  dsimp only
  rw [foldl_delete, appended]
  congr 2
  apply List.filter_congr
  intro param member
  have there : (current.map Prod.fst).contains param.1 = true := by
    simpa using ⟨param.2, member⟩
  rw [there, Bool.true_and]

theorem serialized_filter : ∀ param ∈ serializeFiltersToSearchParams filters, isFilterParam param = true := by
  intro param member
  rw [serialize_eq] at member
  obtain ⟨field, listed_, inside⟩ := List.mem_flatMap.mp member
  obtain ⟨text, _, rfl⟩ := List.mem_map.mp inside
  have name : field.1 ∈ (fields filters).map Prod.fst := List.mem_map_of_mem listed_
  rw [isFilterParam, List.contains_iff_mem]
  exact name

/-- A filter read from an address survives being merged into any parameters: it is read back, the
other parameters stay as they are, a second merge changes nothing, and the API reads its lists. -/
theorem filters_survive_the_address (params current : List Param) :
    ∃ merged, mergeFiltersIntoSearchParams current (parseFiltersFromSearchParams params) = some merged ∧
      parseFiltersFromSearchParams merged = parseFiltersFromSearchParams params ∧
      (merged.filter fun param => !isFilterParam param) = (current.filter fun param => !isFilterParam param) ∧
      mergeFiltersIntoSearchParams merged (parseFiltersFromSearchParams params) = some merged ∧
      let sent := serializeFiltersToSearchParams (parseFiltersFromSearchParams params)
      toStringList (getAll sent "priority") = (parseFiltersFromSearchParams params).priority.map (List.map Priority.text) ∧
      toStringList (getAll sent "assigneeId") = (parseFiltersFromSearchParams params).assigneeId ∧
      toStringList (getAll sent "labelId") = (parseFiltersFromSearchParams params).labelId := by
  have yielded := yielded_parse params
  generalize parseFiltersFromSearchParams params = filters at yielded ⊢
  have own : (serializeFiltersToSearchParams filters).filter (fun param => !isFilterParam param) = [] := by
    rw [List.filter_eq_nil_iff]
    intro param member
    rw [serialized_filter param member]
    decide
  have others : ((current.filter fun param => !isFilterParam param) ++ serializeFiltersToSearchParams filters).filter
      (fun param => !isFilterParam param) = current.filter fun param => !isFilterParam param := by
    rw [List.filter_append, own, List.append_nil, List.filter_filter]
    simp
  have ours : ∀ name value, (name, value) ∈ fields filters →
      getAll (serializeFiltersToSearchParams filters) name = value.toList := by
    intro name value member
    rw [serialize_eq]
    exact getAll_written (fields_distinct filters) member
  refine ⟨_, merge_eq current filters, parse_yielded yielded ?_, others, ?_, ?_, ?_, ?_⟩
  · intro name value member
    have foreign : getAll (current.filter fun param => !isFilterParam param) name = [] := by
      rw [getAll, List.map_eq_nil_iff, List.filter_eq_nil_iff]
      intro param there same
      have name_ : name ∈ (fields filters).map Prod.fst := List.mem_map.mpr ⟨_, member, rfl⟩
      have filtering : isFilterParam param = true := by
        rw [isFilterParam, List.contains_iff_mem, of_decide_eq_true same]
        exact name_
      simp [filtering] at there
    rw [getAll, List.filter_append, List.map_append]
    exact (congrArg₂ _ foreign (ours name value member)).trans (List.nil_append _)
  · rw [merge_eq, others]
  · rw [ours "priority" _ (by simp [fields]; rfl)]
    exact toStringList_listed (each_priority yielded.priority)
  · rw [ours "assigneeId" _ (by simp [fields]; rfl)]
    exact toStringList_listed yielded.assigneeId
  · rw [ours "labelId" _ (by simp [fields]; rfl)]
    exact toStringList_listed yielded.labelId

end Merge

end Kurul.Client.TaskQuery
