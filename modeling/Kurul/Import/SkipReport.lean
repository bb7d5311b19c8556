import Kurul.Import.ImportSkip

/-! The report of a collector. A call whose count is not positive adds nothing, whatever samples come with it. -/
namespace Kurul.Trello

namespace SkipCollector

/-- A call of `addMany`, or of `add` with its count of one. -/
structure Call where
  scope : TrelloImportScope
  reason : TrelloImportSkipReason
  count : Int := 1
  samples : List (Option JsString) := []

def Call.key (call : Call) : SkipKey := (call.scope, call.reason)

/-- What is left of a call behind the test of its count. -/
def Call.taken (call : Call) : Option SkipCall :=
  if call.count ≤ 0 then none
  else some {
    scope := call.scope
    reason := call.reason
    count := call.count.toNat
    samples := call.samples }

def addMany (groups : List SkipGroup) (call : Call) : List SkipGroup :=
  match call.taken with
  | none => groups
  | some taken => Trello.addMany groups taken

def report (calls : List Call) : List SkipGroup := toReport (calls.foldl addMany [])

end SkipCollector

open SkipCollector (Call)

/-- A sample as it is quoted, if it is. -/
def quoted (sample : Option JsString) : Option JsString :=
  let trimmed := trim (sample.getD [])
  if trimmed = [] then none else some (clampToLength trimmed SKIP_SAMPLE_MAX_LENGTH).value

def totalOf (key : SkipKey) (calls : List Call) : Int := ((calls.filter (·.key = key)).map Call.count).sum

def quotesOf (key : SkipKey) (calls : List Call) : List JsString :=
  ((calls.filter (·.key = key)).flatMap Call.samples).filterMap quoted

def outline (groups : List SkipGroup) : List (SkipKey × Nat) := groups.map fun group => (group.key, group.count)

/-- The report tells of these calls and of no more. -/
structure Reports (calls : List Call) (report : List SkipGroup) : Prop where
  apart : Apart report
  keys : ∀ key, key ∈ report.map SkipGroup.key ↔ 0 < totalOf key calls
  counts : ∀ group ∈ report, (group.count : Int) = totalOf group.key calls
  samples : ∀ group ∈ report, group.samples = (quotesOf group.key calls).take SKIP_SAMPLE_LIMIT
  bounded : ∀ group ∈ report, group.samples.length ≤ SKIP_SAMPLE_LIMIT ∧
    ∀ sample ∈ group.samples, sample.length ≤ SKIP_SAMPLE_MAX_LENGTH

section Samples

variable {sample : Option JsString} {text : JsString} {samples : List JsString} {more : List (Option JsString)}

theorem length_clampToLength (text : JsString) (maxLength : Nat) :
    (clampToLength text maxLength).value.length ≤ maxLength := by
  unfold clampToLength
  split
  · assumption
  · dsimp only
    have short : (text.take maxLength).length ≤ maxLength := List.length_take_le _ _
    split
    · rw [List.length_dropLast]
      omega
    · exact short

theorem length_quoted (quotes : quoted sample = some text) : text.length ≤ SKIP_SAMPLE_MAX_LENGTH := by
  unfold quoted at quotes
  dsimp only at quotes
  split at quotes
  · cases quotes
  · cases quotes
    exact length_clampToLength _ _

/-- Samples are taken until there are enough; a blank one is passed over. -/
theorem addSamples_eq (short : samples.length ≤ SKIP_SAMPLE_LIMIT) :
    addSamples samples more = (samples ++ more.filterMap quoted).take SKIP_SAMPLE_LIMIT := by
  induction more generalizing samples with
  | nil =>
      rw [addSamples, List.filterMap_nil, List.append_nil, List.take_of_length_le short]
  | cons sample rest ih =>
      rw [addSamples]
      split
      · rename_i full
        rw [List.take_append_of_le_length full, List.take_of_length_le short]
      · rename_i room
        dsimp only
        rw [List.filterMap_cons]
        split
        · rename_i blank
          rw [quoted, if_pos blank]
          exact ih short
        · rename_i some_
          rw [quoted, if_neg some_, ih (by simp; omega), List.append_assoc]
          rfl

end Samples

section Groups

variable {groups : List SkipGroup} {call : SkipCall} {key : SkipKey}

/-- What a call makes of the group it belongs to. -/
def SkipCall.onto (call : SkipCall) (group : Option SkipGroup) : SkipGroup where
  scope := call.scope
  reason := call.reason
  count := (group.elim 0 SkipGroup.count) + call.count
  samples := addSamples (group.elim [] SkipGroup.samples) call.samples

def groupOf (key : SkipKey) (groups : List SkipGroup) : Option SkipGroup := groups.find? (·.key = key)

theorem groupOf_bump (groups : List SkipGroup) (call : SkipCall) (key : SkipKey) (changed : SkipGroup → SkipGroup)
    (same : ∀ group, (changed group).key = group.key) :
    groupOf key (groups.map fun group => if group.key = call.key then changed group else group) =
      if key = call.key then (groupOf key groups).map changed else groupOf key groups := by
  induction groups with
  | nil =>
      unfold groupOf
      split <;> rfl
  | cons group rest ih =>
      unfold groupOf at ih ⊢
      by_cases own : group.key = call.key <;> by_cases asked : key = call.key
      · subst asked
        simp [own, same]
      · have other : group.key ≠ key := fun here => asked (here.symm.trans own)
        simpa [own, other, same, asked, Ne.symm asked] using ih
      · subst asked
        simpa [own] using ih
      · by_cases here : group.key = key
        · simp [asked, here]
        · simpa [own, asked, here] using ih

theorem groupOf_eq_none : groupOf key groups = none ↔ ¬groups.any (·.key = key) = true := by
  simp [groupOf]

/-- A call changes the group of its own key. -/
theorem groupOf_addMany (some_ : call.count ≠ 0) : groupOf key (addMany groups call) =
    if key = call.key then some (call.onto (groupOf key groups)) else groupOf key groups := by
  unfold addMany
  rw [if_neg some_]
  by_cases there : groups.any (·.key = call.key) = true
  · rw [if_pos there]
    have bumped := groupOf_bump groups call key (fun group => { group with
        count := group.count + call.count
        samples := addSamples group.samples call.samples }) fun _ => rfl
    rw [bumped]
    by_cases asked : key = call.key
    · subst asked
      rw [if_pos rfl, if_pos rfl]
      cases found : groupOf call.key groups with
      | none => exact absurd there (groupOf_eq_none.mp found)
      | some group =>
          have own : group.key = call.key := by simpa using List.find?_some found
          obtain ⟨scope, reason⟩ := Prod.mk.inj own
          simp [SkipCall.onto, scope, reason]
    · rw [if_neg asked, if_neg asked]
  · rw [if_neg there]
    by_cases asked : key = call.key
    · subst asked
      rw [if_pos rfl, groupOf_eq_none.mpr there]
      have missing := groupOf_eq_none.mpr there
      unfold groupOf at missing ⊢
      rw [List.find?_append, missing]
      simp [SkipCall.onto, SkipGroup.key, SkipCall.key]
    · rw [if_neg asked]
      have other : ¬decide ((⟨call.scope, call.reason, call.count, addSamples [] call.samples⟩ : SkipGroup).key =
        key) = true :=
        fun same => asked (of_decide_eq_true same).symm
      unfold groupOf
      rw [List.find?_append, List.find?_singleton, if_neg other, Option.or_none]

def callsOf (key : SkipKey) (calls : List SkipCall) : List SkipCall := calls.filter (·.key = key)

/-- The group that the calls come to. -/
def gathered (key : SkipKey) (calls : List SkipCall) : SkipGroup where
  scope := key.1
  reason := key.2
  count := countOf (· = key) calls
  samples := ((calls.flatMap SkipCall.samples).filterMap quoted).take SKIP_SAMPLE_LIMIT

theorem onto_gathered {calls : List SkipCall} : call.onto (some (gathered call.key calls)) =
    gathered call.key (calls ++ [call]) := by
  have samples : addSamples (((calls.flatMap SkipCall.samples).filterMap quoted).take SKIP_SAMPLE_LIMIT) call.samples =
      (((calls ++ [call]).flatMap SkipCall.samples).filterMap quoted).take SKIP_SAMPLE_LIMIT := by
    rw [addSamples_eq (List.length_take_le _ _), List.flatMap_append, List.filterMap_append]
    simp only [List.flatMap_cons, List.flatMap_nil, List.append_nil, List.take_append, List.take_take, List.length_take,
      Nat.min_self]
    congr 2
    omega
  have count : countOf (· = call.key) calls + call.count = countOf (· = call.key) (calls ++ [call]) := by
    simp [countOf_append, countOf_cons]
  simp only [SkipCall.onto, gathered, Option.elim_some, samples, count]
  rfl

theorem onto_none : call.onto none = gathered call.key [call] := by
  have samples : addSamples [] call.samples = ((([call] : List SkipCall).flatMap SkipCall.samples).filterMap quoted).take
      SKIP_SAMPLE_LIMIT := by
    rw [addSamples_eq (Nat.zero_le _), List.nil_append, List.flatMap_cons, List.flatMap_nil, List.append_nil]
  simp only [SkipCall.onto, gathered, Option.elim_none, samples, countOf_cons]
  simp [SkipCall.key]

/-- A collection holds the group of each key that was called for. -/
theorem groupOf_collect (key : SkipKey) (calls : List SkipCall) (counted : ∀ call ∈ calls, call.count ≠ 0) :
    groupOf key (collect calls) =
    if callsOf key calls = [] then none else some (gathered key (callsOf key calls)) := by
  induction calls using List.reverseRecOn with
  | nil => rfl
  | append_singleton calls call ih =>
      have before := ih fun other member => counted other (List.mem_append_left _ member)
      have some_ := counted call (by simp)
      rw [collect, List.foldl_append, List.foldl_cons, List.foldl_nil, groupOf_addMany some_]
      change (if key = call.key then some (call.onto (groupOf key (collect calls))) else groupOf key (collect calls)) = _
      rw [before]
      by_cases own : key = call.key
      · subst own
        have calls_ : callsOf call.key (calls ++ [call]) = callsOf call.key calls ++ [call] := by simp [callsOf]
        have called : callsOf call.key calls ++ [call] ≠ [] := List.append_ne_nil_of_right_ne_nil _ (by simp)
        rw [if_pos rfl, calls_, if_neg called]
        by_cases first : callsOf call.key calls = []
        · rw [if_pos first, first, onto_none]
          rfl
        · rw [if_neg first, onto_gathered]
      · have calls_ : callsOf key (calls ++ [call]) = callsOf key calls := by simp [callsOf, Ne.symm own]
        rw [if_neg own, calls_]

theorem mem_of_groupOf {group : SkipGroup} (found : groupOf key groups = some group) : group ∈ groups ∧ group.key = key :=
  ⟨List.mem_of_find?_eq_some found, by simpa using List.find?_some found⟩

theorem groupOf_of_mem (apart : Apart groups) {group : SkipGroup} (member : group ∈ groups) :
    groupOf group.key groups = some group := by
  induction groups with
  | nil => cases member
  | cons first rest ih =>
      obtain ⟨new, apart'⟩ := List.nodup_cons.mp apart
      unfold groupOf at ih ⊢
      rcases List.mem_cons.mp member with rfl | later
      · simp
      · have other : first.key ≠ group.key := fun same => new (List.mem_map.mpr ⟨group, later, same.symm⟩)
        rw [List.find?_cons_of_neg (by simpa using other)]
        exact ih apart' later

end Groups

section Report

variable {calls : List Call} {key : SkipKey}

/-- The calls that count. -/
def counted (calls : List Call) : List Call := calls.filter fun call => 0 < call.count

theorem foldl_addMany (calls : List Call) (groups : List SkipGroup) : calls.foldl SkipCollector.addMany groups =
    (calls.filterMap Call.taken).foldl addMany groups := by
  induction calls generalizing groups with
  | nil => rfl
  | cons call rest ih =>
      rw [List.foldl_cons, ih, List.filterMap_cons, SkipCollector.addMany]
      cases call.taken <;> rfl

theorem report_eq (calls : List Call) : SkipCollector.report calls = toReport (collect (calls.filterMap Call.taken)) := by
  rw [SkipCollector.report, foldl_addMany]
  rfl

theorem taken_counted {call : SkipCall} (member : call ∈ calls.filterMap Call.taken) : call.count ≠ 0 := by
  obtain ⟨given, _, taken⟩ := List.mem_filterMap.mp member
  unfold Call.taken at taken
  split at taken
  · cases taken
  · cases taken
    dsimp only
    omega

theorem callsOf_taken (key : SkipKey) (calls : List Call) : callsOf key (calls.filterMap Call.taken) =
    ((counted calls).filter (·.key = key)).filterMap Call.taken := by
  unfold callsOf counted
  rw [List.filter_filterMap, List.filterMap_filter, List.filterMap_filter]
  congr 1
  funext call
  by_cases some_ : call.count ≤ 0
  · have taken : call.taken = none := by rw [Call.taken, if_pos some_]
    have low : ¬0 < call.count := by omega
    simp [taken, low]
  · have taken : call.taken = some ⟨call.scope, call.reason, call.count.toNat, call.samples⟩ := by
      rw [Call.taken, if_neg some_]
    have high : 0 < call.count := by omega
    by_cases own : call.key = key
    · have own' : (call.scope, call.reason) = key := own
      simp [taken, high, own, own', Option.filter, SkipCall.key]
    · have own' : ¬(call.scope, call.reason) = key := own
      simp [taken, high, own, own', Option.filter, SkipCall.key]

theorem gathered_taken (key : SkipKey) (calls : List Call) (positive : ∀ call ∈ calls, 0 < call.count)
    (own : ∀ call ∈ calls, call.key = key) :
    ((countOf (· = key) (calls.filterMap Call.taken) : Nat) : Int) = (calls.map Call.count).sum ∧
      (calls.filterMap Call.taken).flatMap SkipCall.samples = calls.flatMap Call.samples := by
  induction calls with
  | nil => exact ⟨rfl, rfl⟩
  | cons call rest ih =>
      obtain ⟨high, positive⟩ := List.forall_mem_cons.mp positive
      obtain ⟨own, own'⟩ := List.forall_mem_cons.mp own
      obtain ⟨count, samples⟩ := ih positive own'
      have taken : call.taken = some ⟨call.scope, call.reason, call.count.toNat, call.samples⟩ := by
        rw [Call.taken, if_neg (by omega)]
      have own' : (⟨call.scope, call.reason, call.count.toNat, call.samples⟩ : SkipCall).key = key := own
      rw [List.filterMap_cons, taken]
      dsimp only
      refine ⟨?_, ?_⟩
      · rw [countOf_cons, own', List.map_cons, List.sum_cons, ← count]
        simp
        omega
      · rw [List.flatMap_cons, List.flatMap_cons, samples]

theorem counted_positive : ∀ call ∈ (counted calls).filter (·.key = key), 0 < call.count ∧ call.key = key := by
  intro call member
  obtain ⟨member, own⟩ := List.mem_filter.mp member
  exact ⟨by simpa using (List.mem_filter.mp member).2, by simpa using own⟩

theorem gathered_counted (key : SkipKey) (calls : List Call) :
    ((gathered key (callsOf key (calls.filterMap Call.taken))).count : Int) = totalOf key (counted calls) ∧
      (gathered key (callsOf key (calls.filterMap Call.taken))).samples =
        (quotesOf key (counted calls)).take SKIP_SAMPLE_LIMIT := by
  obtain ⟨count, samples⟩ := gathered_taken key ((counted calls).filter (·.key = key))
    (fun call member => (counted_positive call member).1) fun call member => (counted_positive call member).2
  refine ⟨?_, ?_⟩
  · rw [callsOf_taken]
    exact count
  · unfold gathered quotesOf
    rw [callsOf_taken, samples]

/-- Something was called for under a key exactly where the counts that count come to something. -/
theorem callsOf_ne_nil (key : SkipKey) (calls : List Call) : callsOf key (calls.filterMap Call.taken) ≠ [] ↔
    0 < totalOf key (counted calls) := by
  have positive : ∀ more : List Call, (∀ call ∈ more, 0 < call.count) → (more ≠ [] ↔ 0 < (more.map Call.count).sum) := by
    intro more
    induction more with
    | nil => simp
    | cons call rest ih =>
        intro positive
        obtain ⟨high, positive⟩ := List.forall_mem_cons.mp positive
        have rest_ : 0 ≤ (rest.map Call.count).sum := by
          by_cases none_ : rest = []
          · simp [none_]
          · exact ((ih positive).mp none_).le
        rw [List.map_cons, List.sum_cons]
        constructor
        · intro _
          omega
        · intro _
          simp
  rw [callsOf_taken, totalOf, ← positive _ fun call member => (counted_positive call member).1, ne_eq, ne_eq, not_iff_not,
    List.filterMap_eq_nil_iff, List.eq_nil_iff_forall_not_mem]
  refine forall₂_congr fun call member => ?_
  have high := (counted_positive call member).1
  have taken : call.taken = some ⟨call.scope, call.reason, call.count.toNat, call.samples⟩ := by
    rw [Call.taken, if_neg (by omega)]
  simp [taken]

theorem mem_report {group : SkipGroup} : group ∈ SkipCollector.report calls ↔
    group ∈ collect (calls.filterMap Call.taken) := by
  rw [report_eq, toReport, List.mem_insertionSort]

theorem report_group {group : SkipGroup} (member : group ∈ SkipCollector.report calls) :
    callsOf group.key (calls.filterMap Call.taken) ≠ [] ∧
      group = gathered group.key (callsOf group.key (calls.filterMap Call.taken)) := by
  have apart := (collect_spec (fun _ => true) (calls.filterMap Call.taken)).1
  have found := groupOf_of_mem apart (mem_report.mp member)
  rw [groupOf_collect _ _ fun call => taken_counted] at found
  split at found
  · cases found
  · rename_i some_
    exact ⟨some_, (Option.some.inj found).symm⟩

/-- The report tells of the calls whose count is positive. -/
theorem report_counted (calls : List Call) : Reports (counted calls) (SkipCollector.report calls) where
  apart := by
    have apart := (collect_spec (fun _ => true) (calls.filterMap Call.taken)).1
    rw [report_eq]
    exact ((List.perm_insertionSort _ _).map SkipGroup.key).nodup_iff.mpr apart
  keys := by
    intro key
    rw [← callsOf_ne_nil]
    constructor
    · intro listed
      obtain ⟨group, member, rfl⟩ := List.mem_map.mp listed
      exact (report_group member).1
    · intro some_
      have found := groupOf_collect key (calls.filterMap Call.taken) fun call => taken_counted
      rw [if_neg some_] at found
      obtain ⟨member, same⟩ := mem_of_groupOf found
      exact List.mem_map.mpr ⟨_, mem_report.mpr member, same⟩
  counts := by
    intro group member
    obtain ⟨_, same⟩ := report_group member
    rw [same]
    exact (gathered_counted group.key calls).1
  samples := by
    intro group member
    obtain ⟨_, same⟩ := report_group member
    rw [same]
    exact (gathered_counted group.key calls).2
  bounded := by
    intro group member
    obtain ⟨_, same⟩ := report_group member
    rw [same, (gathered_counted group.key calls).2]
    refine ⟨List.length_take_le _ _, fun sample listed => ?_⟩
    obtain ⟨_, _, quotes⟩ := List.mem_filterMap.mp (List.mem_of_mem_take listed)
    exact length_quoted quotes

end Report

section Order

variable {calls more : List Call} {key : SkipKey}

def rankOf (key : SkipKey) : Nat ×ₗ Nat := toLex (key.1.order, key.2.order)

theorem scope_order_injective : Function.Injective TrelloImportScope.order := by
  intro a b same
  cases a <;> cases b <;> first | rfl | cases same

theorem reason_order_injective : Function.Injective TrelloImportSkipReason.order := by
  intro a b same
  cases a <;> cases b <;> first | rfl | cases same

theorem rankOf_injective : Function.Injective rankOf := by
  intro a b same
  obtain ⟨scope, reason⟩ := Prod.mk.inj (toLex.injective same)
  exact Prod.ext (scope_order_injective scope) (reason_order_injective reason)

theorem totalOf_perm (perm : calls.Perm more) (key : SkipKey) : totalOf key (counted calls) = totalOf key (counted more) :=
  ((((perm.filter _).filter _)).map Call.count).sum_eq

theorem mem_outline {count : Nat} : (key, count) ∈ outline (SkipCollector.report calls) ↔
    0 < totalOf key (counted calls) ∧ (count : Int) = totalOf key (counted calls) := by
  have told := report_counted calls
  constructor
  · intro member
    obtain ⟨group, listed, same⟩ := List.mem_map.mp member
    obtain ⟨rfl, rfl⟩ := Prod.mk.inj same
    exact ⟨(told.keys group.key).mp (List.mem_map_of_mem listed), told.counts group listed⟩
  · rintro ⟨some_, same⟩
    obtain ⟨group, member, rfl⟩ := List.mem_map.mp ((told.keys key).mpr some_)
    have equal : count = group.count := by
      have here := told.counts group member
      omega
    rw [equal]
    exact List.mem_map_of_mem member

theorem outline_nodup (calls : List Call) : (outline (SkipCollector.report calls)).Nodup := by
  have apart := (report_counted calls).apart
  refine List.Nodup.of_map Prod.fst ?_
  rw [outline, List.map_map]
  exact apart

theorem outline_sorted (calls : List Call) :
    (outline (SkipCollector.report calls)).Pairwise fun a b => rankOf a.1 ≤ rankOf b.1 := by
  rw [outline, List.pairwise_map, report_eq]
  exact List.pairwise_insertionSort _ _

/-- The groups and their counts come in one order, in whatever order the calls came. -/
theorem outline_perm (perm : calls.Perm more) :
    outline (SkipCollector.report calls) = outline (SkipCollector.report more) := by
  refine List.Perm.eq_of_pairwise ?_ (outline_sorted calls) (outline_sorted more) ?_
  · rintro ⟨key, count⟩ ⟨key', count'⟩ member member' before after
    obtain rfl : key = key' := rankOf_injective (le_antisymm before after)
    have here := (mem_outline.mp member).2
    have there := (mem_outline.mp member').2
    rw [totalOf_perm perm] at here
    have equal : count = count' := by omega
    rw [equal]
  · rw [List.perm_ext_iff_of_nodup (outline_nodup calls) (outline_nodup more)]
    rintro ⟨key, count⟩
    rw [mem_outline, mem_outline, totalOf_perm perm]

end Order

/-- What the report says of the calls that count is exact and bounded, and it says it in one order. -/
theorem report_exact (calls : List Call) : Reports (counted calls) (SkipCollector.report calls) ∧
    ∀ more, calls.Perm more → outline (SkipCollector.report more) = outline (SkipCollector.report calls) :=
  ⟨report_counted calls, fun _ perm => (outline_perm perm).symm⟩

/-- Three cards and minus five cards. -/
def threeAndLess : List Call := [⟨.Card, .Archived, 3, []⟩, ⟨.Card, .Archived, -5, []⟩]

theorem negative_count_ignored : ¬Reports threeAndLess (SkipCollector.report threeAndLess) := by
  intro told
  have listed : (.Card, .Archived) ∈ (SkipCollector.report threeAndLess).map SkipGroup.key := by decide
  have some_ := (told.keys _).mp listed
  have total : totalOf (.Card, .Archived) threeAndLess = -2 := by decide
  omega

end Kurul.Trello
