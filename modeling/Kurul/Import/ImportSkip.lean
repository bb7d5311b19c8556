import Kurul.Import.TrelloExport

/-! The report of an import: what was not carried across, counted by scope and reason, with
a few samples of each. -/
namespace Kurul.Trello

def SKIP_SAMPLE_LIMIT : Nat := 20
def SKIP_SAMPLE_MAX_LENGTH : Nat := 2048

/-- The order of declaration. -/
def TrelloImportScope.order : TrelloImportScope → Nat
  | .List => 0
  | .Column => 1
  | .Card => 2
  | .Label => 3
  | .Checklist => 4
  | .ChecklistItem => 5
  | .Attachment => 6
  | .Member => 7
  | .Comment => 8

def TrelloImportSkipReason.order : TrelloImportSkipReason → Nat
  | .OutOfScope => 0
  | .Archived => 1
  | .Unmappable => 2
  | .UnsupportedScheme => 3
  | .Malformed => 4
  | .Defaulted => 5

abbrev SkipKey := TrelloImportScope × TrelloImportSkipReason

/-- One call of `addMany`. -/
structure SkipCall where
  scope : TrelloImportScope
  reason : TrelloImportSkipReason
  count : Nat := 1
  samples : List (Option JsString) := []

structure SkipGroup where
  scope : TrelloImportScope
  reason : TrelloImportSkipReason
  count : Nat
  samples : List JsString

def SkipCall.key (call : SkipCall) : SkipKey := (call.scope, call.reason)

def SkipGroup.key (group : SkipGroup) : SkipKey := (group.scope, group.reason)

/-- `add`: one item, with a name when there is one. -/
def skip (scope : TrelloImportScope) (reason : TrelloImportSkipReason) (sample : Option JsString) : SkipCall :=
  { scope, reason, samples := if sample.isSome then [sample] else [] }

def addSamples (samples : List JsString) : List (Option JsString) → List JsString
  | [] => samples
  | sample :: rest =>
      if samples.length ≥ SKIP_SAMPLE_LIMIT then samples
      else
        let trimmed := trim (sample.getD [])
        if trimmed = [] then addSamples samples rest
        else addSamples (samples ++ [(clampToLength trimmed SKIP_SAMPLE_MAX_LENGTH).value]) rest

def addMany (groups : List SkipGroup) (call : SkipCall) : List SkipGroup :=
  if call.count = 0 then groups
  else if groups.any (·.key = call.key) then
    groups.map fun group =>
      if group.key = call.key then { group with
        count := group.count + call.count
        samples := addSamples group.samples call.samples }
      else group
  else groups ++ [{
    scope := call.scope
    reason := call.reason
    count := call.count
    samples := addSamples [] call.samples }]

def collect (calls : List SkipCall) : List SkipGroup := calls.foldl addMany []

/-- By scope, then by reason. -/
def SkipGroup.rank (group : SkipGroup) : Nat ×ₗ Nat := toLex (group.scope.order, group.reason.order)

def toReport (groups : List SkipGroup) : List SkipGroup := groups.insertionSort fun a b => a.rank ≤ b.rank

/-- What the calls come to under the keys that are asked for. -/
def countOf (P : SkipKey → Bool) (calls : List SkipCall) : Nat :=
  ((calls.filter fun call => P call.key).map SkipCall.count).sum

def reported (P : SkipKey → Bool) (groups : List SkipGroup) : Nat :=
  ((groups.filter fun group => P group.key).map SkipGroup.count).sum

section Counts

variable {P : SkipKey → Bool} {calls : List SkipCall} {groups : List SkipGroup} {call : SkipCall}

@[simp] theorem countOf_nil : countOf P [] = 0 := rfl

theorem countOf_cons : countOf P (call :: calls) = (if P call.key then call.count else 0) + countOf P calls := by
  unfold countOf
  by_cases asked : P call.key <;> simp [asked]

@[simp] theorem countOf_append {more : List SkipCall} :
    countOf P (calls ++ more) = countOf P calls + countOf P more := by
  simp [countOf]

theorem countOf_perm {more : List SkipCall} (perm : calls.Perm more) : countOf P calls = countOf P more :=
  ((perm.filter _).map _).sum_eq

theorem countOf_flatMap {α : Type} {items : List α} {f : α → List SkipCall} :
    countOf P (items.flatMap f) = (items.map fun item => countOf P (f item)).sum := by
  induction items with
  | nil => rfl
  | cons item rest ih => simp [ih]

/-- No two groups of one scope and reason. -/
def Apart (groups : List SkipGroup) : Prop := (groups.map SkipGroup.key).Nodup

theorem keys_addMany_same (there : groups.any (·.key = call.key) = true) (some_ : call.count ≠ 0) :
    (addMany groups call).map SkipGroup.key = groups.map SkipGroup.key := by
  unfold addMany
  rw [if_neg some_, if_pos there, List.map_map]
  apply List.map_congr_left
  intro group _
  simp only [Function.comp]
  split <;> rfl

theorem Apart.addMany (apart : Apart groups) : Apart (addMany groups call) := by
  by_cases none_ : call.count = 0
  · unfold Trello.addMany
    rw [if_pos none_]
    exact apart
  · by_cases there : groups.any (·.key = call.key) = true
    · rw [Apart, keys_addMany_same there none_]
      exact apart
    · unfold Trello.addMany
      rw [if_neg none_, if_neg there, Apart, List.map_append]
      apply List.Nodup.append apart (List.nodup_singleton _)
      intro key listed same
      obtain ⟨group, member, rfl⟩ := List.mem_map.mp listed
      apply there
      rw [List.any_eq_true]
      exact ⟨group, member, by simpa [SkipGroup.key, SkipCall.key] using List.mem_singleton.mp same⟩

theorem reported_cons {group : SkipGroup} :
    reported P (group :: groups) = (if P group.key then group.count else 0) + reported P groups := by
  unfold reported
  by_cases asked : P group.key <;> simp [asked]

theorem reported_append {more : List SkipGroup} :
    reported P (groups ++ more) = reported P groups + reported P more := by
  simp [reported]

/-- A group of its own takes the call's count. -/
theorem reported_bump (apart : Apart groups) (there : groups.any (·.key = call.key) = true)
    (samples : SkipGroup → List JsString) :
    reported P (groups.map fun group =>
      if group.key = call.key then { group with count := group.count + call.count, samples := samples group }
      else group) = reported P groups + if P call.key then call.count else 0 := by
  induction groups with
  | nil => simp at there
  | cons group rest ih =>
      obtain ⟨new, apart'⟩ := List.nodup_cons.mp apart
      rw [List.map_cons, reported_cons, reported_cons]
      by_cases own : group.key = call.key
      · have others : (rest.map fun group =>
            if group.key = call.key then { group with count := group.count + call.count, samples := samples group }
            else group) = rest := by
          apply (List.map_congr_left ?_).trans (List.map_id _)
          intro other member
          rw [if_neg]
          · rfl
          · intro same
            exact new (List.mem_map.mpr ⟨other, member, same.trans own.symm⟩)
        rw [others, if_pos own]
        have key : ({ group with count := group.count + call.count, samples := samples group } : SkipGroup).key =
            call.key := own
        rw [key, own]
        split
        · dsimp only
          omega
        · omega
      · have there' : rest.any (·.key = call.key) = true := by simpa [own] using there
        rw [if_neg own, ih apart' there']
        omega

theorem reported_addMany (apart : Apart groups) :
    reported P (addMany groups call) = reported P groups + if P call.key then call.count else 0 := by
  unfold addMany
  split
  · rename_i none_
    simp [none_]
  · split
    · rename_i there
      exact reported_bump apart there fun group => addSamples group.samples call.samples
    · rw [reported_append]
      congr 1
      exact reported_cons.trans (Nat.add_zero _)

theorem collect_spec (P : SkipKey → Bool) (calls : List SkipCall) :
    Apart (collect calls) ∧ reported P (collect calls) = countOf P calls := by
  have folded : ∀ groups, Apart groups → Apart (calls.foldl addMany groups) ∧
      reported P (calls.foldl addMany groups) = reported P groups + countOf P calls := by
    induction calls with
    | nil => exact fun groups apart => ⟨apart, rfl⟩
    | cons call rest ih =>
        intro groups apart
        obtain ⟨apart', sum⟩ := ih (addMany groups call) apart.addMany
        refine ⟨apart', ?_⟩
        rw [List.foldl_cons, sum, reported_addMany apart, countOf_cons]
        omega
  obtain ⟨apart, sum⟩ := folded [] List.nodup_nil
  exact ⟨apart, by rw [collect, sum]; simp [reported]⟩

/-- The report counts what was skipped. -/
theorem reported_report (P : SkipKey → Bool) (calls : List SkipCall) :
    reported P (toReport (collect calls)) = countOf P calls := by
  rw [← (collect_spec P calls).2]
  exact (((List.perm_insertionSort _ _).filter _).map _).sum_eq

end Counts
end Kurul.Trello
