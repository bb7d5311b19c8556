import Kurul.Import.ImportOrder
import Kurul.Sequence.Grouping

/-! Every entry of a Trello export is accounted for: it becomes one row, or the report counts it
once under its scope. -/
namespace Kurul.Trello

open Draw Sequence

variable {ι β γ δ : Type}

/-- A dropped entry for one of these reasons. -/
def drops (P : TrelloImportSkipReason → Bool) : Except TrelloImportSkipReason δ → Bool
  | .ok _ => false
  | .error reason => P reason

/-- What an entry comes to: an unreadable one is malformed. -/
def fate (read : Value → Option γ) (verdict : γ → Except TrelloImportSkipReason δ) (entry : Value) :
    Except TrelloImportSkipReason γ :=
  match read entry with
  | none => .error .Malformed
  | some row => (verdict row).map fun _ => row

/-- The skips of a scope for one of these reasons. -/
def asks (scope : TrelloImportScope) (P : TrelloImportSkipReason → Bool) (key : SkipKey) : Bool := key.1 = scope && P key.2

/-- Some of the entries become the rows, one each, and the others are counted, each once and
under one reason, which is no default. -/
def AccountedFor (scope : TrelloImportScope) (raw : List Value) (becomes : Value → β → Prop) (rows : List β)
    (report : List SkipGroup) : Prop :=
  ∃ (imported : List Value) (skipped : List (Value × TrelloImportSkipReason)),
    raw.Perm (imported ++ skipped.map Prod.fst) ∧ List.Forall₂ becomes imported rows ∧
    (∀ entry ∈ skipped, entry.2 ≠ .Defaulted) ∧
    ∀ P : TrelloImportSkipReason → Bool, P .Defaulted = false →
      reported (asks scope P) report = skipped.countP fun entry => P entry.2

/-- Imported and skipped come to the length of the array. -/
theorem AccountedFor.sum {scope : TrelloImportScope} {raw : List Value} {becomes : Value → β → Prop} {rows : List β}
    {report : List SkipGroup} (accounted : AccountedFor scope raw becomes rows report) :
    rows.length + reported (asks scope fun reason => reason ≠ .Defaulted) report = raw.length := by
  obtain ⟨imported, skipped, perm, into, sober, counted⟩ := accounted
  have all : (skipped.countP fun entry => decide (entry.2 ≠ .Defaulted)) = skipped.length := by
    rw [List.countP_eq_length]
    exact fun entry member => decide_eq_true (sober entry member)
  rw [counted (fun reason => decide (reason ≠ .Defaulted)) (by simp), all, ← into.length_eq, perm.length_eq,
    List.length_append, List.length_map]

section Entries

variable {read : Value → Option γ} {verdict : γ → Except TrelloImportSkipReason δ}

/-- The entries that are imported, with what is read from them. -/
def taken (read : Value → Option γ) (verdict : γ → Except TrelloImportSkipReason δ) (raw : List Value) :
    List (Value × γ) :=
  raw.filterMap fun entry => (fate read verdict entry).toOption.map (entry, ·)

/-- The entries that are not, with the reason. -/
def leftOut (read : Value → Option γ) (verdict : γ → Except TrelloImportSkipReason δ) (raw : List Value) :
    List (Value × TrelloImportSkipReason) :=
  raw.filterMap fun entry =>
    match fate read verdict entry with
    | .ok _ => none
    | .error reason => some (entry, reason)

theorem taken_leftOut (raw : List Value) :
    raw.Perm ((taken read verdict raw).map Prod.fst ++ (leftOut read verdict raw).map Prod.fst) := by
  induction raw with
  | nil => exact List.Perm.refl _
  | cons entry rest ih =>
      cases ends : fate read verdict entry with
      | ok row => simpa [taken, leftOut, ends, Except.toOption] using ih.cons entry
      | error reason =>
          have moved := (ih.cons entry).trans List.perm_middle.symm
          simpa [taken, leftOut, ends, Except.toOption] using moved

theorem taken_rows (raw : List Value) : (taken read verdict raw).map Prod.snd =
    (raw.filterMap read).filter fun row => (verdict row).toOption.isSome := by
  induction raw with
  | nil => rfl
  | cons entry rest ih =>
      cases found : read entry with
      | none => simpa [taken, fate, found, Except.toOption] using ih
      | some row =>
          cases ends : verdict row <;> simpa [taken, fate, found, ends, Except.toOption, Except.map] using ih

theorem taken_read {entry : Value × γ} {raw : List Value} (member : entry ∈ taken read verdict raw) :
    read entry.1 = some entry.2 := by
  obtain ⟨value, _, made⟩ := List.mem_filterMap.mp member
  obtain ⟨row, kept, rfl⟩ := Option.map_eq_some_iff.mp made
  cases found : read value with
  | none => simp [fate, found, Except.toOption] at kept
  | some row' =>
      cases ends : verdict row' <;> simp [fate, found, ends, Except.toOption, Except.map] at kept
      exact congrArg some kept

theorem leftOut_countP (P : TrelloImportSkipReason → Bool) (raw : List Value) :
    (leftOut read verdict raw).countP (fun entry => P entry.2) =
      (raw.countP fun entry => (read entry).isNone && P .Malformed) +
        (raw.filterMap read).countP fun row => drops P (verdict row) := by
  induction raw with
  | nil => rfl
  | cons entry rest ih =>
      cases found : read entry with
      | none =>
          simp only [leftOut, List.filterMap_cons, fate, found, List.countP_cons] at ih ⊢
          simp [ih]
          omega
      | some row =>
          cases ends : verdict row with
          | ok _ =>
              simp only [leftOut, List.filterMap_cons, fate, found, ends, Except.map, List.countP_cons, drops] at ih ⊢
              simp [ih]
          | error reason =>
              simp only [leftOut, List.filterMap_cons, fate, found, ends, Except.map, List.countP_cons, drops] at ih ⊢
              simp [ih]
              omega

/-- A section whose rows come from the entries that are taken, and whose skips are counted. -/
theorem accountedFor (read : Value → Option γ) (verdict : γ → Except TrelloImportSkipReason δ)
    {scope : TrelloImportScope} {raw : List Value} {kept : List γ} {rows : List β} {R : γ → β → Prop}
    {report : List SkipGroup} (perm : kept.Perm ((raw.filterMap read).filter fun row => (verdict row).toOption.isSome))
    (into : List.Forall₂ R kept rows) (sober : ∀ row reason, verdict row = .error reason → reason ≠ .Defaulted)
    (counted : ∀ P : TrelloImportSkipReason → Bool, P .Defaulted = false →
      reported (asks scope P) report =
        (raw.countP fun entry => (read entry).isNone && P .Malformed) +
          (raw.filterMap read).countP fun row => drops P (verdict row)) :
    AccountedFor scope raw (fun entry row => ∃ x, read entry = some x ∧ R x row) rows report := by
  rw [← taken_rows] at perm
  obtain ⟨moved, order, rfl⟩ := exists_perm_of_map perm
  refine ⟨moved.map Prod.fst, leftOut read verdict raw, ?_, ?_, ?_, ?_⟩
  · exact (taken_leftOut raw).trans ((order.map Prod.fst).symm.append_right _)
  · rw [List.forall₂_map_left_iff] at into ⊢
    have known : ∀ entry ∈ moved, read entry.1 = some entry.2 := fun entry member => taken_read (order.subset member)
    exact ((List.forall₂_and_left _ _).mpr ⟨known, into⟩).imp fun entry row both => ⟨entry.2, both.1, both.2⟩
  · rintro ⟨entry, reason⟩ member
    obtain ⟨value, _, made⟩ := List.mem_filterMap.mp member
    cases found : read value with
    | none =>
        simp only [fate, found, Option.some.injEq, Prod.mk.injEq] at made
        change reason ≠ .Defaulted
        rw [← made.2]
        decide
    | some row =>
        cases ends : verdict row with
        | ok _ => simp [fate, found, ends, Except.map] at made
        | error why =>
            simp only [fate, found, ends, Except.map, Option.some.injEq, Prod.mk.injEq] at made
            exact made.2 ▸ sober row why ends
  · intro P silent
    rw [counted P silent, leftOut_countP]

end Entries


section Reading

/-- The issues of the entries that cannot be read. -/
def malformed (scope : TrelloImportScope) (read : Value → Option γ) (raw : List Value) : List TrelloReadIssue :=
  raw.filterMap fun entry => if (read entry).isNone then some ⟨scope, .Malformed, sampleOf entry⟩ else none

/-- The scopes whose entries are accounted for. -/
def mainScopes : List TrelloImportScope := [.List, .Card, .Checklist]

/-- What is read of the three arrays, and the issues that are about them. -/
structure ReadFrom (lists cards checklists : List Value) (read : TrelloExportReadResult) : Prop where
  fromLists : read.source.lists = lists.filterMap readList
  fromCards : read.source.cards = cards.filterMap readCard
  fromChecklists : read.source.checklists = checklists.filterMap fun entry => (readChecklist entry).row
  issues : ∃ aside : List TrelloReadIssue, (∀ issue ∈ aside, issue.scope ∉ mainScopes) ∧
    read.issues.Perm (malformed .List readList lists ++ malformed .Card readCard cards ++
      malformed .Checklist (fun entry => (readChecklist entry).row) checklists ++ aside)

theorem flatMap_entryIssues (scope : TrelloImportScope) (read : Value → EntryRead γ) (raw : List Value) :
    (raw.flatMap (entryIssues scope read)).Perm
      (malformed scope (fun entry => (read entry).row) raw ++ raw.flatMap fun entry => (read entry).issues) := by
  have own : malformed scope (fun entry => (read entry).row) raw =
      raw.flatMap fun entry => if (read entry).row.isNone then [⟨scope, .Malformed, sampleOf entry⟩] else [] := by
    induction raw with
    | nil => rfl
    | cons entry rest ih =>
        cases found : (read entry).row <;> simp [malformed, found] at ih ⊢ <;> exact ih
  rw [own]
  exact (List.flatMap_append_perm raw _ _).symm.trans List.perm_append_comm

theorem flatMap_ownIssues (scope : TrelloImportScope) (read : Value → Option γ) (raw : List Value) :
    (raw.flatMap (entryIssues scope fun entry => ⟨read entry, []⟩)).Perm (malformed scope read raw) := by
  have both := flatMap_entryIssues scope (fun entry => (⟨read entry, []⟩ : EntryRead γ)) raw
  have inside : (raw.flatMap fun entry => (⟨read entry, []⟩ : EntryRead γ).issues) = [] :=
    List.flatMap_eq_nil_iff.mpr fun _ _ => rfl
  rw [inside, List.append_nil] at both
  exact both

theorem inner_scope {entry : Value} {issue : TrelloReadIssue} (member : issue ∈ (readChecklist entry).issues) :
    issue.scope = .ChecklistItem := by
  cases entry with
  | obj fields =>
      simp only [readChecklist] at member
      split at member
      · cases member
      · split at member <;>
        · obtain ⟨item, _, made⟩ := List.mem_filterMap.mp member
          split at made
          · obtain rfl := Option.some.inj made
            rfl
          · cases made
  | null => cases member
  | bool _ => cases member
  | num _ => cases member
  | str _ => cases member
  | arr _ => cases member

end Reading

section Counting

variable {scope : TrelloImportScope} {P : TrelloImportSkipReason → Bool}

theorem countOf_none {P : SkipKey → Bool} {calls : List SkipCall} (none_ : ∀ call ∈ calls, P call.key = false) :
    countOf P calls = 0 := by
  have empty : calls.filter (fun call => P call.key) = [] := by
    rw [List.filter_eq_nil_iff]
    exact fun call member => by simp [none_ call member]
  rw [countOf, empty]
  rfl

/-- A call that has no part in the account. -/
def Aside (call : SkipCall) : Prop := call.reason = .Defaulted ∨ call.scope ∉ mainScopes

theorem countOf_aside (main : scope ∈ mainScopes) (silent : P .Defaulted = false) {calls : List SkipCall}
    (aside : ∀ call ∈ calls, Aside call) : countOf (asks scope P) calls = 0 := by
  apply countOf_none
  intro call member
  rcases aside call member with default_ | other
  · simp [asks, SkipCall.key, default_, silent]
  · have different : call.scope ≠ scope := fun same => other (same ▸ main)
    simp [asks, SkipCall.key, different]

/-- One call for each item that is dropped. -/
theorem countOf_drops {skips : γ → List SkipCall} {verdict : γ → Except TrelloImportSkipReason δ} {own : TrelloImportScope}
    (each : ∀ item, countOf (asks scope P) (skips item) = if own = scope then (drops P (verdict item)).toNat else 0)
    (items : List γ) :
    countOf (asks scope P) (items.flatMap skips) =
      if own = scope then items.countP (fun item => drops P (verdict item)) else 0 := by
  rw [countOf_flatMap]
  simp only [each]
  split
  · induction items with
    | nil => rfl
    | cons item rest ih =>
        rw [List.map_cons, List.sum_cons, ih, List.countP_cons]
        cases drops P (verdict item) <;> simp [Nat.add_comm]
  · simp

/-- One issue for each entry that cannot be read. -/
theorem countOf_malformed {own : TrelloImportScope} (read : Value → Option γ) (raw : List Value) :
    countOf (asks scope P) ((malformed own read raw).map fun issue => skip issue.scope issue.reason issue.sample) =
      if own = scope then raw.countP (fun entry => (read entry).isNone && P .Malformed) else 0 := by
  induction raw with
  | nil => simp [malformed]
  | cons entry rest ih =>
      cases found : read entry with
      | some row => simpa [malformed, found] using ih
      | none =>
          simp only [malformed, List.filterMap_cons, found, Option.isNone_none, if_true, List.map_cons, countOf_cons,
            List.countP_cons, Bool.true_and] at ih ⊢
          rw [ih]
          by_cases same : own = scope <;> cases asked : P .Malformed <;>
            simp [asks, SkipCall.key, skip, same, asked, Nat.add_comm]

end Counting

section Verdicts

/-- What a list comes to. -/
def listVerdict (list : TrelloList) : Except TrelloImportSkipReason Unit :=
  if list.closed then .error .Archived else if isUnnamed list.name then .error .Malformed else .ok ()

theorem listVerdict_isSome (list : TrelloList) : (listVerdict list).toOption.isSome = isLive list := by
  unfold listVerdict isLive
  cases list.closed <;> cases isUnnamed list.name <;> rfl

theorem countOf_listSkips (scope : TrelloImportScope) (P : TrelloImportSkipReason → Bool) (list : TrelloList) :
    countOf (asks scope P) (listSkips list) =
      if TrelloImportScope.List = scope then (drops P (listVerdict list)).toNat else 0 := by
  unfold listSkips listVerdict
  by_cases same : TrelloImportScope.List = scope <;> cases list.closed <;> cases isUnnamed list.name <;>
    simp [countOf_cons, asks, SkipCall.key, skip, drops, same, Bool.toNat, Bool.cond_eq_ite]

theorem countOf_cardSkips (scope : TrelloImportScope) (P : TrelloImportSkipReason → Bool)
    (verdict : TrelloCard → Except TrelloImportSkipReason ι) (card : TrelloCard) :
    countOf (asks scope P) (cardSkips verdict card) =
      if TrelloImportScope.Card = scope then (drops P (verdict card)).toNat else 0 := by
  unfold cardSkips
  by_cases same : TrelloImportScope.Card = scope <;> cases verdict card <;>
    simp [countOf_cons, asks, SkipCall.key, skip, drops, same, Bool.toNat, Bool.cond_eq_ite]

theorem countOf_checklistSkips (scope : TrelloImportScope) (P : TrelloImportSkipReason → Bool)
    (verdict : TrelloChecklist → Except TrelloImportSkipReason ι) (checklist : TrelloChecklist) :
    countOf (asks scope P) (checklistSkips verdict checklist) =
      if TrelloImportScope.Checklist = scope then (drops P (verdict checklist)).toNat else 0 := by
  unfold checklistSkips
  by_cases same : TrelloImportScope.Checklist = scope <;> cases verdict checklist <;>
    simp [countOf_cons, asks, SkipCall.key, skip, drops, same, Bool.toNat, Bool.cond_eq_ite]

end Verdicts

section Aside

variable {runtime : Runtime} {supply : Nat → ι} {call : SkipCall} {n : Nat}

theorem planTaskLabels_log [DecidableEq ι] (known : JsString → Option ι) (taskId : ι) (title : JsString)
    (attached : List ι) (labels : List JsString)
    (member : call ∈ (planTaskLabels supply known taskId title attached labels n).log) : call.scope = .Label := by
  induction labels generalizing attached n with
  | nil => cases member
  | cons label rest ih =>
      cases found : known label with
      | none =>
          simp only [planTaskLabels, found, bind_apply, tell_apply, List.singleton_append, List.mem_cons] at member
          rcases member with rfl | later
          · rfl
          · exact ih attached later
      | some labelId =>
          by_cases old : labelId ∈ attached
          · simp only [planTaskLabels, found, old, if_true] at member
            exact ih attached member
          · simp only [planTaskLabels, found, old, if_false, bind_apply, fresh_apply, uuidv7, pure_apply,
              List.nil_append, List.append_nil] at member
            exact ih (labelId :: attached) member

theorem planAttachment_log {actorId : Id} {taskId : ι} {attachment : TrelloAttachment}
    (member : call ∈ (planAttachment runtime supply actorId taskId attachment n).log) : call.scope = .Attachment := by
  cases ends : classifyUrl runtime attachment.url with
  | error reason =>
      simp only [planAttachment, ends, bind_apply, tell_apply, pure_apply, List.append_nil, List.mem_singleton] at member
      rw [member]
      rfl
  | ok href =>
      simp only [planAttachment, ends, bind_apply, tellIf_apply, fresh_apply, uuidv7, pure_apply, List.append_nil]
        at member
      split at member
      · rw [List.mem_singleton.mp member]
        rfl
      · cases member

theorem planTask_log [DecidableEq ι] {known : JsString → Option ι} {actorId : Id} {boardId columnId : ι}
    {count index : Nat} {card : TrelloCard}
    (member : call ∈ (planTask runtime supply actorId known boardId columnId count index card n).log) : Aside call := by
  simp only [planTask, bind_apply, tellIf_apply, fresh_apply, uuidv7, pure_apply, List.append_nil, List.nil_append,
    List.mem_append] at member
  rcases member with own | labels | attachments
  · left
    split at own
    · rw [List.mem_singleton.mp own]
      rfl
    · cases own
  · right
    rw [planTaskLabels_log _ _ _ _ _ labels]
    decide
  · right
    obtain ⟨_, _, _, _, here⟩ := mem_log_forEachIdx attachments
    rw [planAttachment_log here]
    decide

theorem planItem_log {checklistId : ι} {count index : Nat} {item : TrelloCheckItem}
    (member : call ∈ (planItem supply checklistId count index item n).log) : call.scope = .ChecklistItem := by
  simp only [planItem, bind_apply, tellIf_apply, fresh_apply, uuidv7, pure_apply, List.append_nil] at member
  split at member
  · rw [List.mem_singleton.mp member]
    rfl
  · cases member

theorem planChecklist_log {taskId : ι} {count index : Nat} {checklist : TrelloChecklist}
    (member : call ∈ (planChecklist supply taskId count index checklist n).log) : Aside call := by
  simp only [planChecklist, bind_apply, tellIf_apply, tell_apply, fresh_apply, uuidv7, pure_apply, List.append_nil,
    List.nil_append, List.mem_append] at member
  rcases member with own | unnamed | items
  · left
    split at own
    · rw [List.mem_singleton.mp own]
      rfl
    · cases own
  · right
    obtain ⟨item, _, here⟩ := List.mem_flatMap.mp unnamed
    unfold itemSkips at here
    split at here
    · rw [List.mem_singleton.mp here]
      decide
    · cases here
  · right
    obtain ⟨_, _, _, _, here⟩ := mem_log_forEachIdx items
    rw [planItem_log here]
    decide

end Aside

section Stages

variable [DecidableEq ι] {runtime : Runtime} {supply : Nat → ι} {read : TrelloExportReadResult} {actorId : Id}
  {call : SkipCall}

omit [DecidableEq ι] in
theorem columnStage_log (member : call ∈ (columnStage supply read).log) : Aside call := by
  obtain ⟨_, _, _, _, here⟩ := mem_log_forEachIdx member
  cases here

omit [DecidableEq ι] in
theorem labelStage_log (member : call ∈ (labelStage runtime supply read).log) : Aside call := by
  obtain ⟨_, _, _, _, here⟩ := mem_log_forEachIdx member
  simp only [planLabel, bind_apply, tellIf_apply, fresh_apply, uuidv7, pure_apply, List.append_nil, List.nil_append]
    at here
  left
  split at here
  · rw [List.mem_singleton.mp here]
    rfl
  · cases here

theorem cardStage_log (member : call ∈ (cardStage runtime supply read actorId).log) : Aside call := by
  obtain ⟨_, _, _, _, inside⟩ := mem_log_forEachIdx member
  obtain ⟨_, _, _, _, here⟩ := mem_log_forEachIdx inside
  exact planTask_log here

theorem checklistStage_log (member : call ∈ (checklistStage runtime supply read actorId).log) : Aside call := by
  obtain ⟨_, _, _, _, inside⟩ := mem_log_forEachIdx member
  obtain ⟨_, _, _, _, here⟩ := mem_log_forEachIdx inside
  exact planChecklist_log here

end Stages

section Account

variable [DecidableEq ι] (runtime : Runtime) (supply : Nat → ι) {read : TrelloExportReadResult} (actorId : Id)
  {lists cards checklists : List Value}

/-- The report of a plan, scope by scope: what cannot be read, and what is dropped. -/
theorem reported_plan (origin : ReadFrom lists cards checklists read) {scope : TrelloImportScope}
    {P : TrelloImportSkipReason → Bool} (main : scope ∈ mainScopes) (silent : P .Defaulted = false) :
    reported (asks scope P) (planTrelloImport runtime supply read actorId).skipped =
      (if .List = scope then (lists.countP fun entry => (readList entry).isNone && P .Malformed) +
        (lists.filterMap readList).countP fun list => drops P (listVerdict list) else 0) +
      (if .Card = scope then (cards.countP fun entry => (readCard entry).isNone && P .Malformed) +
        (cards.filterMap readCard).countP fun card => drops P (verdictOf supply read card) else 0) +
      (if .Checklist = scope then
        (checklists.countP fun entry => (readChecklist entry).row.isNone && P .Malformed) +
          (checklists.filterMap fun entry => (readChecklist entry).row).countP fun checklist =>
            drops P (hangsOn runtime supply read actorId checklist) else 0) := by
  obtain ⟨aside, others, perm⟩ := origin.issues
  have report : (planTrelloImport runtime supply read actorId).skipped =
      toReport (collect (planRows runtime supply read actorId 0).log) := rfl
  have issues : countOf (asks scope P) (read.issues.map fun issue => skip issue.scope issue.reason issue.sample) =
      (if .List = scope then lists.countP (fun entry => (readList entry).isNone && P .Malformed) else 0) +
      (if .Card = scope then cards.countP (fun entry => (readCard entry).isNone && P .Malformed) else 0) +
      (if .Checklist = scope then
        checklists.countP (fun entry => (readChecklist entry).row.isNone && P .Malformed) else 0) := by
    have rest : countOf (asks scope P) (aside.map fun issue => skip issue.scope issue.reason issue.sample) = 0 := by
      apply countOf_aside main silent
      intro call member
      obtain ⟨issue, listed, rfl⟩ := List.mem_map.mp member
      exact Or.inr (others issue listed)
    rw [countOf_perm (perm.map _), List.map_append, List.map_append, List.map_append, countOf_append, countOf_append,
      countOf_append, countOf_malformed, countOf_malformed, countOf_malformed, rest, Nat.add_zero]
  have lists_ := countOf_drops (fun list => countOf_listSkips scope P list) read.source.lists
  have cards_ := countOf_drops
    (fun card => countOf_cardSkips scope P (verdictOf supply read) card) read.source.cards
  have checklists_ := countOf_drops (fun checklist => countOf_checklistSkips scope P
    (hangsOn runtime supply read actorId) checklist) read.source.checklists
  have quiet : ∀ calls : List SkipCall, (∀ call ∈ calls, Aside call) → countOf (asks scope P) calls = 0 :=
    fun calls => countOf_aside main silent
  have columns_ := quiet (columnStage supply read).log fun _ => columnStage_log
  have defaulted := quiet [{
    scope := .Column
    reason := .Defaulted
    count := (columnStage supply read).value.length
    samples := (columnStage supply read).value.map fun column => some column.2.name }] (by simp [Aside])
  have labels_ := quiet (labelStage runtime supply read).log fun _ => labelStage_log
  have tasks_ := quiet (cardStage runtime supply read actorId).log fun _ => cardStage_log
  have hung_ := quiet (checklistStage runtime supply read actorId).log fun _ => checklistStage_log
  have last := quiet [{ scope := .Member, reason := .Unmappable, count := read.source.memberCount },
    { scope := .Comment, reason := .OutOfScope, count := read.source.commentCount }] (by simp [Aside, mainScopes])
  rw [report, reported_report, planRows_log]
  simp only [countOf_append]
  rw [issues, lists_, columns_, defaulted, labels_, cards_, tasks_, checklists_, hung_, last, origin.fromLists,
    origin.fromCards, origin.fromChecklists]
  split_ifs <;> omega

end Account

section Kept

variable [DecidableEq ι] {runtime : Runtime} {supply : Nat → ι} {read : TrelloExportReadResult} {actorId : Id}

/-- The items of each parent in order, parent by parent, are those that have one. -/
theorem ordered_groups [Positioned γ] {parents : List β} {idOf : β → ι} (unique : (parents.map idOf).Nodup)
    (group : γ → Option ι) {items : List γ} (covered : ∀ item ∈ items, ∀ parent ∈ group item, parent ∈ parents.map idOf) :
    (parents.flatMap fun parent => orderedByPos (items.filter fun item => group item = some (idOf parent))).Perm
      (items.filter fun item => (group item).isSome) := by
  have unordered : (parents.flatMap fun parent =>
      orderedByPos (items.filter fun item => group item = some (idOf parent))).Perm
        ((parents.map idOf).flatMap fun parent => items.filter fun item => group item = some parent) := by
    rw [List.flatMap_map]
    exact List.Perm.flatMap_left _ fun parent _ => List.perm_insertionSort _ _
  exact unordered.trans (grouped_perm unique group covered)

def keptCards (supply : Nat → ι) (read : TrelloExportReadResult) : List TrelloCard :=
  ((columnStage supply read).value.map Prod.snd).flatMap fun column =>
    orderedByPos (read.source.cards.filter fun card => (verdictOf supply read card).toOption = some column.id)

def keptChecklists (runtime : Runtime) (supply : Nat → ι) (read : TrelloExportReadResult) (actorId : Id) :
    List TrelloChecklist :=
  ((plannedCards runtime supply read actorId).map PlannedCard.task).flatMap fun task =>
    orderedByPos (read.source.checklists.filter fun checklist =>
      (hangsOn runtime supply read actorId checklist).toOption = some task.id)

theorem liveLists_perm : (liveLists read).Perm
    (read.source.lists.filter fun list => (listVerdict list).toOption.isSome) := by
  simp only [listVerdict_isSome]
  exact List.perm_insertionSort _ _

theorem keptCards_perm (distinct : Function.Injective supply) : (keptCards supply read).Perm
    (read.source.cards.filter fun card => (verdictOf supply read card).toOption.isSome) := by
  apply ordered_groups ((spent_columns supply read).nodup distinct)
  intro card _ column given
  unfold verdictOf cardVerdict at given
  split at given
  · cases given
  · split at given
    · cases given
    · split at given
      · rename_i columnId known
        obtain ⟨list, _, found⟩ := Option.bind_eq_some_iff.mp known
        obtain ⟨planned, listed, same⟩ := List.mem_map.mp (mem_lastSet found)
        cases given
        rw [List.map_map]
        exact List.mem_map.mpr ⟨planned, listed, (Prod.mk.inj same).2⟩
      · cases given

theorem keptChecklists_perm (distinct : Function.Injective supply) : (keptChecklists runtime supply read actorId).Perm
    (read.source.checklists.filter fun checklist => (hangsOn runtime supply read actorId checklist).toOption.isSome) := by
  have unique : (((plannedCards runtime supply read actorId).map PlannedCard.task).map PlannedTask.id).Nodup := by
    rw [List.map_map]
    exact List.pairwise_map.mpr (tasks_apart runtime supply read actorId distinct)
  apply ordered_groups unique
  intro checklist _ task given
  unfold hangsOn checklistVerdict at given
  split at given
  · cases given
  · rename_i taskId known
    split at given
    · cases given
    · obtain ⟨card, _, found⟩ := Option.bind_eq_some_iff.mp known
      obtain ⟨planned, listed, same⟩ := List.mem_map.mp (mem_lastSet found)
      cases given
      rw [List.map_map]
      exact List.mem_map.mpr ⟨planned, listed, (Prod.mk.inj same).2⟩

/-- The row an entry becomes carries its name, cut to length. -/
def Names (length : Nat) (nameOf : γ → JsString) (titleOf : β → JsString) (item : γ) (row : β) : Prop :=
  titleOf row = (clampToLength (nameOf item) length).value

omit [DecidableEq ι] in
theorem columns_made : List.Forall₂ (Names MAX_COLUMN_NAME_LENGTH TrelloList.name PlannedColumn.name)
    (liveLists read) ((columnStage supply read).value.map Prod.snd) := by
  rw [List.forall₂_map_right_iff]
  exact forall₂_forEachIdx 0 1 fun _ _ _ => rfl

theorem tasks_made : List.Forall₂ (Names MAX_TASK_TITLE_LENGTH TrelloCard.name PlannedTask.title)
    (keptCards supply read) ((plannedCards runtime supply read actorId).map PlannedCard.task) := by
  rw [List.forall₂_map_right_iff, plannedCards, ← List.flatMap_id]
  apply forall₂_flatMap
  apply forall₂_forEachIdx
  intro _ column _
  exact forall₂_forEachIdx 0 _ fun _ _ _ => rfl

theorem checklists_made : List.Forall₂ (Names MAX_CHECKLIST_TITLE_LENGTH TrelloChecklist.name PlannedChecklist.title)
    (keptChecklists runtime supply read actorId)
    ((checklistStage runtime supply read actorId).value.flatten.map Prod.fst) := by
  rw [List.forall₂_map_right_iff, ← List.flatMap_id]
  apply forall₂_flatMap
  apply forall₂_forEachIdx
  intro _ task _
  exact forall₂_forEachIdx 0 _ fun _ _ _ => rfl

theorem listVerdict_sober {list : TrelloList} {reason : TrelloImportSkipReason}
    (dropped : listVerdict list = .error reason) :
    reason ≠ .Defaulted := by
  unfold listVerdict at dropped
  split at dropped
  · cases dropped
    decide
  · split at dropped
    · cases dropped
      decide
    · cases dropped

omit [DecidableEq ι] in
theorem verdictOf_sober {card : TrelloCard} {reason : TrelloImportSkipReason}
    (dropped : verdictOf supply read card = .error reason) : reason ≠ .Defaulted := by
  unfold verdictOf cardVerdict at dropped
  split at dropped
  · cases dropped
    decide
  · split at dropped
    · cases dropped
      decide
    · split at dropped
      · cases dropped
      · cases dropped
        split <;> decide

/-- A checklist goes with its card, for the card's reason. -/
theorem hangsOn_sober {checklist : TrelloChecklist} {reason : TrelloImportSkipReason}
    (dropped : hangsOn runtime supply read actorId checklist = .error reason) : reason ≠ .Defaulted := by
  unfold hangsOn checklistVerdict at dropped
  split at dropped
  · cases dropped
    cases why : checklist.idCard.bind (skippedReason (verdictOf supply read) read.source.cards) with
    | none => decide
    | some reason =>
        obtain ⟨card, _, found⟩ := Option.bind_eq_some_iff.mp why
        obtain ⟨trello, _, made⟩ := List.mem_filterMap.mp (mem_lastSet found)
        cases ends : verdictOf supply read trello with
        | ok _ => simp [ends] at made
        | error other =>
            simp only [ends, Option.some.injEq, Prod.mk.injEq] at made
            rw [Option.getD_some, ← made.2]
            exact verdictOf_sober ends
  · split at dropped
    · cases dropped
      decide
    · cases dropped

end Kept

/-- The array under a name of a document. -/
def arrayAt (raw : Value) (name : String) : Option (List Value) :=
  match raw with
  | .obj fields =>
      match get fields name with
      | some (.arr entries) => some entries
      | _ => none
  | _ => none

theorem readSection_scope {own : TrelloImportScope} {read : Value → Option γ} {raw : Option Value} {issue : TrelloReadIssue}
    (member : issue ∈ (readSection own (fun entry => ⟨read entry, []⟩) raw).2) : issue.scope = own := by
  unfold readSection at member
  split at member
  · obtain ⟨entry, _, inside⟩ := List.mem_flatMap.mp member
    simp only [entryIssues, List.nil_append] at inside
    split at inside
    · rw [List.mem_singleton.mp inside]
    · cases inside
  · rw [List.mem_singleton.mp member]

theorem countActions_scope {raw : Option Value} {issue : TrelloReadIssue} (member : issue ∈ (countActions raw).2) :
    issue.scope = .Comment := by
  unfold countActions at member
  split at member
  · cases member
  · rw [List.mem_singleton.mp member]

theorem countMembers_scope {raw : Option Value} {issue : TrelloReadIssue} (member : issue ∈ (countMembers raw).2) :
    issue.scope = .Member := by
  unfold countMembers at member
  split at member
  · cases member
  · rw [List.mem_singleton.mp member]

theorem get_arrayAt {fields : List (JsString × Value)} {name : String} {entries : List Value}
    (found : arrayAt (.obj fields) name = some entries) : get fields name = some (.arr entries) := by
  unfold arrayAt at found
  dsimp only at found
  split at found
  · rename_i there
    rw [there, Option.some.inj found]
  · cases found

/-- An accepted document is read from its arrays. -/
theorem parse_readFrom {raw : Value} {lists cards checklists : List Value} {read : TrelloExportReadResult}
    (isLists : arrayAt raw "lists" = some lists) (isCards : arrayAt raw "cards" = some cards)
    (isChecklists : arrayAt raw "checklists" = some checklists) (accepted : parseTrelloExport raw = some read) :
    ReadFrom lists cards checklists read := by
  cases raw with
  | obj fields =>
      have ofLists := flatMap_ownIssues .List readList lists
      have ofCards := flatMap_ownIssues .Card readCard cards
      have ofChecklists := flatMap_entryIssues .Checklist readChecklist checklists
      simp only [parseTrelloExport, get_arrayAt isLists, get_arrayAt isCards, get_arrayAt isChecklists] at accepted
      split at accepted
      · obtain rfl := Option.some.inj accepted
        refine ⟨rfl, rfl, rfl, (readSection .Label (fun entry => ⟨readLabel entry, []⟩) (get fields "labels")).2 ++
          checklists.flatMap (fun entry => (readChecklist entry).issues) ++ (countActions (get fields "actions")).2 ++
          (countMembers (get fields "members")).2, ?_, ?_⟩
        · intro issue member
          simp only [List.mem_append] at member
          rcases member with ((label | inner) | comment) | person
          · rw [readSection_scope label]
            decide
          · obtain ⟨entry, _, here⟩ := List.mem_flatMap.mp inner
            rw [inner_scope here]
            decide
          · rw [countActions_scope comment]
            decide
          · rw [countMembers_scope person]
            decide
        · classical
          rw [List.perm_iff_count] at ofLists ofCards ofChecklists ⊢
          intro issue
          have listed := ofLists issue
          have carded := ofCards issue
          have hung := ofChecklists issue
          simp only [readSection, List.count_append] at listed carded hung ⊢
          omega
      · cases accepted
  | null => cases isLists
  | bool _ => cases isLists
  | num _ => cases isLists
  | str _ => cases isLists
  | arr _ => cases isLists

/-- Every list, card and checklist of an accepted export becomes one row, or is counted once in
the report; so the rows and the skips of each scope come to the length of its array. -/
theorem import_accounts_for_all [DecidableEq ι] (runtime : Runtime) (supply : Nat → ι)
    (distinct : Function.Injective supply) (actorId : Id) (raw : Value) (lists cards checklists : List Value)
    (isLists : arrayAt raw "lists" = some lists) (isCards : arrayAt raw "cards" = some cards)
    (isChecklists : arrayAt raw "checklists" = some checklists) (plan : TrelloImportPlan ι)
    (planned : trelloPlan runtime supply actorId raw = some plan) :
    (AccountedFor .List lists (fun entry column => ∃ list, readList entry = some list ∧
        Names MAX_COLUMN_NAME_LENGTH TrelloList.name PlannedColumn.name list column) plan.columns plan.skipped ∧
      AccountedFor .Card cards (fun entry task => ∃ card, readCard entry = some card ∧
        Names MAX_TASK_TITLE_LENGTH TrelloCard.name PlannedTask.title card task) plan.tasks plan.skipped ∧
      AccountedFor .Checklist checklists (fun entry row => ∃ checklist, (readChecklist entry).row = some checklist ∧
        Names MAX_CHECKLIST_TITLE_LENGTH TrelloChecklist.name PlannedChecklist.title checklist row) plan.checklists
        plan.skipped) ∧
      plan.columns.length + reported (asks .List fun reason => reason ≠ .Defaulted) plan.skipped = lists.length ∧
      plan.tasks.length + reported (asks .Card fun reason => reason ≠ .Defaulted) plan.skipped = cards.length ∧
      plan.checklists.length + reported (asks .Checklist fun reason => reason ≠ .Defaulted) plan.skipped =
        checklists.length := by
  obtain ⟨read, accepted, rfl⟩ := Option.map_eq_some_iff.mp planned
  have origin := parse_readFrom isLists isCards isChecklists accepted
  have columns : AccountedFor .List lists (fun entry column => ∃ list, readList entry = some list ∧
      Names MAX_COLUMN_NAME_LENGTH TrelloList.name PlannedColumn.name list column)
        (planTrelloImport runtime supply read actorId).columns
      (planTrelloImport runtime supply read actorId).skipped := by
    apply accountedFor readList listVerdict ?_ columns_made fun _ _ => listVerdict_sober
    · intro P silent
      rw [reported_plan runtime supply actorId origin (by decide) silent]
      simp
    · rw [← origin.fromLists]
      exact liveLists_perm
  have tasks : AccountedFor .Card cards (fun entry task => ∃ card, readCard entry = some card ∧
      Names MAX_TASK_TITLE_LENGTH TrelloCard.name PlannedTask.title card task)
        (planTrelloImport runtime supply read actorId).tasks
      (planTrelloImport runtime supply read actorId).skipped := by
    apply accountedFor readCard (verdictOf supply read) ?_ tasks_made fun _ _ => verdictOf_sober
    · intro P silent
      rw [reported_plan runtime supply actorId origin (by decide) silent]
      simp
    · rw [← origin.fromCards]
      exact keptCards_perm distinct
  have hung : AccountedFor .Checklist checklists (fun entry row => ∃ checklist, (readChecklist entry).row = some checklist ∧
      Names MAX_CHECKLIST_TITLE_LENGTH TrelloChecklist.name PlannedChecklist.title checklist row)
        (planTrelloImport runtime supply read actorId).checklists
      (planTrelloImport runtime supply read actorId).skipped := by
    apply accountedFor (fun entry => (readChecklist entry).row) (hangsOn runtime supply read actorId) ?_
      checklists_made fun _ _ => hangsOn_sober
    · intro P silent
      rw [reported_plan runtime supply actorId origin (by decide) silent]
      simp
    · rw [← origin.fromChecklists]
      exact keptChecklists_perm distinct
  exact ⟨⟨columns, tasks, hung⟩, columns.sum, tasks.sum, hung.sum⟩

theorem import_accounts_for_all_sample : ∃ lists cards checklists plan,
    arrayAt sampleExport "lists" = some lists ∧ arrayAt sampleExport "cards" = some cards ∧
    arrayAt sampleExport "checklists" = some checklists ∧
    trelloPlan sampleRuntime id "u1" sampleExport = some plan ∧
    (lists.length, cards.length, checklists.length) = (3, 3, 1) ∧
    plan.columns.length + reported (asks .List fun reason => reason ≠ .Defaulted) plan.skipped = lists.length ∧
    plan.tasks.length + reported (asks .Card fun reason => reason ≠ .Defaulted) plan.skipped = cards.length ∧
    plan.checklists.length + reported (asks .Checklist fun reason => reason ≠ .Defaulted) plan.skipped =
      checklists.length := by
  have planned : (trelloPlan sampleRuntime (id : Nat → Nat) "u1" sampleExport).isSome = true := by decide +kernel
  have sizes : (arrayAt sampleExport "lists").map List.length = some 3 ∧
      (arrayAt sampleExport "cards").map List.length = some 3 ∧
      (arrayAt sampleExport "checklists").map List.length = some 1 := by decide +kernel
  obtain ⟨plan, made⟩ := Option.isSome_iff_exists.mp planned
  obtain ⟨lists, isLists, three⟩ := Option.map_eq_some_iff.mp sizes.1
  obtain ⟨cards, isCards, three'⟩ := Option.map_eq_some_iff.mp sizes.2.1
  obtain ⟨checklists, isChecklists, one⟩ := Option.map_eq_some_iff.mp sizes.2.2
  refine ⟨lists, cards, checklists, plan, isLists, isCards, isChecklists, made, by rw [three, three', one], ?_⟩
  exact (import_accounts_for_all sampleRuntime id Function.injective_id "u1" sampleExport lists cards checklists
    isLists isCards isChecklists plan made).2

end Kurul.Trello
