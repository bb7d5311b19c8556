import Kurul.Service
import Kurul.Store.Journal

/-! The audit trail of one object: its audited fields, the changes an entry lists, and what
replaying them gives. -/
namespace Kurul

open Store Prog

/-- Audited fields by name. -/
abbrev Fields := List (String × Json)

/-- Exactly the fields that differ, each with the value it had and the value it has. -/
def changesBetween (before after : Fields) : List (String × Json × Json) :=
  fieldChanges (List.zipWith (fun old new => (old.1, old.2, new.2)) before after)

/-- The fields after recorded changes; none where a `from` is not the value that the field has. -/
def replay (fields : Fields) (changes : List (String × Json × Json)) : Option Fields :=
  if changes.all fun (field, before, _) => fields.lookup field = some before then
    some (fields.map fun (field, value) => (field, ((changes.lookup field).map Prod.snd).getD value))
  else none

def Activity.changes (activity : Activity) : Option (List (String × Json × Json)) :=
  match activity.payload.lookup "changes" with
  | some (.changes changes) => some changes
  | _ => none

/-- The entry lists exactly what was altered. -/
def Lists : Option Fields → Activity → Option Fields → Prop
  | some before, activity, some after =>
      before.map Prod.fst = after.map Prod.fst ∧ activity.changes = some (changesBetween before after)
  | _, _, _ => False

/-- One entry after the other. -/
def replayAll (fields : Option Fields) (entries : List Activity) : Option Fields :=
  entries.foldl (fun fields entry => fields.bind fun fields => entry.changes.bind (replay fields)) fields

section Replay

variable {before after : Fields} {field : String}

theorem changesBetween_cons {name : String} {old new : Json} :
    changesBetween ((name, old) :: before) ((name, new) :: after) =
      (if old ≠ new then [(name, old, new)] else []) ++ changesBetween before after := by
  by_cases same : old = new <;> simp [changesBetween, fieldChanges, same]

/-- A field that is not audited is in no entry. -/
theorem changesBetween_absent (absent : field ∉ before.map Prod.fst) :
    ∀ change ∈ changesBetween before after, change.1 ≠ field := by
  rintro ⟨name, old, new⟩ member rfl
  simp only [changesBetween, fieldChanges, List.mem_filter] at member
  obtain ⟨n, hn, same⟩ := List.mem_iff_getElem.mp member.1
  simp only [List.getElem_zipWith, Prod.mk.injEq] at same
  apply absent
  rw [← same.1]
  exact List.mem_map_of_mem (List.getElem_mem _)

theorem lookup_absent {β : Type} {entries : List (String × β)} (absent : ∀ entry ∈ entries, entry.1 ≠ field) :
    entries.lookup field = none := by
  induction entries with
  | nil => rfl
  | cons first rest ih =>
      have apart : (field == first.1) = false := by
        simpa using (absent first List.mem_cons_self).symm
      simp only [List.lookup, apart]
      exact ih fun entry member => absent entry (List.mem_cons_of_mem _ member)

/-- Replaying what an update altered gives what it stored. -/
theorem replay_changesBetween (names : before.map Prod.fst = after.map Prod.fst)
    (distinct : (before.map Prod.fst).Nodup) : replay before (changesBetween before after) = some after := by
  have each : (changesBetween before after).all
        (fun (field, old, _) => before.lookup field = some old) ∧
      (before.map fun (field, value) =>
        (field, (((changesBetween before after).lookup field).map Prod.snd).getD value)) = after := by
    induction before generalizing after with
    | nil =>
        have : after = [] := by simpa using names.symm
        subst this
        exact ⟨rfl, rfl⟩
    | cons first rest ih =>
        obtain ⟨name, old⟩ := first
        cases after with
        | nil => simp at names
        | cons second others =>
            obtain ⟨name', new⟩ := second
            obtain ⟨rfl, aligned⟩ : name = name' ∧ rest.map Prod.fst = others.map Prod.fst := by simpa using names
            obtain ⟨fresh, apart⟩ : name ∉ rest.map Prod.fst ∧ (rest.map Prod.fst).Nodup := by
              simpa [List.nodup_cons] using distinct
            have elsewhere : ∀ change ∈ changesBetween rest others, change.1 ≠ name :=
              changesBetween_absent fresh
            have skips : ∀ field, field ≠ name →
                (changesBetween ((name, old) :: rest) ((name, new) :: others)).lookup field =
                  (changesBetween rest others).lookup field := by
              intro field apart
              have : (field == name) = false := by simpa using apart
              rw [changesBetween_cons]
              split <;> simp [List.lookup, this]
            obtain ⟨agree, rewritten⟩ := ih aligned apart
            constructor
            · rw [List.all_eq_true] at agree ⊢
              rintro ⟨field, before, after⟩ member
              rw [changesBetween_cons, List.mem_append] at member
              rcases member with here | later
              · split at here
                · cases List.mem_singleton.mp here
                  simp [List.lookup]
                · cases here
              · have apart : (field == name) = false := by simpa using elsewhere _ later
                simpa [List.lookup, apart] using agree _ later
            · rw [List.map_cons]
              congr 1
              · rw [changesBetween_cons]
                by_cases same : old = new
                · simp [same, lookup_absent elsewhere]
                · simp [same]
              · rw [← rewritten]
                apply List.map_congr_left
                rintro ⟨field, value⟩ member
                have apart : field ≠ name := by
                  rintro rfl
                  exact fresh (List.mem_map_of_mem member)
                simp only [skips field apart, rewritten]
  rw [replay, if_pos each.1, each.2]

/-- A path of entries replays. -/
theorem replayAll_of_path {names : List String} (distinct : names.Nodup) {x y : Option Fields}
    {entries : List Activity} (audited : ∀ fields, x = some fields → fields.map Prod.fst = names)
    (path : Path Lists x entries y) : replayAll x entries = y := by
  induction entries generalizing x with
  | nil => exact path
  | cons entry rest ih =>
      obtain ⟨next, told, later⟩ := path
      cases x with
      | none => exact told.elim
      | some before =>
          cases next with
          | none => exact told.elim
          | some after =>
              obtain ⟨aligned, listed⟩ := told
              have named := audited before rfl
              have replayed := replay_changesBetween aligned (named ▸ distinct)
              have rest' := ih (fun fields same => by cases same; exact aligned.symm.trans named) later
              simpa [replayAll, listed, replayed] using rest'

end Replay

section Recording

variable {Q : Protocol Row Key} {allow : Assertion Row} {promise : Promise Row Key} {l : Local Row Key}
  {A : Assertion Row}

/-- The new entry is pending, and its id stays free until the commit. -/
theorem verified_recorded {post : Activity → Local Row Key → Assertion Row → Prop}
    {input : ActivityService.RecordActivityInput} (waits : promise.statement l) (stable : Stable Q l.held A)
    (elsewhere : ∀ write ∈ l.pending, write.Elsewhere Activity)
    (rest : ∀ (activity : Activity) l' view, activity.type = input.type → activity.taskId = input.taskId →
      activity.payload = input.payload → l'.pending = l.pending ++ [.put (toRow activity)] →
      l'.seen = l.seen ++ [view] →
      Stable Q l'.held (fun rows => A rows ∧ ∀ row ∈ rows, key row ≠ Key.activity activity.id) →
      post activity l' fun rows => A rows ∧ ∀ row ∈ rows, key row ≠ Key.activity activity.id) :
    Verified Q allow promise (ActivityService.record input) l A post := by
  intro given
  apply Verified.query waits
  intro rows _ fact o ran
  obtain ⟨answered, written, new⟩ := Statement.create_ok ran
  rw [answered]
  have steady : Stable Q (l.held ++ o.footprint)
      fun rows => A rows ∧ ∀ row ∈ rows, key row ≠ Key.activity given.id := by
    apply Stable.and (stable.more (List.subset_append_left _ _))
    apply Stable.absent
    apply Owns.of_footprint
    simp [written, touched, Write.target, key, toRow, Row.key]
  refine ⟨fun rows => A rows ∧ ∀ row ∈ rows, key row ≠ Key.activity given.id, ⟨fact, ?_⟩, steady, ?_⟩
  · intro row stored same
    apply new row _ same
    apply (mem_applyAll_untouched l.pending _).mpr stored
    intro overwritten
    obtain ⟨write, member, target⟩ := List.mem_map.mp overwritten
    exact elsewhere write member ⟨given.id, input.workspaceId, input.taskId, input.userId, input.type,
      input.payload, given.now⟩ (same.symm.trans target.symm)
  · have pending : (l.ran rows o).pending = l.pending ++ o.writes := rfl
    rw [written] at pending
    exact rest _ _ (l.view rows) rfl rfl rfl pending rfl steady

end Recording

/-- The values read first are still there. -/
def SinceRead {State : Type} (state : List Row → State) (l : Local Row Key) (rows : List Row) : Prop :=
  ∀ view, l.seen.head? = some view → state rows = state view

section ReadLast

variable {State β ι : Type} (state : List Row → State)

/-- Every call commits while the object is as the call read it first. -/
def ReadLast [DecidableEq ι] (s : System ι Row Key Event Input Error β) (action : Action ι Input Error) : Prop :=
  ∀ i value next, action = .run i value → (s.threads i).prog = .commit next →
    SinceRead state (s.local i) s.rows

def readLast [DecidableEq State] (s : System ι Row Key Event Input Error β) : Action ι Input Error → Bool
  | .run i _ => !(s.threads i).prog.commits || (s.threads i).seen.head?.all fun view => state s.rows = state view
  | .fail _ _ => true

theorem readLast_sound [DecidableEq State] [DecidableEq ι] {s : System ι Row Key Event Input Error β}
    {action : Action ι Input Error} (passed : readLast state s action) : ReadLast state s action := by
  rintro i value next rfl here view looked
  have first : (s.threads i).seen.head? = some view := looked
  simpa [readLast, here, commits, first] using passed

end ReadLast

/-- An audited kind of object. -/
structure AuditedKind (α : Type) [Entity Row α] where
  id : α → Id
  keyOf : Id → Key
  keyed : ∀ a : α, key (toRow a : Row) = keyOf (id a)
  fields : α → Fields
  names : List String
  named : ∀ a, (fields a).map Prod.fst = names
  distinct : names.Nodup
  /-- The entries about its updates. -/
  type : ActivityType
  idField : String

namespace AuditedKind

variable {α : Type} [Entity Row α] (K : AuditedKind α)

/-- The trail of one object. -/
def trail (objectId : Id) : Journal Row (Option Fields) Activity where
  state rows := ((table rows : List α).find? (K.id · = objectId)).map K.fields
  entries rows := (table rows : List Activity).filter fun entry =>
    entry.type = K.type && entry.payload.lookup K.idField = some (.scalar (.text objectId))
  tells := Lists

variable {K} {objectId : Id} {rows : List Row}

theorem state_eq (unique : UniqueKeys rows) {a : α} (stored : toRow a ∈ rows) (same : K.id a = objectId) :
    (K.trail objectId).state rows = some (K.fields a) := by
  have found := find?_table_eq unique (fun b => decide (K.id b = objectId)) stored (by simpa using same)
    (by
      intro b passes
      rw [K.keyed, K.keyed, same, of_decide_eq_true passes])
  simp [trail, found]

/-- What has been recorded since the first rows is a chain that replays to where the object is. -/
def Truthful (K : AuditedKind α) (objectId : Id) (first rows : List Row) : Prop :=
  ∃ since, (K.trail objectId).entries rows = (K.trail objectId).entries first ++ since ∧
    Path Lists ((K.trail objectId).state first) since ((K.trail objectId).state rows) ∧
    replayAll ((K.trail objectId).state first) since = (K.trail objectId).state rows

theorem Truthful.of_traced {first : List Row} (traced : (K.trail objectId).Traced first rows) :
    K.Truthful objectId first rows := by
  obtain ⟨since, recorded, path⟩ := traced
  refine ⟨since, recorded, path, replayAll_of_path K.distinct ?_ path⟩
  intro fields found
  obtain ⟨a, _, rfl⟩ := Option.map_eq_some_iff.mp found
  exact K.named a

theorem Truthful.replays {first : List Row} (truthful : K.Truthful objectId first rows)
    (none_ : (K.trail objectId).entries first = []) :
    replayAll ((K.trail objectId).state first) ((K.trail objectId).entries rows) =
      (K.trail objectId).state rows := by
  obtain ⟨since, recorded, _, replayed⟩ := truthful
  rw [recorded, none_]
  exact replayed

/-- A commit of the object and the entry about it. -/
theorem step {before after : α} {activity : Activity} (unique : UniqueKeys rows)
    (same : K.id after = objectId) (elsewhere : (Write.put (toRow after) : Write Row Key).Elsewhere Activity)
    (absent : ∀ row ∈ rows, key row ≠ Key.activity activity.id)
    (type : activity.type = K.type) (idField : activity.payload.lookup K.idField = some (.scalar (.text objectId)))
    (was : (K.trail objectId).state rows = some (K.fields before))
    (listed : activity.changes = some (changesBetween (K.fields before) (K.fields after))) :
    (K.trail objectId).Step rows (applyAll rows [.put (toRow after), .put (toRow activity)]) := by
  right
  refine ⟨activity, ?_, ?_⟩
  · have added := table_insert (W := [.put (toRow after)]) (a := activity) (by simpa using elsewhere) absent
    simp only [List.singleton_append] at added
    simp [trail, added, List.filter_append, type, idField]
  · have stored : (toRow after : Row) ∈ applyAll rows [.put (toRow after), .put (toRow activity)] := by
      rw [applyAll, applyAll, applyAll, mem_apply, if_neg]
      · exact mem_applyAll_put rows _
      · intro overwritten
        exact elsewhere activity overwritten
    rw [was, state_eq (unique.applyAll _) stored same]
    exact ⟨(K.named before).trans (K.named after).symm, listed⟩

/-- An update that is honest about what it replaced. -/
def promise (K : AuditedKind α) (objectId : Id) : Promise Row Key where
  commit l rows := SinceRead (K.trail objectId).state l rows →
    (K.trail objectId).Step rows (l.view rows)

/-- What a commit has to show, where nothing is left to do after it. -/
def Commits (promise : Promise Row Key) (allow : Assertion Row) (l : Local Row Key) (A : Assertion Row) :
    Prop :=
  ∀ rows, UniqueKeys rows → A rows → allow rows → (∀ k ∈ touched l.pending, Owns l.held k) →
    UniqueKeys (l.view rows) ∧ True ∧ promise.commit l rows ∧
      ∃ B : Assertion Row, B (l.view rows) ∧ Stable Protocol.unique [] B ∧ True

/-- The entry of an update that has read `before` and stored `after`. -/
theorem verified_entry (after : α) {allow : Assertion Row} {l : Local Row Key} {view : List Row} {before : α}
    {input : ActivityService.RecordActivityInput} (unique : UniqueKeys view) (stored : toRow before ∈ view)
    (own : K.id before = objectId) (seen : l.seen.head? = some view)
    (pending : l.pending = [.put (toRow after)]) (same : K.id after = objectId)
    (elsewhere : (Write.put (toRow after) : Write Row Key).Elsewhere Activity) (type : input.type = K.type)
    (idField : input.payload.lookup K.idField = some (.scalar (.text objectId)))
    (listed : input.payload.lookup "changes" =
      some (.changes (changesBetween (K.fields before) (K.fields after)))) :
    Verified Protocol.unique allow (K.promise objectId) (ActivityService.record input) l (fun _ => True)
      fun _ l A => Commits (K.promise objectId) allow l A := by
  apply verified_recorded trivial (Stable.const _ _ True)
  · simpa [pending] using elsewhere
  intro activity l' view' kind _ payload written looked _ rows unique' fact _ _
  refine ⟨unique'.applyAll _, trivial, ?_, _, trivial, Stable.const _ _ True, trivial⟩
  intro since
  have was : (K.trail objectId).state rows = some (K.fields before) := by
    rw [since view (by rw [looked, List.head?_append, seen]; rfl)]
    exact state_eq unique stored own
  have shown : l'.view rows = applyAll rows [.put (toRow after), .put (toRow activity)] := by
    rw [Local.view, written, pending, List.singleton_append]
  rw [shown]
  apply step unique' same elsewhere fact.2 (kind.trans type) (payload ▸ idField) was
  rw [Activity.changes, payload, listed]

end AuditedKind
end Kurul
