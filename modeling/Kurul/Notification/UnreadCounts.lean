import Kurul.Cascade
import Kurul.Notification.NotificationService
import Kurul.Store.Ledger
import Kurul.Store.Tables
import Kurul.Store.Weights

/-! Unread counts, what the statements of a service do to them, and the account of who has
yet to be told that a count has changed. -/
namespace Kurul

open Store Prog

section Counts

variable {rows : List Row} {workspaceId userId : Id}

/-- What the unread count endpoint answers. -/
def unreadOf (workspaceId userId : Id) (rows : List Row) : Nat :=
  (table rows : List Notification).countP (NotificationService.unread workspaceId userId rows)

def unreadWeight (workspaceId userId : Id) : Row → Nat
  | .notification n => if n.workspaceId = workspaceId ∧ n.userId = userId ∧ n.readAt = none then 1 else 0
  | _ => 0

theorem unreadOf_eq (rows : List Row) :
    unreadOf workspaceId userId rows = total (unreadWeight workspaceId userId) rows := by
  suffices counted : ∀ all : List Row, (table rows : List Notification).countP
      (NotificationService.unread workspaceId userId all) = total (unreadWeight workspaceId userId) rows from
    counted rows
  intro all
  induction rows with
  | nil => rfl
  | cons row rest ih =>
      cases row with
      | notification n =>
          have here : (table (.notification n :: rest : List Row) : List Notification) = n :: table rest := rfl
          rw [here, List.countP_cons, ih, total_cons, Nat.add_comm]
          congr 1
          simp [NotificationService.unread, unreadWeight, Option.isNone_iff_eq_none, and_assoc]
      | _ =>
          rw [total_cons, ← ih]
          exact (Nat.zero_add _).symm

/-- Only the counts of these users, in these workspaces, may be others. -/
def Unmoved (S : Id → Id → Prop) (rows rows' : List Row) : Prop :=
  ∀ workspaceId userId, ¬ S workspaceId userId → unreadOf workspaceId userId rows' = unreadOf workspaceId userId rows

def Nobody : Id → Id → Prop := fun _ _ => False

theorem Unmoved.refl (S : Id → Id → Prop) (rows : List Row) : Unmoved S rows rows := fun _ _ _ => rfl

theorem Unmoved.trans {S : Id → Id → Prop} {rows rows' rows'' : List Row} (first : Unmoved S rows rows')
    (second : Unmoved S rows' rows'') : Unmoved S rows rows'' :=
  fun workspaceId userId other => (second workspaceId userId other).trans (first workspaceId userId other)

theorem Unmoved.mono {S T : Id → Id → Prop} {rows rows' : List Row} (unmoved : Unmoved S rows rows')
    (within : ∀ w u, S w u → T w u) : Unmoved T rows rows' :=
  fun workspaceId userId other => unmoved workspaceId userId fun inside => other (within _ _ inside)

theorem unmoved_even {S : Id → Id → Prop} {W : List (Write Row Key)} (unique : UniqueKeys rows)
    (even : ∀ w u, ¬ S w u → ∀ write ∈ W, write.Even (unreadWeight w u) rows) : Unmoved S rows (applyAll rows W) := by
  intro workspaceId userId other
  rw [unreadOf_eq, unreadOf_eq]
  exact total_applyAll_even _ unique (even workspaceId userId other)

/-- A new row that is no notification. -/
theorem unmoved_new {row : Row} (absent : ∀ old ∈ rows, key old ≠ key row)
    (silent : ∀ w u, unreadWeight w u row = 0) (S : Id → Id → Prop) : Unmoved S rows (applyAll rows [.put row]) := by
  intro workspaceId userId _
  rw [unreadOf_eq, unreadOf_eq, applyAll, applyAll, total_put_new _ absent, silent, Nat.add_zero]

theorem unreadWeight_of {n : Notification} {w u : Id} (other : ¬ (n.workspaceId = w ∧ n.userId = u)) :
    unreadWeight w u (.notification n) = 0 := by
  simp only [unreadWeight]
  rw [if_neg]
  rintro ⟨workspace, user, _⟩
  exact other ⟨workspace, user⟩

/-- New notifications, under keys of their own. -/
theorem unmoved_notifications {S : Id → Id → Prop} (stored : List Notification)
    (ids : (stored.map fun n => key (toRow n : Row)).Nodup)
    (absent : ∀ n ∈ stored, ∀ row ∈ rows, key row ≠ key (toRow n : Row))
    (within : ∀ n ∈ stored, S n.workspaceId n.userId) :
    Unmoved S rows (applyAll rows (stored.map fun n => .put (toRow n))) := by
  intro workspaceId userId other
  rw [unreadOf_eq, unreadOf_eq]
  induction stored generalizing rows with
  | nil => rfl
  | cons n rest ih =>
      obtain ⟨apart, ids'⟩ := List.nodup_cons.mp ids
      have new := absent n List.mem_cons_self
      rw [List.map_cons, applyAll, ih ids']
      · rw [total_put_new _ new]
        have weightless : unreadWeight workspaceId userId (toRow n) = 0 := by
          apply unreadWeight_of
          rintro ⟨rfl, rfl⟩
          exact other (within n List.mem_cons_self)
        rw [weightless, Nat.add_zero]
      · intro later member row there
        rw [mem_apply] at there
        by_cases mine : Write.target (.put (toRow n) : Write Row Key) = key row
        · intro same
          apply apart
          change key (toRow n : Row) ∈ _
          rw [show key (toRow n : Row) = key (toRow later : Row) from mine.trans same]
          exact List.mem_map_of_mem (f := fun n : Notification => key (toRow n : Row)) member
        · rw [if_neg mine] at there
          exact absent later (List.mem_cons_of_mem _ member) row there
      · exact fun later member => within later (List.mem_cons_of_mem _ member)

/-- Notifications of one user, rewritten for that user. -/
theorem unmoved_rewritten {S : Id → Id → Prop} {change : Notification → Notification} {matching : List Notification}
    (unique : UniqueKeys rows) (stored : ∀ n ∈ matching, n ∈ (table rows : List Notification))
    (keeps : ∀ n, (change n).id = n.id ∧ (change n).workspaceId = n.workspaceId ∧ (change n).userId = n.userId)
    (within : ∀ n ∈ matching, S n.workspaceId n.userId) :
    Unmoved S rows (applyAll rows (matching.map fun n => .put (toRow (change n)))) := by
  apply unmoved_even unique
  intro w u other write member
  obtain ⟨n, listed, rfl⟩ := List.mem_map.mp member
  obtain ⟨id, workspace, user⟩ := keeps n
  have apart : ¬ (n.workspaceId = w ∧ n.userId = u) := by
    rintro ⟨rfl, rfl⟩
    exact other (within n listed)
  refine Or.inl ⟨toRow n, mem_table.mp (stored n listed), congrArg Key.notification id.symm, ?_⟩
  rw [show (toRow n : Row) = .notification n from rfl, show (toRow (change n) : Row) = .notification (change n) from rfl,
    unreadWeight_of apart, unreadWeight_of (by rw [workspace, user]; exact apart)]

theorem unreadWeight_unset (w u : Id) (k : Key) (row : Row) : unreadWeight w u (unset k row) = unreadWeight w u row := by
  cases row <;> rfl

theorem unreadWeight_orphaned {doomed : List Key} {row row' : Row} {w u : Id}
    (emitted : orphaned doomed row = some (.put row')) : key row' = key row ∧
      unreadWeight w u row' = unreadWeight w u row := by
  have folded : ∀ (dangling : List (Reference Key)) (row : Row),
      unreadWeight w u (dangling.foldl (fun row ref => unset ref.target row) row) = unreadWeight w u row := by
    intro dangling
    induction dangling with
    | nil => exact fun _ => rfl
    | cons ref rest ih =>
        intro row
        rw [List.foldl_cons, ih, unreadWeight_unset]
  unfold orphaned at emitted
  split at emitted
  · cases emitted
  · cases emitted
    exact ⟨key_foldl_unset _ row, folded _ row⟩

/-- A deletion that takes along no unread notification. -/
theorem unmoved_deletion {doomed : List Key} (unique : UniqueKeys rows)
    (read : ∀ n ∈ (table rows : List Notification), Key.notification n.id ∈ doomed → n.readAt ≠ none) :
    Unmoved Nobody rows (applyAll rows (deletion rows doomed)) := by
  apply unmoved_even unique
  intro w u _ write member
  obtain ⟨k, gone, rfl⟩ | ⟨row, stored, _, emitted⟩ := mem_deletion member
  · intro old there same
    cases old with
    | notification n =>
        have seen := read n (mem_table.mpr there) (by rw [show Key.notification n.id = k from same]; exact gone)
        simp [unreadWeight, seen]
    | _ => rfl
  · cases write with
    | del k =>
        unfold orphaned at emitted
        split at emitted <;> cases emitted
    | put row' =>
        obtain ⟨same, weighs⟩ := unreadWeight_orphaned (w := w) (u := u) emitted
        exact Or.inl ⟨row, stored, same.symm, weighs.symm⟩

end Counts

section Signals

/-- Who has yet to be told of a change. -/
abbrev Owed := Id → Id → Prop

def signalTo (workspaceId userId : Id) : Event :=
  .emitToUser workspaceId userId (.NOTIFICATION_UNREAD_CHANGED workspaceId userId)

/-- A commit owes a signal to each user whose count it changes. -/
def signals : Ledger Row Key Event Owed where
  commit rows W owed := fun w u => owed w u ∨ unreadOf w u (applyAll rows W) ≠ unreadOf w u rows
  emit event owed := fun w u => owed w u ∧ event ≠ signalTo w u

/-- Every change of a count is followed by its signal. -/
def Signalled (log : List (Occurrence Row Key Event)) : Prop :=
  ∀ earlier before W later, log = earlier ++ .committed before W :: later →
    ∀ w u, unreadOf w u (applyAll before W) ≠ unreadOf w u before → ∃ rows, .emitted (signalTo w u) rows ∈ later

def Owed.Settled (owed : Owed) : Prop := ∀ w u, ¬ owed w u

theorem signalled_of_settled (owed : Owed) {log : List (Occurrence Row Key Event)}
    (settled : (signals.balance owed log).Settled) :
    Signalled log ∧ ∀ w u, owed w u → ∃ rows, .emitted (signalTo w u) rows ∈ log := by
  induction log generalizing owed with
  | nil =>
      constructor
      · intro earlier before W later cut
        simp at cut
      · exact fun w u owing => absurd owing (settled w u)
  | cons o log ih =>
      obtain ⟨signalled, paid⟩ := ih _ settled
      constructor
      · intro earlier before W later cut w u changed
        cases earlier with
        | nil =>
            obtain ⟨rfl, rfl⟩ := List.cons.inj cut
            exact paid w u (Or.inr changed)
        | cons first earlier =>
            obtain ⟨rfl, rest⟩ := List.cons.inj cut
            exact signalled earlier before W later rest w u changed
      · intro w u owing
        cases o with
        | committed before W =>
            obtain ⟨rows, member⟩ := paid w u (Or.inl owing)
            exact ⟨rows, List.mem_cons_of_mem _ member⟩
        | emitted event rows =>
            by_cases same : event = signalTo w u
            · exact ⟨rows, same ▸ List.mem_cons_self⟩
            · obtain ⟨rows', member⟩ := paid w u ⟨owing, same⟩
              exact ⟨rows', List.mem_cons_of_mem _ member⟩

end Signals

section Rules

/-- The rows and writes are the same, and who has been told is no longer owed anything. -/
structure Stands (rows : List Row) (W : List (Write Row Key)) (owed : Owed) (told : Id → Id → Prop)
    (rows' : List Row) (W' : List (Write Row Key)) (owed' : Owed) : Prop where
  rows : rows' = rows
  writes : W' = W
  owes : ∀ w u, owed' w u ↔ owed w u ∧ ¬ told w u

variable {frail : Owed → Prop} {rows : List Row} {W : List (Write Row Key)} {owed : Owed}
  {failed : List Row → List (Write Row Key) → Owed → Prop}

theorem Stands.start : Stands rows W owed Nobody rows W owed := ⟨rfl, rfl, fun _ _ => by simp [Nobody]⟩

theorem accounts_record {ok : Activity → List Row → List (Write Row Key) → Owed → Prop}
    {input : ActivityService.RecordActivityInput} (refused : failed rows W owed)
    (rest : ∀ activity, (∀ S, Unmoved S (applyAll rows W) (applyAll rows (W ++ [.put (.activity activity)]))) →
      ok activity rows (W ++ [.put (.activity activity)]) owed) :
    (ActivityService.record input).Accounts signals frail ok failed rows W owed := by
  intro given
  apply Accounts.query fun _ => refused
  intro o ran
  obtain ⟨same, written, new⟩ := Statement.create_ok ran
  rw [same, written]
  apply rest
  intro S
  rw [applyAll_append]
  exact unmoved_new new (fun _ _ => rfl) S

/-- A new row that is no notification. -/
theorem accounts_create [Entity Row α] {a : α} {include_ : List Row → α → β}
    {ok : β → List Row → List (Write Row Key) → Owed → Prop} (silent : ∀ w u, unreadWeight w u (toRow a) = 0)
    (refused : failed rows W owed)
    (rest : ∀ answer W', W' = W ++ [.put (toRow a)] → (∀ S, Unmoved S (applyAll rows W) (applyAll rows W')) →
      ok answer rows W' owed) :
    (query (including (.create a) include_) : Service β).Accounts signals frail ok failed rows W owed := by
  apply Accounts.query fun _ => refused
  intro o ran
  obtain ⟨o', created, _, written, _⟩ := including_ok ran
  obtain ⟨_, stored, new⟩ := Statement.create_ok created
  rw [written, stored]
  apply rest _ _ rfl
  intro S
  rw [applyAll_append]
  exact unmoved_new new silent S

/-- The signals go to everyone in the list. -/
theorem accounts_emitUnreadChanged {workspaceId : Id} {userIds : List Id} :
    (NotificationService.emitUnreadChanged workspaceId userIds).Accounts signals frail
      (fun _ => Stands rows W owed fun w u => w = workspaceId ∧ u ∈ userIds) failed rows W owed := by
  unfold NotificationService.emitUnreadChanged
  refine (Accounts.forEach (I := fun done => Stands rows W owed fun w u => w = workspaceId ∧ u ∈ done) [] ?_ ?_).weaken ?_
    fun _ _ _ refused => refused
  · exact ⟨rfl, rfl, fun w u => by simp⟩
  · rintro done userId rows' W' owed' _ ⟨rfl, rfl, told⟩
    refine ⟨rfl, rfl, fun w u => ?_⟩
    have event : Event.emitToUser workspaceId userId (.NOTIFICATION_UNREAD_CHANGED workspaceId userId) ≠ signalTo w u ↔
        ¬ (w = workspaceId ∧ u = userId) := by
      rw [not_iff_not]
      constructor
      · intro same
        cases same
        exact ⟨rfl, rfl⟩
      · rintro ⟨rfl, rfl⟩
        rfl
    change owed' w u ∧ _ ≠ signalTo w u ↔ _
    rw [told, event, List.mem_append, List.mem_singleton]
    tauto
  · rintro _ rows' W' owed' ⟨rfl, rfl, told⟩
    refine ⟨rfl, rfl, fun w u => ?_⟩
    rw [told, List.nil_append, List.mem_eraseDups]

/-- Nothing is written, and no signal is sent, while a mail is made up. -/
theorem accounts_send {item : NotificationMailInput} :
    (NotificationMailer.send item).Accounts signals frail (fun _ => Stands rows W owed Nobody) failed rows W owed := by
  have named : ∀ actorId, (NotificationMailer.actorName actorId).Accounts signals frail
      (fun _ => Stands rows W owed Nobody) (Stands rows W owed Nobody) rows W owed := by
    intro actorId
    unfold NotificationMailer.actorName
    split
    · exact Stands.start
    · exact Accounts.read (fun _ => Stands.start) Stands.start
  have drawn : ∀ task, (NotificationMailer.template item task).Accounts signals frail
      (fun _ => Stands rows W owed Nobody) (Stands rows W owed Nobody) rows W owed := by
    intro task
    unfold NotificationMailer.template
    split
    · exact (named _).andThen fun _ _ _ _ kept => kept
    · exact (named _).andThen fun _ _ _ _ kept => kept
    · exact Stands.start
  have built : (NotificationMailer.build item).Accounts signals frail
      (fun _ => Stands rows W owed Nobody) (Stands rows W owed Nobody) rows W owed := by
    unfold NotificationMailer.build
    split
    · exact Stands.start
    · apply Accounts.bind
      apply Accounts.read fun _ => Stands.start
      split
      · exact Stands.start
      · apply Accounts.bind
        apply Accounts.read fun _ => Stands.start
        split
        · exact Stands.start
        · exact (drawn _).andThen fun _ _ _ _ kept => kept
  unfold NotificationMailer.send
  apply Accounts.catching (Stands rows W owed Nobody)
  · apply built.andThen
    rintro message _ _ owed' ⟨rfl, rfl, same⟩
    cases message with
    | none => exact ⟨rfl, rfl, same⟩
    | some message =>
        refine ⟨rfl, rfl, fun w u => ?_⟩
        rw [← same w u]
        exact and_iff_left fun mailed : Event.mailSent message = signalTo w u => by cases mailed
  · exact fun _ _ _ _ kept => kept

theorem accounts_sendForCreated {mailEnabled : Bool} {items : List NotificationMailInput} :
    (NotificationMailer.sendForCreated mailEnabled items).Accounts signals frail
      (fun _ => Stands rows W owed Nobody) failed rows W owed := by
  unfold NotificationMailer.sendForCreated
  split
  · exact Stands.start
  · apply Accounts.forEach (I := fun _ => Stands rows W owed Nobody) []
    · exact Stands.start
    · rintro _ item _ _ owed' _ ⟨rfl, rfl, same⟩
      apply accounts_send.weaken _ fun _ _ _ refused => refused
      rintro _ _ _ _ ⟨rfl, rfl, same'⟩
      refine ⟨rfl, rfl, fun w u => ?_⟩
      rw [same', same]
      simp [Nobody]

end Rules

end Kurul
