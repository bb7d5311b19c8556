import Kurul.Board.ListRuns
import Kurul.Notification.UnreadCounts
import Kurul.Store.Journal
import Kurul.Task.CommentService

/-! Who is notified of a comment, beside who is shown as mentioned in it. Both read the same
tokens, in either case; the members are looked up by the ids as they are spelled. -/
namespace Kurul

open Store Prog

theorem nodup_eraseDups {α : Type} [DecidableEq α] (items : List α) : items.eraseDups.Nodup := by
  induction bound : items.length using Nat.strong_induction_on generalizing items with
  | _ n ih =>
      cases items with
      | nil => exact List.nodup_nil
      | cons a rest =>
          rw [List.eraseDups_cons]
          refine List.nodup_cons.mpr ⟨?_, ih _ ?_ _ rfl⟩
          · rw [List.mem_eraseDups, List.mem_filter]
            simp
          · rw [← bound, List.length_cons]
            exact Nat.lt_succ_of_le (List.length_filter_le _ _)

section Tables

variable {Row Key α : Type} [Relational Row Key] [DecidableEq Key] [Entity Row α] {rows : List Row}

/-- New rows one after the other. -/
theorem table_put_all {stored : List α} (keys : (stored.map fun a => key (toRow a : Row)).Nodup)
    (absent : ∀ a ∈ stored, ∀ row ∈ rows, key row ≠ key (toRow a : Row)) :
    (table (applyAll rows (stored.map fun a => .put (toRow a))) : List α) = table rows ++ stored := by
  induction stored generalizing rows with
  | nil => exact (List.append_nil _).symm
  | cons a rest ih =>
      obtain ⟨apart, keys'⟩ := List.nodup_cons.mp keys
      rw [List.map_cons, applyAll, ih keys', table_put_new (absent a List.mem_cons_self), List.append_assoc,
        List.singleton_append]
      intro later member row there same
      rw [mem_apply] at there
      by_cases mine : Write.target (.put (toRow a) : Write Row Key) = key row
      · apply apart
        change key (toRow a : Row) ∈ _
        rw [show key (toRow a : Row) = key (toRow later : Row) from mine.trans same]
        exact List.mem_map_of_mem (f := fun a => key (toRow a : Row)) member
      · rw [if_neg mine] at there
        exact absent later (List.mem_cons_of_mem _ member) row there same

end Tables

/-- A member of the workspace. -/
def IsMember (workspaceId userId : Id) (rows : List Row) : Prop :=
  ∃ member ∈ (table rows : List WorkspaceMember), member.workspaceId = workspaceId ∧ member.userId = userId

/-- The new notifications: a mention for each of these members but the author, once. -/
def NotifiesMembers (workspaceId taskId author : Id) (mentioned : Id → Prop) (before after : List Row) : Prop :=
  ∃ new : List Notification, (table after : List Notification) = table before ++ new ∧
    (∀ n ∈ new, n.type = .Mention ∧ n.workspaceId = workspaceId ∧ n.taskId = some taskId ∧ n.readAt = none) ∧
    (new.map Notification.userId).Nodup ∧
    ∀ userId, userId ∈ new.map Notification.userId ↔
      IsMember workspaceId userId before ∧ userId ≠ author ∧ mentioned userId

def lowerCase (text : String) : List Char := text.toList.map Char.toLower

/-- A mention of the user is shown, whatever the case of its id. -/
def ShownFor (body userId : String) : Prop := ∃ id, ShownAs body id ∧ lowerCase id = lowerCase userId

/-- Every member who is shown as mentioned, the author aside, is so by an id spelled like theirs. -/
def SpelledOut (workspaceId author : Id) (body : String) (rows : List Row) : Prop :=
  ∀ userId, IsMember workspaceId userId rows → userId ≠ author → ShownFor body userId → ShownAs body userId

section Create

variable {rows : List Row} {workspaceId taskId author : Id} {body : String} {frail : Owed → Prop}

theorem mem_recipientsOf {actorId userId : Id} {userIds : List Id} :
    userId ∈ NotificationService.recipientsOf actorId userIds ↔ userId ∈ userIds ∧ userId ≠ actorId := by
  simp [NotificationService.recipientsOf, List.mem_filter, List.mem_eraseDups]

/-- The batch: one row for each recipient. -/
theorem accounts_createMentionBatch {input : MentionBatchInput} {W : List (Write Row Key)} {owed : Owed}
    {ok : Nat → List Row → List (Write Row Key) → Owed → Prop} {failed : List Row → List (Write Row Key) → Owed → Prop}
    (refused : failed rows W owed)
    (rest : ∀ count, ∀ new : List Notification,
      new.map Notification.userId = NotificationService.recipientsOf input.actorId input.userIds →
      (∀ n ∈ new, n.type = .Mention ∧ n.workspaceId = input.workspaceId ∧ n.taskId = some input.taskId ∧
        n.readAt = none) →
      (new.map fun n => key (toRow n : Row)).Nodup →
      (∀ n ∈ new, ∀ row ∈ applyAll rows W, key row ≠ key (toRow n : Row)) →
      ok count rows (W ++ new.map fun n => .put (toRow n)) owed) :
    (NotificationService.createMentionBatch input).Accounts signals frail ok failed rows W owed := by
  unfold NotificationService.createMentionBatch
  split
  · rename_i none_
    have nothing := rest 0 [] (by rw [none_]; rfl) (by simp) (by simp) (by simp)
    rw [List.map_nil, List.append_nil] at nothing
    exact nothing
  · apply (Accounts.collect (R := fun userId (n : Notification) => n.userId = userId ∧ n.type = .Mention ∧
      n.workspaceId = input.workspaceId ∧ n.taskId = some input.taskId ∧ n.readAt = none) ?_).andThen
    · rintro data _ _ _ ⟨made, rfl, rfl, rfl⟩
      apply Accounts.query fun _ => refused
      intro o ran
      obtain ⟨stored, _, all, written, keys, absent⟩ := Statement.createMany_ok ran
      obtain rfl := all rfl
      rw [written]
      apply rest _ _ _ _ keys absent
      · generalize NotificationService.recipientsOf input.actorId input.userIds = recipients at made
        clear * - made
        induction made with
        | nil => rfl
        | cons first _ ih => rw [List.map_cons, ih, first.1]
      · generalize NotificationService.recipientsOf input.actorId input.userIds = recipients at made
        clear * - made
        induction made with
        | nil => simp
        | cons first _ ih => exact List.forall_mem_cons.mpr ⟨first.2, ih⟩
    · intro userId _ given
      exact ⟨⟨rfl, rfl, rfl, rfl, rfl⟩, rfl, rfl, rfl⟩

theorem accounts_mentionedMembers {mentionIds : List Id} {W : List (Write Row Key)} {owed : Owed}
    {ok : List Id → List Row → List (Write Row Key) → Owed → Prop} {failed : List Row → List (Write Row Key) → Owed → Prop}
    (refused : failed rows W owed)
    (rest : ∀ memberIds, (∀ userId, userId ∈ memberIds ↔
      IsMember workspaceId userId (applyAll rows W) ∧ userId ∈ mentionIds) → ok memberIds rows W owed) :
    (CommentService.mentionedMembers workspaceId mentionIds).Accounts signals frail ok failed rows W owed := by
  unfold CommentService.mentionedMembers
  split
  · rename_i none_
    exact rest [] fun userId => by simp [none_]
  · apply Accounts.read fun _ => refused
    apply rest
    intro userId
    simp only [List.mem_map, List.mem_filter, Bool.and_eq_true, decide_eq_true_eq, List.contains_iff_mem, IsMember]
    constructor
    · rintro ⟨member, ⟨stored, here, mentioned⟩, rfl⟩
      exact ⟨⟨member, stored, here, rfl⟩, mentioned⟩
    · rintro ⟨⟨member, stored, here, rfl⟩, mentioned⟩
      exact ⟨member, ⟨stored, here, mentioned⟩, rfl⟩

/-- What the transaction of a comment leaves: the rows of the mentioned, and no other count moved. -/
structure Stored (workspaceId taskId author : Id) (body : String) (rows : List Row) (memberIds : List Id)
    (W : List (Write Row Key)) : Prop where
  notified : NotifiesMembers workspaceId taskId author (ShownAs body) rows (applyAll rows W)
  unmoved : Unmoved (fun w u => w = workspaceId ∧ u ∈ memberIds) rows (applyAll rows W)

theorem accounts_store {task : Task} {dto : CreateCommentDto} {owed : Owed}
    {failed : List Row → List (Write Row Key) → Owed → Prop} (refused : ∀ W, failed rows W owed) :
    (CommentService.store workspaceId taskId author task dto
      ((parseMentions dto.body).filter fun id => id ≠ author)).Accounts signals frail
      (fun answer rows' W owed' => rows' = rows ∧ owed' = owed ∧
        Stored workspaceId taskId author dto.body rows answer.2 W) failed rows [] owed := by
  unfold CommentService.store
  apply Accounts.bind
  intro given
  apply Accounts.bind
  apply accounts_create (fun _ _ => rfl) (refused _)
  intro created W written commented
  have quiet : ∀ write ∈ W, ∃ comment : Comment, write = .put (toRow comment) := by
    subst written
    intro write member
    exact ⟨_, List.mem_singleton.mp member⟩
  have members : (table (applyAll rows W) : List WorkspaceMember) = table rows := by
    apply table_applyAll_elsewhere
    intro write member a same
    obtain ⟨comment, rfl⟩ := quiet write member
    cases same
  apply Accounts.bind
  apply accounts_mentionedMembers (refused _)
  intro memberIds named
  have listed : ∀ userId, userId ∈ memberIds ↔
      IsMember workspaceId userId rows ∧ userId ≠ author ∧ ShownAs dto.body userId := by
    intro userId
    rw [named, IsMember, members, List.mem_filter, decide_eq_true_eq, mem_parseMentions, IsMember]
    tauto
  apply Accounts.bind
  apply accounts_record (refused _)
  intro activity still
  have same : (table (applyAll rows (W ++ [.put (.activity activity)])) : List Notification) = table rows := by
    apply table_applyAll_elsewhere
    intro write member
    rcases List.mem_append.mp member with early | last
    · obtain ⟨comment, rfl⟩ := quiet write early
      intro a key
      cases key
    · obtain rfl := List.mem_singleton.mp last
      intro a key
      cases key
  have unmoved : ∀ S, Unmoved S rows (applyAll rows (W ++ [.put (.activity activity)])) :=
    fun S => (commented S).trans (still S)
  split
  · rename_i none_
    refine ⟨rfl, rfl, ⟨[], ?_, by simp, by simp, ?_⟩, unmoved _⟩
    · rw [List.append_nil]
      exact same
    · intro userId
      rw [← listed, none_]
      exact Iff.rfl
  · apply Accounts.bind
    apply accounts_createMentionBatch (refused _)
    intro count notifications users typed keys absent
    have stored := table_put_all keys absent
    rw [← applyAll_append, same] at stored
    refine ⟨rfl, rfl, ⟨notifications, stored, ?_, ?_, ?_⟩, ?_⟩
    · exact typed
    · rw [users]
      exact (nodup_eraseDups _).filter _
    · intro userId
      rw [users, mem_recipientsOf, listed]
      tauto
    · apply (unmoved _).trans
      have inserted := unmoved_notifications (S := fun w u => w = workspaceId ∧ u ∈ memberIds) _ keys absent (by
        intro n member
        have user : n.userId ∈ notifications.map Notification.userId := List.mem_map_of_mem member
        rw [users, mem_recipientsOf] at user
        exact ⟨(typed n member).2.1, user.1⟩)
      rw [← applyAll_append] at inserted
      exact inserted

theorem accounts_createComment {mailEnabled : Bool} {dto : CreateCommentDto} :
    (CommentService.create mailEnabled workspaceId taskId author dto).Accounts signals frail
      (fun _ after W owed => W = [] ∧ owed.Settled ∧
        NotifiesMembers workspaceId taskId author (ShownAs dto.body) rows after)
      (fun _ _ owed => owed.Settled) rows [] Nobody := by
  have nobody : Owed.Settled Nobody := fun _ _ => id
  unfold CommentService.create CommentService.findTask
  apply Accounts.bind
  apply Accounts.found nobody
  intro task _
  apply Accounts.bind
  apply Accounts.transaction
  apply (accounts_store fun _ => nobody).weaken _ fun _ _ _ settled => settled
  rintro ⟨comment, memberIds⟩ rows' W owed' ⟨same, none_, stored⟩
  rw [same, none_]
  refine ⟨fun _ => nobody, ?_⟩
  have owes : ∀ w u, signals.commit rows W Nobody w u → w = workspaceId ∧ u ∈ memberIds := by
    rintro w u (none_ | changed)
    · exact none_.elim
    · by_contra other
      exact changed (stored.unmoved w u other)
  apply Accounts.bind
  have told : (CommentService.notify mailEnabled workspaceId taskId author memberIds).Accounts signals frail
      (fun _ rows' W' owed => rows' = applyAll rows W ∧ W' = [] ∧ owed.Settled)
      (fun _ _ owed => owed.Settled) (applyAll rows W) [] (signals.commit rows W Nobody) := by
    unfold CommentService.notify
    split
    · rename_i none_
      refine ⟨rfl, rfl, fun w u owing => ?_⟩
      have member := (owes w u owing).2
      rw [none_] at member
      cases member
    · apply accounts_emitUnreadChanged.andThen
      rintro _ _ _ owed ⟨rfl, rfl, paid⟩
      apply accounts_sendForCreated.weaken _ fun _ _ _ refused => refused
      rintro _ _ _ owed' ⟨rfl, rfl, same⟩
      refine ⟨rfl, rfl, fun w u owing => ?_⟩
      obtain ⟨owing', untold⟩ := (paid w u).mp ((same w u).mp owing).1
      exact untold (owes w u owing')
  apply told.weaken _ fun _ _ _ refused => refused
  rintro _ _ _ owed ⟨rfl, rfl, settled⟩
  exact ⟨rfl, fun w u owing => settled w u owing.1, stored.notified⟩

end Create

/-- What a comment that was created has stored. -/
theorem comment_notifies {mailEnabled : Bool} {workspaceId taskId author : Id} {dto : CreateCommentDto}
    {oracle : Nat → Choice Input Error} {s : Store.Session Row Key Event} {result : CommentDto} (settled : s.pending = [])
    (ran : ((CommentService.create mailEnabled workspaceId taskId author dto).run oracle s).1 = .ok result) :
    NotifiesMembers workspaceId taskId author (ShownAs dto.body) s.rows
      ((CommentService.create mailEnabled workspaceId taskId author dto).run oracle s).2.rows := by
  have accounts := @accounts_createComment s.rows workspaceId taskId author (fun _ => False) mailEnabled dto
  rw [← settled] at accounts
  obtain ⟨_, _, ends⟩ := accounts.run oracle (spares_sound _ oracle s Nobody)
  rw [ran] at ends
  exact ends.2.2

/-- The members who are shown as mentioned are notified, the author aside and each once,
exactly where each of them is mentioned by an id spelled like theirs. -/
theorem mentions_notify_who_is_shown (mailEnabled : Bool) (workspaceId taskId author : Id) (dto : CreateCommentDto)
    (oracle : Nat → Choice Input Error) (s : Store.Session Row Key Event) (settled : s.pending = []) (result : CommentDto)
    (ran : ((CommentService.create mailEnabled workspaceId taskId author dto).run oracle s).1 = .ok result) :
    NotifiesMembers workspaceId taskId author (ShownFor dto.body) s.rows
        ((CommentService.create mailEnabled workspaceId taskId author dto).run oracle s).2.rows ↔
      SpelledOut workspaceId author dto.body s.rows := by
  obtain ⟨new, stored, typed, once, users⟩ := comment_notifies settled ran
  constructor
  · rintro ⟨new', stored', _, _, users'⟩ userId member other shown
    obtain rfl : new' = new := List.append_cancel_left (stored'.symm.trans stored)
    exact ((users userId).mp ((users' userId).mpr ⟨member, other, shown⟩)).2.2
  · intro spelled
    refine ⟨new, stored, typed, once, fun userId => ?_⟩
    rw [users]
    constructor
    · rintro ⟨member, other, shown⟩
      exact ⟨member, other, userId, shown, rfl⟩
    · rintro ⟨member, other, shown⟩
      exact ⟨member, other, spelled userId member other shown⟩

section Sample

def annId : Id := "01900000-0000-7000-8000-00000000000a"
def bobId : Id := "01900000-0000-7000-8000-00000000000b"

/-- Two members and a task. -/
def commented : List Row := [
  .user { id := annId, email := "ann@kurul.dev", name := "Ann" },
  .user { id := bobId, email := "bob@kurul.dev", name := "Bob" },
  .workspace { id := "w", name := "Kurul", slug := "kurul" },
  .workspaceMember { id := "m1", workspaceId := "w", userId := annId, role := .OWNER },
  .workspaceMember { id := "m2", workspaceId := "w", userId := bobId, role := .MEMBER },
  .board { id := "b", workspaceId := "w" },
  .column { id := "c", boardId := "b", name := "To Do", position := 1000 },
  .task { id := "t", boardId := "b", columnId := "c", title := "Read", position := 1000, createdById := annId }]

/-- A comment by Ann. -/
def sayToBob (body : String) : Service CommentDto := CommentService.create false "w" "t" annId { body }

def isUuid (id : Id) : Bool := matchClasses uuidClasses id.toList = some (id.toList, []) && lowerCase id = id.toList

/-- An id in capitals is shown as a mention of Bob, who is not notified. -/
def inCapitals : String := "Hi @[Bob](01900000-0000-7000-8000-00000000000B)"

theorem capital_mention_missed :
    ¬ ∀ (mailEnabled : Bool) (workspaceId taskId author : Id) (dto : CreateCommentDto) (oracle : Nat → Choice Input Error)
      (s : Store.Session Row Key Event) (result : CommentDto), UniqueKeys s.rows → s.pending = [] →
        (∀ member ∈ (table s.rows : List WorkspaceMember), isUuid member.userId) →
        ((CommentService.create mailEnabled workspaceId taskId author dto).run oracle s).1 = .ok result →
          NotifiesMembers workspaceId taskId author (ShownFor dto.body) s.rows
            ((CommentService.create mailEnabled workspaceId taskId author dto).run oracle s).2.rows := by
  intro claim
  have ran : ((sayToBob inCapitals).run smooth { rows := commented }).1.toOption.isSome := by decide +kernel
  have none_ : (table ((sayToBob inCapitals).run smooth { rows := commented }).2.rows : List Notification) = [] := by
    decide +kernel
  have shown : ShownFor inCapitals bobId :=
    ⟨"01900000-0000-7000-8000-00000000000B", ⟨"Bob", by decide +kernel⟩, by decide +kernel⟩
  have member : IsMember "w" bobId commented :=
    ⟨{ id := "m2", workspaceId := "w", userId := bobId, role := .MEMBER }, by decide +kernel, rfl, rfl⟩
  cases answer : ((sayToBob inCapitals).run smooth { rows := commented }).1 with
  | error error =>
      rw [answer] at ran
      cases ran
  | ok result =>
      have notified := claim false "w" "t" annId { body := inCapitals } smooth { rows := commented } result
        (by decide +kernel) rfl (by decide +kernel) answer
      obtain ⟨new, stored, _, _, users⟩ := notified
      have nothing : new = [] := (List.append_eq_nil_iff.mp (stored.symm.trans none_)).2
      have told := (users bobId).mpr ⟨member, by decide +kernel, shown⟩
      rw [nothing] at told
      cases told

def asSpelled : String := "Hi @[Bob](01900000-0000-7000-8000-00000000000b)"

/-- Spelled as it is, the id reaches him. -/
theorem mentions_notify_who_is_shown_spelled :
    NotifiesMembers "w" "t" annId (ShownFor asSpelled) commented
        ((sayToBob asSpelled).run smooth { rows := commented }).2.rows ↔
      SpelledOut "w" annId asSpelled commented := by
  have ran : ((sayToBob asSpelled).run smooth { rows := commented }).1.toOption.isSome := by
    decide +kernel
  cases answer : ((sayToBob asSpelled).run smooth { rows := commented }).1 with
  | error error =>
      rw [answer] at ran
      cases ran
  | ok result => exact mentions_notify_who_is_shown false "w" "t" annId _ smooth { rows := commented } rfl result answer

end Sample
end Kurul
