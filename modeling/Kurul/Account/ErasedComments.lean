import Kurul.Account.ErasedNames
import Kurul.Account.Erasure
import Kurul.Sequence.Drain

/-! The comments that an account deletion leaves: each is a comment of before with its body rewritten once. -/
namespace Kurul.AccountDeletionService

open Store Prog
open Redaction (Erasable NameErased OfClasses adaId adaId_uuid erasedBody name_erased_iff)

variable {userId : Id} {start view : List Row}

def rewritten (userId : Id) (comment : Comment) : Comment := { comment with body := erasedBody userId comment.body }

/-- The comments of a view are those of the start, rewritten where this is done. -/
def Rewrites (userId : Id) (start : List Row) (done : Id → Prop) (view : List Row) : Prop :=
  ∀ comment, .comment comment ∈ view → ∃ before, .comment before ∈ start ∧
    (done before.id → comment = rewritten userId before) ∧ (¬done before.id → comment = before)

theorem rewrites_none : Rewrites userId start (fun _ => False) start :=
  fun comment member => ⟨comment, member, False.elim, fun _ => rfl⟩

theorem Rewrites.origin {done : Id → Prop} (rewrites : Rewrites userId start done view) {comment : Comment}
    (member : .comment comment ∈ view) : ∃ before, .comment before ∈ start ∧ before.id = comment.id ∧
      (done comment.id → comment = rewritten userId before) ∧ (¬done comment.id → comment = before) := by
  obtain ⟨before, stored, redone, left⟩ := rewrites comment member
  have same : before.id = comment.id := by
    by_cases now : done before.id
    · rw [redone now]
      rfl
    · rw [left now]
  exact ⟨before, stored, same, same ▸ redone, same ▸ left⟩

/-- Where the rewriting is further on, what it passed needed none. -/
theorem Rewrites.advance {done further : Id → Prop} (rewrites : Rewrites userId start done view)
    (passed : ∀ before, .comment before ∈ start → done before.id → further before.id)
    (same : ∀ before, .comment before ∈ start → further before.id → ¬done before.id → rewritten userId before = before) :
    Rewrites userId start further view := by
  intro comment member
  obtain ⟨before, stored, redone, left⟩ := rewrites comment member
  by_cases now : done before.id
  · exact ⟨before, stored, fun _ => redone now, fun later => absurd (passed before stored now) later⟩
  · refine ⟨before, stored, fun later => ?_, fun _ => left now⟩
    rw [left now, same before stored later now]

theorem comment_eq_of_id (unique : UniqueKeys start) {first second : Comment} (left : .comment first ∈ start)
    (right : .comment second ∈ start) (same : first.id = second.id) : first = second := by
  have rows := unique.eq_of_key left right (congrArg Key.comment same)
  cases rows
  rfl

/-- The item is a comment that spells the id out. -/
structure Spells (userId : Id) (start : List Row) (item : Id × String) : Prop where
  spelled : contains userId item.2 = true
  body : ∀ before, .comment before ∈ start → before.id = item.1 → before.body = item.2

theorem Spells.rewritten_body {item : Id × String} (spells : Spells userId start item) {before : Comment}
    (stored : .comment before ∈ start) (same : before.id = item.1) :
    (rewritten userId before).body = redactMentionsOf item.2 userId ANONYMOUS_USER_NAME := by
  rw [rewritten, erasedBody, spells.body before stored same, if_pos spells.spelled]

theorem redactComment_rewrites {item : Id × String} {done : Id → Prop} {rows : List Row} {W : List (Write Row Key)}
    (spells : Spells userId start item) (ahead : ¬done item.1) (rewrites : Rewrites userId start done (applyAll rows W)) :
    (redactComment userId item).Holds (fun _ => True)
      (fun _ rows' W' => rows' = rows ∧ Rewrites userId start (fun id => done id ∨ id = item.1) (applyAll rows' W'))
      (fun _ _ _ => True) rows W := by
  unfold redactComment
  dsimp only
  split
  · rename_i unchanged
    refine ⟨rfl, rewrites.advance (fun _ _ => Or.inl) ?_⟩
    rintro before stored (earlier | same) still
    · exact absurd earlier still
    · have body := spells.rewritten_body stored same
      rw [unchanged, ← spells.body before stored same] at body
      exact congrArg (fun body => { before with body }) body
  · apply Holds.bind
    apply Holds.query
    intro o ran
    obtain ⟨target, chosen, found, _, written⟩ := Statement.update_ok ran
    have here : target.id = item.1 := by simpa using found
    refine ⟨rfl, ?_⟩
    rw [applyAll_append, written]
    intro comment member
    rcases mem_applyAll_cases member with stored | ⟨old, untouched⟩
    · obtain ⟨before, stored_, same, _, left⟩ := rewrites.origin (mem_table.mp chosen)
      obtain rfl : target = before := left (here ▸ ahead)
      cases List.mem_singleton.mp stored
      refine ⟨target, stored_, fun _ => ?_, fun still => absurd (Or.inr here) still⟩
      exact congrArg (fun body => { target with body }) (spells.rewritten_body stored_ here).symm
    · obtain ⟨before, stored, same, redone, left⟩ := rewrites.origin old
      have other : before.id ≠ item.1 := by
        intro equal
        apply untouched
        have keys : key (Row.comment comment) = key (Row.comment target) :=
          congrArg Key.comment (same.symm.trans (equal.trans here.symm))
        rw [keys]
        exact List.mem_singleton_self _
      refine ⟨before, stored, fun now => redone ?_, fun still => left fun earlier => still (Or.inl (same ▸ earlier))⟩
      rcases now with earlier | equal
      · exact same ▸ earlier
      · exact absurd equal other

/-- The comments of one page, one after the other. -/
theorem redactPage_rewrites {page : List (Id × String)} {done : Id → Prop} {rows : List Row} {W : List (Write Row Key)}
    (spells : ∀ item ∈ page, Spells userId start item) (ahead : ∀ item ∈ page, ¬done item.1)
    (distinct : (page.map Prod.fst).Nodup) (rewrites : Rewrites userId start done (applyAll rows W)) :
    (collect page (redactComment userId)).Holds (fun _ => True)
      (fun _ rows' W' => rows' = rows ∧
        Rewrites userId start (fun id => done id ∨ id ∈ page.map Prod.fst) (applyAll rows' W'))
      (fun _ _ _ => True) rows W := by
  induction page generalizing done W with
  | nil => exact ⟨rfl, by simpa using rewrites⟩
  | cons item rest ih =>
      obtain ⟨first, later⟩ := List.forall_mem_cons.mp spells
      obtain ⟨here, behind⟩ := List.forall_mem_cons.mp ahead
      obtain ⟨apart, distinct⟩ := List.nodup_cons.mp distinct
      apply Holds.bind
      apply (redactComment_rewrites first here rewrites).weaken _ fun _ _ _ _ => trivial
      rintro _ _ W' ⟨rfl, redone⟩
      apply Holds.bind
      have unseen : ∀ other ∈ rest, ¬(done other.1 ∨ other.1 = item.1) := by
        rintro other member (earlier | same)
        · exact behind other member earlier
        · exact apart (same ▸ List.mem_map_of_mem member)
      apply (@ih (fun id => done id ∨ id = item.1) W' later unseen distinct redone).weaken _ fun _ _ _ _ => trivial
      rintro _ _ W'' ⟨rfl, all⟩
      refine ⟨rfl, ?_⟩
      simpa [or_assoc] using all

/-- What the loop pages through: the comments that spell the id out. -/
def spelledOut (userId : Id) (rows : List Row) : List (Id × String) :=
  ((table rows : List Comment).filter fun comment => contains userId comment.body).map fun comment =>
    (comment.id, comment.body)

theorem commentPage_eq (userId : Id) (cursor : Option Id) (rows : List Row) :
    commentPage userId cursor rows = Sequence.page Prod.fst COMMENT_REDACTION_PAGE cursor (spelledOut userId rows) := by
  unfold commentPage Sequence.page Sequence.sorted spelledOut
  rw [List.filter_map, List.filter_filter]
  congr 4
  funext comment
  exact Bool.and_comm _ _

theorem mem_spelledOut {item : Id × String} : item ∈ spelledOut userId view ↔
    ∃ comment, .comment comment ∈ view ∧ contains userId comment.body = true ∧ (comment.id, comment.body) = item := by
  unfold spelledOut
  simp only [List.mem_map, List.mem_filter, and_assoc]
  constructor
  · rintro ⟨comment, stored, rest⟩
    exact ⟨comment, mem_table.mp stored, rest⟩
  · rintro ⟨comment, stored, rest⟩
    exact ⟨comment, mem_table.mpr stored, rest⟩

theorem spelledOut_distinct (unique : UniqueKeys view) : ((spelledOut userId view).map Prod.fst).Nodup := by
  unfold spelledOut
  rw [List.map_map]
  apply List.pairwise_map.mpr
  apply List.Pairwise.filter
  apply (table_pairwise unique).imp
  intro a b apart same
  exact apart (congrArg Key.comment same)

/-- A comment that does not spell the id out needs no rewriting. -/
theorem rewritten_same {comment : Comment} (absent : ¬contains userId comment.body = true) :
    rewritten userId comment = comment := by
  rw [rewritten, erasedBody, if_neg absent]

/-- Comments rewritten in two runs, the second over what the first has left. -/
theorem Rewrites.trans {done later : Id → Prop} {middle : List Row} (first : Rewrites userId start done middle)
    (second : Rewrites userId middle later view) (apart : ∀ id, later id → ¬done id) :
    Rewrites userId start (fun id => done id ∨ later id) view := by
  intro comment member
  obtain ⟨between, stored, same, redone, left⟩ := second.origin member
  obtain ⟨before, stored', same', redone', left'⟩ := first.origin stored
  rw [← same, ← same'] at redone left
  rw [← same'] at redone' left'
  refine ⟨before, stored', fun now => ?_, fun still => ?_⟩
  · by_cases late : later before.id
    · rw [redone late, left' (apart _ late)]
    · rw [left late, redone' (now.resolve_right late)]
  · rw [left fun late => still (Or.inr late), left' fun early => still (Or.inl early)]

/-- The loop rewrites what is ahead of its cursor. -/
theorem redactCommentMentions_rewrites (pages : Nat) (cursor : Option Id) (count : Nat)
    {rows : List Row} {W : List (Write Row Key)} (unique' : UniqueKeys rows)
    (rewrites : Rewrites userId start (fun id => ¬cursor.all (· < id) = true) (applyAll rows W)) :
    (redactCommentMentions userId pages cursor count).Holds (fun _ => True)
      (fun _ rows' W' => rows' = rows ∧ Rewrites userId start (fun _ => True) (applyAll rows' W')) (fun _ _ _ => True)
        rows W := by
  induction pages generalizing cursor count W with
  | zero => trivial
  | succ pages ih =>
      unfold redactCommentMentions
      apply Holds.bind
      apply Holds.read
      rw [commentPage_eq]
      have unique_ : UniqueKeys (applyAll rows W) := unique'.applyAll W
      have distinct := @spelledOut_distinct userId _ unique_
      generalize paged : Sequence.page Prod.fst COMMENT_REDACTION_PAGE cursor (spelledOut userId (applyAll rows W)) = page
      have read : ∀ item ∈ page, item ∈ spelledOut userId (applyAll rows W) ∧ cursor.all (· < item.1) = true := by
        intro item member
        rw [← paged] at member
        exact Sequence.mem_page member
      -- what the page leaves of the comments ahead spells nothing out, or comes after a full page
      have through : ∀ (further : Id → Prop) (rows' : List Row), (∀ id, ¬cursor.all (· < id) = true → further id) →
          (∀ item ∈ page, further item.1) → (∀ id, further id → ¬(COMMENT_REDACTION_PAGE ≤ page.length ∧
            (page.getLast?.map Prod.fst).all (· < id) = true)) →
          Rewrites userId (applyAll rows W) (· ∈ page.map Prod.fst) rows' → Rewrites userId start further rows' := by
        intro further rows' passed kept ends second
        have later : Rewrites userId (applyAll rows W) (fun id => cursor.all (· < id) = true ∧ further id) rows' := by
          apply second.advance
          · intro before _ member
            obtain ⟨item, listed, same⟩ := List.mem_map.mp member
            rw [← same]
            exact ⟨(read item listed).2, kept item listed⟩
          · rintro before stored ⟨ahead, reached⟩ off
            apply rewritten_same
            intro spelled
            have listed : (before.id, before.body) ∈ spelledOut userId (applyAll rows W) :=
              mem_spelledOut.mpr ⟨before, stored, spelled, rfl⟩
            rcases @Sequence.page_or_behind _ _ _ _ COMMENT_REDACTION_PAGE _ _ _ distinct listed ahead with here | beyond
            · exact off (List.mem_map.mpr ⟨_, paged ▸ here, rfl⟩)
            · rw [paged] at beyond
              exact ends _ reached beyond
        have both := rewrites.trans later fun id reached still => still reached.1
        refine both.advance (fun before _ now => ?_) fun before _ reached still => ?_
        · exact now.elim (passed _) And.right
        · by_cases ahead : cursor.all (· < before.id) = true
          · exact absurd (Or.inr ⟨ahead, reached⟩) still
          · exact absurd (Or.inl ahead) still
      split
      · rename_i empty
        refine ⟨rfl, through _ _ (fun _ _ => trivial) (fun _ _ => trivial) ?_ ?_⟩
        · rw [empty]
          rintro _ _ ⟨full, _⟩
          exact absurd full (by decide)
        · rw [empty]
          simpa using rewrites_none
      · rename_i some_
        apply Holds.bind
        have spells : ∀ item ∈ page, Spells userId (applyAll rows W) item := by
          intro item member
          obtain ⟨comment, stored, spelled, rfl⟩ := mem_spelledOut.mp (read item member).1
          refine ⟨spelled, fun before stored' same => ?_⟩
          rw [comment_eq_of_id unique_ stored' stored same]
        have ids : (page.map Prod.fst).Nodup := by
          rw [← paged]
          exact List.pairwise_map.mpr ((Sequence.pairwise_page distinct).imp ne_of_lt)
        apply (redactPage_rewrites spells (fun _ _ => id) ids rewrites_none).weaken _ fun _ _ _ _ => trivial
        rintro changed rows' W' ⟨sameRows, second⟩
        obtain rfl : rows = rows' := sameRows.symm
        have second : Rewrites userId (applyAll rows W) (· ∈ page.map Prod.fst) (applyAll rows W') := by
          simpa using second
        dsimp only
        split
        · rename_i short
          refine ⟨rfl, through _ _ (fun _ _ => trivial) (fun _ _ => trivial) ?_ second⟩
          rintro _ _ ⟨full, _⟩
          omega
        · apply ih
          apply through _ _ _ _ (fun _ reached beyond => reached beyond.2) second
          · intro id passed beyond
            rw [← paged] at beyond some_
            exact passed (Sequence.behind_of_page (a := (id, "")) some_ beyond)
          · intro item member beyond
            rw [List.getLast?_eq_some_getLast some_] at beyond
            have last : item.1 ≤ (page.getLast some_).1 := by
              refine @Sequence.last_le _ _ _ _ COMMENT_REDACTION_PAGE cursor _ _ distinct ?_ item ?_
              · rw [paged]
                exact List.getLast?_eq_some_getLast some_
              · rw [paged]
                exact member
            exact absurd (of_decide_eq_true beyond) (not_lt.mpr last)

/-- A comment that is none of the start. -/
def Strays (userId : Id) (start : List Row) (done : Id → Prop) : Row → Prop
  | .comment comment => ¬∃ before, .comment before ∈ start ∧
      (done before.id → comment = rewritten userId before) ∧ (¬done before.id → comment = before)
  | _ => False

theorem strays_comment {done : Id → Prop} {row : Row} (stray : Strays userId start done row) :
    ∃ comment, row = .comment comment := by
  cases row with
  | comment comment => exact ⟨comment, rfl⟩
  | _ => exact stray.elim

theorem rewrites_iff {done : Id → Prop} : Rewrites userId start done view ↔ ∀ row ∈ view,
    ¬Strays userId start done row := by
  constructor
  · intro rewrites row member stray
    obtain ⟨comment, rfl⟩ := strays_comment stray
    exact stray (rewrites comment member)
  · intro clear comment member
    exact not_not.mp (clear _ member)

/-- What holds between the steps of a run. -/
abbrev Between (userId : Id) (start : List Row) (done : Id → Prop) (rows : List Row) (W : List (Write Row Key)) : Prop :=
  UniqueKeys rows ∧ Rewrites userId start done (applyAll rows W)

section Alone

variable {α : Type} {done : Id → Prop} {rows : List Row} {W : List (Write Row Key)}

theorem aloof : Aloof (Strays userId start done) .pending := .comments fun _ => strays_comment

theorem between_of_stays {p : Service α} (stays : p.Stays (Strays userId start done) .pending)
    (between : Between userId start done rows W) :
    p.Holds (fun _ => True) (fun _ => Between userId start done) (fun _ _ _ => True) rows W := by
  have holds := Clears.holds stays between.1 (fun _ => rewrites_iff.mp between.2)
  apply holds.weaken _ fun _ _ _ _ => trivial
  rintro _ _ _ ⟨unique, _, rfl, clear⟩
  exact ⟨unique, rewrites_iff.mpr (clear rfl)⟩

/-- Steps on other tables, and then the rest. -/
theorem between_bind {β : Type} {ok : β → List Row → List (Write Row Key) → Prop} {p : Service α} {next : α → Service β}
    (stays : p.Stays (Strays userId start done) .pending) (between : Between userId start done rows W)
    (rest : ∀ value rows W, Between userId start done rows W →
    (next value).Holds (fun _ => True) ok (fun _ _ _ => True) rows W) :
    (p.bind next).Holds (fun _ => True) ok (fun _ _ _ => True) rows W := by
  apply Holds.bind
  apply (between_of_stays stays between).weaken _ fun _ _ _ _ => trivial
  exact rest

end Alone

section Deletion

variable (toLowerCase : String → String) (pages : Nat) (user : User) {rows : List Row} {W : List (Write Row Key)}

theorem erase_rewrites (counts : AccountDeletionCounts) (between : Between user.id start (fun _ => False) rows W) :
    (erase toLowerCase pages user counts).Holds (fun _ => True) (fun _ => Between user.id start fun _ => True)
      (fun _ _ _ => True) rows W := by
  unfold erase
  refine between_bind (aloof.deleteMany _) between fun _ _ _ between => ?_
  refine between_bind (aloof.deleteMany _) between fun _ _ _ between => ?_
  refine between_bind (aloof.deleteMany _) between fun _ rows W between => ?_
  apply Holds.bind
  have ahead : Rewrites user.id start (fun id => ¬(none : Option Id).all (· < id) = true) (applyAll rows W) := by
    simpa using between.2
  apply (redactCommentMentions_rewrites pages none 0 between.1 ahead).weaken _ fun _ _ _ _ => trivial
  rintro _ _ _ ⟨rfl, rewrites⟩
  have later : Between user.id start (fun _ => True) _ _ := ⟨between.1, rewrites⟩
  refine between_bind (aloof.updateMany _ _) later fun _ _ _ later => ?_
  refine between_bind (aloof.deleteMany _) later fun _ _ _ later => ?_
  refine between_bind (aloof.deleteMany _) later fun _ _ _ later => ?_
  refine between_bind (aloof.deleteMany _) later fun _ _ _ later => ?_
  refine between_bind (aloof.deleteMany _) later fun _ _ _ later => ?_
  refine between_bind (aloof.deleteMany _) later fun _ _ _ later => ?_
  exact between_bind (aloof.deleteMany _) later fun _ _ _ later => later

theorem execute_rewrites (unique : UniqueKeys rows) (soleOwned other : List MembershipRow)
    (dispositions : List WorkspaceDispositionDto) (deletedAt : DateTime) (initiatedBy : DeletionInitiator)
    (actorId : Option Id) :
    (execute toLowerCase pages user soleOwned other dispositions deletedAt initiatedBy actorId).Holds (fun _ => True)
      (fun _ => Between user.id rows fun _ => True) (fun _ _ _ => True) rows [] := by
  have start : Between user.id rows (fun _ => False) rows [] := ⟨unique, rewrites_none⟩
  unfold execute
  refine between_bind (Stays.collect _ (settle_stays aloof _ _ _)) start fun settled _ _ between => ?_
  refine between_bind (Stays.forEach _ (recordDeparture_stays aloof _ _)) between fun _ _ _ between => ?_
  apply Holds.bind
  apply (erase_rewrites toLowerCase pages user _ between).weaken _ fun _ _ _ _ => trivial
  intro counts _ _ between
  refine between_bind (aloof.deleteMany _) between fun _ _ _ between => ?_
  exact between_bind (aloof.update _ _) between fun _ _ _ between => between

end Deletion

theorem holds_events {β : Type} (items : List β) (event : β → Event) {kept : List Row → Prop} {rows : List Row}
    {W : List (Write Row Key)} (now : kept rows) :
    (forEach items fun item => Service.emit (event item)).Holds (fun _ => True)
      (fun _ rows _ => kept rows) (fun _ _ _ => True) rows W := by
  induction items with
  | nil => exact now
  | cons item rest ih => exact ⟨trivial, ih⟩

theorem deleteAccount_rewrites (toLowerCase : String → String) (pages : Nat) (dto : DeleteAccountDto)
    (initiatedBy : DeletionInitiator) (actorId : Option Id) {rows : List Row} (unique : UniqueKeys rows) :
    (deleteAccount toLowerCase pages userId dto initiatedBy actorId).Holds (fun _ => True)
      (fun _ rows' _ => Rewrites userId rows (fun _ => True) rows') (fun _ _ _ => True) rows [] := by
  unfold deleteAccount requireLiveUser partitionMemberships
  apply Holds.bind
  apply Holds.bind
  apply Holds.found
  intro user hit
  obtain rfl : user.id = userId := by simpa using List.find?_some hit
  apply Holds.bind
  apply Holds.require
  intro live
  apply Holds.bind
  apply Holds.require
  intro confirmed
  apply Holds.bind
  apply Holds.bind
  apply Holds.read
  dsimp only
  have last : ∀ soleOwned other, (do
      let dispositions ← ofExcept (matchDispositions soleOwned dto.decisions)
      let given ← Service.fresh
      let done ← transaction
        (execute toLowerCase pages user soleOwned other dispositions given.now initiatedBy actorId)
      forEach done.2.2 fun workspaceId => Service.emit (.evicted workspaceId user.id)
      forEach done.2.1 fun line => Service.emit (.logged line)
      Service.emit (.logged (.accountDeleted user.id initiatedBy actorId done.1))
      return done.1 : Service AccountDeletionCounts).Holds (fun _ => True)
        (fun _ rows' _ => Rewrites user.id rows (fun _ => True) rows') (fun _ _ _ => True) rows [] := by
    intro soleOwned other
    apply Holds.bind
    apply Holds.ofExcept
    intro dispositions _
    apply Holds.bind
    intro given
    apply Holds.bind
    apply Holds.transaction
    apply (execute_rewrites toLowerCase pages user unique soleOwned other dispositions given.now initiatedBy actorId).weaken _
      fun _ _ _ _ => trivial
    rintro ⟨counts, deletedWorkspaces, evictions⟩ rows' W ⟨_, rewrites⟩
    refine ⟨trivial, ?_⟩
    apply Holds.bind
    apply (holds_events evictions _ rewrites).weaken _ fun _ _ _ _ => trivial
    intro _ rows' W' rewrites
    apply Holds.bind
    apply (holds_events deletedWorkspaces _ rewrites).weaken _ fun _ _ _ _ => trivial
    intro _ rows' W' rewrites
    exact ⟨trivial, rewrites⟩
  split
  · exact last _ _
  · apply Holds.bind
    apply Holds.read
    exact last _ _

/-- After a deletion each comment is one of before, with the user's name erased from its body exactly where the body
is one it can be erased from. -/
theorem comments_lose_name_iff (toLowerCase : String → String) (pages : Nat) (dto : DeleteAccountDto)
    (initiatedBy : DeletionInitiator) (actorId : Option Id) (name : String) (oracle : Nat → Choice Input Error)
    (rows : List Row) (counts : AccountDeletionCounts) (uuid : OfClasses uuidClasses userId.toList)
    (unique : UniqueKeys rows)
    (deleted : ((deleteAccount toLowerCase pages userId dto initiatedBy actorId).run oracle { rows := rows }).1 =
      .ok counts) :
    ∀ after : Comment,
      .comment after ∈ ((deleteAccount toLowerCase pages userId dto initiatedBy actorId).run oracle { rows := rows }).2.rows →
        ∃ before : Comment, .comment before ∈ rows ∧ after = { before with body := after.body } ∧
          (NameErased name userId before.body after.body ↔ Erasable name userId before.body) := by
  intro after member
  have rewrites : (deleteAccount toLowerCase pages userId dto initiatedBy actorId).Holds (fun _ => True)
      (fun _ rows' _ => Rewrites userId rows (fun _ => True) rows') (fun _ _ _ => True) rows [] :=
    deleteAccount_rewrites toLowerCase pages dto initiatedBy actorId unique
  have holds := Holds.run (s := { rows := rows }) rewrites oracle
  rw [deleted] at holds
  obtain ⟨before, stored, now, _⟩ := holds.1 after member
  refine ⟨before, stored, ?_, ?_⟩
  · rw [now trivial]
    rfl
  · rw [now trivial]
    exact name_erased_iff uuid name before.body

/-- An account with one mention. -/
def mentionedAda : List Row := [
  .user { id := adaId, email := "ada@kurul.dev", name := "Ada" },
  .comment { id := "c", taskId := "t", userId := "bob", body := "Hi @[Ada](018f3c2e-7a00-7000-8000-00000000000a)" }]

theorem comments_lose_name_iff_ada :
    ((deleteAccount id 1 adaId { confirmEmail := "ada@kurul.dev" } .self none).run
      (fun _ => { value := { id := "n", now := 0 } }) { rows := mentionedAda }).1.toBool = true ∧
    ∀ after : Comment,
      .comment after ∈ ((deleteAccount id 1 adaId { confirmEmail := "ada@kurul.dev" } .self none).run
        (fun _ => { value := { id := "n", now := 0 } }) { rows := mentionedAda }).2.rows →
          ∃ before : Comment, .comment before ∈ mentionedAda ∧ after = { before with body := after.body } ∧
            (NameErased "Ada" adaId before.body after.body ↔ Erasable "Ada" adaId before.body) := by
  have deleted : ((deleteAccount id 1 adaId { confirmEmail := "ada@kurul.dev" } .self none).run
      (fun _ => { value := { id := "n", now := 0 } }) { rows := mentionedAda }).1.toBool = true := by
    decide +kernel
  refine ⟨deleted, ?_⟩
  generalize ran : ((deleteAccount id 1 adaId { confirmEmail := "ada@kurul.dev" } .self none).run
      (fun _ => { value := { id := "n", now := 0 } }) { rows := mentionedAda }).1 = answer at deleted
  cases answer with
  | error error => cases deleted
  | ok counts => exact comments_lose_name_iff _ _ _ _ _ "Ada" _ _ counts adaId_uuid (by decide) ran

end Kurul.AccountDeletionService
