import Kurul.Machine
import Kurul.Sequence.Pager

/-! The comment thread of a task panel: first pages that replace it, further pages that are
appended whatever has replaced it meanwhile, and comments posted from the panel. Comments go
by their ids, which increase. -/
namespace Kurul.Client

open Sequence

variable {κ : Type} [LinearOrder κ]

def COMMENTS_PAGE_LIMIT : Nat := 100

/-- A request for a page, and the thread it was served from. -/
structure PageRequest (κ : Type) where
  cursor : Option κ
  seen : Option (List κ) := none
  deriving DecidableEq

structure CommentThread (κ : Type) where
  thread : List κ := []
  /-- Posted from this panel. -/
  mine : List κ := []
  comments : List κ := []
  commentsCursor : Option κ := none
  loadingMoreComments : Bool := false
  /-- The first page on its way; one that is replaced is aborted. -/
  reload : Option (PageRequest κ) := none
  more : List (PageRequest κ) := []
  /-- Cursors of the retry toasts. -/
  retries : List κ := []
  /-- Posts whose response is on its way. -/
  posts : List κ := []
  /-- The thread as the page shown last was served from it. -/
  served : List κ := []
  deriving DecidableEq

inductive ThreadMove (κ : Type) where
  | comment (id : κ)
  | post (id : κ)
  | posted (index : Nat)
  | bump
  | serveReload
  | reloaded
  | reloadFailed
  | loadMoreComments
  | retry (cursor : κ)
  | serveMore (index : Nat)
  | loadedMore (index : Nat)
  | loadMoreFailed (index : Nat)
  deriving DecidableEq

namespace CommentThread

/-- The answer of `CommentService.list`, oldest first. -/
def listComments (limit : Nat) (cursor : Option κ) (thread : List κ) : Probe κ κ := probe id limit cursor thread

/-- Ids increase. -/
def isNew (s : CommentThread κ) (id : κ) : Bool := s.thread.all (· < id)

def step (limit : Nat) (s : CommentThread κ) : ThreadMove κ → Option (CommentThread κ)
  | .comment id => if s.isNew id then some { s with thread := s.thread ++ [id] } else none
  | .post id =>
      if s.isNew id then
        some { s with thread := s.thread ++ [id], mine := s.mine ++ [id], posts := s.posts ++ [id] }
      else none
  | .posted index => (s.posts[index]?).map fun id =>
      { s with comments := s.comments ++ [id], posts := s.posts.eraseIdx index }
  | .bump => some { s with reload := some { cursor := none } }
  | .serveReload => s.reload.bind fun request => if request.seen.isNone then
      some { s with reload := some { request with seen := some s.thread } } else none
  | .reloaded => s.reload.bind fun request => request.seen.map fun seen =>
      let page := listComments limit none seen
      { s with comments := page.items, commentsCursor := page.next, reload := none, served := seen }
  | .reloadFailed => s.reload.map fun _ =>
      { s with comments := [], commentsCursor := none, reload := none, served := [] }
  | .loadMoreComments => s.commentsCursor.bind fun cursor =>
      if s.loadingMoreComments then none
      else some { s with loadingMoreComments := true, more := s.more ++ [{ cursor := some cursor }] }
  -- The closure of the toast holds the cursor and the flag of the call that failed.
  | .retry cursor =>
      if cursor ∈ s.retries then
        some { s with
          loadingMoreComments := true
          more := s.more ++ [{ cursor := some cursor }]
          retries := s.retries.erase cursor }
      else none
  | .serveMore index => (s.more[index]?).bind fun request => if request.seen.isNone then
      some { s with more := s.more.set index { request with seen := some s.thread } } else none
  | .loadedMore index => (s.more[index]?).bind fun request => request.seen.map fun seen =>
      let page := listComments limit request.cursor seen
      { s with
        comments := s.comments ++ page.items.filter (· ∉ s.comments)
        commentsCursor := page.next
        loadingMoreComments := false
        more := s.more.eraseIdx index
        served := seen }
  | .loadMoreFailed index => (s.more[index]?).map fun request =>
      { s with
        loadingMoreComments := false
        more := s.more.eraseIdx index
        retries := s.retries ++ request.cursor.toList }

/-- Not posted from this panel. -/
def others (s : CommentThread κ) (comments : List κ) : List κ := comments.filter (· ∉ s.mine)

/-- What is shown of the others' comments is the thread up to some point, each once, and all
of the thread as it was served where no further page is offered. -/
structure NoHole (s : CommentThread κ) : Prop where
  start : s.others s.comments <+: s.others s.thread
  once : (s.others s.comments).Nodup
  whole : s.commentsCursor = none → ∀ id ∈ s.served, id ∈ s.comments

/-- Everything up to the cursor is shown. -/
def Covers (s : CommentThread κ) (cursor : Option κ) : Prop := ∀ a ∈ s.thread, behind id cursor a = false → a ∈ s.comments

/-- A further page arrives where everything up to the cursor it was asked for with is shown. -/
def Continues (s : CommentThread κ) : ThreadMove κ → Prop
  | .loadedMore index => ∀ request ∈ s.more[index]?, s.Covers request.cursor
  | _ => True

/-- A request was served from the thread as it was, and its cursor was in it. -/
structure Genuine (s : CommentThread κ) (request : PageRequest κ) : Prop where
  seen : ∀ seen ∈ request.seen, seen <+: s.thread ∧ ∀ c ∈ request.cursor, c ∈ seen
  cursor : ∀ c ∈ request.cursor, c ∈ s.thread

structure Prefixed (s : CommentThread κ) : Prop where
  ordered : s.thread.Pairwise (· < ·)
  mine : ∀ id ∈ s.mine, id ∈ s.thread
  posts : ∀ id ∈ s.posts, id ∈ s.mine
  start : s.others s.comments <+: s.others s.thread
  cursor : ∀ c ∈ s.commentsCursor, c ∈ s.thread ∧ s.Covers (some c)
  whole : s.commentsCursor = none → ∀ id ∈ s.served, id ∈ s.comments
  reload : ∀ request ∈ s.reload, request.cursor = none ∧ s.Genuine request
  more : ∀ request ∈ s.more, s.Genuine request
  retries : ∀ c ∈ s.retries, c ∈ s.thread

variable {limit : Nat} {s next : CommentThread κ} {move : ThreadMove κ}

theorem Prefixed.noHole (prefixed : s.Prefixed) : s.NoHole where
  start := prefixed.start
  once := (prefixed.start.sublist.trans List.filter_sublist).nodup (prefixed.ordered.imp ne_of_lt)
  whole := prefixed.whole

theorem others_append (first second : List κ) : s.others (first ++ second) = s.others first ++ s.others second :=
  List.filter_append ..

theorem mem_others {a : κ} {comments : List κ} : a ∈ s.others comments ↔ a ∈ comments ∧ a ∉ s.mine := by
  simp [others, List.mem_filter]

/-- What is shown is on the server. -/
theorem Prefixed.known (prefixed : s.Prefixed) : ∀ a ∈ s.comments, a ∈ s.thread := by
  intro a shown
  by_cases own : a ∈ s.mine
  · exact prefixed.mine a own
  · exact (mem_others.mp (prefixed.start.subset (mem_others.mpr ⟨shown, own⟩))).1

/-- Up to a comment that was there, the thread is as it was. -/
theorem old_of_le {thread seen : List κ} (ordered : thread.Pairwise (· < ·)) (before : seen <+: thread) {a c : κ}
    (there : c ∈ seen) (member : a ∈ thread) (le : a ≤ c) : a ∈ seen := by
  obtain ⟨rest, rfl⟩ := before
  rcases List.mem_append.mp member with early | late
  · exact early
  · exact absurd ((List.pairwise_append.mp ordered).2.2 c there a late) (not_lt_of_ge le)

/-- A thread is what stands up to the cursor, and what comes after it. -/
theorem split_behind {seen : List κ} {cursor : Option κ} (ordered : seen.Pairwise (· < ·))
    (there : ∀ c ∈ cursor, c ∈ seen) :
    ∃ done, seen = done ++ seen.filter (behind id cursor) ∧ ∀ a ∈ done, behind id cursor a = false := by
  cases cursor with
  | none => exact ⟨[], (List.filter_eq_self.mpr fun _ _ => rfl).symm, by simp⟩
  | some c =>
      obtain ⟨front, back, rfl⟩ := List.append_of_mem (there c rfl)
      have here : (front ++ c :: back) = (front ++ [c]) ++ back := by simp
      have cut := @filter_behind κ κ _ id (front ++ [c]) back (here ▸ ordered)
      rw [List.getLast?_append, List.getLast?_singleton, Option.some_or, Option.map_some, ← here] at cut
      refine ⟨front ++ [c], ?_, ?_⟩
      · rw [show behind id (some c) = behind id (some (id c)) from rfl, cut, here]
      · intro a member
        have le : a ≤ c := by
          rcases List.mem_append.mp member with early | same
          · exact ((List.pairwise_append.mp ordered).2.2 a early c List.mem_cons_self).le
          · exact (List.mem_singleton.mp same).le
        simpa [behind] using le

section Growth

variable {a : κ}

theorem isNew_iff : s.isNew a = true ↔ ∀ b ∈ s.thread, b < a := by simp [isNew]

theorem Covers.grow {cursor : Option κ} (covers : s.Covers cursor) (new : s.isNew a)
    (cursor_ : ∀ c ∈ cursor, c ∈ s.thread) : ({ s with thread := s.thread ++ [a] } : CommentThread κ).Covers cursor := by
  intro b member before
  rcases List.mem_append.mp member with old | same
  · exact covers b old before
  · obtain rfl := List.mem_singleton.mp same
    cases cursor with
    | none => simp [behind] at before
    | some c =>
        have below := isNew_iff.mp new c (cursor_ c rfl)
        simp [behind, below] at before

omit [LinearOrder κ] in
theorem Genuine.grow {request : PageRequest κ} (genuine : s.Genuine request) (next : CommentThread κ)
    (grown : s.thread <+: next.thread) : next.Genuine request where
  seen seen there := ⟨(genuine.seen seen there).1.trans grown, (genuine.seen seen there).2⟩
  cursor c there := grown.subset (genuine.cursor c there)

/-- A comment of somebody else's. -/
theorem Prefixed.comment (prefixed : s.Prefixed) (new : s.isNew a) :
    ({ s with thread := s.thread ++ [a] } : CommentThread κ).Prefixed where
  ordered := List.pairwise_append.mpr ⟨prefixed.ordered, List.pairwise_singleton _ _, by
    intro b member c same
    exact List.mem_singleton.mp same ▸ isNew_iff.mp new b member⟩
  mine b own := List.mem_append_left _ (prefixed.mine b own)
  posts := prefixed.posts
  start := prefixed.start.trans (by
    change s.others s.thread <+: s.others (s.thread ++ [a])
    rw [others_append]
    exact List.prefix_append _ _)
  cursor c held := ⟨List.mem_append_left _ (prefixed.cursor c held).1,
    (prefixed.cursor c held).2.grow new fun _ same => Option.some.inj same ▸ (prefixed.cursor c held).1⟩
  whole := prefixed.whole
  reload request there := ⟨(prefixed.reload request there).1,
    (prefixed.reload request there).2.grow _ (List.prefix_append _ _)⟩
  more request there := (prefixed.more request there).grow _ (List.prefix_append _ _)
  retries c there := List.mem_append_left _ (prefixed.retries c there)

/-- A comment posted from this panel, until its response arrives. -/
theorem Prefixed.post (prefixed : s.Prefixed) (new : s.isNew a) :
    ({ s with thread := s.thread ++ [a], mine := s.mine ++ [a], posts := s.posts ++ [a] } : CommentThread κ).Prefixed := by
  have grown := prefixed.comment new
  have apart : ∀ comments : List κ, (∀ b ∈ comments, b ∈ s.thread) →
      comments.filter (· ∉ s.mine ++ [a]) = s.others comments := by
    intro comments known
    apply List.filter_congr
    intro b member
    have different : b ≠ a := (isNew_iff.mp new b (known b member)).ne
    simp [different]
  refine { grown with
    mine := ?_
    posts := ?_
    start := ?_
    reload := fun request there => ⟨(grown.reload request there).1, (grown.reload request there).2.grow _ List.prefix_rfl⟩
    more := fun request there => (grown.more request there).grow _ List.prefix_rfl }
  · intro b own
    rcases List.mem_append.mp own with old | same
    · exact grown.mine b old
    · exact List.mem_append_right _ same
  · intro b posted
    rcases List.mem_append.mp posted with old | same
    · exact List.mem_append_left _ (prefixed.posts b old)
    · exact List.mem_append_right _ same
  · change s.comments.filter (· ∉ s.mine ++ [a]) <+: (s.thread ++ [a]).filter (· ∉ s.mine ++ [a])
    rw [apart _ prefixed.known, List.filter_append, apart _ fun _ => id]
    simpa using prefixed.start

end Growth

section Pages

/-- Where a page leaves the thread: it is what comes after the cursor in the thread it was
served from, which is a part of the thread as it stands. -/
structure Lands (s : CommentThread κ) (seen done later : List κ) (cursor : Option κ) (page : Probe κ κ) : Prop where
  split : seen = done ++ page.items ++ later
  before : ∀ a ∈ done, behind id cursor a = false
  final : page.next = none → later = []
  next : ∀ c ∈ page.next, c ∈ page.items ∧ ∀ a ∈ s.thread, behind id (some c) a = false → a ∈ done ++ page.items

theorem Prefixed.lands (prefixed : s.Prefixed) (positive : 0 < limit) {cursor : Option κ} {seen : List κ}
    (before : seen <+: s.thread) (there : ∀ c ∈ cursor, c ∈ seen) :
    ∃ done later, s.Lands seen done later cursor (listComments limit cursor seen) := by
  have ordered : seen.Pairwise (· < ·) := prefixed.ordered.sublist before.sublist
  obtain ⟨done, split, old⟩ := split_behind ordered there
  obtain ⟨later, rest, final, next⟩ := @probe_spec κ κ _ id limit cursor seen ordered positive
  have whole : seen = done ++ (listComments limit cursor seen).items ++ later := by
    rw [List.append_assoc]
    exact split.trans (congrArg (done ++ ·) rest)
  refine ⟨done, later, whole, old, final, ?_⟩
  intro c more
  obtain ⟨last, inside, rfl, _⟩ := next c more
  refine ⟨inside, ?_⟩
  intro a member le
  have inside' : last ∈ seen := whole ▸ List.mem_append_left _ (List.mem_append_right _ inside)
  have le' : a ≤ last := by simpa [behind] using le
  have known := old_of_le prefixed.ordered before inside' member le'
  rw [whole] at known ordered
  rcases List.mem_append.mp known with early | late
  · exact early
  · exact absurd ((List.pairwise_append.mp ordered).2.2 last (List.mem_append_right _ inside) a late) (not_lt_of_ge le')

/-- A first page, in the place of everything. -/
theorem Prefixed.first (prefixed : s.Prefixed) (positive : 0 < limit) {seen : List κ} (before : seen <+: s.thread) :
    ({ s with
      comments := (listComments limit none seen).items
      commentsCursor := (listComments limit none seen).next
      reload := none
      served := seen } : CommentThread κ).Prefixed := by
  obtain ⟨done, later, lands⟩ := @Prefixed.lands κ _ limit s prefixed positive none seen before (by simp)
  have nothing : done = [] := by
    cases done with
    | nil => rfl
    | cons a _ => simpa [behind] using lands.before a List.mem_cons_self
  subst nothing
  have split : seen = (listComments limit none seen).items ++ later := lands.split
  refine { prefixed with start := ?_, cursor := ?_, whole := ?_, reload := by simp, more := ?_ }
  · have first : (listComments limit none seen).items <+: seen := ⟨later, split.symm⟩
    exact (first.trans before).filter _
  · intro c more
    obtain ⟨inside, covered⟩ := lands.next c more
    exact ⟨before.subset (split ▸ List.mem_append_left _ inside), covered⟩
  · intro none_ a member
    rw [lands.final none_, List.append_nil] at split
    exact split ▸ member
  · exact fun request there => (prefixed.more request there).grow _ List.prefix_rfl

/-- A further page, behind what is shown up to its cursor. -/
theorem Prefixed.further (prefixed : s.Prefixed) (positive : 0 < limit) {seen : List κ} {cursor : Option κ}
    {more : List (PageRequest κ)} (before : seen <+: s.thread) (there : ∀ c ∈ cursor, c ∈ seen) (covers : s.Covers cursor)
    (fewer : ∀ request ∈ more, request ∈ s.more) :
    ({ s with
      comments := s.comments ++ (listComments limit cursor seen).items.filter (· ∉ s.comments)
      commentsCursor := (listComments limit cursor seen).next
      loadingMoreComments := false
      more
      served := seen } : CommentThread κ).Prefixed := by
  obtain ⟨done, later, lands⟩ := prefixed.lands positive before there
  generalize listComments limit cursor seen = page at lands ⊢
  obtain ⟨rest, thread⟩ := before
  have early : ∀ a ∈ done, a ∈ s.comments := by
    intro a member
    apply covers a _ (lands.before a member)
    rw [← thread, lands.split]
    simp [member]
  have shown : ∀ a ∈ done ++ page.items, a ∈ s.comments ++ page.items.filter (· ∉ s.comments) := by
    intro a member
    rcases List.mem_append.mp member with first | second
    · exact List.mem_append_left _ (early a first)
    · by_cases old : a ∈ s.comments
      · exact List.mem_append_left _ old
      · exact List.mem_append_right _ (List.mem_filter.mpr ⟨second, by simpa using old⟩)
  refine { prefixed with start := ?_, cursor := ?_, whole := ?_, reload := ?_, more := ?_ }
  · change s.others (s.comments ++ page.items.filter (· ∉ s.comments)) <+: s.others s.thread
    have new : s.others (page.items.filter (· ∉ s.comments)) = (s.others page.items).filter (· ∉ s.others s.comments) := by
      unfold others
      rw [List.filter_filter, List.filter_filter]
      apply List.filter_congr
      intro a _
      by_cases own : a ∈ s.mine <;> simp [own]
    rw [others_append, new]
    apply @prefix_overlap κ _ _ (s.others done) _ (s.others later ++ s.others rest)
    · exact (prefixed.ordered.imp ne_of_lt).filter _
    · rw [← thread, lands.split]
      simp only [others_append, List.append_assoc]
    · exact prefixed.start
    · intro a member
      obtain ⟨listed, own⟩ := mem_others.mp member
      exact mem_others.mpr ⟨early a listed, own⟩
  · intro c next
    obtain ⟨inside, covered⟩ := lands.next c next
    refine ⟨?_, fun a member le => shown a (covered a member le)⟩
    rw [← thread, lands.split]
    simp [inside]
  · intro none_ a member
    rw [lands.split, lands.final none_, List.append_nil] at member
    exact shown a member
  · exact fun request there => ⟨(prefixed.reload request there).1, (prefixed.reload request there).2.grow _ List.prefix_rfl⟩
  · exact fun request there => (prefixed.more request (fewer request there)).grow _ List.prefix_rfl

end Pages

/-- The shown comments stay a part of the thread from its start. -/
theorem Prefixed.step (prefixed : s.Prefixed) (positive : 0 < limit) (continues : s.Continues move)
    (stepped : s.step limit move = some next) : next.Prefixed := by
  have still : ∀ {request : PageRequest κ} (next : CommentThread κ), next.thread = s.thread → s.Genuine request →
      next.Genuine request := fun next same genuine => genuine.grow next (same ▸ List.prefix_rfl)
  cases move with
  | comment a =>
      simp only [CommentThread.step] at stepped
      split at stepped
      · rename_i new
        cases stepped
        exact prefixed.comment new
      · cases stepped
  | post a =>
      simp only [CommentThread.step] at stepped
      split at stepped
      · rename_i new
        cases stepped
        exact prefixed.post new
      · cases stepped
  | posted index =>
      obtain ⟨a, answered, rfl⟩ := Option.map_eq_some_iff.mp stepped
      have own := prefixed.posts a (List.mem_of_getElem? answered)
      have same : s.others (s.comments ++ [a]) = s.others s.comments := by
        rw [others_append]
        simp [others, own]
      refine { prefixed with posts := ?_, start := ?_, cursor := ?_, whole := ?_, reload := ?_, more := ?_ }
      · exact fun b there => prefixed.posts b (List.mem_of_mem_eraseIdx there)
      · change s.others (s.comments ++ [a]) <+: s.others s.thread
        rw [same]
        exact prefixed.start
      · exact fun c held => ⟨(prefixed.cursor c held).1, fun b member le =>
          List.mem_append_left _ ((prefixed.cursor c held).2 b member le)⟩
      · exact fun none_ b member => List.mem_append_left _ (prefixed.whole none_ b member)
      · exact fun request there => ⟨(prefixed.reload request there).1, still _ rfl (prefixed.reload request there).2⟩
      · exact fun request there => still _ rfl (prefixed.more request there)
  | bump =>
      cases stepped
      refine { prefixed with reload := ?_, more := ?_ }
      · intro request there
        obtain rfl := Option.some.inj there
        exact ⟨rfl, by simp, by simp⟩
      · exact fun request there => still _ rfl (prefixed.more request there)
  | serveReload =>
      obtain ⟨request, there, stepped⟩ := Option.bind_eq_some_iff.mp stepped
      split at stepped
      · cases stepped
        obtain ⟨cursor, genuine⟩ := prefixed.reload request there
        refine { prefixed with reload := ?_, more := ?_ }
        · intro other same
          obtain rfl := Option.some.inj same
          refine ⟨cursor, ?_, genuine.cursor⟩
          rintro seen ⟨⟩
          exact ⟨List.prefix_rfl, genuine.cursor⟩
        · exact fun request there => still _ rfl (prefixed.more request there)
      · cases stepped
  | reloaded =>
      obtain ⟨request, there, stepped⟩ := Option.bind_eq_some_iff.mp stepped
      obtain ⟨seen, served, rfl⟩ := Option.map_eq_some_iff.mp stepped
      exact prefixed.first positive ((prefixed.reload request there).2.seen seen served).1
  | reloadFailed =>
      obtain ⟨request, _, rfl⟩ := Option.map_eq_some_iff.mp stepped
      refine { prefixed with start := ?_, cursor := by simp, whole := by simp, reload := by simp, more := ?_ }
      · exact List.nil_prefix
      · exact fun request there => still _ rfl (prefixed.more request there)
  | loadMoreComments =>
      obtain ⟨cursor, held, stepped⟩ := Option.bind_eq_some_iff.mp stepped
      split at stepped
      · cases stepped
      · cases stepped
        refine { prefixed with reload := ?_, more := ?_ }
        · exact fun request there => ⟨(prefixed.reload request there).1, still _ rfl (prefixed.reload request there).2⟩
        · intro request there
          rcases List.mem_append.mp there with old | same
          · exact still _ rfl (prefixed.more request old)
          · obtain rfl := List.mem_singleton.mp same
            refine ⟨by simp, ?_⟩
            rintro c ⟨⟩
            exact (prefixed.cursor cursor held).1
  | retry cursor =>
      simp only [CommentThread.step] at stepped
      split at stepped
      · rename_i offered
        cases stepped
        refine { prefixed with reload := ?_, more := ?_, retries := ?_ }
        · exact fun request there => ⟨(prefixed.reload request there).1, still _ rfl (prefixed.reload request there).2⟩
        · intro request there
          rcases List.mem_append.mp there with old | same
          · exact still _ rfl (prefixed.more request old)
          · obtain rfl := List.mem_singleton.mp same
            refine ⟨by simp, ?_⟩
            rintro c ⟨⟩
            exact prefixed.retries cursor offered
        · exact fun c there => prefixed.retries c (List.mem_of_mem_erase there)
      · cases stepped
  | serveMore index =>
      obtain ⟨request, asked, stepped⟩ := Option.bind_eq_some_iff.mp stepped
      split at stepped
      · cases stepped
        have genuine := prefixed.more request (List.mem_of_getElem? asked)
        refine { prefixed with reload := ?_, more := ?_ }
        · exact fun request there => ⟨(prefixed.reload request there).1, still _ rfl (prefixed.reload request there).2⟩
        · intro other there
          rcases List.mem_or_eq_of_mem_set there with old | rfl
          · exact still _ rfl (prefixed.more other old)
          · refine ⟨?_, genuine.cursor⟩
            rintro seen ⟨⟩
            exact ⟨List.prefix_rfl, genuine.cursor⟩
      · cases stepped
  | loadedMore index =>
      obtain ⟨request, asked, stepped⟩ := Option.bind_eq_some_iff.mp stepped
      obtain ⟨seen, served, rfl⟩ := Option.map_eq_some_iff.mp stepped
      obtain ⟨before, there⟩ := (prefixed.more request (List.mem_of_getElem? asked)).seen seen served
      exact prefixed.further positive before there (continues request asked) fun _ => List.mem_of_mem_eraseIdx
  | loadMoreFailed index =>
      obtain ⟨request, asked, rfl⟩ := Option.map_eq_some_iff.mp stepped
      have genuine := prefixed.more request (List.mem_of_getElem? asked)
      refine { prefixed with reload := ?_, more := ?_, retries := ?_ }
      · exact fun request there => ⟨(prefixed.reload request there).1, still _ rfl (prefixed.reload request there).2⟩
      · exact fun request there => still _ rfl (prefixed.more request (List.mem_of_mem_eraseIdx there))
      · intro c there
        rcases List.mem_append.mp there with old | new
        · exact prefixed.retries c old
        · exact genuine.cursor c (Option.mem_toList.mp new)

/-- Where every further page arrives behind all that precedes it, the thread never has a hole. -/
theorem thread_has_no_hole (limit : Nat) (positive : 0 < limit) (thread : List κ) (ordered : thread.Pairwise (· < ·))
    (moves : List (ThreadMove κ)) (s : CommentThread κ)
    (ran : Machine.run (step limit) { thread } moves = some s)
    (continues : Machine.Meets (step limit) Continues { thread } moves) : s.NoHole := by
  have start : ({ thread } : CommentThread κ).Prefixed := by
    constructor <;> simp [others, ordered]
  exact (Machine.run_keeps (I := Prefixed) (fun _ _ _ prefixed continues stepped =>
    prefixed.step positive continues stepped) start continues ran).noHole

/-- Two hundred and fifty comments; the third page is asked for before a reload and arrives
after it. -/
def overlapping : List (ThreadMove Nat) := [
  .bump, .serveReload, .reloaded, .loadMoreComments, .serveMore 0, .loadedMore 0, .loadMoreComments, .serveMore 0,
  .bump, .serveReload, .reloaded, .loadedMore 0]

/-- The second page is missing, and none is offered. -/
theorem reload_leaves_hole :
    ¬ ∀ (thread : List Nat), thread.Pairwise (· < ·) → ∀ (moves : List (ThreadMove Nat)) (s : CommentThread Nat),
      Machine.run (step COMMENTS_PAGE_LIMIT) { thread } moves = some s → s.NoHole := by
  intro claim
  have ran : (Machine.run (step COMMENTS_PAGE_LIMIT) { thread := List.range 250 } overlapping).any fun s =>
      s.commentsCursor = none && s.served.contains 150 && !s.comments.contains 150 := by
    decide +kernel
  cases reached : Machine.run (step COMMENTS_PAGE_LIMIT) { thread := List.range 250 } overlapping with
  | none =>
      rw [reached] at ran
      cases ran
  | some s =>
      rw [reached] at ran
      simp only [Option.any_some, Bool.and_eq_true, decide_eq_true_eq, List.contains_iff_mem, Bool.not_eq_true',
        ← Bool.not_eq_true] at ran
      have hole := claim _ List.pairwise_lt_range overlapping s reached
      exact ran.2 (hole.whole ran.1.1 150 ran.1.2)

instance (s : CommentThread κ) (cursor : Option κ) : Decidable (s.Covers cursor) :=
  inferInstanceAs (Decidable (∀ a ∈ s.thread, behind id cursor a = false → a ∈ s.comments))

instance (s : CommentThread κ) (move : ThreadMove κ) : Decidable (s.Continues move) :=
  match move with
  | .loadedMore index => inferInstanceAs (Decidable (∀ request ∈ s.more[index]?, s.Covers request.cursor))
  | .comment _ | .post _ | .posted _ | .bump | .serveReload | .reloaded | .reloadFailed | .loadMoreComments | .retry _
  | .serveMore _ | .loadMoreFailed _ => inferInstanceAs (Decidable True)

/-- A comment by somebody else and a page while nothing is reloaded. -/
def inTurn_ : List (ThreadMove Nat) := [
  .bump, .serveReload, .reloaded, .loadMoreComments, .comment 250, .serveMore 0, .loadedMore 0, .loadMoreComments,
  .serveMore 0, .loadedMore 0]

theorem thread_has_no_hole_in_turn :
    ∃ s, Machine.run (step COMMENTS_PAGE_LIMIT) { thread := List.range 250 } inTurn_ = some s ∧ s.NoHole := by
  have ran : (Machine.run (step COMMENTS_PAGE_LIMIT) { thread := List.range 250 } inTurn_).isSome := by decide +kernel
  obtain ⟨s, reached⟩ := Option.isSome_iff_exists.mp ran
  refine ⟨s, reached, thread_has_no_hole COMMENTS_PAGE_LIMIT (by decide) _ List.pairwise_lt_range inTurn_ s reached ?_⟩
  exact Machine.meets_of_checks (fun s move => decide (s.Continues move)) (fun _ _ => of_decide_eq_true)
    (by decide +kernel)

end CommentThread
end Kurul.Client
