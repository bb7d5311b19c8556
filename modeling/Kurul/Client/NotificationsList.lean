import Kurul.Machine
import Kurul.Schema
import Kurul.Sequence.Pager

/-! The list of the notifications page: first pages for the workspace and the filter of the
moment, which replace it, and further pages, which are appended to whatever is shown when they
arrive. Notifications go by their ids, which increase. -/
namespace Kurul.Client

open Sequence OrderDual

structure Filter where
  unreadOnly : Bool := false
  typeFilter : Option NotificationType := none
  deriving DecidableEq

/-- What a page is asked for. -/
structure View (W : Type) where
  workspaceId : W
  filter : Filter
  deriving DecidableEq

/-- A notification of the user, as far as the filters read it. -/
structure Notice (κ W : Type) where
  id : κ
  workspaceId : W
  type : NotificationType
  read : Bool := false
  /-- Deleted with its task. -/
  gone : Bool := false
  deriving DecidableEq

structure NoticePage (κ : Type) where
  items : List κ
  nextCursor : Option κ
  deriving DecidableEq

structure NoticeRequest (κ W : Type) where
  view : View W
  cursor : Option κ
  answer : Option (NoticePage κ) := none
  deriving DecidableEq

structure NotificationsList (κ W : Type) where
  /-- The notifications on the server, the newest first. -/
  rows : List (Notice κ W)
  workspaceId : Option W := none
  filter : Filter := {}
  /-- Each with the view it was served for. -/
  items : List (κ × View W) := []
  nextCursor : Option κ := none
  error : Bool := false
  joinedOnce : Bool := false
  /-- The first page on its way; one that is replaced is aborted. -/
  reload : Option (NoticeRequest κ W) := none
  /-- The further page on its way: `loadingMore`. -/
  more : Option (NoticeRequest κ W) := none
  /-- A first page for the workspace and the filter of the moment has been shown. -/
  shown : Bool := false
  deriving DecidableEq

inductive ListMove (κ W : Type) where
  | stored (id : κ) (workspaceId : W) (type : NotificationType)
  | markRead (id : κ)
  | markAllRead (workspaceId : W)
  | deleted (id : κ)
  | switch (workspaceId : Option W) (filter : Filter)
  | unreadChanged
  | joined
  | retry
  | serveReload
  | reloaded
  | reloadFailed
  | loadMore
  | serveMore
  | loadedMore
  | loadMoreFailed
  deriving DecidableEq

variable {κ W : Type} [LinearOrder κ] [DecidableEq W]

def View.admits (view : View W) (n : Notice κ W) : Bool :=
  n.workspaceId = view.workspaceId && !n.gone && !(view.filter.unreadOnly && n.read) &&
    view.filter.typeFilter.all (· = n.type)

omit [LinearOrder κ] in
/-- A row leaves views when it is read. -/
theorem View.admits_of_read {view : View W} {n : Notice κ W} (admits : view.admits { n with read := true }) :
    view.admits n := by
  simp only [View.admits, Bool.and_eq_true, Bool.not_eq_true', Bool.and_true] at admits ⊢
  simp_all

omit [LinearOrder κ] in
theorem View.admits_of_gone {view : View W} {n : Notice κ W} (admits : view.admits { n with gone := true }) :
    view.admits n := by
  simp [View.admits] at admits

namespace NotificationsList

def PAGE_LIMIT : Nat := 50

def listed (view : View W) (rows : List (Notice κ W)) : List κ := (rows.filter view.admits).map (·.id)

/-- The answer of `NotificationService.list`. -/
def list (limit : Nat) (view : View W) (cursor : Option κ) (rows : List (Notice κ W)) : NoticePage κ :=
  let answer := probe (toDual : κ → κᵒᵈ) limit (cursor.map toDual) (listed view rows)
  { items := answer.items, nextCursor := answer.next.map ofDual }

/-- Ids increase. -/
def isNew (s : NotificationsList κ W) (id : κ) : Bool := s.rows.all (·.id < id)

def view (s : NotificationsList κ W) : Option (View W) := s.workspaceId.map fun workspaceId =>
    { workspaceId, filter := s.filter }

/-- The effect of `useApiResource`, which does nothing without a fetcher. -/
def restart (s : NotificationsList κ W) : NotificationsList κ W :=
  { s with
    reload := s.view.map fun view => { view, cursor := none }
    error := s.error && s.view.isNone }

/-- A reload mid-`loadMore` would be overwritten by the append that is already in flight. -/
def reloadFromSignal (s : NotificationsList κ W) : NotificationsList κ W := if s.more.isSome then s else s.restart

def mount (rows : List (Notice κ W)) (workspaceId : Option W) (filter : Filter) : NotificationsList κ W :=
  restart { rows, workspaceId, filter }

/-- The request, answered from the rows as they are. -/
def serve (limit : Nat) (rows : List (Notice κ W)) (request : NoticeRequest κ W) : NoticeRequest κ W :=
  { request with answer := some (list limit request.view request.cursor rows) }

def step (limit : Nat) (s : NotificationsList κ W) : ListMove κ W → Option (NotificationsList κ W)
  | .stored id workspaceId type => if s.isNew id then some { s with rows := { id, workspaceId, type } :: s.rows } else none
  | .markRead id => some { s with rows := s.rows.map fun n => if n.id = id then { n with read := true } else n }
  | .markAllRead workspaceId => some { s with
      rows := s.rows.map fun n => if n.workspaceId = workspaceId then { n with read := true } else n }
  | .deleted id => some { s with rows := s.rows.map fun n => if n.id = id then { n with gone := true } else n }
  -- The fetcher keeps its identity while the workspace and the filter stay the same.
  | .switch workspaceId filter =>
      if workspaceId = s.workspaceId ∧ filter = s.filter then some s
      else some (restart { s with workspaceId, filter, shown := false })
  | .unreadChanged => some s.reloadFromSignal
  | .joined => if s.joinedOnce then some s.reloadFromSignal else some { s with joinedOnce := true }
  | .retry => if s.error then some s.restart else none
  | .serveReload => s.reload.bind fun request => if request.answer.isNone then
      some { s with reload := some (serve limit s.rows request) } else none
  | .reloaded => s.reload.bind fun request => request.answer.map fun page =>
      { s with
        items := page.items.map (·, request.view)
        nextCursor := page.nextCursor
        reload := none
        shown := true }
  | .reloadFailed => s.reload.map fun _ => { s with items := [], nextCursor := none, reload := none, error := true }
  | .loadMore => s.view.bind fun view => s.nextCursor.bind fun cursor =>
      if s.more.isSome then none else some { s with more := some { view, cursor := some cursor } }
  | .serveMore => s.more.bind fun request => if request.answer.isNone then
      some { s with more := some (serve limit s.rows request) } else none
  | .loadedMore => s.more.bind fun request => request.answer.map fun page =>
      { s with
        items := s.items ++ page.items.map (·, request.view)
        nextCursor := page.nextCursor
        more := none }
  | .loadMoreFailed => s.more.map fun _ => { s with more := none }

def ids (s : NotificationsList κ W) : List κ := s.items.map (·.1)

/-- The list shows a run of the view's rows and holds the cursor that continues it; what has
left the view since it was served is not counted. -/
structure Unmixed (s : NotificationsList κ W) (view : View W) : Prop where
  served : ∀ row ∈ s.items, row.2 = view
  once : s.ids.Nodup
  run : s.ids.filter (· ∈ listed view s.rows) <:+: listed view s.rows
  cursor : ∀ c ∈ s.nextCursor, s.ids.getLast? = some c
  final : s.nextCursor = none → ∀ last ∈ s.ids.getLast?, ∀ a ∈ listed view s.rows, last ≤ a

/-- A further page arrives at the list that was shown when it was asked for, or at an empty
one, unless the first page is still to come. -/
def Continues (s : NotificationsList κ W) : ListMove κ W → Prop
  | .loadedMore => s.shown → ∀ request ∈ s.more, s.view = some request.view ∧ (s.items = [] ∨ s.nextCursor = request.cursor)
  | _ => True

section Answers

variable {rows rows' : List (Notice κ W)} {view : View W} {cursor : Option κ} {page : NoticePage κ} {limit : Nat}

def Known (rows : List (Notice κ W)) (a : κ) : Prop := ∃ n ∈ rows, n.id = a

/-- The page leaves out nothing of the view between the cursor it was asked for with, or its
first row, and the cursor it carries. -/
structure Answers (rows : List (Notice κ W)) (view : View W) (cursor : Option κ) (page : NoticePage κ) : Prop where
  ordered : page.items.Pairwise (· > ·)
  behind : ∀ a ∈ page.items, ∀ c ∈ cursor, a < c
  known : ∀ a ∈ page.items, Known rows a
  asked : ∀ c ∈ cursor, Known rows c
  covers : ∀ a ∈ listed view rows, (∀ c ∈ cursor, a < c) → (cursor = none → ∃ b ∈ page.items, a ≤ b) →
    (∀ d ∈ page.nextCursor, d ≤ a) → a ∈ page.items
  next : ∀ d ∈ page.nextCursor, d ∈ page.items ∧ ∀ a ∈ page.items, d ≤ a

/-- What the notifications may become: new ones have greater ids, and old ones only leave. -/
structure Later (rows later : List (Notice κ W)) : Prop where
  known : ∀ a, Known rows a → Known later a
  listed : ∀ view, ∀ a ∈ listed view later, a ∈ listed view rows ∨ ∀ b, Known rows b → b < a

omit [LinearOrder κ] in
theorem mem_listed {a : κ} : a ∈ listed view rows ↔ ∃ n ∈ rows, view.admits n ∧ n.id = a := by
  simp [listed, List.mem_map, List.mem_filter, and_assoc]

omit [LinearOrder κ] in
theorem known_of_listed {a : κ} (member : a ∈ listed view rows) : Known rows a := by
  obtain ⟨n, there, _, same⟩ := mem_listed.mp member
  exact ⟨n, there, same⟩

theorem Later.stored {n : Notice κ W} (new : ∀ m ∈ rows, m.id < n.id) : Later rows (n :: rows) where
  known := by
    rintro _ ⟨m, there, rfl⟩
    exact ⟨m, List.mem_cons_of_mem n there, rfl⟩
  listed := by
    intro view a member
    obtain ⟨m, there, admits, rfl⟩ := mem_listed.mp member
    rcases List.mem_cons.mp there with rfl | old
    · right
      rintro _ ⟨b, known, rfl⟩
      exact new b known
    · exact .inl (mem_listed.mpr ⟨m, old, admits, rfl⟩)

/-- Rows that keep their ids and only leave views. -/
theorem Later.map {change : Notice κ W → Notice κ W} (ids : ∀ n, (change n).id = n.id)
    (leaves : ∀ (view : View W) n, view.admits (change n) → view.admits n) : Later rows (rows.map change) where
  known := by
    rintro _ ⟨n, there, rfl⟩
    exact ⟨change n, List.mem_map_of_mem there, ids n⟩
  listed := by
    intro view a member
    obtain ⟨m, there, admits, rfl⟩ := mem_listed.mp member
    obtain ⟨n, old, rfl⟩ := List.mem_map.mp there
    exact .inl (mem_listed.mpr ⟨n, old, leaves view n admits, (ids n).symm⟩)

theorem Answers.later (answers : Answers rows view cursor page) (grown : Later rows rows') :
    Answers rows' view cursor page where
  ordered := answers.ordered
  behind := answers.behind
  known a member := grown.known a (answers.known a member)
  asked c held := grown.known c (answers.asked c held)
  next := answers.next
  covers := by
    intro a member below above bound
    rcases grown.listed view a member with old | new
    · exact answers.covers a old below above bound
    · cases cursor with
      | none =>
          obtain ⟨b, inside, le⟩ := above rfl
          exact absurd (new b (answers.known b inside)) (not_lt_of_ge le)
      | some c => exact absurd (new c (answers.asked c rfl)) (not_lt_of_gt (below c rfl))

/-- A page behind another. -/
theorem Answers.append {items : List κ} {c : κ} (first : Answers rows view none ⟨items, some c⟩)
    (second : Answers rows view (some c) page) : Answers rows view none ⟨items ++ page.items, page.nextCursor⟩ where
  ordered := by
    refine List.pairwise_append.mpr ⟨first.ordered, second.ordered, ?_⟩
    intro a early b late
    exact (second.behind b late c rfl).trans_le ((first.next c rfl).2 a early)
  behind := by simp
  known a member := by
    rcases List.mem_append.mp member with early | late
    · exact first.known a early
    · exact second.known a late
  asked := by simp
  next d held := by
    obtain ⟨inside, least⟩ := second.next d held
    refine ⟨List.mem_append_right _ inside, ?_⟩
    intro a member
    rcases List.mem_append.mp member with early | late
    · exact ((second.behind d inside c rfl).trans_le ((first.next c rfl).2 a early)).le
    · exact least a late
  covers := by
    intro a member _ above bound
    rcases lt_or_ge a c with below | high
    · exact List.mem_append_right _ (second.covers a member (by simpa using below) (by simp) bound)
    · obtain ⟨b, inside, le⟩ := above rfl
      have early : b ∈ items := by
        rcases List.mem_append.mp inside with early | late
        · exact early
        · exact absurd (second.behind b late c rfl) (not_lt_of_ge (high.trans le))
      exact List.mem_append_left _ (first.covers a member (by simp) (fun _ => ⟨b, early, le⟩) (by simpa using high))

/-- A page on its own. -/
theorem Answers.alone (answers : Answers rows view cursor page) : Answers rows view none page where
  ordered := answers.ordered
  behind := by simp
  known := answers.known
  asked := by simp
  next := answers.next
  covers := by
    intro a member _ above bound
    obtain ⟨b, inside, le⟩ := above rfl
    exact answers.covers a member (fun c held => le.trans_lt (answers.behind b inside c held))
      (fun _ => ⟨b, inside, le⟩) bound

theorem listed_ordered (ordered : rows.Pairwise fun m n => n.id < m.id) : (listed view rows).Pairwise (· > ·) :=
  List.pairwise_map.mpr (ordered.filter _)

theorem behind_toDual {a : κ} : Sequence.behind (toDual : κ → κᵒᵈ) (cursor.map toDual) a = true ↔ ∀ c ∈ cursor, a < c := by
  cases cursor <;> simp [Sequence.behind]

theorem list_answers (ordered : rows.Pairwise fun m n => n.id < m.id) (positive : 0 < limit)
    (asked : ∀ c ∈ cursor, Known rows c) :
    Answers rows view cursor (list limit view cursor rows) := by
  have sorted_ : (listed view rows).Pairwise fun a b => (toDual a : κᵒᵈ) < toDual b := listed_ordered ordered
  obtain ⟨later, rest, final, next⟩ := @probe_spec κ κᵒᵈ _ toDual limit (cursor.map toDual) _ sorted_ positive
  have inside : ∀ a ∈ (list limit view cursor rows).items, a ∈ listed view rows ∧ ∀ c ∈ cursor, a < c := by
    intro a member
    have kept := List.mem_filter.mp (rest ▸ List.mem_append_left later member)
    exact ⟨kept.1, behind_toDual.mp kept.2⟩
  have pieces : ((list limit view cursor rows).items ++ later).Pairwise (· > ·) := by
    have kept := (@listed_ordered κ W _ _ rows view ordered).filter (Sequence.behind (toDual : κ → κᵒᵈ) (cursor.map toDual))
    rwa [rest] at kept
  refine {
    ordered := (List.pairwise_append.mp pieces).1
    behind := fun a member => (inside a member).2
    known := fun a member => known_of_listed (inside a member).1
    asked
    covers := ?_
    next := ?_ }
  · intro a member below _ bound
    have kept := List.mem_filter.mpr ⟨member, behind_toDual.mpr below⟩
    rw [rest] at kept
    rcases List.mem_append.mp kept with here | behind
    · exact here
    · cases more : (probe (toDual : κ → κᵒᵈ) limit (cursor.map toDual) (listed view rows)).next with
      | none =>
          rw [final more] at behind
          cases behind
      | some d =>
          obtain ⟨last, held, rfl, _⟩ := next d more
          have less := (List.pairwise_append.mp pieces).2.2 last held a behind
          have least : last ≤ a := bound last (by simp [list, more])
          exact absurd less (not_lt_of_ge least)
  · intro d held
    obtain ⟨dual, more, rfl⟩ := Option.map_eq_some_iff.mp held
    obtain ⟨last, inside, rfl, least⟩ := next dual more
    exact ⟨inside, least⟩

end Answers

section Descending

variable {items : List κ} {d : κ}

theorem least_of_getLast? (ordered : items.Pairwise (· > ·)) (final : items.getLast? = some d) : ∀ a ∈ items, d ≤ a := by
  obtain ⟨before, rfl⟩ := List.getLast?_eq_some_iff.mp final
  intro a member
  rcases List.mem_append.mp member with early | same
  · exact ((List.pairwise_append.mp ordered).2.2 a early d (List.mem_singleton_self d)).le
  · exact (List.mem_singleton.mp same).ge

theorem getLast?_of_least (ordered : items.Pairwise (· > ·)) (inside : d ∈ items) (least : ∀ a ∈ items, d ≤ a) :
    items.getLast? = some d := by
  have some_ : items ≠ [] := List.ne_nil_of_mem inside
  have final := List.getLast?_eq_some_getLast some_
  rw [final]
  exact congrArg some (le_antisymm (least_of_getLast? ordered final d inside) (least _ (List.getLast_mem some_)))

end Descending

/-- The cursor a request holds is known, and its answer leaves nothing out. -/
structure Sound (rows : List (Notice κ W)) (request : NoticeRequest κ W) : Prop where
  asked : ∀ c ∈ request.cursor, Known rows c
  answer : ∀ page ∈ request.answer, Answers rows request.view request.cursor page

structure Kept (s : NotificationsList κ W) : Prop where
  ordered : s.rows.Pairwise fun m n => n.id < m.id
  cursor : ∀ c ∈ s.nextCursor, Known s.rows c
  reload : ∀ request ∈ s.reload, request.cursor = none ∧ s.view = some request.view ∧ Sound s.rows request
  more : ∀ request ∈ s.more, request.cursor.isSome ∧ Sound s.rows request
  shown : s.shown → ∀ view ∈ s.view,
    (∀ row ∈ s.items, row.2 = view) ∧ Answers s.rows view none { items := s.ids, nextCursor := s.nextCursor }

variable {limit : Nat} {s next : NotificationsList κ W} {move : ListMove κ W}

theorem Sound.later {rows rows' : List (Notice κ W)} {request : NoticeRequest κ W} (sound : Sound rows request)
    (grown : Later rows rows') : Sound rows' request where
  asked c held := grown.known c (sound.asked c held)
  answer page answered := (sound.answer page answered).later grown

theorem Sound.serve {rows : List (Notice κ W)} {request : NoticeRequest κ W} (sound : Sound rows request)
    (ordered : rows.Pairwise fun m n => n.id < m.id) (positive : 0 < limit) : Sound rows (serve limit rows request) where
  asked := sound.asked
  answer := by
    rintro page ⟨⟩
    exact list_answers ordered positive sound.asked

theorem Kept.unmixed (kept : s.Kept) (shown : s.shown) {view : View W} (here : s.view = some view) : s.Unmixed view := by
  obtain ⟨served, answers⟩ := kept.shown shown view here
  have order : (listed view s.rows).Pairwise (· > ·) := listed_ordered kept.ordered
  refine { served, once := answers.ordered.imp ne_of_gt, run := ?_, cursor := ?_, final := ?_ }
  · have same : s.ids.filter (· ∈ listed view s.rows) = (listed view s.rows).filter (· ∈ s.ids) := by
      apply (answers.ordered.filter _).eq_of_mem_iff (order.filter _)
      intro a
      simp [and_comm]
    rw [same]
    apply filter_infix order
    intro b member a c first last above below
    have top : a ∈ s.ids := of_decide_eq_true first
    have bottom : c ∈ s.ids := of_decide_eq_true last
    refine decide_eq_true (answers.covers b member (by simp) (fun _ => ⟨a, top, le_of_lt above⟩) ?_)
    intro d held
    exact ((answers.next d held).2 c bottom).trans (le_of_lt below)
  · intro c held
    obtain ⟨inside, least⟩ := answers.next c held
    exact getLast?_of_least answers.ordered inside least
  · intro none_ last final a member
    by_contra less
    obtain ⟨before, whole⟩ := List.getLast?_eq_some_iff.mp final
    have inside : last ∈ s.ids := by simp [whole]
    have listed_ := answers.covers a member (by simp) (fun _ => ⟨last, inside, (lt_of_not_ge less).le⟩) (by simp [none_])
    exact less (least_of_getLast? answers.ordered final a listed_)

/-- Nothing but the notifications moves. -/
theorem Kept.later {rows : List (Notice κ W)} (kept : s.Kept) (grown : Later s.rows rows)
    (ordered : rows.Pairwise fun m n => n.id < m.id) : ({ s with rows } : NotificationsList κ W).Kept where
  ordered
  cursor c held := grown.known c (kept.cursor c held)
  reload request there := by
    obtain ⟨cursor, view, sound⟩ := kept.reload request there
    exact ⟨cursor, view, sound.later grown⟩
  more request there := ⟨(kept.more request there).1, (kept.more request there).2.later grown⟩
  shown shown view here := by
    obtain ⟨served, answers⟩ := kept.shown shown view here
    exact ⟨served, answers.later grown⟩

theorem Kept.map (kept : s.Kept) {change : Notice κ W → Notice κ W} (ids : ∀ n, (change n).id = n.id)
    (leaves : ∀ (view : View W) n, view.admits (change n) → view.admits n) :
    ({ s with rows := s.rows.map change } : NotificationsList κ W).Kept := by
  apply kept.later (Later.map ids leaves)
  rw [List.pairwise_map]
  simpa only [ids] using kept.ordered

/-- Notifications of one kind change as long as no view takes them in thereby. -/
theorem Kept.edit (kept : s.Kept) {change : Notice κ W → Notice κ W} (chosen : Notice κ W → Prop) [DecidablePred chosen]
    (ids : ∀ n, (change n).id = n.id) (leaves : ∀ (view : View W) n, view.admits (change n) → view.admits n) :
    ({ s with rows := s.rows.map fun n => if chosen n then change n else n } : NotificationsList κ W).Kept := by
  apply kept.map
  · intro n
    split
    · exact ids n
    · rfl
  · intro view n admits
    split at admits
    · exact leaves view n admits
    · exact admits

theorem Kept.restart (kept : s.Kept) : s.restart.Kept := by
  refine { kept with reload := ?_ }
  intro request there
  obtain ⟨view, here, rfl⟩ := Option.map_eq_some_iff.mp there
  exact ⟨rfl, here, by simp, by simp⟩

theorem Kept.reloadFromSignal (kept : s.Kept) : s.reloadFromSignal.Kept := by
  unfold NotificationsList.reloadFromSignal
  split
  · exact kept
  · exact kept.restart

theorem Kept.step (kept : s.Kept) (positive : 0 < limit) (continues : s.Continues move)
    (stepped : s.step limit move = some next) : next.Kept := by
  cases move with
  | stored id workspaceId type =>
      simp only [NotificationsList.step] at stepped
      split at stepped
      · rename_i new
        cases stepped
        have new : ∀ n ∈ s.rows, n.id < id := by simpa [isNew] using new
        exact kept.later (Later.stored new) (List.pairwise_cons.mpr ⟨new, kept.ordered⟩)
      · cases stepped
  | markRead id =>
      cases stepped
      exact kept.edit _ (fun _ => rfl) fun _ _ => View.admits_of_read
  | markAllRead workspaceId =>
      cases stepped
      exact kept.edit _ (fun _ => rfl) fun _ _ => View.admits_of_read
  | deleted id =>
      cases stepped
      exact kept.edit _ (fun _ => rfl) fun _ _ => View.admits_of_gone
  | switch workspaceId filter =>
      simp only [NotificationsList.step] at stepped
      split at stepped
      · cases stepped
        exact kept
      · cases stepped
        have away : ({ s with workspaceId, filter, shown := false, reload := none } : NotificationsList κ W).Kept :=
          { kept with reload := by simp, shown := by simp }
        exact away.restart
  | unreadChanged =>
      cases stepped
      exact kept.reloadFromSignal
  | joined =>
      simp only [NotificationsList.step] at stepped
      split at stepped
      · cases stepped
        exact kept.reloadFromSignal
      · cases stepped
        exact { kept with }
  | retry =>
      simp only [NotificationsList.step] at stepped
      split at stepped
      · cases stepped
        exact kept.restart
      · cases stepped
  | serveReload =>
      obtain ⟨request, there, stepped⟩ := Option.bind_eq_some_iff.mp stepped
      split at stepped
      · cases stepped
        obtain ⟨cursor, view, sound⟩ := kept.reload request there
        refine { kept with reload := ?_ }
        rintro _ ⟨⟩
        exact ⟨cursor, view, sound.serve kept.ordered positive⟩
      · cases stepped
  | reloaded =>
      obtain ⟨request, there, stepped⟩ := Option.bind_eq_some_iff.mp stepped
      obtain ⟨page, answered, rfl⟩ := Option.map_eq_some_iff.mp stepped
      obtain ⟨first, here, sound⟩ := kept.reload request there
      have answers := first ▸ sound.answer page answered
      refine { kept with cursor := ?_, reload := by simp, shown := ?_ }
      · exact fun c held => answers.known c (answers.next c held).1
      · intro _ view same
        obtain rfl : request.view = view := Option.some.inj (here.symm.trans same)
        refine ⟨by simp, ?_⟩
        simpa [ids, Function.comp_def] using answers
  | reloadFailed =>
      obtain ⟨request, _, rfl⟩ := Option.map_eq_some_iff.mp stepped
      refine { kept with cursor := by simp, reload := by simp, shown := ?_ }
      intro _ view _
      refine ⟨by simp, ?_⟩
      constructor <;> simp [ids]
  | loadMore =>
      obtain ⟨view, here, stepped⟩ := Option.bind_eq_some_iff.mp stepped
      obtain ⟨cursor, held, stepped⟩ := Option.bind_eq_some_iff.mp stepped
      split at stepped
      · cases stepped
      · cases stepped
        refine { kept with more := ?_ }
        rintro _ ⟨⟩
        refine ⟨rfl, ?_, by simp⟩
        rintro c ⟨⟩
        exact kept.cursor cursor held
  | serveMore =>
      obtain ⟨request, there, stepped⟩ := Option.bind_eq_some_iff.mp stepped
      split at stepped
      · cases stepped
        obtain ⟨cursor, sound⟩ := kept.more request there
        refine { kept with more := ?_ }
        rintro _ ⟨⟩
        exact ⟨cursor, sound.serve kept.ordered positive⟩
      · cases stepped
  | loadedMore =>
      obtain ⟨request, there, stepped⟩ := Option.bind_eq_some_iff.mp stepped
      obtain ⟨page, answered, rfl⟩ := Option.map_eq_some_iff.mp stepped
      obtain ⟨some_, sound⟩ := kept.more request there
      obtain ⟨c, asked⟩ := Option.isSome_iff_exists.mp some_
      have answers := sound.answer page answered
      refine { kept with cursor := ?_, more := by simp, shown := ?_ }
      · exact fun d held => answers.known d (answers.next d held).1
      · intro shown view here
        obtain ⟨same, place⟩ := continues shown request there
        obtain rfl : request.view = view := Option.some.inj (same.symm.trans here)
        obtain ⟨served, before⟩ := kept.shown shown request.view here
        refine ⟨?_, ?_⟩
        · intro row member
          rcases List.mem_append.mp member with old | new
          · exact served row old
          · obtain ⟨a, _, rfl⟩ := List.mem_map.mp new
            rfl
        · have both : Answers s.rows request.view none ⟨s.ids ++ page.items, page.nextCursor⟩ := by
            rcases place with empty | held
            · simpa [ids, empty] using answers.alone
            · rw [asked] at held answers
              exact (held ▸ before).append answers
          simpa [ids, Function.comp_def] using both
  | loadMoreFailed =>
      obtain ⟨request, _, rfl⟩ := Option.map_eq_some_iff.mp stepped
      exact { kept with more := by simp }

/-- Where every further page arrives at the list it continues, the list never mixes. -/
theorem list_never_mixes (limit : Nat) (positive : 0 < limit) (rows : List (Notice κ W))
    (ordered : rows.Pairwise fun m n => n.id < m.id) (workspaceId : Option W) (filter : Filter)
    (moves : List (ListMove κ W)) (s : NotificationsList κ W)
    (ran : Machine.run (step limit) (mount rows workspaceId filter) moves = some s)
    (continues : Machine.Meets (step limit) Continues (mount rows workspaceId filter) moves)
    (shown : s.shown) (view : View W) (here : s.view = some view) : s.Unmixed view := by
  have start : ({ rows, workspaceId, filter } : NotificationsList κ W).Kept := by
    constructor <;> simp [ordered]
  have kept := Machine.run_keeps (I := Kept) (fun _ _ _ kept continues stepped => kept.step positive continues stepped)
    start.restart continues ran
  exact kept.unmixed shown here

instance (s : NotificationsList κ W) (move : ListMove κ W) : Decidable (s.Continues move) :=
  match move with
  | .loadedMore => inferInstanceAs (Decidable (s.shown → ∀ request ∈ s.more,
      s.view = some request.view ∧ (s.items = [] ∨ s.nextCursor = request.cursor)))
  | .stored .. | .markRead _ | .markAllRead _ | .deleted _ | .switch .. | .unreadChanged | .joined | .retry | .serveReload
  | .reloaded | .reloadFailed | .loadMore | .serveMore | .loadMoreFailed => inferInstanceAs (Decidable True)

/-- Assignments, the newest first. -/
def assignments (count : Nat) : List (Notice Nat Nat) :=
  (List.range count).reverse.map fun id => { id, workspaceId := 0, type := .Assignment }

/-- The filter changes while a further page is on its way. -/
def refiltered : List (ListMove Nat Nat) := [
  .serveReload, .reloaded, .loadMore, .switch (some 0) { typeFilter := some .Mention }, .serveReload, .reloaded,
  .serveMore, .loadedMore]

/-- Assignments are listed under mentions. -/
theorem filters_mix :
    ¬ ∀ (rows : List (Notice Nat Nat)) (workspaceId : Option Nat) (filter : Filter),
      rows.Pairwise (fun m n => n.id < m.id) →
      ∀ (moves : List (ListMove Nat Nat)) (s : NotificationsList Nat Nat),
        Machine.run (step PAGE_LIMIT) (mount rows workspaceId filter) moves = some s → s.shown →
          ∀ view, s.view = some view → s.Unmixed view := by
  intro claim
  have ran : (Machine.run (step PAGE_LIMIT) (mount (assignments 60) (some 0) {}) refiltered).any fun s =>
      s.shown && decide (s.view = some ⟨0, { typeFilter := some .Mention }⟩) && s.items.contains (0, ⟨0, {}⟩) := by
    decide +kernel
  obtain ⟨s, reached, holds⟩ := (Option.any_eq_true ..).mp ran
  simp only [Bool.and_eq_true, decide_eq_true_eq, List.contains_iff_mem] at holds
  obtain ⟨⟨shown, here⟩, member⟩ := holds
  have unmixed := claim _ _ _ (by decide +kernel) refiltered s reached shown _ here
  exact absurd (unmixed.served _ member) (by decide)

/-- A page while a notification is stored, and a signal afterwards. -/
def signalled : List (ListMove Nat Nat) := [
  .serveReload, .reloaded, .loadMore, .stored 60 0 .Mention, .unreadChanged, .serveMore, .loadedMore, .unreadChanged,
  .serveReload, .reloaded]

theorem list_never_mixes_signalled :
    ∃ s, Machine.run (step PAGE_LIMIT) (mount (assignments 60) (some 0) {}) signalled = some s ∧ s.Unmixed ⟨0, {}⟩ := by
  have ran : (Machine.run (step PAGE_LIMIT) (mount (assignments 60) (some 0) {}) signalled).any fun s =>
      s.shown && decide (s.view = some ⟨0, {}⟩) := by
    decide +kernel
  obtain ⟨s, reached, holds⟩ := (Option.any_eq_true ..).mp ran
  obtain ⟨shown, here⟩ := Bool.and_eq_true_iff.mp holds
  refine ⟨s, reached, list_never_mixes PAGE_LIMIT (by decide) _ (by decide +kernel) _ _ signalled s reached ?_ shown _
    (of_decide_eq_true here)⟩
  exact Machine.meets_of_checks (fun s move => decide (s.Continues move)) (fun _ _ => of_decide_eq_true)
    (by decide +kernel)

end NotificationsList
end Kurul.Client
