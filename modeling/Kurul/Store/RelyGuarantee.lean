import Kurul.Store.Interleaving

/-! Rely-guarantee reasoning about interleaved programs. A thread is verified
against assertions about the committed rows that the commits of the others keep,
given the row locks it holds; every commit it makes keeps the shared invariant
and its side of the protocol. Verified threads run together without losing either. -/
namespace Kurul.Store

variable {Row Key Event Input Error α β γ ι : Type} [Keyed Row Key]

/-- What any commit keeps, what a holder of locks may see happen, and what a
commit made under locks may do. More locks see less happen, and holders of
compatible locks respect each other. -/
structure Protocol (Row Key : Type) where
  inv : List Row → Prop
  rely : Held Key → List Row → List Row → Prop
  guar : Held Key → List Row → List Row → Prop
  narrows : ∀ {held more before after}, held ⊆ more → rely more before after → rely held before after
  compatible : ∀ {mine theirs before after}, Apart mine theirs → inv before → inv after →
    guar theirs before after → rely mine before after

/-- Nothing is shared: only what a thread does by itself is of interest. -/
def Protocol.free : Protocol Row Key where
  inv _ := True
  rely _ _ _ := True
  guar _ _ _ := True
  narrows _ _ := trivial
  compatible _ _ _ _ := trivial

/-- The lock forbids other transactions to write the row. -/
def Owns (held : Held Key) (k : Key) : Prop := ∃ mode, (k, mode) ∈ held ∧ mode ≠ .keyShare

theorem Owns.exclusive {mine theirs : Held Key} (apart : Apart mine theirs) {k : Key}
    (left : Owns mine k) (right : Owns theirs k) : False := by
  obtain ⟨a, memberA, strongA⟩ := left
  obtain ⟨b, memberB, strongB⟩ := right
  have compatible := apart _ memberA _ memberB rfl
  cases a <;> cases b <;> simp_all [LockMode.conflicts]

theorem Owns.of_footprint {o : Outcome Row Key β} {k : Key} (member : k ∈ touched o.writes)
    (held : Held Key) : Owns (held ++ o.footprint) k := by
  obtain ⟨write, stored, rfl⟩ := List.mem_map.mp member
  refine ⟨write.lock.2, ?_, by cases write <;> simp [Write.lock]⟩
  have footprint : write.lock ∈ o.footprint :=
    List.mem_append_right _ (List.mem_map_of_mem (f := Write.lock) stored)
  have target : (write.target, write.lock.2) = write.lock := by cases write <;> rfl
  rw [target]
  exact List.mem_append_right _ footprint

omit [Keyed Row Key] in
theorem Owns.append {held : Held Key} {k : Key} (owns : Owns held k) (more : Held Key) :
    Owns (held ++ more) k := by
  obtain ⟨mode, member, strong⟩ := owns
  exact ⟨mode, List.mem_append_left _ member, strong⟩

/-- Only the rows of these locks have changed. -/
def Frame (kept : Key → Prop) (before after : List Row) : Prop :=
  ∀ row, kept (key row) → (row ∈ before ↔ row ∈ after)

/-- A commit of another thread, as the holder of `held` sees it. -/
structure Interference (P : Protocol Row Key) (held : Held Key) (before after : List Row) :
    Prop where
  invBefore : P.inv before
  invAfter : P.inv after
  rely : P.rely held before after
  frame : Frame (Owns held) before after

abbrev Assertion (Row : Type) := List Row → Prop

def Stable (P : Protocol Row Key) (held : Held Key) (A : Assertion Row) : Prop :=
  ∀ ⦃before after⦄, Interference P held before after → A before → A after

theorem Stable.and {P : Protocol Row Key} {held : Held Key} {A B : Assertion Row}
    (left : Stable P held A) (right : Stable P held B) : Stable P held fun rows => A rows ∧ B rows :=
  fun _ _ moved both => ⟨left moved both.1, right moved both.2⟩

theorem Stable.const (P : Protocol Row Key) (held : Held Key) (p : Prop) :
    Stable P held fun _ => p :=
  fun _ _ _ fact => fact

/-- Nobody else can bring in a row whose key is held. -/
theorem Stable.absent (P : Protocol Row Key) {held : Held Key} {k : Key} (owns : Owns held k) :
    Stable P held fun rows => ∀ row ∈ rows, key row ≠ k :=
  fun _ _ moved none row member same =>
    none row ((moved.frame row (same ▸ owns)).mpr member) same

/-- Nobody else can change a row whose key is held. -/
theorem Stable.stored (P : Protocol Row Key) {held : Held Key} {row : Row} (owns : Owns held (key row)) :
    Stable P held fun rows => row ∈ rows :=
  fun _ _ moved stored => (moved.frame row owns).mp stored

theorem Stable.more {P : Protocol Row Key} {held more : Held Key} {A : Assertion Row}
    (stable : Stable P held A) (grown : held ⊆ more) : Stable P more A :=
  fun _ _ moved fact => stable
    ⟨moved.invBefore, moved.invAfter, P.narrows grown moved.rely,
      fun row ⟨mode, member, strong⟩ => moved.frame row ⟨mode, grown member, strong⟩⟩ fact

/-- A thread's own side: its uncommitted writes, its locks and the views it has had. -/
structure Local (Row Key : Type) where
  pending : List (Write Row Key) := []
  held : Held Key := []
  seen : List (List Row) := []

/-- After the end of a transaction only the views are left. -/
def Local.closed (l : Local Row Key) : Local Row Key := { seen := l.seen }

variable [DecidableEq Key]

def Local.view (l : Local Row Key) (rows : List Row) : List Row := applyAll rows l.pending

def Local.ran (l : Local Row Key) (rows : List Row) (o : Outcome Row Key β) : Local Row Key :=
  ⟨l.pending ++ o.writes, l.held ++ o.footprint, l.seen ++ [l.view rows]⟩

theorem Local.view_ran (l : Local Row Key) (rows : List Row) (o : Outcome Row Key β) :
    (l.ran rows o).view rows = applyAll (l.view rows) o.writes :=
  applyAll_append rows l.pending o.writes

/-- A later point of the same transaction, these writes further on. -/
structure Local.Grown (l l' : Local Row Key) (more : List (Write Row Key)) : Prop where
  pending : l'.pending = l.pending ++ more
  held : l.held ⊆ l'.held
  seen : l.seen ⊆ l'.seen
  owned : (∀ k ∈ touched l.pending, Owns l.held k) → ∀ k ∈ touched l'.pending, Owns l'.held k

omit [DecidableEq Key] in
theorem Local.Grown.trans {l l' l'' : Local Row Key} {more later : List (Write Row Key)}
    (first : l.Grown l' more) (second : l'.Grown l'' later) : l.Grown l'' (more ++ later) where
  pending := by rw [second.pending, first.pending, List.append_assoc]
  held := List.Subset.trans first.held second.held
  seen := List.Subset.trans first.seen second.seen
  owned early := second.owned (first.owned early)

omit [DecidableEq Key] in
theorem Local.Grown.refl (l : Local Row Key) : l.Grown l [] where
  pending := (List.append_nil _).symm
  held := List.Subset.refl _
  seen := List.Subset.refl _
  owned early := early

omit [DecidableEq Key] in
/-- Nothing written yet, and still nothing. -/
theorem Local.Grown.clean {l l' : Local Row Key} (grown : l.Grown l' []) (clean : l.pending = []) :
    l'.pending = [] := by
  rw [grown.pending, clean]
  rfl

omit [DecidableEq Key] in
/-- From a clean start, all that is pending was written since. -/
theorem Local.Grown.whole {l l' : Local Row Key} {more : List (Write Row Key)}
    (grown : l.Grown l' more) (clean : l.pending = []) : l.Grown l' l'.pending := by
  have same : l'.pending = more := by rw [grown.pending, clean, List.nil_append]
  rw [same]
  exact grown

theorem Local.grown_read (l : Local Row Key) (rows : List Row) :
    l.Grown { l with seen := l.seen ++ [l.view rows] } [] where
  pending := (List.append_nil _).symm
  held := List.Subset.refl _
  seen := List.subset_append_left _ _
  owned early := early

theorem Local.grown_ran (l : Local Row Key) (rows : List Row) (o : Outcome Row Key β) :
    l.Grown (l.ran rows o) o.writes where
  pending := rfl
  held := List.subset_append_left _ _
  seen := List.subset_append_left _ _
  owned early k member := by
    rw [Local.ran, touched_append, List.mem_append] at member
    obtain old | new := member
    · exact (early k old).append _
    · exact Owns.of_footprint new _

/-- What a thread owes wherever it waits for a statement, and at each commit over the
rows committed before it. -/
structure Promise (Row Key : Type) where
  statement : Local Row Key → Prop := fun _ => True
  commit : Local Row Key → List Row → Prop := fun _ _ => True

/-- From any committed state that satisfies the assertion, the program keeps the
protocol and its promise, and it ends in `post`. Commits are only looked at where
`allow` lets them happen. -/
def Verified (P : Protocol Row Key) (allow : Assertion Row) (promise : Promise Row Key) :
    Prog Row Key Event Input Error α → Local Row Key → Assertion Row →
      (α → Local Row Key → Assertion Row → Prop) → Prop
  | .pure value, l, A, post => post value l A
  | .throw _, _, _, _ => True
  | .input next, l, A, post => ∀ x, Verified P allow promise (next x) l A post
  | .emit _ next, l, A, post => Verified P allow promise next l A post
  | .commit next, l, A, post =>
      (∀ error, Verified P allow promise (next (.error error)) l.closed (fun _ => True) post) ∧
      ∀ rows, P.inv rows → A rows → allow rows → (∀ k ∈ touched l.pending, Owns l.held k) →
        P.inv (l.view rows) ∧ P.guar l.held rows (l.view rows) ∧ promise.commit l rows ∧
        ∃ B : Assertion Row, B (l.view rows) ∧ Stable P [] B ∧
          Verified P allow promise (next (.ok ())) l.closed B post
  | .rollback next, l, _, post => Verified P allow promise next l.closed (fun _ => True) post
  | .statement exec next, l, A, post =>
      promise.statement l ∧
      (∀ error, Verified P allow promise (next (.error error)) l A post) ∧
      ∀ rows, P.inv rows → A rows → ∀ o, exec (l.view rows) = .ok o →
        ∃ B : Assertion Row, B rows ∧ Stable P (l.held ++ o.footprint) B ∧
          Verified P allow promise (next (.ok o.result)) (l.ran rows o) B post

namespace Verified

variable {P : Protocol Row Key} {allow : Assertion Row} {promise : Promise Row Key}
  {l : Local Row Key} {A : Assertion Row}

/-- A program continued is verified by verifying what continues it. -/
theorem ending {post : α → Local Row Key → Assertion Row → Prop}
    {post' : β → Local Row Key → Assertion Row → Prop} {p : Prog Row Key Event Input Error α}
    {ok : α → Prog Row Key Event Input Error β} {failed : Error → Prog Row Key Event Input Error β}
    (verified : Verified P allow promise p l A post)
    (succeeds : ∀ value l A, post value l A → Verified P allow promise (ok value) l A post')
    (fails : ∀ error l A, Verified P allow promise (failed error) l A post') :
    Verified P allow promise (p.ending ok failed) l A post' := by
  induction p generalizing l A with
  | pure value => exact succeeds _ _ _ verified
  | throw error => exact fails _ _ _
  | input next ih => exact fun x => ih x (verified x)
  | emit event next ih => exact ih verified
  | commit next ih =>
      refine ⟨fun error => ih _ (verified.1 error), fun rows inv fact allowed owned => ?_⟩
      obtain ⟨kept, guar, promised, B, start, stable, rest⟩ :=
        verified.2 rows inv fact allowed owned
      exact ⟨kept, guar, promised, B, start, stable, ih _ rest⟩
  | rollback next ih => exact ih verified
  | statement exec next ih =>
      obtain ⟨waits, refused, answered⟩ := verified
      refine ⟨waits, fun error => ih _ (refused error), fun rows inv fact o ran => ?_⟩
      obtain ⟨B, start, stable, rest⟩ := answered rows inv fact o ran
      exact ⟨B, start, stable, ih _ rest⟩

theorem weaken {post post' : α → Local Row Key → Assertion Row → Prop}
    {p : Prog Row Key Event Input Error α} (verified : Verified P allow promise p l A post)
    (implies : ∀ value l A, post value l A → post' value l A) :
    Verified P allow promise p l A post' := by
  induction p generalizing l A with
  | pure value => exact implies _ _ _ verified
  | throw error => trivial
  | input next ih => exact fun x => ih x (verified x)
  | emit event next ih => exact ih verified
  | commit next ih =>
      refine ⟨fun error => ih _ (verified.1 error), fun rows inv fact allowed owned => ?_⟩
      obtain ⟨kept, guar, promised, B, start, stable, rest⟩ :=
        verified.2 rows inv fact allowed owned
      exact ⟨kept, guar, promised, B, start, stable, ih _ rest⟩
  | rollback next ih => exact ih verified
  | statement exec next ih =>
      obtain ⟨waits, refused, answered⟩ := verified
      refine ⟨waits, fun error => ih _ (refused error), fun rows inv fact o ran => ?_⟩
      obtain ⟨B, start, stable, rest⟩ := answered rows inv fact o ran
      exact ⟨B, start, stable, ih _ rest⟩

/-- A program continued from what it is known to end in. -/
theorem andThen {post : α → Local Row Key → Assertion Row → Prop}
    {post' : β → Local Row Key → Assertion Row → Prop} {p : Prog Row Key Event Input Error α}
    {f : α → Prog Row Key Event Input Error β} (verified : Verified P allow promise p l A post)
    (rest : ∀ value l A, post value l A → Verified P allow promise (f value) l A post') :
    Verified P allow promise (p.bind f) l A post' :=
  verified.ending rest fun _ _ _ => trivial

theorem bind {post : β → Local Row Key → Assertion Row → Prop}
    {p : Prog Row Key Event Input Error α} {f : α → Prog Row Key Event Input Error β}
    (verified : Verified P allow promise p l A
      fun value l A => Verified P allow promise (f value) l A post) :
    Verified P allow promise (p.bind f) l A post :=
  verified.andThen fun _ _ _ rest => rest

/-- A loop keeps what every round of it keeps. -/
theorem forEach {I : Local Row Key → Assertion Row → Prop}
    {body : β → Prog Row Key Event Input Error Unit} {items : List β} (start : I l A)
    (round : ∀ item ∈ items, ∀ l A, I l A →
      Verified P allow promise (body item) l A fun _ l A => I l A) :
    Verified P allow promise (Prog.forEach items body) l A fun _ l A => I l A := by
  induction items generalizing l A with
  | nil => exact start
  | cons item rest ih =>
      refine (round item List.mem_cons_self l A start).andThen fun _ l' A' kept => ?_
      exact ih kept fun other member => round other (List.mem_cons_of_mem _ member)

/-- A loop whose invariant knows the items it is through with, and what each answered. -/
theorem collecting {I : List β → Local Row Key → Assertion Row → Prop} {R : β → γ → Prop}
    {body : β → Prog Row Key Event Input Error γ} {items : List β} (done : List β) (start : I done l A)
    (round : ∀ item ∈ items, ∀ done l A, I done l A →
      Verified P allow promise (body item) l A fun answer l A => R item answer ∧ I (done ++ [item]) l A) :
    Verified P allow promise (Prog.collect items body) l A fun answers l A =>
      List.Forall₂ R items answers ∧ I (done ++ items) l A := by
  induction items generalizing done l A with
  | nil => exact ⟨.nil, by simpa using start⟩
  | cons item rest ih =>
      refine (round item List.mem_cons_self done l A start).andThen fun first l' A' kept => ?_
      refine (ih _ kept.2 fun other member => round other (List.mem_cons_of_mem _ member)).andThen
        fun more _ _ through => ?_
      exact ⟨.cons kept.1 through.1, by simpa using through.2⟩

theorem collect {I : Local Row Key → Assertion Row → Prop} {R : β → γ → Prop}
    {body : β → Prog Row Key Event Input Error γ} {items : List β} (start : I l A)
    (round : ∀ item ∈ items, ∀ l A, I l A →
      Verified P allow promise (body item) l A fun answer l A => R item answer ∧ I l A) :
    Verified P allow promise (Prog.collect items body) l A fun answers l A =>
      List.Forall₂ R items answers ∧ I l A :=
  collecting (I := fun _ => I) [] start fun item member _ => round item member

/-- A transaction is verified by what its commit has to show. -/
theorem transaction {post : α → Local Row Key → Assertion Row → Prop}
    {p : Prog Row Key Event Input Error α}
    (verified : Verified P allow promise p l A fun value l A =>
      ∀ rows, P.inv rows → A rows → allow rows → (∀ k ∈ touched l.pending, Owns l.held k) →
        P.inv (l.view rows) ∧ P.guar l.held rows (l.view rows) ∧ promise.commit l rows ∧
        ∃ B : Assertion Row, B (l.view rows) ∧ Stable P [] B ∧ post value l.closed B) :
    Verified P allow promise p.transaction l A post :=
  verified.ending (fun _ _ _ commits => ⟨fun _ => trivial, commits⟩) fun _ _ _ => trivial

/-- A statement: whatever it answered where the assertion held, say what is known next. -/
theorem query {post : β → Local Row Key → Assertion Row → Prop} {exec : Statement Row Key Error β}
    (waits : promise.statement l)
    (outcome : ∀ rows, P.inv rows → A rows → ∀ o, exec (l.view rows) = .ok o →
      ∃ B : Assertion Row, B rows ∧ Stable P (l.held ++ o.footprint) B ∧
        post o.result (l.ran rows o) B) :
    Verified P allow promise (Prog.query exec : Prog Row Key Event Input Error β) l A post :=
  ⟨waits, fun _ => trivial, outcome⟩

/-- A statement that what is known outlasts. -/
theorem keep {post : β → Local Row Key → Assertion Row → Prop} {exec : Statement Row Key Error β}
    (waits : promise.statement l) (stable : Stable P l.held A)
    (rest : ∀ rows, P.inv rows → A rows → ∀ o, exec (l.view rows) = .ok o →
      post o.result (l.ran rows o) A) :
    Verified P allow promise (Prog.query exec : Prog Row Key Event Input Error β) l A post :=
  query waits fun rows inv fact o ran =>
    ⟨A, fact, stable.more (List.subset_append_left _ _), rest rows inv fact o ran⟩

/-- A read: the views have grown by one and nothing else has changed. -/
theorem read {post : β → Local Row Key → Assertion Row → Prop} {answer : List Row → β}
    (waits : promise.statement l) (stable : Stable P l.held A)
    (rest : ∀ rows, P.inv rows → A rows →
      post (answer (l.view rows)) { l with seen := l.seen ++ [l.view rows] } A) :
    Verified P allow promise
      (Prog.query (Statement.read answer) : Prog Row Key Event Input Error β) l A post := by
  refine keep waits stable fun rows inv fact o ran => ?_
  cases ran
  simpa [Local.ran, Outcome.footprint] using rest rows inv fact

/-- A read whose failure is handled where it stands. -/
theorem caught {post : β → Local Row Key → Assertion Row → Prop} {answer : List Row → β}
    {handler : Error → Prog Row Key Event Input Error β}
    (waits : promise.statement l) (stable : Stable P l.held A)
    (refused : ∀ error, Verified P allow promise (handler error) l A post)
    (rest : ∀ rows, P.inv rows → A rows →
      post (answer (l.view rows)) { l with seen := l.seen ++ [l.view rows] } A) :
    Verified P allow promise
      ((Prog.query (Statement.read answer) : Prog Row Key Event Input Error β).catching handler)
      l A post := by
  refine ⟨waits, refused, fun rows inv fact o ran => ⟨A, fact, ?_, ?_⟩⟩
  · exact stable.more (List.subset_append_left _ _)
  · cases ran
    simpa [Local.ran, Outcome.footprint, Prog.ofExcept, Prog.ending, Verified] using rest rows inv fact

theorem require {post : Unit → Local Row Key → Assertion Row → Prop} {test : Bool} {error : Error}
    (passed : test = true → post () l A) :
    Verified P allow promise (Prog.require test error : Prog Row Key Event Input Error Unit)
      l A post := by
  cases test with
  | false => trivial
  | true => exact passed rfl

theorem getOrThrow {post : β → Local Row Key → Assertion Row → Prop} {value : Option β}
    {error : Error} (found : ∀ b, value = some b → post b l A) :
    Verified P allow promise (Prog.getOrThrow value error : Prog Row Key Event Input Error β)
      l A post := by
  cases value with
  | none => trivial
  | some b => exact found b rfl

theorem ofExcept {post : β → Local Row Key → Assertion Row → Prop} {value : Except Error β}
    (succeeded : ∀ b, value = .ok b → post b l A) :
    Verified P allow promise (Prog.ofExcept value : Prog Row Key Event Input Error β)
      l A post := by
  cases value with
  | error => trivial
  | ok b => exact succeeded b rfl

/-- A lookup that went on found its row in the view it had. -/
theorem found {post : β → Local Row Key → Assertion Row → Prop} {answer : List Row → Option β}
    {error : Error} (waits : promise.statement l)
    (hit : ∀ rows b, P.inv rows → A rows → answer (l.view rows) = some b →
      ∃ B : Assertion Row, B rows ∧ Stable P l.held B ∧
        post b { l with seen := l.seen ++ [l.view rows] } B) :
    Verified P allow promise
      (Prog.found (Statement.read answer) error : Prog Row Key Event Input Error β) l A post := by
  refine bind (query waits fun rows inv fact o ran => ?_)
  cases ran
  cases answered : answer (l.view rows) with
  | none => exact ⟨fun _ => True, trivial, Stable.const P _ True, trivial⟩
  | some b =>
      obtain ⟨B, start, stable, rest⟩ := hit rows b inv fact answered
      exact ⟨B, start, stable.more (List.subset_append_left _ _),
        by simpa [Local.ran, Outcome.footprint, Prog.getOrThrow, Verified] using rest⟩

end Verified

variable [DecidableEq ι]

/-- A thread of the system with its locks. -/
def System.local (s : System ι Row Key Event Input Error α) (i : ι) : Local Row Key :=
  ⟨(s.threads i).pending, s.held i, (s.threads i).seen⟩

/-- A thread that owns the rows it wrote and is verified from where it stands. -/
structure ThreadSound (P : Protocol Row Key) (allow : Assertion Row) (promise : Promise Row Key)
    (rows : List Row) (thread : Thread Row Key Event Input Error α) (held : Held Key) : Prop where
  owned : ∀ k ∈ touched thread.pending, Owns held k
  verified : ∃ A : Assertion Row, A rows ∧ Stable P held A ∧
    Verified P allow promise thread.prog ⟨thread.pending, held, thread.seen⟩ A fun _ _ _ => True

/-- Every thread is sound, and the locks keep their writers apart. -/
structure Sound (P : Protocol Row Key) (allow : ι → Assertion Row) (promise : ι → Promise Row Key)
    (s : System ι Row Key Event Input Error α) : Prop where
  inv : P.inv s.rows
  apart : ∀ {i j}, i ≠ j → Apart (s.held i) (s.held j)
  threads : ∀ i, ThreadSound P (allow i) (promise i) s.rows (s.threads i) (s.held i)

omit [DecidableEq ι] in
/-- The rows a thread writes are its own, so no other lock holder sees them change. -/
theorem Frame.commit {mine theirs : Held Key} {pending : List (Write Row Key)}
    (apart : Apart mine theirs) (owned : ∀ k ∈ touched pending, Owns theirs k) (rows : List Row) :
    Frame (Owns mine) rows (applyAll rows pending) := by
  intro row mineRow
  refine (mem_applyAll_untouched pending fun touchedRow => ?_).symm
  exact mineRow.exclusive apart (owned _ touchedRow)

namespace Sound

variable {P : Protocol Row Key} {allow : ι → Assertion Row} {promise : ι → Promise Row Key}
  {s u : System ι Row Key Event Input Error α}

/-- A step that neither commits nor locks only moves its own thread on. -/
theorem advance (sound : Sound P allow promise s) (i : ι)
    {thread : Thread Row Key Event Input Error α}
    (moved : ThreadSound P (allow i) (promise i) s.rows thread (s.held i)) :
    Sound P allow promise (s.setThread i thread) where
  inv := sound.inv
  apart := sound.apart
  threads j := by
    by_cases same : j = i
    · subst same; simpa using moved
    · simpa [same] using sound.threads j

theorem apart_release (sound : Sound P allow promise s) (i : ι) {j k : ι} (different : j ≠ k) :
    Apart ((s.release i).held j) ((s.release i).held k) := by
  simp only [System.held_release]
  by_cases left : j = i
  · simp [left, Apart]
  · by_cases right : k = i
    · simp [right, Apart]
    · simpa [left, right] using sound.apart different

/-- A thread that ends its transaction without a commit gives its locks back. -/
theorem abandon (sound : Sound P allow promise s) (i : ι)
    {prog : Prog Row Key Event Input Error α} (seen : List (List Row))
    (verified : Verified P (allow i) (promise i) prog { seen } (fun _ => True) fun _ _ _ => True) :
    Sound P allow promise ((s.setThread i ⟨prog, [], seen⟩).release i) where
  inv := sound.inv
  apart := sound.apart_release i
  threads j := by
    by_cases same : j = i
    · subst same
      simpa using (⟨by simp [touched], fun _ => True, trivial, Stable.const P _ True, verified⟩ :
        ThreadSound P (allow j) (promise j) s.rows ⟨prog, [], seen⟩ [])
    · simpa [same] using sound.threads j

/-- What a thread owes where it waits. -/
theorem waits (sound : Sound P allow promise s) {i : ι} {exec : Statement Row Key Error β}
    {next : Except Error β → Prog Row Key Event Input Error α}
    (here : (s.threads i).prog = .statement exec next) : (promise i).statement (s.local i) := by
  obtain ⟨_, A, _, _, verified⟩ := sound.threads i
  rw [here] at verified
  exact verified.1

/-- A commit keeps the invariant and the protocol, and what its thread promised
holds of it. -/
theorem commit (sound : Sound P allow promise s) (i : ι)
    {next : Except Error Unit → Prog Row Key Event Input Error α}
    (here : (s.threads i).prog = .commit next) (allowed : allow i s.rows) :
    (promise i).commit (s.local i) s.rows ∧
      Sound P allow promise
        (((s.setThread i ⟨next (.ok ()), [], (s.threads i).seen⟩).release i).install
          (applyAll s.rows (s.threads i).pending)) := by
  obtain ⟨owned, A, fact, stable, verified⟩ := sound.threads i
  rw [here] at verified
  obtain ⟨kept, guar, promised, B, start, stableB, rest⟩ :=
    verified.2 _ sound.inv fact allowed owned
  refine ⟨promised, kept, sound.apart_release i, fun j => ?_⟩
  by_cases same : j = i
  · subst same
    simpa using (⟨by simp [touched], B, start, stableB, rest⟩ :
      ThreadSound P (allow j) (promise j) (applyAll s.rows (s.threads j).pending)
        ⟨next (.ok ()), [], (s.threads j).seen⟩ [])
  · have moved : Interference P (s.held j) s.rows (applyAll s.rows (s.threads i).pending) :=
      ⟨sound.inv, kept, P.compatible (sound.apart same) sound.inv kept guar,
        Frame.commit (sound.apart same) owned _⟩
    obtain ⟨ownedJ, C, factC, stableC, verifiedC⟩ := sound.threads j
    simpa [same] using (⟨ownedJ, C, stableC moved factC, stableC, verifiedC⟩ :
      ThreadSound P (allow j) (promise j) _ (s.threads j) (s.held j))

theorem statement (sound : Sound P allow promise s) (i : ι) {exec : Statement Row Key Error β}
    {next : Except Error β → Prog Row Key Event Input Error α}
    (here : (s.threads i).prog = .statement exec next) {o : Outcome Row Key β}
    (answered : exec (applyAll s.rows (s.threads i).pending) = .ok o)
    (free : s.blocked i o.footprint = false) :
    Sound P allow promise ((s.setThread i
      ⟨next (.ok o.result), (s.threads i).pending ++ o.writes,
        (s.threads i).seen ++ [applyAll s.rows (s.threads i).pending]⟩).takeLocks
          i o.footprint) := by
  obtain ⟨owned, A, fact, stable, verified⟩ := sound.threads i
  rw [here] at verified
  obtain ⟨B, start, stableB, rest⟩ := verified.2.2 _ sound.inv fact o answered
  have fresh : ∀ l, l ≠ i → Apart (s.held i ++ o.footprint) (s.held l) := by
    intro l other a member b held same
    obtain mine | added := List.mem_append.mp member
    · exact sound.apart (Ne.symm other) a mine b held same
    · exact System.apart_of_not_blocked free other a added b held same
  refine ⟨sound.inv, fun {j k} different => ?_, fun j => ?_⟩
  · simp only [System.held_takeLocks, System.held_setThread]
    by_cases left : j = i
    · subst left
      simpa [Ne.symm different] using fresh k (Ne.symm different)
    · by_cases right : k = i
      · subst right
        simpa [left] using (fresh j left).symm
      · simpa [left, right] using sound.apart different
  · by_cases same : j = i
    · subst same
      have ownedAll : ∀ k ∈ touched ((s.threads j).pending ++ o.writes),
          Owns (s.held j ++ o.footprint) k :=
        ((s.local j).grown_ran s.rows o).owned owned
      simpa using (⟨ownedAll, B, start, stableB, rest⟩ :
        ThreadSound P (allow j) (promise j) s.rows
          ⟨next (.ok o.result), (s.threads j).pending ++ o.writes,
            (s.threads j).seen ++ [applyAll s.rows (s.threads j).pending]⟩
          (s.held j ++ o.footprint))
    · simpa [same] using sound.threads j

/-- No step of a verified thread loses soundness. -/
theorem step (sound : Sound P allow promise s) {action : Action ι Input Error}
    (allowed : ∀ i x next, action = .run i x → (s.threads i).prog = .commit next →
      allow i s.rows)
    (stepped : s.step action = some u) : Sound P allow promise u := by
  cases action with
  | run i x =>
      obtain ⟨owned, A, fact, stable, verified⟩ := sound.threads i
      cases here : (s.threads i).prog with
      | pure | throw => simp [System.step, here] at stepped
      | input next =>
          simp only [System.step, here, Option.some.injEq] at stepped
          rw [here] at verified
          exact stepped ▸ sound.advance i ⟨owned, A, fact, stable, verified x⟩
      | emit event next =>
          simp only [System.step, here, Option.some.injEq] at stepped
          rw [here] at verified
          have moved : ThreadSound P (allow i) (promise i) s.rows { s.threads i with prog := next }
              (s.held i) := ⟨owned, A, fact, stable, verified⟩
          obtain ⟨inv, apart, threads⟩ := sound.advance i moved
          exact stepped ▸ ⟨inv, apart, threads⟩
      | commit next =>
          simp only [System.step, here, Option.some.injEq] at stepped
          exact stepped ▸ (sound.commit i here (allowed i x next rfl here)).2
      | rollback next =>
          simp only [System.step, here, Option.some.injEq] at stepped
          rw [here] at verified
          exact stepped ▸ sound.abandon i _ verified
      | statement exec next =>
          simp only [System.step, here] at stepped
          cases answered : exec (applyAll s.rows (s.threads i).pending) with
          | error error =>
              simp only [answered, Option.some.injEq] at stepped
              rw [here] at verified
              exact stepped ▸ sound.advance i ⟨owned, A, fact, stable, verified.2.1 error⟩
          | ok o =>
              simp only [answered] at stepped
              split at stepped
              · contradiction
              · rename_i free
                cases stepped
                exact sound.statement i here answered (by simpa using free)
  | fail i error =>
      obtain ⟨owned, A, fact, stable, verified⟩ := sound.threads i
      cases here : (s.threads i).prog with
      | pure | throw | input | emit | rollback => simp [System.step, here] at stepped
      | commit next =>
          simp only [System.step, here, Option.some.injEq] at stepped
          rw [here] at verified
          exact stepped ▸ sound.abandon i _ (verified.1 error)
      | statement exec next =>
          simp only [System.step, here, Option.some.injEq] at stepped
          rw [here] at verified
          exact stepped ▸ sound.advance i ⟨owned, A, fact, stable, verified.2.1 error⟩

/-- Programs that have not started yet. -/
theorem initial {progs : ι → Prog Row Key Event Input Error α} {rows : List Row} (inv : P.inv rows)
    (verified : ∀ i, Verified P (allow i) (promise i) (progs i) {} (fun _ => True)
      fun _ _ _ => True) :
    Sound P allow promise
      ({ rows, threads := fun i => { prog := progs i } } :
        System ι Row Key Event Input Error α) where
  inv := inv
  apart := fun _ => by simp [System.held, Apart]
  threads i := ⟨by simp [touched], fun _ => True, trivial, Stable.const P _ True, verified i⟩

theorem reaches {allowed : System ι Row Key Event Input Error α → Action ι Input Error → Prop}
    (permits : ∀ {t : System ι Row Key Event Input Error α} {i x next}, allowed t (.run i x) →
      (t.threads i).prog = .commit next → allow i t.rows)
    (sound : Sound P allow promise s) (run : System.Reaches allowed s u) :
    Sound P allow promise u :=
  run.invariant (fun kept permitted stepped =>
    kept.step (fun _ _ _ same here => permits (same ▸ permitted) here) stepped) sound

end Sound
end Kurul.Store
