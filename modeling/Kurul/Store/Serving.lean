import Kurul.Store.Tenancy

/-! Programs run for one tenant. What such a program has met is nobody else's, and stays so
whatever it writes; every commit of it keeps the other tenants' rows and all references. -/

namespace Kurul.Store

variable {Row Key T Event Input Error α β γ : Type} [Relational Row Key] [DecidableEq Key] [Tenanted Row Key T]
  {w : T} {keys known more : List Key} {rows view : List Row} {W : List (Write Row Key)} {k : Key}

/-- Nobody else's: met before, or never any other tenant's. -/
def Known (Row : Type) [Relational Row Key] [Tenanted Row Key T] (w : T) (keys : List Key) (k : Key) : Prop :=
  k ∈ keys ∨ ∀ row : Row, key row = k → home row = .shared ∨ home row = .tenant w

omit [DecidableEq Key] in
theorem Known.near (known : Known Row w keys k) (near : ∀ k ∈ keys, Near w rows k) : Near w rows k := by
  rcases known with met | free
  · exact near k met
  · intro row _ same w' theirs
    rcases free row same with shared | own
    · exact absurd shared theirs.owned
    · cases theirs with
      | own there => simpa [own, eq_comm] using there
      | inherits there => simp [own] at there

/-- A row that may be stored as a new one. -/
structure Claim (w : T) (keys : List Key) (row : Row) : Prop where
  owned : home row ≠ .shared
  mine : ∀ w', home row = .tenant w' → w' = w
  refs : ∀ ref ∈ refs row, Known Row w keys ref.target

/-- Where a run for the tenant is: what its transaction has written, and what it has met. -/
structure At (w : T) (rows : List Row) (W : List (Write Row Key)) (keys : List Key) : Prop where
  start : Coherent rows
  keeps : Keeps w rows (applyAll rows W)
  near : ∀ k ∈ keys, Near w (applyAll rows W) k

theorem At.forget (here : At w rows W known) (fewer : keys ⊆ known) : At w rows W keys :=
  ⟨here.start, here.keeps, fun k member => here.near k (fewer member)⟩

theorem At.learn (here : At w rows W keys) (near : ∀ k ∈ more, Near w (applyAll rows W) k) :
    At w rows W (more ++ keys) where
  start := here.start
  keeps := here.keeps
  near k member := (List.mem_append.mp member).elim (near k) (here.near k)

theorem At.wrote (here : At w rows W keys) {writes : List (Write Row Key)}
    (step : Keeps w (applyAll rows W) (applyAll (applyAll rows W) writes)) : At w rows (W ++ writes) keys where
  start := here.start
  keeps := by
    rw [applyAll_append]
    exact here.keeps.trans here.start step
  near k member := by
    rw [applyAll_append]
    exact step.near here.keeps.coherent (here.near k member)

theorem At.committed (here : At w rows W keys) : At w (applyAll rows W) [] keys :=
  ⟨here.keeps.coherent, .refl here.keeps.coherent, here.near⟩

/-- Without its writes it has met the same. -/
theorem At.undone (here : At w rows W keys) : At w rows [] keys where
  start := here.start
  keeps := .refl here.start
  near k member := here.keeps.moves.near_back here.start.toIntact here.keeps.coherent.toIntact (here.near k member)

/-- Whom an event is for: a tenant, those who watch a row, or nobody's tenant. -/
class Addressed (Event : Type) (T Key : outParam Type) where
  audience : Event → Home T Key

export Addressed (audience)

/-- An event that none of the other tenants hear of. -/
def Heard [Addressed Event T Key] (w : T) (rows : List Row) (event : Event) : Prop :=
  match (audience event : Home T Key) with
  | .shared => True
  | .tenant w' => w' = w
  | .parent k => Near w rows k

/-- What a run for the tenant commits and tells. -/
def KeptBy [Addressed Event T Key] (w : T) : Occurrence Row Key Event → Prop
  | .committed before W => Keeps w before (applyAll before W)
  | .emitted event rows => Heard w rows event

/-- Among what has been met, the rows that are selected are the tenant's. -/
def Mine [Entity Row α] (w : T) (keys : List Key) (where_ : Where Row α) : Prop :=
  ∀ view, Coherent view → (∀ k ∈ keys, Near w view k) → ∀ a, toRow a ∈ view → where_ view a → Of w view (toRow a : Row)

namespace Statement

/-- A statement of a run for the tenant: having met `keys`, it writes what is the tenant's,
and `gives` says what it has met then. -/
def Serves (w : T) (keys : List Key) (exec : Statement Row Key Error β) (gives : β → List Key → Prop) : Prop :=
  ∀ view, Coherent view → (∀ k ∈ keys, Near w view k) → ∀ o, exec view = .ok o →
    Keeps w view (applyAll view o.writes) ∧
      ∃ more, gives o.result more ∧ ∀ k ∈ more, Near w (applyAll view o.writes) k

theorem Serves.read {answer : List Row → β} {gives : β → List Key → Prop}
    (meets : ∀ view, Coherent view → (∀ k ∈ keys, Near w view k) →
      ∃ more, gives (answer view) more ∧ ∀ k ∈ more, Near w view k) :
    (Statement.read answer : Statement Row Key Error β).Serves w keys gives := by
  intro view coherent near o ran
  cases ran
  exact ⟨.refl coherent, meets view coherent near⟩

theorem Serves.lock : (Statement.lockForUpdate k : Statement Row Key Error Unit).Serves w keys fun _ more => more = [] := by
  intro view coherent near o ran
  cases ran
  exact ⟨.refl coherent, [], rfl, by simp⟩

section Tables

variable [Entity Row α] [DatabaseErrors Error] {a : α} {where_ : Where Row α} {change : α → α}

theorem checkRow_refs {old : List (Reference Key)} {row : Row} {locks : Held Key}
    (checked : (checkRow view old row : Except Error (Held Key)) = .ok locks) :
    ∀ ref ∈ refs row, ref ∉ old → ∃ parent ∈ view, key parent = ref.target := by
  intro ref listed new
  simp only [checkRow] at checked
  split at checked
  · contradiction
  · rename_i complete
    rw [Bool.not_eq_true, List.any_eq_false] at complete
    have found : (view.any (ref.found ·)) = true := by
      simpa using complete ref (List.mem_filter.mpr ⟨listed, by simpa using new⟩)
    obtain ⟨parent, stored, hit⟩ := List.any_eq_true.mp found
    rw [Reference.found, Bool.and_eq_true, decide_eq_true_eq] at hit
    exact ⟨parent, stored, hit.1⟩

theorem create_keeps (coherent : Coherent view) (near : ∀ k ∈ keys, Near w view k) (claim : Claim w keys (toRow a : Row))
    {o : Outcome Row Key α} (ran : (create a view : Except Error _) = .ok o) :
    Keeps w view (applyAll view o.writes) := by
  obtain ⟨_, written, new⟩ := create_ok ran
  rw [written]
  refine coherent.put ⟨claim.owned, claim.mine, fun row stored same => absurd same (new row stored), ?_⟩
  intro ref listed
  refine ⟨?_, (claim.refs ref listed).near near⟩
  unfold create at ran
  split at ran
  · contradiction
  · obtain ⟨locks, checked, _⟩ := bind_ok ran
    exact checkRow_refs checked ref listed List.not_mem_nil

theorem Serves.create (claim : Claim w keys (toRow a : Row)) :
    (Statement.create a : Statement Row Key Error α).Serves w keys fun b more => b = a ∧ more = [key (toRow a : Row)] := by
  intro view coherent near o ran
  have keeps := create_keeps coherent near claim ran
  obtain ⟨same, written, new⟩ := create_ok ran
  refine ⟨keeps, _, ⟨same, rfl⟩, ?_⟩
  intro k met
  rw [List.mem_singleton] at met
  subst met
  exact keeps.near coherent fun row stored same => absurd same (new row stored)

omit [DecidableEq Key] in
/-- A stored row of the tenant's under the same owner and with references it had or that are known. -/
theorem rewrite_fits {row next : Row} (coherent : Coherent view) (near : ∀ k ∈ keys, Near w view k) (stored : row ∈ view)
    (mine : Of w view row) (same : key next = key row) (owner : (home next : Home T Key) = home row)
    (references : ∀ ref ∈ refs next, ref ∈ refs row ∨
      Known Row w keys ref.target ∧ ∃ parent ∈ view, key parent = ref.target) : Fits w view next where
  owned := owner ▸ mine.owned
  mine w' here := by
    rw [owner] at here
    exact mine.only coherent.unique (.own here)
  free := same ▸ mine.near coherent.unique stored
  refs ref listed := by
    rcases references ref listed with old | ⟨known, present⟩
    · exact ⟨coherent.whole row stored ref old, mine.refs coherent stored old⟩
    · exact ⟨present, known.near near⟩

theorem Serves.update (mine : Mine w keys where_)
    (same : ∀ a, key (toRow (change a) : Row) = key (toRow a : Row))
    (owner : ∀ a, (home (toRow (change a) : Row) : Home T Key) = home (toRow a : Row))
    (references : ∀ a, ∀ ref ∈ refs (toRow (change a) : Row), ref ∈ refs (toRow a : Row) ∨ Known Row w keys ref.target) :
    (Statement.update where_ change : Statement Row Key Error α).Serves w keys
      fun b more => more = key (toRow b : Row) :: (refs (toRow b : Row)).map (·.target) := by
  intro view coherent near o ran
  unfold Statement.update at ran
  split at ran
  · contradiction
  · rename_i a found
    obtain ⟨locks, checked, done⟩ := bind_ok ran
    cases done
    have stored : toRow a ∈ view := mem_table.mp (List.mem_of_find?_eq_some found)
    have own := mine view coherent near a stored (List.find?_some found)
    have fits : Fits w view (toRow (change a) : Row) := by
      refine rewrite_fits coherent near stored own (same a) (owner a) fun ref listed => ?_
      by_cases old : ref ∈ refs (toRow a : Row)
      · exact .inl old
      · exact .inr ⟨(references a ref listed).resolve_left old, checkRow_refs checked ref listed old⟩
    have keeps := coherent.put fits
    refine ⟨keeps, _, rfl, ?_⟩
    intro k met
    rcases List.mem_cons.mp met with rfl | met
    · exact keeps.near coherent fits.free
    · obtain ⟨ref, listed, rfl⟩ := List.mem_map.mp met
      exact keeps.near coherent (fits.refs ref listed).2

theorem Serves.updateMany (mine : Mine w keys where_)
    (same : ∀ a, key (toRow (change a) : Row) = key (toRow a : Row))
    (owner : ∀ a, (home (toRow (change a) : Row) : Home T Key) = home (toRow a : Row))
    (references : ∀ a, ∀ ref ∈ refs (toRow (change a) : Row), ref ∈ refs (toRow a : Row)) :
    (Statement.updateMany where_ change : Statement Row Key Error Nat).Serves w keys fun _ more => more = [] := by
  intro view coherent near o ran
  refine ⟨?_, [], rfl, by simp⟩
  have written : o.writes = (((table view).filter (where_ view)).map fun a => toRow (change a)).map Write.put := by
    rw [(updateMany_ok ran).2, List.map_map]
    rfl
  rw [written]
  apply puts_keep coherent
  intro row member
  obtain ⟨a, matching, rfl⟩ := List.mem_map.mp member
  obtain ⟨present, chosen⟩ := List.mem_filter.mp matching
  have stored := mem_table.mp present
  exact rewrite_fits coherent near stored (mine view coherent near a stored chosen) (same a) (owner a)
    fun ref listed => .inl (references a ref listed)

theorem Serves.deleteMany (mine : Mine w keys where_) :
    (Statement.deleteMany where_ : Statement Row Key Error Nat).Serves w keys fun _ more => more = [] := by
  intro view coherent near o ran
  refine ⟨?_, [], rfl, by simp⟩
  have allowed : restricted view (cascade view (((table view).filter (where_ view)).map fun a => key (toRow a : Row))) =
    false := by
    simp only [Statement.deleteMany] at ran
    split at ran
    · contradiction
    · rename_i free
      simpa using free
  rw [(deleteMany_ok ran).2]
  refine coherent.delete (fun row stored named => ?_) allowed
  obtain ⟨a, matching, same⟩ := List.mem_map.mp named
  obtain ⟨present, chosen⟩ := List.mem_filter.mp matching
  have there := mem_table.mp present
  cases coherent.unique.eq_of_key there stored same
  exact mine view coherent near a there chosen

theorem Serves.delete (mine : Mine w keys where_) :
    (Statement.delete where_ : Statement Row Key Error α).Serves w keys fun _ more => more = [] := by
  intro view coherent near o ran
  refine ⟨?_, [], rfl, by simp⟩
  unfold Statement.delete at ran
  split at ran
  · contradiction
  · rename_i a found
    dsimp only at ran
    split at ran
    · contradiction
    · rename_i free
      cases ran
      have stored : toRow a ∈ view := mem_table.mp (List.mem_of_find?_eq_some found)
      refine coherent.delete (fun row there named => ?_) (by simpa using free)
      cases coherent.unique.eq_of_key there stored (List.mem_singleton.mp named)
      exact mine view coherent near a stored (List.find?_some found)

theorem insertAll_keeps {skip : Bool} {items : List α} {answer : List (Write Row Key) × Held Key × Nat}
    (coherent : Coherent view) (near : ∀ k ∈ keys, Near w view k) (claims : ∀ a ∈ items, Claim w keys (toRow a : Row))
    (ran : (insertAll skip items view : Except Error _) = .ok answer) : Keeps w view (applyAll view answer.1) := by
  induction items generalizing view answer with
  | nil =>
      cases ran
      exact .refl coherent
  | cons a rest ih =>
      have later : ∀ b ∈ rest, Claim w keys (toRow b : Row) := fun b member => claims b (List.mem_cons_of_mem _ member)
      unfold insertAll at ran
      split at ran
      · rename_i o created
        obtain ⟨more, inserted, done⟩ := bind_ok ran
        cases done
        have first := create_keeps coherent near (claims a List.mem_cons_self) created
        rw [applyAll_append]
        exact first.trans coherent
          (ih first.coherent (fun k member => first.near coherent (near k member)) later inserted)
      · split at ran
        · exact ih coherent near later ran
        · contradiction

theorem Serves.createMany {skip : Bool} {items : List α} (claims : ∀ a ∈ items, Claim w keys (toRow a : Row)) :
    (Statement.createMany items skip : Statement Row Key Error Nat).Serves w keys fun _ more => more = [] := by
  intro view coherent near o ran
  refine ⟨?_, [], rfl, by simp⟩
  obtain ⟨answer, inserted, done⟩ := bind_ok ran
  cases done
  exact insertAll_keeps coherent near claims inserted

end Tables
end Statement

namespace Prog

variable [Addressed Event T Key]

/-- A program of a run for the tenant; one that fails has met no less. -/
def Serves (w : T) (keys : List Key) (p : Prog Row Key Event Input Error α) (gives : α → List Key → Prop) : Prop :=
  ∀ rows W known, At w rows W known → keys ⊆ known →
    p.Holds (KeptBy w) (fun value rows' W' => ∃ more, gives value more ∧ At w rows' W' (more ++ known))
      (fun _ rows' W' => At w rows' W' known) rows W

namespace Serves

variable {gives : α → List Key → Prop} {post : β → List Key → Prop} {p : Prog Row Key Event Input Error α}

/-- What has been met before is still known at the end. -/
theorem remember {value : α} {more : List Key} (met : more ⊆ keys) (now : gives value more) :
    (Prog.pure value : Prog Row Key Event Input Error α).Serves w keys gives :=
  fun _ _ _ here known => ⟨more, now, here.learn fun k member => here.near k (known (met member))⟩

theorem pure {value : α} (now : gives value []) :
    (Prog.pure value : Prog Row Key Event Input Error α).Serves w keys gives :=
  remember (List.nil_subset _) now

theorem tell {value : α} {name : α → Key} (met : name value ∈ keys) :
    (Prog.pure value : Prog Row Key Event Input Error α).Serves w keys fun value more => name value ∈ more := by
  have listed : [name value] ⊆ keys := by simpa using met
  exact remember listed (List.mem_singleton_self _)

theorem throw {error : Error} : (Prog.throw error : Prog Row Key Event Input Error α).Serves w keys gives :=
  fun _ _ _ here _ => here

theorem bind {f : α → Prog Row Key Event Input Error β} (first : p.Serves w keys gives)
    (rest : ∀ value more, gives value more → (f value).Serves w (more ++ keys) post) : (p.bind f).Serves w keys post := by
  intro rows W known here met
  refine (first rows W known here met).ending ?_ fun _ _ _ there => there
  rintro value rows' W' ⟨more, given, there⟩
  refine (rest value more given rows' W' (more ++ known) there ?_).weaken ?_ ?_
  · exact List.append_subset.mpr ⟨List.subset_append_left _ _, List.subset_append_of_subset_right _ met⟩
  · rintro answer rows'' W'' ⟨last, done, end_⟩
    exact ⟨last, done, end_.forget (by simp)⟩
  · exact fun _ _ _ end_ => end_.forget (List.subset_append_right _ _)

/-- The same after a program that tells of what its answer names. -/
theorem told {f : α → Prog Row Key Event Input Error β} (name : α → Key)
    (first : p.Serves w keys fun value more => name value ∈ more)
    (rest : ∀ value known, name value ∈ known → (f value).Serves w known post) : (p.bind f).Serves w keys post :=
  first.bind fun value _ met => rest value _ (List.mem_append_left _ met)

/-- The same after a program that tells nothing. -/
theorem andThen {f : α → Prog Row Key Event Input Error β} (first : p.Serves w keys fun _ more => more = [])
    (rest : ∀ value, (f value).Serves w keys post) : (p.bind f).Serves w keys post := by
  apply first.bind
  rintro value _ rfl
  exact rest value

theorem weaken {gives' : α → List Key → Prop} (serves : p.Serves w keys gives)
    (implies : ∀ value more, gives value more → gives' value more) : p.Serves w keys gives' := by
  intro rows W known here met
  refine (serves rows W known here met).weaken ?_ fun _ _ _ there => there
  rintro value rows' W' ⟨more, given, there⟩
  exact ⟨more, implies value more given, there⟩

/-- What is known in the end need not be told. -/
theorem forget (serves : p.Serves w keys gives) : p.Serves w keys fun _ more => more = [] := by
  intro rows W known here met
  refine (serves rows W known here met).weaken ?_ fun _ _ _ there => there
  rintro value rows' W' ⟨more, _, there⟩
  exact ⟨[], rfl, there.forget (List.subset_append_right _ _)⟩

theorem query {exec : Statement Row Key Error β} (serves : exec.Serves w keys post) :
    (Prog.query exec : Prog Row Key Event Input Error β).Serves w keys post := by
  intro rows W known here met
  apply Holds.query_or fun _ => here
  intro o ran
  obtain ⟨step, more, given, near⟩ :=
    serves _ here.keeps.coherent (fun k member => here.near k (met member)) o ran
  refine ⟨more, given, (here.wrote step).learn fun k member => ?_⟩
  rw [applyAll_append]
  exact near k member

theorem transaction (serves : p.Serves w keys gives) : p.transaction.Serves w keys gives := by
  intro rows W known here met
  apply Holds.transaction_or
  refine (serves rows W known here met).weaken ?_ fun _ _ _ there => there.undone
  rintro value rows' W' ⟨more, given, there⟩
  refine ⟨fun _ => ?_, there.keeps, more, given, there.committed⟩
  exact there.undone.forget (List.subset_append_right _ _)

/-- A lookup: what its row tells of the tenant. -/
theorem found {answer : List Row → Option β} {error : Error}
    (meets : ∀ view, Coherent view → (∀ k ∈ keys, Near w view k) → ∀ b, answer view = some b →
      ∃ more, post b more ∧ ∀ k ∈ more, Near w view k) :
    (Prog.found (.read answer) error : Prog Row Key Event Input Error β).Serves w keys post := by
  intro rows W known here met
  apply Holds.found_or fun _ => here
  intro b hit
  obtain ⟨more, given, near⟩ := meets _ here.keeps.coherent (fun k member => here.near k (met member)) b hit
  exact ⟨more, given, here.learn near⟩

/-- A read of which nothing is kept. -/
theorem ask {answer : List Row → β} :
    (Prog.query (.read answer) : Prog Row Key Event Input Error β).Serves w keys fun _ more => more = [] :=
  query (.read fun _ _ _ => ⟨[], rfl, by simp⟩)

/-- A row of the tenant's that was found tells of itself and of what it refers to. -/
theorem findFirst [Entity Row α] {where_ : Where Row α} {error : Error}
    (mine : Mine w keys where_) :
    (Prog.found (.findFirst where_) error : Prog Row Key Event Input Error α).Serves w keys fun a more =>
      (∃ view, where_ view a = true) ∧ more = key (toRow a : Row) :: (refs (toRow a : Row)).map (·.target) := by
  apply found
  intro view coherent near a hit
  have stored := mem_table.mp (List.mem_of_find?_eq_some hit)
  have chosen := List.find?_some hit
  have own := mine view coherent near a stored chosen
  refine ⟨_, ⟨⟨view, chosen⟩, rfl⟩, ?_⟩
  intro k met
  rcases List.mem_cons.mp met with rfl | met
  · exact own.near coherent.unique stored
  · obtain ⟨ref, listed, rfl⟩ := List.mem_map.mp met
    exact own.refs coherent stored listed

/-- What a lookup has found, if anything. -/
theorem lookup [Entity Row α] {where_ : Where Row α}
    (mine : Mine w keys where_) :
    (Prog.query (.findFirst where_) : Prog Row Key Event Input Error (Option α)).Serves w keys
      fun answer more => more = answer.toList.map fun a => key (toRow a : Row) := by
  refine query (.read fun view coherent near => ⟨_, rfl, fun k met => ?_⟩)
  obtain ⟨a, hit, rfl⟩ := List.mem_map.mp met
  have first := Option.mem_toList.mp hit
  have stored := mem_table.mp (List.mem_of_find?_eq_some first)
  exact (mine view coherent near a stored (List.find?_some first)).near coherent.unique stored

theorem findMany [Entity Row α] {where_ : Where Row α}
    (mine : Mine w keys where_) :
    (Prog.query (.findMany where_) : Prog Row Key Event Input Error (List α)).Serves w keys
      fun answer more => more = answer.map fun a => key (toRow a : Row) := by
  refine query (.read fun view coherent near => ⟨_, rfl, fun k met => ?_⟩)
  obtain ⟨a, hit, rfl⟩ := List.mem_map.mp met
  obtain ⟨present, chosen⟩ := List.mem_filter.mp hit
  have stored := mem_table.mp present
  exact (mine view coherent near a stored chosen).near coherent.unique stored

theorem check {test : Bool} {error : Error} :
    (Prog.require test error : Prog Row Key Event Input Error Unit).Serves w keys
      fun _ more => test = true ∧ more = [] := by
  cases test with
  | false => exact throw
  | true => exact pure ⟨rfl, rfl⟩

theorem require {test : Bool} {error : Error} :
    (Prog.require test error : Prog Row Key Event Input Error Unit).Serves w keys fun _ more => more = [] :=
  check.forget

theorem ofExcept {value : Except Error β} :
    (Prog.ofExcept value : Prog Row Key Event Input Error β).Serves w keys fun _ more => more = [] := by
  cases value with
  | error error => exact throw
  | ok b => exact pure rfl

theorem forEach {body : β → Prog Row Key Event Input Error Unit} {items : List β}
    (round : ∀ item ∈ items, (body item).Serves w keys fun _ more => more = []) :
    (Prog.forEach items body).Serves w keys fun _ more => more = [] := by
  induction items with
  | nil => exact pure rfl
  | cons item rest ih =>
      apply (round item List.mem_cons_self).andThen
      exact fun _ => ih fun other member => round other (List.mem_cons_of_mem _ member)

theorem collect {R : γ → Prop} {body : β → Prog Row Key Event Input Error γ} {items : List β}
    (round : ∀ item ∈ items, (body item).Serves w keys fun answer more => R answer ∧ more = []) :
    (Prog.collect items body).Serves w keys fun answers more => (∀ answer ∈ answers, R answer) ∧ more = [] := by
  induction items with
  | nil => exact pure ⟨by simp, rfl⟩
  | cons item rest ih =>
      apply (round item List.mem_cons_self).bind
      rintro first _ ⟨now, rfl⟩
      apply (ih fun other member => round other (List.mem_cons_of_mem _ member)).bind
      rintro others _ ⟨later, rfl⟩
      exact pure ⟨List.forall_mem_cons.mpr ⟨now, later⟩, rfl⟩

theorem input {next : Input → Prog Row Key Event Input Error α} (serves : ∀ x, (next x).Serves w keys gives) :
    (Prog.input next).Serves w keys gives :=
  fun rows W known here met x => serves x rows W known here met

theorem emit {event : Event} (tenant : ∀ w', audience event = .tenant w' → w' = w)
    (watched : ∀ k, audience event = .parent k → Known Row w keys k) (serves : p.Serves w keys gives) :
    (Prog.emit event p).Serves w keys gives := by
  intro rows W known here met
  refine ⟨?_, serves rows W known here met⟩
  change Heard w rows event
  unfold Heard
  split
  · trivial
  · rename_i w' to_
    exact tenant w' to_
  · rename_i k to_
    have near : Near w (applyAll rows W) k := (watched k to_).near fun k member => here.near k (met member)
    exact here.keeps.moves.near_back here.start.toIntact here.keeps.coherent.toIntact near

theorem catching {handler : Error → Prog Row Key Event Input Error α} (serves : p.Serves w keys gives)
    (handles : ∀ error, (handler error).Serves w keys gives) : (p.catching handler).Serves w keys gives := by
  intro rows W known here met
  apply Holds.catching
  refine (serves rows W known here met).weaken (fun _ _ _ there => there) fun error rows' W' there => ?_
  exact handles error rows' W' known there met

section Alone

variable {s : Session Row Key Event} (serves : p.Serves w [] gives) (coherent : Coherent s.rows) (clean : s.pending = [])
  (oracle : Nat → Choice Input Error)

include serves coherent clean

theorem holds : p.Holds (KeptBy w) (fun value rows W => ∃ more, gives value more ∧ At w rows W (more ++ []))
    (fun _ rows W => At w rows W []) s.rows s.pending := by
  refine serves _ _ _ ?_ (List.Subset.refl _)
  rw [clean]
  exact ⟨coherent, .refl coherent, by simp⟩

/-- Alone, from rows that are coherent: what it leaves. -/
theorem keeps : Keeps w s.rows (p.run oracle s).2.rows := by
  apply Holds.keeping (I := Keeps w s.rows) (serves.holds coherent clean) _ (.refl coherent) oracle
  intro rows W before step
  exact before.trans coherent step

/-- And who has heard of it. -/
theorem heard : ∃ told, (p.run oracle s).2.log = s.log ++ told ∧
    ∀ event rows, .emitted event rows ∈ told → Heard w rows event := by
  obtain ⟨_, told, log, kept⟩ := (serves.holds coherent clean).run oracle
  exact ⟨told, log, fun event rows member => kept _ member⟩

end Alone
end Serves
end Prog
end Kurul.Store
