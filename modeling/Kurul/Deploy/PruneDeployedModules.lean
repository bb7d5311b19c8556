import Kurul.Sequence.Worklist
import Kurul.Store.InsertionMap

/-! Pruning a deploy directory. Of the entries of the virtual store those stay that the deployed
app comes to by what the packages declare; links that lead nowhere afterwards are swept. -/
namespace Kurul.Deploy

/-- What is read of a `package.json`. -/
structure Manifest where
  dependencies : List String := []
  optionalDependencies : List String := []
  peerDependencies : List String := []
  /-- Each peer with its `optional`. -/
  peerDependenciesMeta : List (String × Bool) := []

/-- A package directory: the entry of the store and the path inside it. -/
structure Place where
  id : String
  relative : String
  deriving DecidableEq

/-- Where a link points: into the store, or to a directory outside it. -/
inductive Link where
  | store (place : Place)
  | outside
  deriving DecidableEq

/-- What `pnpm deploy` leaves. The links of a scope are those of `.pnpm/<id>/node_modules`. -/
structure DeployDir where
  /-- It was named by its real path. -/
  real : Bool := true
  rootLinks : List (String × Link)
  entries : List String
  scope : String → List (String × Link)
  hoisted : List (String × Link)
  manifest : Place → Manifest

namespace DeployDir

variable (d : DeployDir)

/-- A link into an entry that is not there is dangling. -/
def follow : Link → Option Link
  | .outside => some .outside
  | .store place => if place.id ∈ d.entries then some (.store place) else none

def resolve (links : List (String × Link)) (name : String) : Option Link := (links.lookup name).bind d.follow

/-- Only a real path begins with the directory as it was named. -/
def storeEntryFor (links : List (String × Link)) (name : String) : Option Place :=
  match d.resolve links name with
  | some (.store place) => if d.real then some place else none
  | _ => none

/-- Dependencies, optional ones, and peers that are not optional. -/
def runtimeEdges (manifest : Manifest) : List String :=
  (manifest.dependencies ++ manifest.optionalDependencies ++ manifest.peerDependencies.filter fun peer =>
    !(manifest.peerDependenciesMeta.lookup peer).getD false).eraseDups

/-- The packages that a package declares, where they are found from its scope. -/
def declared (place : Place) : List Place :=
  (runtimeEdges (d.manifest place)).filterMap (d.storeEntryFor (d.scope place.id))

def rootPlaces (roots : List String) : List Place := roots.filterMap (d.storeEntryFor d.rootLinks)

def keep (roots : List String) : List String :=
  Worklist.explore Place.id d.declared d.entries.length (Worklist.discover Place.id {} (d.rootPlaces roots))

def rootNames : List String := d.rootLinks.map Prod.fst

/-- Without names, all of the top level. -/
def rootsOf (keepRoots : List String) : List String := if keepRoots = [] then d.rootNames else keepRoots

/-- Without the entries that are not kept, and what lies in them. -/
def dropping (keep : List String) : DeployDir :=
  { d with
    entries := d.entries.filter (keep.contains ·)
    scope := fun id => if keep.contains id then d.scope id else [] }

/-- A root that is not of the top level is refused. -/
def prune (keepRoots : List String) : Option DeployDir :=
  let roots := d.rootsOf keepRoots
  if roots.all (d.rootNames.contains ·) then
    let left := d.dropping (d.keep roots)
    some { left with
      hoisted := d.hoisted.filter fun entry => (left.follow entry.2).isSome
      rootLinks := d.rootLinks.filter fun entry => roots.contains entry.1 }
  else none

/-- What runs: the packages that the roots lead to. -/
def Runs (roots : List String) (place : Place) : Prop := Worklist.Reached d.declared (d.rootPlaces roots) place

/-- Links into one entry lead to the one package it is the entry of. -/
def Isolated : Prop := ∃ package : String → String,
  (∀ name place, d.rootLinks.lookup name = some (.store place) → place.relative = package place.id) ∧
    ∀ id name place, (d.scope id).lookup name = some (.store place) → place.relative = package place.id

end DeployDir

section Pruning

variable {d : DeployDir} {roots : List String} {links : List (String × Link)} {name : String} {place : Place}

open DeployDir

theorem storeEntryFor_eq_some (real : d.real = true) :
    d.storeEntryFor links name = some place ↔ links.lookup name = some (.store place) ∧ place.id ∈ d.entries := by
  unfold storeEntryFor resolve
  cases listed : links.lookup name with
  | none => simp
  | some link =>
      cases link with
      | outside => simp [follow]
      | store other =>
          by_cases there : other.id ∈ d.entries
          · simp only [Option.bind_some, follow, there, if_true, real, Option.some.injEq, Link.store.injEq]
            exact ⟨fun same => ⟨same, same ▸ there⟩, And.left⟩
          · simp only [Option.bind_some, follow, there, if_false, reduceCtorEq, Option.some.injEq, Link.store.injEq,
              false_iff]
            rintro ⟨rfl, stored⟩
            exact there stored

theorem runs_stored (real : d.real = true) (runs : d.Runs roots place) : place.id ∈ d.entries := by
  cases runs with
  | root listed =>
      obtain ⟨name, _, found⟩ := List.mem_filterMap.mp listed
      exact ((storeEntryFor_eq_some real).mp found).2
  | step _ listed =>
      obtain ⟨name, _, found⟩ := List.mem_filterMap.mp listed
      exact ((storeEntryFor_eq_some real).mp found).2

theorem runs_apart (real : d.real = true) (isolated : d.Isolated) :
    Worklist.Apart Place.id d.declared (d.rootPlaces roots) := by
  obtain ⟨package, atRoot, inScope⟩ := isolated
  have main : ∀ place, d.Runs roots place → place.relative = package place.id := by
    intro place runs
    cases runs with
    | root listed =>
        obtain ⟨name, _, found⟩ := List.mem_filterMap.mp listed
        exact atRoot name place ((storeEntryFor_eq_some real).mp found).1
    | step _ listed =>
        obtain ⟨name, _, found⟩ := List.mem_filterMap.mp listed
        exact inScope _ name place ((storeEntryFor_eq_some real).mp found).1
  rintro ⟨id, relative⟩ ⟨id', relative'⟩ runs runs' rfl
  have first : relative = package id := main _ runs
  have second : relative' = package id := main _ runs'
  rw [first, second]

/-- What is kept is what runs. -/
theorem mem_keep (real : d.real = true) (isolated : d.Isolated) {id : String} :
    id ∈ d.keep roots ↔ ∃ place, d.Runs roots place ∧ place.id = id :=
  Worklist.mem_explore (runs_apart real isolated) fun _ runs => runs_stored real runs

theorem lookup_filter {p : String → Bool} (passes : p name = true) :
    (links.filter fun entry => p entry.1).lookup name = links.lookup name := by
  induction links with
  | nil => rfl
  | cons entry rest ih =>
      by_cases here : name = entry.1
      · subst here
        simp [passes, List.lookup]
      · have other : (name == entry.1) = false := by simpa using here
        cases kept : p entry.1 <;> simp [kept, List.lookup, other, ih]

/-- What a pruned directory is to the one before. -/
structure Prunes (d : DeployDir) (roots : List String) (left : DeployDir) : Prop where
  entries : ∀ id, id ∈ left.entries ↔ id ∈ d.entries ∧ ∃ place, d.Runs roots place ∧ place.id = id
  runs : ∀ place, left.Runs roots place ↔ d.Runs roots place
  tops : ∀ name ∈ roots, left.resolve left.rootLinks name = d.resolve d.rootLinks name
  dependencies : ∀ place, d.Runs roots place → left.manifest place = d.manifest place ∧
    ∀ name ∈ runtimeEdges (d.manifest place),
      left.resolve (left.scope place.id) name = d.resolve (d.scope place.id) name
  hoists : ∀ entry ∈ left.hoisted, (left.follow entry.2).isSome

section Dropping

variable (real : d.real = true) (isolated : d.Isolated)

include real isolated

/-- A link leads where it led, unless it led to what does not run. -/
theorem follow_dropping {link : Link} (runs : ∀ place, link = .store place → place.id ∈ d.entries → d.Runs roots place) :
    (d.dropping (d.keep roots)).follow link = d.follow link := by
  cases link with
  | outside => rfl
  | store place =>
      by_cases there : place.id ∈ d.entries
      · have kept : place.id ∈ d.keep roots := (mem_keep real isolated).mpr ⟨place, runs place rfl there, rfl⟩
        simp [follow, dropping, there, kept]
      · simp [follow, dropping, there]

theorem scope_dropping (runs : d.Runs roots place) : (d.dropping (d.keep roots)).scope place.id = d.scope place.id := by
  have kept : place.id ∈ d.keep roots := (mem_keep real isolated).mpr ⟨place, runs, rfl⟩
  simp [dropping, kept]

theorem resolve_dependency (runs : d.Runs roots place) (edge : name ∈ runtimeEdges (d.manifest place)) :
    (d.dropping (d.keep roots)).resolve (d.scope place.id) name = d.resolve (d.scope place.id) name := by
  unfold resolve
  cases listed : (d.scope place.id).lookup name with
  | none => rfl
  | some link =>
      apply follow_dropping real isolated
      rintro target rfl there
      exact .step runs (List.mem_filterMap.mpr ⟨name, edge, (storeEntryFor_eq_some real).mpr ⟨listed, there⟩⟩)

theorem resolve_root (member : name ∈ roots) :
    (d.dropping (d.keep roots)).resolve d.rootLinks name = d.resolve d.rootLinks name := by
  unfold resolve
  cases listed : d.rootLinks.lookup name with
  | none => rfl
  | some link =>
      apply follow_dropping real isolated
      rintro target rfl there
      exact .root (List.mem_filterMap.mpr ⟨name, member, (storeEntryFor_eq_some real).mpr ⟨listed, there⟩⟩)

end Dropping

/-- Where the roots and all that runs find what they ask for, the same runs. -/
theorem runs_congr {left : DeployDir} (named : left.real = d.real)
    (tops : ∀ name ∈ roots, left.resolve left.rootLinks name = d.resolve d.rootLinks name)
    (dependencies : ∀ place, d.Runs roots place → left.manifest place = d.manifest place ∧
      ∀ name ∈ runtimeEdges (d.manifest place), left.resolve (left.scope place.id) name =
        d.resolve (d.scope place.id) name) :
    left.Runs roots place ↔ d.Runs roots place := by
  have same_roots : left.rootPlaces roots = d.rootPlaces roots := by
    apply List.filterMap_congr
    intro name member
    rw [storeEntryFor, storeEntryFor, tops name member, named]
  have same_declared : ∀ place, d.Runs roots place → left.declared place = d.declared place := by
    intro place runs
    obtain ⟨same, found⟩ := dependencies place runs
    unfold declared
    rw [same]
    apply List.filterMap_congr
    intro name edge
    rw [storeEntryFor, storeEntryFor, found name edge, named]
  constructor
  · intro runs
    induction runs with
    | root listed => exact .root (same_roots ▸ listed)
    | step _ listed ih => exact .step ih (same_declared _ ih ▸ listed)
  · intro runs
    induction runs with
    | root listed => exact .root (same_roots ▸ listed)
    | step before listed ih => exact .step ih (same_declared _ before ▸ listed)

/-- A pruned deploy directory holds the packages that run and no others, and each of them finds
what it declares where it found it. -/
theorem prune_keeps_what_runs (real : d.real = true) (isolated : d.Isolated) {keepRoots : List String} {left : DeployDir}
    (pruned : d.prune keepRoots = some left) : Prunes d (d.rootsOf keepRoots) left := by
  unfold prune at pruned
  dsimp only at pruned
  split at pruned
  swap
  · contradiction
  cases pruned
  generalize d.rootsOf keepRoots = roots
  have tops : ∀ name ∈ roots,
    (d.dropping (d.keep roots)).resolve (d.rootLinks.filter fun entry => roots.contains entry.1) name =
      d.resolve d.rootLinks name := by
    intro name member
    rw [← resolve_root real isolated member, resolve, lookup_filter (by simpa using member), resolve]
  have dependencies : ∀ place, d.Runs roots place → ∀ name ∈ runtimeEdges (d.manifest place),
      (d.dropping (d.keep roots)).resolve ((d.dropping (d.keep roots)).scope place.id) name =
        d.resolve (d.scope place.id) name := by
    intro place runs name edge
    rw [scope_dropping real isolated runs]
    exact resolve_dependency real isolated runs edge
  have unchanged := fun place runs => And.intro (rfl : d.manifest place = d.manifest place) (dependencies place runs)
  refine ⟨?_, fun place => runs_congr rfl tops unchanged, tops, unchanged, ?_⟩
  · intro id
    simp only [dropping, List.mem_filter, List.contains_iff_mem]
    exact and_congr_right fun _ => mem_keep real isolated
  · intro entry member
    exact (List.mem_filter.mp member).2

/-- The API with its `pg`, which is an optional peer of `better-auth`, and a `next` that only is a
peer. -/
def sample : DeployDir where
  rootLinks := [("better-auth", .store ⟨"better-auth@1", "node_modules/better-auth"⟩),
    ("pg", .store ⟨"pg@8", "node_modules/pg"⟩),
    ("@kurul/shared", .outside)]
  entries := ["better-auth@1", "jose@6", "next@16", "pg@8"]
  scope id := if id = "better-auth@1" then
      [("jose", .store ⟨"jose@6", "node_modules/jose"⟩), ("next", .store ⟨"next@16", "node_modules/next"⟩),
        ("pg", .store ⟨"pg@8", "node_modules/pg"⟩)]
    else []
  hoisted := [("jose", .store ⟨"jose@6", "node_modules/jose"⟩), ("next", .store ⟨"next@16", "node_modules/next"⟩)]
  manifest place := if place.id = "better-auth@1" then
      { dependencies := ["jose"], peerDependencies := ["next", "pg"], peerDependenciesMeta :=
        [("next", true), ("pg", true)] }
    else {}

theorem sample_isolated : sample.Isolated := by
  refine ⟨fun id => if id = "better-auth@1" then "node_modules/better-auth" else if id = "jose@6" then "node_modules/jose"
    else if id = "next@16" then "node_modules/next" else "node_modules/pg", ?_, ?_⟩
  · intro name place listed
    have member := InsertionMap.mem_keys_of_lookup listed
    simp only [sample, List.mem_cons, Prod.mk.injEq, List.not_mem_nil, or_false, reduceCtorEq, and_false,
      Link.store.injEq] at member
    rcases member with ⟨_, rfl⟩ | ⟨_, rfl⟩ <;> decide
  · intro id name place listed
    have member := InsertionMap.mem_keys_of_lookup listed
    simp only [sample] at member
    split at member
    · simp only [List.mem_cons, Prod.mk.injEq, List.not_mem_nil, or_false, Link.store.injEq] at member
      rcases member with ⟨_, rfl⟩ | ⟨_, rfl⟩ | ⟨_, rfl⟩ <;> decide
    · cases member

theorem prune_keeps_what_runs_sample : ∃ left, sample.prune ["better-auth"] = some left ∧
    Prunes sample (sample.rootsOf ["better-auth"]) left ∧ left.entries = ["better-auth@1", "jose@6"] := by
  have pruned : sample.prune ["better-auth"] = some _ := rfl
  exact ⟨_, pruned, prune_keeps_what_runs rfl sample_isolated pruned, by decide⟩

example : (sample.prune []).map DeployDir.entries = some ["better-auth@1", "jose@6", "pg@8"] := by decide

end Pruning
end Kurul.Deploy
