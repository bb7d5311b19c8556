import Kurul.Encoding.Utf16
import Kurul.Sequence.Posix

/-! Files on disk and their keys. A key is refused by how it begins, so a name that only looks like the way up
is refused with it. -/
namespace Kurul.DiskStorageBackend

open Encoding (Unit16 toUnit)
open Posix (Signs)

abbrev Text := List Unit16

def signs : Signs Unit16 where
  slash := toUnit 0x2f
  dot := toUnit 0x2e
  apart := by decide

/-- A name that a directory may hold. -/
structure Name where
  text : Text
  proper : signs.Proper text

/-- What is found in a directory. -/
inductive Tree where
  | file (name : Name)
  | folder (name : Name) (entries : List Tree)
  | other (name : Name)

/-- A regular file, and the folder it is found in. -/
structure Dirent where
  parentPath : List Name
  name : Name

def Dirent.path (entry : Dirent) : List Name := entry.parentPath ++ [entry.name]

mutual

/-- The entries that `opendir` gives of a tree, as far as they are regular files. -/
def Tree.dirents (parentPath : List Name) : Tree → List Dirent
  | .file name => [⟨parentPath, name⟩]
  | .folder name entries => direntsOf (parentPath ++ [name]) entries
  | .other _ => []

def direntsOf (parentPath : List Name) : List Tree → List Dirent
  | [] => []
  | tree :: entries => tree.dirents parentPath ++ direntsOf parentPath entries

end

/-- A regular file stands at this path. -/
inductive FileAt : List Tree → List Name → Prop where
  | file {entries : List Tree} {name : Name} : .file name ∈ entries → FileAt entries [name]
  | folder {entries inner : List Tree} {name : Name} {path : List Name} : .folder name inner ∈ entries →
      FileAt inner path → FileAt entries (name :: path)

/-- The configured root, and the directory the process runs in. -/
structure Backend where
  cwd : List Name
  root : Text

def texts (path : List Name) : List Text := path.map Name.text

namespace Backend

variable (backend : Backend)

def rootPath : List Text := signs.resolve (texts backend.cwd) backend.root

/-- The path of a key; none where it is refused. -/
def resolve (key : Text) : Option (List Text) :=
  let absolute := signs.resolve backend.rootPath key
  let rel := signs.relative backend.rootPath absolute
  if rel = [] ∨ signs.Dotted rel ∨ signs.isAbsolute rel = true then none else some absolute

def keyOf (entry : Dirent) : Text :=
  signs.relative backend.rootPath (signs.resolve (backend.rootPath ++ texts entry.parentPath) entry.name.text)

def listKeys (entries : List Tree) : List Text := (direntsOf [] entries).map backend.keyOf

/-- Keys and files belong together. -/
structure Corresponds (entries : List Tree) : Prop where
  accepted : ∀ entry ∈ direntsOf [] entries,
    backend.resolve (backend.keyOf entry) = some (backend.rootPath ++ texts entry.path)
  distinct : ∀ entry ∈ direntsOf [] entries, ∀ entry' ∈ direntsOf [] entries,
    backend.keyOf entry = backend.keyOf entry' → texts entry.path = texts entry'.path
  every : ∀ path, FileAt entries path → ∃ entry ∈ direntsOf [] entries, entry.path = path ∧
    backend.keyOf entry ∈ backend.listKeys entries

/-- The key normalises to a path below the root. -/
def Inside (key : Text) : Prop := ∃ first rest, signs.resolve backend.rootPath key = backend.rootPath ++ first :: rest

end Backend

section Walk

variable {parentPath path : List Name} {entries inner : List Tree} {entry : Dirent} {tree : Tree} {name : Name}

theorem fileAt_nil : ¬FileAt [] path := by
  intro found
  cases found with
  | file member => cases member
  | folder member _ => cases member

theorem fileAt_cons : FileAt (tree :: entries) path ↔ FileAt [tree] path ∨ FileAt entries path := by
  constructor
  · intro found
    cases found with
    | file member =>
        rcases List.mem_cons.mp member with rfl | later
        · exact Or.inl (.file List.mem_cons_self)
        · exact Or.inr (.file later)
    | folder member found =>
        rcases List.mem_cons.mp member with rfl | later
        · exact Or.inl (.folder List.mem_cons_self found)
        · exact Or.inr (.folder later found)
  · rintro (found | found)
    · cases found with
      | file member => exact .file (List.mem_singleton.mp member ▸ List.mem_cons_self)
      | folder member found => exact .folder (List.mem_singleton.mp member ▸ List.mem_cons_self) found
    · cases found with
      | file member => exact .file (List.mem_cons_of_mem _ member)
      | folder member found => exact .folder (List.mem_cons_of_mem _ member) found

theorem fileAt_file : FileAt [.file name] path ↔ path = [name] := by
  constructor
  · intro found
    cases found with
    | file member =>
        cases List.mem_singleton.mp member
        rfl
    | folder member _ => cases List.mem_singleton.mp member
  · rintro rfl
    exact .file List.mem_cons_self

theorem fileAt_folder : FileAt [.folder name inner] path ↔ ∃ rest, path = name :: rest ∧ FileAt inner rest := by
  constructor
  · intro found
    cases found with
    | file member => cases List.mem_singleton.mp member
    | folder member found =>
        cases List.mem_singleton.mp member
        exact ⟨_, rfl, found⟩
  · rintro ⟨rest, rfl, found⟩
    exact .folder List.mem_cons_self found

theorem fileAt_other : ¬FileAt [.other name] path := by
  intro found
  cases found with
  | file member => cases List.mem_singleton.mp member
  | folder member _ => cases List.mem_singleton.mp member

theorem FileAt.dirent (found : FileAt entries path) : ∃ entry : Dirent, entry.path = path := by
  have some_ : path ≠ [] := by
    cases found <;> simp
  exact ⟨⟨path.dropLast, path.getLast some_⟩, List.dropLast_append_getLast some_⟩

theorem path_eq_iff : entry.path = parentPath ++ [name] ↔ entry = ⟨parentPath, name⟩ := by
  constructor
  · intro same
    obtain ⟨parents, names⟩ := List.append_inj' same rfl
    cases entry
    cases names
    cases parents
    rfl
  · rintro rfl
    rfl

/-- The walk gives the regular files and nothing else. -/
theorem mem_direntsOf (entries : List Tree) (parentPath : List Name) (entry : Dirent) :
    entry ∈ direntsOf parentPath entries ↔
    ∃ path, entry.path = parentPath ++ path ∧ FileAt entries path := by
  induction size : sizeOf entries using Nat.strong_induction_on generalizing entries parentPath with
  | _ n ih =>
      subst size
      cases entries with
      | nil => simp [direntsOf, fileAt_nil]
      | cons tree entries =>
          have later := ih (sizeOf entries) (by simp) entries parentPath rfl
          have split : (∃ path, entry.path = parentPath ++ path ∧ FileAt (tree :: entries) path) ↔
              (∃ path, entry.path = parentPath ++ path ∧ FileAt [tree] path) ∨
                ∃ path, entry.path = parentPath ++ path ∧ FileAt entries path := by
            rw [← exists_or]
            refine exists_congr fun path => ?_
            rw [fileAt_cons, and_or_left]
          rw [direntsOf, List.mem_append, later, split]
          refine or_congr_left ?_
          cases tree with
          | file name =>
              simp only [Tree.dirents, List.mem_singleton, fileAt_file, exists_eq_right]
              exact path_eq_iff.symm
          | folder name inner =>
              have below := ih (sizeOf inner) (by simp; omega) inner (parentPath ++ [name]) rfl
              simp only [Tree.dirents, below, fileAt_folder, List.append_assoc, List.singleton_append]
              constructor
              · rintro ⟨path, same, found⟩
                exact ⟨name :: path, same, path, rfl, found⟩
              · rintro ⟨_, same, path, rfl, found⟩
                exact ⟨path, same, found⟩
          | other name => simp [Tree.dirents, fileAt_other]

end Walk

section Keys

variable {backend : Backend} {entries : List Tree} {entry : Dirent} {key : Text} {path : List Name}

theorem texts_proper (path : List Name) : ∀ segment ∈ texts path, signs.Proper segment := by
  intro segment member
  obtain ⟨name, _, rfl⟩ := List.mem_map.mp member
  exact name.proper

theorem normal_proper (key : Text) : ∀ segment ∈ signs.resolve backend.rootPath key, signs.Proper segment :=
  Signs.resolve_proper (Signs.resolve_proper (texts_proper backend.cwd))

/-- A key is accepted where it leads below the root by a name that does not begin like the way up. -/
theorem resolve_iff {absolute : List Text} : backend.resolve key = some absolute ↔
    signs.resolve backend.rootPath key = absolute ∧
      ∃ first rest, absolute = backend.rootPath ++ first :: rest ∧ ¬signs.Dotted first := by
  unfold Backend.resolve
  dsimp only
  have proper : ∀ segment ∈ signs.resolve backend.rootPath key, signs.Proper segment := normal_proper key
  generalize signs.resolve backend.rootPath key = normal at *
  by_cases inside : backend.rootPath <+: normal
  · obtain ⟨below, rfl⟩ := inside
    rw [Signs.relative_inside]
    cases below with
    | nil =>
        have empty : signs.joined [] = [] := rfl
        rw [if_pos (Or.inl empty)]
        constructor
        · intro none_
          cases none_
        · rintro ⟨rfl, first, rest, same, _⟩
          simp at same
    | cons first rest =>
        have here := proper first (by simp)
        obtain ⟨some_, inside⟩ := Signs.joined_inside here rest
        have begins := Signs.dotted_joined here rest
        by_cases dotted : signs.Dotted (signs.joined (first :: rest))
        · rw [if_pos (Or.inr (Or.inl dotted))]
          constructor
          · intro none_
            cases none_
          · rintro ⟨rfl, first', rest', same, plain⟩
            obtain ⟨rfl, _⟩ := List.cons.inj (List.append_cancel_left same)
            exact absurd (begins.mp dotted) plain
        · rw [if_neg (by simp [some_, dotted, inside]), Option.some.injEq]
          constructor
          · rintro rfl
            exact ⟨rfl, first, rest, rfl, fun plain => dotted (begins.mpr plain)⟩
          · exact And.left
  · have up := Signs.relative_outside (S := signs) inside
    rw [if_pos (Or.inr (Or.inl up))]
    constructor
    · intro none_
      cases none_
    · rintro ⟨rfl, first, rest, same, _⟩
      exact absurd (same ▸ List.prefix_append _ _) inside

theorem texts_path (entry : Dirent) : texts entry.path = texts entry.parentPath ++ [entry.name.text] := by
  simp [texts, Dirent.path]

/-- A key is the path of its file below the root, written out. -/
theorem keyOf_eq (entry : Dirent) : backend.keyOf entry = signs.joined (texts entry.path) := by
  rw [Backend.keyOf, Signs.resolve_name entry.name.proper, List.append_assoc, Signs.relative_inside, texts_path]

theorem texts_ne_nil (entry : Dirent) : texts entry.path ≠ [] := by
  rw [texts_path]
  simp

theorem resolve_keyOf (entry : Dirent) : signs.resolve backend.rootPath (backend.keyOf entry) =
    backend.rootPath ++ texts entry.path := by
  rw [keyOf_eq, Signs.resolve_joined (texts_ne_nil entry) (texts_proper entry.path)]

/-- No name directly below the root begins like the way up. -/
def Undotted (path : List Name) : Prop := ∀ first ∈ path.head?, ¬signs.Dotted first.text

theorem accepted_iff (entry : Dirent) :
    backend.resolve (backend.keyOf entry) = some (backend.rootPath ++ texts entry.path) ↔ Undotted entry.path := by
  rw [resolve_iff, resolve_keyOf, Undotted]
  cases here : entry.path with
  | nil => exact absurd (congrArg texts here) (texts_ne_nil entry)
  | cons first rest =>
      constructor
      · rintro ⟨_, first', rest', same, plain⟩ other member
        obtain rfl : first = other := by simpa using member
        obtain ⟨rfl, _⟩ := List.cons.inj (List.append_cancel_left same)
        exact plain
      · exact fun plain => ⟨rfl, first.text, texts rest, rfl, plain first rfl⟩

theorem corresponds_iff (backend : Backend) (entries : List Tree) :
    backend.Corresponds entries ↔ ∀ path, FileAt entries path → Undotted path := by
  have listed : ∀ entry, entry ∈ direntsOf [] entries ↔ FileAt entries entry.path := by
    intro entry
    rw [mem_direntsOf]
    simp
  constructor
  · intro corresponds path found
    obtain ⟨entry, member, rfl, _⟩ := corresponds.every path found
    exact (accepted_iff entry).mp (corresponds.accepted entry member)
  · intro undotted
    refine ⟨fun entry member => ?_, fun entry _ entry' _ same => ?_, fun path found => ?_⟩
    · exact (accepted_iff entry).mpr (undotted entry.path ((listed entry).mp member))
    · rw [keyOf_eq, keyOf_eq] at same
      exact Signs.joined_inj (texts_proper _) (texts_proper _) (texts_ne_nil entry) (texts_ne_nil entry') same
    · obtain ⟨entry, rfl⟩ := found.dirent
      exact ⟨entry, (listed entry).mpr found, rfl, List.mem_map_of_mem ((listed entry).mpr found)⟩

theorem accepts_iff (backend : Backend) (key : Text) : ((backend.resolve key).isSome ↔ backend.Inside key) ↔
    ∀ first rest, signs.resolve backend.rootPath key = backend.rootPath ++ first :: rest → ¬signs.Dotted first := by
  constructor
  · intro accepts first rest same dotted
    obtain ⟨absolute, found⟩ := Option.isSome_iff_exists.mp (accepts.mpr ⟨first, rest, same⟩)
    obtain ⟨rfl, first', rest', same', plain⟩ := resolve_iff.mp found
    obtain ⟨rfl, _⟩ := List.cons.inj (List.append_cancel_left (same.symm.trans same'))
    exact plain dotted
  · intro plain
    rw [Option.isSome_iff_exists]
    constructor
    · rintro ⟨absolute, found⟩
      obtain ⟨rfl, first, rest, same, _⟩ := resolve_iff.mp found
      exact ⟨first, rest, same⟩
    · rintro ⟨first, rest, same⟩
      exact ⟨_, resolve_iff.mpr ⟨same, first, rest, rfl, plain first rest same⟩⟩

end Keys

/-- Keys and files correspond exactly where no file's path below the root begins with two dots, and of any key
the answer is right exactly where it does not lead below the root by such a name. -/
theorem keys_and_files (backend : Backend) (entries : List Tree) (key : Text) :
    (backend.Corresponds entries ↔ ∀ path, FileAt entries path → Undotted path) ∧
      (((backend.resolve key).isSome ↔ backend.Inside key) ↔
        ∀ first rest, signs.resolve backend.rootPath key = backend.rootPath ++ first :: rest → ¬signs.Dotted first) :=
  ⟨corresponds_iff backend entries, accepts_iff backend key⟩

def ascii (text : String) : Text := text.toList.map fun c => toUnit c.toNat

/-- A name that looks like the way up. -/
def oddName : Name := ⟨ascii "..foo", by decide, by decide, by decide, by decide⟩

theorem odd_file_refused : ¬Backend.Corresponds ⟨[], ascii "/data"⟩ [.file oddName] := by
  intro corresponds
  have undotted := (corresponds_iff _ _).mp corresponds [oddName] (.file List.mem_cons_self)
  have dotted : signs.Dotted oddName.text := by decide
  exact undotted oddName rfl dotted

end Kurul.DiskStorageBackend
