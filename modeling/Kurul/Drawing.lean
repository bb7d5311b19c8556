import Mathlib

/-! Programs that draw fresh values from a supply, one after the other, and keep a log. -/
namespace Kurul

variable {M α β γ ι : Type}

structure Drawn (M α : Type) where
  value : α
  next : Nat
  log : List M

/-- From the number of the next draw. -/
def Draw (M α : Type) : Type := Nat → Drawn M α

namespace Draw

instance : Monad (Draw M) where
  pure value := fun n => ⟨value, n, []⟩
  bind d e := fun n =>
    let first := d n
    let second := e first.value first.next
    ⟨second.value, second.next, first.log ++ second.log⟩

def fresh (supply : Nat → ι) : Draw M ι := fun n => ⟨supply n, n + 1, []⟩

def tell (entries : List M) : Draw M Unit := fun n => ⟨(), n, entries⟩

def tellIf (wanted : Bool) (entries : List M) : Draw M Unit := fun n => ⟨(), n, if wanted then entries else []⟩

/-- The items in turn, each with its index. -/
def forEachIdx (body : Nat → α → Draw M β) : Nat → List α → Draw M (List β)
  | _, [] => pure []
  | index, item :: rest => do
      let first ← body index item
      let others ← forEachIdx body (index + 1) rest
      return first :: others

def forEach (items : List α) (body : α → Draw M β) : Draw M (List β) := forEachIdx (fun _ => body) 0 items

/-- These values are what the supply gave between two numbers. -/
def Spent (supply : Nat → ι) (n m : Nat) (ids : List ι) : Prop :=
  n ≤ m ∧ ids.Perm ((List.range' n (m - n)).map supply)

/-- The values of a program are the ones it drew. -/
def Fresh (supply : Nat → ι) (ids : β → List ι) (d : Draw M β) : Prop :=
  ∀ n, Spent supply n (d n).next (ids (d n).value)

section Rules

variable {supply : Nat → ι} {body : Nat → α → Draw M β} {items : List α} {index n : Nat}

@[simp] theorem pure_apply (value : α) (n : Nat) : (pure value : Draw M α) n = ⟨value, n, []⟩ := rfl

@[simp] theorem bind_apply (d : Draw M α) (e : α → Draw M β) (n : Nat) :
    (d >>= e) n = ⟨(e (d n).value (d n).next).value, (e (d n).value (d n).next).next,
      (d n).log ++ (e (d n).value (d n).next).log⟩ := rfl

@[simp] theorem fresh_apply (supply : Nat → ι) (n : Nat) : (fresh supply : Draw M ι) n = ⟨supply n, n + 1, []⟩ := rfl

@[simp] theorem tellIf_apply (wanted : Bool) (entries : List M) (n : Nat) :
    tellIf wanted entries n = ⟨(), n, if wanted then entries else []⟩ := rfl

@[simp] theorem tell_apply (entries : List M) (n : Nat) : tell entries n = ⟨(), n, entries⟩ := rfl

/-- Each value of a loop is the body's of the item at its place. -/
theorem forEachIdx_get? (body : Nat → α → Draw M β) (items : List α) (index place n : Nat) :
    ∃ m, ((forEachIdx body index items n).value[place]?) =
      items[place]?.map fun item => (body (index + place) item m).value := by
  induction items generalizing index n place with
  | nil => exact ⟨0, by simp [forEachIdx]⟩
  | cons item rest ih =>
      cases place with
      | zero => exact ⟨n, by simp [forEachIdx]⟩
      | succ place =>
          obtain ⟨m, here⟩ := ih (index + 1) place (body index item n).next
          refine ⟨m, ?_⟩
          simp only [forEachIdx, bind_apply, pure_apply, List.getElem?_cons_succ, here]
          congr 2
          funext item
          congr 2
          omega

/-- A loop makes one value of each item. -/
theorem forall₂_forEachIdx {R : α → β → Prop} (index n : Nat)
    (made : ∀ index item n, R item (body index item n).value) :
    List.Forall₂ R items (forEachIdx body index items n).value := by
  induction items generalizing index n with
  | nil => exact .nil
  | cons item rest ih => exact .cons (made index item n) (ih _ _)

/-- What a body makes of an item without drawing. -/
theorem map_forEachIdx (f : β → γ) (g : Nat → α → γ) (index n : Nat)
    (made : ∀ index item n, f (body index item n).value = g index item) :
    (forEachIdx body index items n).value.map f = (items.zipIdx index).map fun entry => g entry.2 entry.1 := by
  induction items generalizing index n with
  | nil => rfl
  | cons item rest ih => simp [forEachIdx, made, ih]

/-- Values that rise with the index rise along the loop. -/
theorem rising_forEachIdx [LT γ] (f : β → γ) (g : Nat → γ) (rises : ∀ i j, i < j → g i < g j)
    (made : ∀ index item n, f (body index item n).value = g index) :
    (forEachIdx body index items n).value.Pairwise fun a b => f a < f b := by
  have values : (forEachIdx body index items n).value.map f = (items.zipIdx index).map fun entry => g entry.2 :=
    map_forEachIdx f (fun index _ => g index) index n made
  have same : (items.zipIdx index).map (fun entry => g entry.2) =
      (List.range' index items.length).map g := by
    rw [← List.zipIdx_map_snd, List.map_map]
    rfl
  rw [← List.pairwise_map (R := (· < ·)), values, same, List.pairwise_map]
  have numbers : (List.range' index items.length).Pairwise (· < ·) := List.pairwise_lt_range'
  exact numbers.imp fun {i j} less => rises i j less

theorem mem_forEachIdx {value : β} (member : value ∈ (forEachIdx body index items n).value) :
    ∃ place item m, items[place]? = some item ∧ value = (body (index + place) item m).value := by
  obtain ⟨place, here⟩ := List.mem_iff_getElem?.mp member
  obtain ⟨m, same⟩ := forEachIdx_get? body items index place n
  rw [same] at here
  obtain ⟨item, at_, rfl⟩ := Option.map_eq_some_iff.mp here
  exact ⟨place, item, m, at_, rfl⟩

/-- Items apart from one another leave values apart. -/
theorem pairwise_forEachIdx {R : β → β → Prop} {S : α → α → Prop} (apart : items.Pairwise S) (index n : Nat)
    (leaves : ∀ i j a b k m, S a b → R (body i a k).value (body j b m).value) :
    (forEachIdx body index items n).value.Pairwise R := by
  induction items generalizing index n with
  | nil => exact List.Pairwise.nil
  | cons item rest ih =>
      obtain ⟨first, others⟩ := List.pairwise_cons.mp apart
      refine List.pairwise_cons.mpr ⟨?_, ih others _ _⟩
      intro value member
      obtain ⟨place, other, m, there, rfl⟩ := mem_forEachIdx member
      exact leaves _ _ _ _ _ _ (first other (List.mem_of_getElem? there))

/-- A loop whose body logs by the item alone. -/
theorem log_forEachIdx {entries : α → List M} (index n : Nat)
    (logs : ∀ index item n, item ∈ items → (body index item n).log = entries item) :
    (forEachIdx body index items n).log = items.flatMap entries := by
  induction items generalizing index n with
  | nil => rfl
  | cons item rest ih =>
      have later := ih (index + 1) (body index item n).next
        fun index other n member => logs index other n (List.mem_cons_of_mem _ member)
      simp [forEachIdx, later, logs index item n List.mem_cons_self]

/-- Each call of a loop's log is one of the body's. -/
theorem mem_log_forEachIdx {call : M} (member : call ∈ (forEachIdx body index items n).log) :
    ∃ place item m, item ∈ items ∧ call ∈ (body place item m).log := by
  induction items generalizing index n with
  | nil => cases member
  | cons item rest ih =>
      simp only [forEachIdx, bind_apply, pure_apply, List.append_nil] at member
      rcases List.mem_append.mp member with first | later
      · exact ⟨index, item, n, List.mem_cons_self, first⟩
      · obtain ⟨place, other, m, listed, here⟩ := ih later
        exact ⟨place, other, m, List.mem_cons_of_mem _ listed, here⟩

theorem Spent.nil : Spent supply n n [] := ⟨Nat.le_refl n, by simp⟩

theorem Spent.one : Spent supply n (n + 1) [supply n] := ⟨Nat.le_succ n, by simp⟩

theorem Spent.append {m k : Nat} {first second : List ι} (before : Spent supply n m first)
    (after : Spent supply m k second) : Spent supply n k (first ++ second) := by
  obtain ⟨forward, perm⟩ := before
  obtain ⟨forward', perm'⟩ := after
  refine ⟨Nat.le_trans forward forward', (perm.append perm').trans ?_⟩
  rw [← List.map_append]
  have joined : List.range' n (m - n) ++ List.range' m (k - m) = List.range' n (k - n) := by
    have sum : (m - n) + (k - m) = k - n := by omega
    have at_ : n + (m - n) = m := by omega
    rw [← sum, ← List.range'_append_1, at_]
  rw [joined]

theorem Spent.perm {m : Nat} {ids other : List ι} (spent : Spent supply n m ids) (perm : other.Perm ids) :
    Spent supply n m other := ⟨spent.1, perm.trans spent.2⟩

/-- With a supply that never repeats, nothing is drawn twice. -/
theorem Spent.nodup {m : Nat} {ids : List ι} (spent : Spent supply n m ids)
    (distinct : Function.Injective supply) : ids.Nodup := by
  have numbers : (List.range' n (m - n)).Nodup := List.nodup_range'
  exact spent.2.nodup_iff.mpr (numbers.map distinct)

theorem Fresh.forEachIdx {ids : β → List ι} (index : Nat) (items : List α)
    (each : ∀ index item, Fresh supply ids (body index item)) :
    Fresh supply (fun values => values.flatMap ids) (forEachIdx body index items) := by
  induction items generalizing index with
  | nil => exact fun n => Spent.nil
  | cons item rest ih => exact fun n => (each index item n).append (ih (index + 1) _)

end Rules
end Draw
end Kurul
