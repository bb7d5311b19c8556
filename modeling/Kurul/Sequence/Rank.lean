import Kurul.Sequence.Keyset

/-! The rank of a key among items: how many of them come before it. In a list in order the
rank is the index at which an item stands, or would have to be put in. -/
namespace Kurul.Sequence

variable {α κ : Type} [LinearOrder κ] {key : α → κ} {items other : List α} {k : κ}

def rank (key : α → κ) (k : κ) (items : List α) : Nat := items.countP fun a => key a < k

theorem rank_perm (perm : items.Perm other) : rank key k items = rank key k other :=
  perm.countP_eq _

theorem rank_cons {a : α} : rank key k (a :: items) = rank key k items + if key a < k then 1 else 0 := by
  simp [rank, List.countP_cons]

theorem rank_le : rank key k items ≤ items.length := List.countP_le_length

/-- Before the rank stand the items before the key. -/
theorem lt_rank_iff (ordered : items.Pairwise fun a b => key a < key b) {i : Nat} (inside : i < items.length) :
    i < rank key k items ↔ key items[i] < k := by
  induction items generalizing i with
  | nil => exact absurd inside (Nat.not_lt_zero i)
  | cons first rest ih =>
      obtain ⟨least, ordered⟩ := List.pairwise_cons.mp ordered
      rw [rank_cons]
      by_cases before : key first < k
      · rw [if_pos before]
        cases i with
        | zero => simp [before]
        | succ i =>
            have inside' : i < rest.length := by simpa using inside
            simpa using ih ordered inside'
      · have none_ : rank key k rest = 0 := by
          rw [rank, List.countP_eq_zero]
          intro a member
          have above := (not_lt.mp before).trans (least a member).le
          simpa using above
        rw [if_neg before, none_]
        cases i with
        | zero => simpa using before
        | succ i =>
            have inside' : i < rest.length := by simpa using inside
            have above := (not_lt.mp before).trans (least rest[i] (List.getElem_mem inside')).le
            simpa using above

theorem rank_getElem (ordered : items.Pairwise fun a b => key a < key b) {i : Nat} (inside : i < items.length) :
    rank key (key items[i]) items = i := by
  have self := (lt_rank_iff (k := key items[i]) ordered inside).not.mpr (lt_irrefl _)
  rcases Nat.eq_zero_or_pos i with zero | positive
  · omega
  · have before : i - 1 < items.length := by omega
    have step := List.pairwise_iff_getElem.mp ordered (i - 1) i before inside (by omega)
    have later := (lt_rank_iff ordered before).mpr step
    omega

/-- A key has its rank between the item before it and the one after it. -/
theorem rank_eq_iff (ordered : items.Pairwise fun a b => key a < key b) {i : Nat} (fits : i ≤ items.length) :
    rank key k items = i ↔
      (∀ a, i ≠ 0 → items[i - 1]? = some a → key a < k) ∧ (∀ a, items[i]? = some a → ¬ key a < k) := by
  have size : rank key k items ≤ items.length := rank_le
  constructor
  · rintro rfl
    constructor
    · intro a positive found
      obtain ⟨inside, rfl⟩ := List.getElem?_eq_some_iff.mp found
      exact (lt_rank_iff ordered inside).mp (by omega)
    · intro a found
      obtain ⟨inside, rfl⟩ := List.getElem?_eq_some_iff.mp found
      exact (lt_rank_iff ordered inside).not.mp (lt_irrefl _)
  · rintro ⟨below, above⟩
    rcases Nat.lt_trichotomy (rank key k items) i with less | same | more
    · have inside : i - 1 < items.length := by omega
      have before := below items[i - 1] (by omega) (List.getElem?_eq_getElem inside)
      have := (lt_rank_iff ordered inside).mpr before
      omega
    · exact same
    · have inside : i < items.length := by omega
      exact absurd ((lt_rank_iff ordered inside).mp more) (above items[i] (List.getElem?_eq_getElem inside))

/-- The index of an item that a test tells from the others is its rank. -/
theorem findIdx?_sorted (distinct : (items.map key).Nodup) {a : α} (member : a ∈ items) {test : α → Bool}
    (tells : ∀ b ∈ items, test b = true ↔ b = a) :
    (sorted key items).findIdx? test = some (rank key (key a) items) := by
  have ordered := pairwise_sorted distinct
  have listed : a ∈ sorted key items := mem_sorted.mpr member
  obtain ⟨i, inside, rfl⟩ := List.getElem_of_mem listed
  have perm : (sorted key items).Perm items := sorted_perm items
  rw [← rank_perm perm, rank_getElem ordered inside, List.findIdx?_eq_some_iff_getElem]
  refine ⟨inside, (tells _ member).mpr rfl, ?_⟩
  intro j before
  have within : j < (sorted key items).length := Nat.lt_trans before inside
  have less := List.pairwise_iff_getElem.mp ordered j i within inside before
  intro passed
  have same := (tells _ (mem_sorted.mp (List.getElem_mem within))).mp passed
  rw [same] at less
  exact lt_irrefl _ less

end Kurul.Sequence
