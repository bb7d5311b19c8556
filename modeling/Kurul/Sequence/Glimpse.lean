import Mathlib

/-! A list in order of which only some items are shown. Between two shown neighbours there may
be hidden items; a place that has the shown items on the same sides looks the same where only they
are shown. -/
namespace Kurul.Sequence

variable {α β κ : Type} {full shown : List α} {k m : Nat}

section Cuts

/-- The shown items before and behind one place are before and behind the other. -/
structure Cut (full shown : List α) (k m : Nat) : Prop where
  low : ∀ a ∈ shown.take k, a ∈ full.take m
  high : ∀ a ∈ shown.drop k, a ∈ full.drop m

theorem Cut.map (cut : Cut full shown k m) (f : α → β) : Cut (full.map f) (shown.map f) k m where
  low b listed := by
    rw [← List.map_take] at listed ⊢
    obtain ⟨a, member, rfl⟩ := List.mem_map.mp listed
    exact List.mem_map_of_mem (cut.low a member)
  high b listed := by
    rw [← List.map_drop] at listed ⊢
    obtain ⟨a, member, rfl⟩ := List.mem_map.mp listed
    exact List.mem_map_of_mem (cut.high a member)

theorem insertIdx_eq (inside : m ≤ full.length) (x : α) : full.insertIdx m x = full.take m ++ x :: full.drop m := by
  induction full generalizing m with
  | nil =>
      obtain rfl : m = 0 := by simpa using inside
      rfl
  | cons a rest ih =>
      cases m with
      | zero => rfl
      | succ m =>
          rw [List.insertIdx_succ_cons, ih (by simpa using inside)]
          rfl

variable [DecidableEq α]

theorem filter_shown (sub : shown.Sublist full) (nodup : full.Nodup) : full.filter (· ∈ shown) = shown := by
  induction sub with
  | slnil => rfl
  | @cons shown rest a sub ih =>
      obtain ⟨absent, nodup⟩ := List.nodup_cons.mp nodup
      have hidden : a ∉ shown := fun member => absent (sub.subset member)
      rw [List.filter_cons, if_neg (by simpa using hidden), ih nodup]
  | @cons_cons shown rest a sub ih =>
      obtain ⟨absent, nodup⟩ := List.nodup_cons.mp nodup
      rw [List.filter_cons, if_pos (by simp)]
      congr 1
      rw [← ih nodup]
      apply List.filter_congr
      intro b listed
      have other : b ≠ a := fun same => absent (same ▸ listed)
      simp [other, ih nodup]

/-- What is put in at a cut shows between the same items. -/
theorem Cut.filter_insertIdx (cut : Cut full shown k m) (sub : shown.Sublist full) (nodup : full.Nodup)
    (fits : k ≤ shown.length) (inside : m ≤ full.length) {x : α} (new : x ∉ full) :
    (full.insertIdx m x).filter (fun a => a ∈ shown.insertIdx k x) = shown.insertIdx k x := by
  have shows : ∀ a ∈ full, (a ∈ shown.insertIdx k x ↔ a ∈ shown) := by
    intro a listed
    rw [List.mem_insertIdx fits, or_iff_right]
    rintro rfl
    exact new listed
  have parts : (full.take m).filter (· ∈ shown) ++ (full.drop m).filter (· ∈ shown) = shown.take k ++ shown.drop k := by
    rw [← List.filter_append, List.take_append_drop, List.take_append_drop, filter_shown sub nodup]
  have apart : ∀ a ∈ full.drop m, a ∉ full.take m := by
    have disjoint := List.disjoint_of_nodup_append (List.take_append_drop m full ▸ nodup)
    exact fun a behind before => disjoint before behind
  have front : (full.take m).filter (· ∈ shown) = shown.take k := by
    have kept : ∀ part : List α, (∀ a ∈ part, a ∈ full.take m) → part.filter (· ∈ full.take m) = part :=
      fun part low => List.filter_eq_self.mpr fun a listed => by simpa using low a listed
    have gone : ∀ part : List α, (∀ a ∈ part, a ∈ full.drop m) → part.filter (· ∈ full.take m) = [] :=
      fun part high => List.filter_eq_nil_iff.mpr fun a listed => by simpa using apart a (high a listed)
    have sides := congrArg (List.filter (· ∈ full.take m)) parts
    rw [List.filter_append, List.filter_append, kept _ fun a listed => (List.mem_filter.mp listed).1,
      gone _ fun a listed => (List.mem_filter.mp listed).1, kept _ cut.low, gone _ cut.high] at sides
    simpa using sides
  have back : (full.drop m).filter (· ∈ shown) = shown.drop k := List.append_cancel_left (front ▸ parts)
  have same : ∀ part : List α, (∀ a ∈ part, a ∈ full) →
      part.filter (fun a => a ∈ shown.insertIdx k x) = part.filter (· ∈ shown) :=
    fun part listed => List.filter_congr fun a member => by simp [shows a (listed a member)]
  rw [insertIdx_eq inside, List.filter_append, List.filter_cons, if_pos (by simp [List.mem_insertIdx fits]),
    same _ fun a => List.mem_of_mem_take, same _ fun a => List.mem_of_mem_drop, front, back, insertIdx_eq fits]

end Cuts

section Order

variable [LinearOrder κ] {key : α → κ} {a b : α}

theorem mem_take_at (ordered : full.Pairwise fun a b => key a < key b) (stands : full[m]? = some b) :
    a ∈ full.take m ↔ a ∈ full ∧ key a < key b := by
  obtain ⟨inside, rfl⟩ := List.getElem?_eq_some_iff.mp stands
  rw [← List.take_append_drop m full, List.pairwise_append] at ordered
  obtain ⟨_, behind, before⟩ := ordered
  have here : full[m] ∈ full.drop m := by
    rw [List.drop_eq_getElem_cons inside]
    exact List.mem_cons_self
  constructor
  · exact fun member => ⟨List.mem_of_mem_take member, before a member _ here⟩
  · rintro ⟨listed, less⟩
    rw [← List.take_append_drop m full, List.mem_append] at listed
    refine listed.resolve_right fun later => ?_
    rw [List.drop_eq_getElem_cons inside] at later behind
    rcases List.mem_cons.mp later with rfl | later
    · exact lt_irrefl _ less
    · exact lt_asymm less ((List.pairwise_cons.mp behind).1 a later)

theorem mem_drop_at (ordered : full.Pairwise fun a b => key a < key b) (stands : full[m]? = some b) :
    a ∈ full.drop m ↔ a ∈ full ∧ key b ≤ key a := by
  have nodup : full.Nodup := ordered.imp fun less same => less.ne (congrArg key same)
  have apart := List.disjoint_of_nodup_append (List.take_append_drop m full ▸ nodup)
  constructor
  · intro member
    have listed := List.mem_of_mem_drop member
    exact ⟨listed, not_lt.mp fun less => apart ((mem_take_at ordered stands).mpr ⟨listed, less⟩) member⟩
  · rintro ⟨listed, least⟩
    rw [← List.take_append_drop m full, List.mem_append] at listed
    exact listed.resolve_left fun before => absurd ((mem_take_at ordered stands).mp before).2 (not_lt.mpr least)

/-- In front of an item that is shown. -/
theorem cut_before (ordered : full.Pairwise fun a b => key a < key b) (sub : shown.Sublist full)
    (shows : shown[k]? = some b) (stands : full[m]? = some b) : Cut full shown k m where
  low a member := by
    obtain ⟨listed, less⟩ := (mem_take_at (ordered.sublist sub) shows).mp member
    exact (mem_take_at ordered stands).mpr ⟨sub.subset listed, less⟩
  high a member := by
    obtain ⟨listed, least⟩ := (mem_drop_at (ordered.sublist sub) shows).mp member
    exact (mem_drop_at ordered stands).mpr ⟨sub.subset listed, least⟩

/-- Behind an item that is shown. -/
theorem cut_behind (ordered : full.Pairwise fun a b => key a < key b) (sub : shown.Sublist full)
    (shows : shown[k]? = some b) (stands : full[m]? = some b) : Cut full shown (k + 1) (m + 1) := by
  have cut := cut_before ordered sub shows stands
  obtain ⟨inside, rfl⟩ := List.getElem?_eq_some_iff.mp shows
  obtain ⟨inside', same⟩ := List.getElem?_eq_some_iff.mp stands
  refine ⟨?_, ?_⟩
  · intro a member
    rw [List.take_succ_eq_append_getElem inside, List.mem_append, List.mem_singleton] at member
    rw [List.take_succ_eq_append_getElem inside', List.mem_append, List.mem_singleton, same]
    exact member.imp_left (cut.low a)
  · intro a member
    have behind := cut.high a
    rw [List.drop_eq_getElem_cons inside, List.drop_eq_getElem_cons inside', same] at behind
    have nodup : shown.Nodup := (ordered.sublist sub).imp fun less same => less.ne (congrArg key same)
    rw [← List.take_append_drop k shown, List.drop_eq_getElem_cons inside] at nodup
    have other : a ≠ shown[k] := by
      rintro rfl
      exact (List.nodup_cons.mp (List.nodup_append.mp nodup).2.1).1 member
    exact (List.mem_cons.mp (behind (List.mem_cons_of_mem _ member))).resolve_left other

/-- The one stands right behind the other where nothing lies between them. -/
theorem next_iff {n : Nat} (ordered : full.Pairwise fun a b => key a < key b) (first : full[m]? = some a)
    (second : full[n]? = some b) : n = m + 1 ↔ key a < key b ∧ ∀ c ∈ full, ¬(key a < key c ∧ key c < key b) := by
  obtain ⟨inside, rfl⟩ := List.getElem?_eq_some_iff.mp first
  obtain ⟨inside', rfl⟩ := List.getElem?_eq_some_iff.mp second
  have before : ∀ {i j : Nat} (within : i < full.length) (within' : j < full.length), key full[i] < key full[j] ↔
    i < j := by
    intro i j within within'
    constructor
    · intro less
      rcases Nat.lt_trichotomy i j with earlier | same | later
      · exact earlier
      · subst same
        exact absurd less (lt_irrefl _)
      · exact absurd less (lt_asymm (List.pairwise_iff_getElem.mp ordered j i within' within later))
    · exact List.pairwise_iff_getElem.mp ordered i j within within'
  rw [before inside inside']
  constructor
  · rintro rfl
    refine ⟨Nat.lt_succ_self m, ?_⟩
    rintro c listed ⟨above, below⟩
    obtain ⟨i, within, rfl⟩ := List.getElem_of_mem listed
    have := (before inside within).mp above
    have := (before within inside').mp below
    omega
  · rintro ⟨later, nothing⟩
    by_contra other
    have within : m + 1 < full.length := by omega
    refine nothing _ (List.getElem_mem within) ⟨(before inside within).mpr (by omega),
      (before within inside').mpr (by omega)⟩

end Order
end Kurul.Sequence
