import Kurul.Sequence.Keyset

/-! Keyset paging over items that come and go while the pages are read. Each page is read from
the key of the last item of the one before; the pages end, run in order and miss nothing that
stays. -/
namespace Kurul.Sequence

variable {α κ : Type} [LinearOrder κ] (key : α → κ)

/-- Something is left behind the page. -/
def hasMore (size : Nat) (cursor : Option κ) (items : List α) : Bool :=
  decide (size < (items.filter (behind key cursor)).length)

/-- Page after page while there is more; `db` is what each read is shown. -/
def drain (size : Nat) (db : Nat → List α) : Nat → Nat → Option κ → Option (List (List α))
  | 0, _, _ => none
  | reads + 1, index, cursor =>
      let items := page key size cursor (db index)
      if hasMore key size cursor (db index) then
        (drain size db reads (index + 1) (items.getLast?.map key)).map (items :: ·)
      else some [items]

section Pages

variable {key} {size : Nat} {cursor : Option κ} {items : List α}

theorem mem_page {a : α} (member : a ∈ page key size cursor items) : a ∈ items ∧ behind key cursor a = true :=
  List.mem_filter.mp (mem_sorted.mp (List.mem_of_mem_take member))

theorem pairwise_page (distinct : (items.map key).Nodup) :
    (page key size cursor items).Pairwise fun a b => key a < key b :=
  (pairwise_sorted (distinct.sublist (List.filter_sublist.map key))).sublist (List.take_sublist _ _)

/-- A page with more behind it is full. -/
theorem last_page (positive : 0 < size) (more : hasMore key size cursor items = true) :
    ∃ last ∈ page key size cursor items, (page key size cursor items).getLast? = some last := by
  have full : (page key size cursor items).length = size := by
    rw [page, List.length_take, (sorted_perm _).length_eq]
    have less := of_decide_eq_true more
    omega
  have filled : page key size cursor items ≠ [] := by
    rintro empty
    rw [empty, List.length_nil] at full
    omega
  exact ⟨_, List.getLast_mem filled, List.getLast?_eq_some_getLast filled⟩

theorem last_le {last : α} (distinct : (items.map key).Nodup)
    (ends : (page key size cursor items).getLast? = some last) :
    ∀ a ∈ page key size cursor items, key a ≤ key last := by
  intro a member
  rcases List.eq_nil_or_concat (page key size cursor items) with empty | ⟨front, final, split⟩
  · rw [empty] at member
    cases member
  · have ordered := @pairwise_page α κ _ key size cursor items distinct
    rw [split, List.concat_eq_append] at ordered member ends
    have same : final = last := by simpa using ends
    rcases List.mem_append.mp member with early | here
    · exact (same ▸ (List.pairwise_append.mp ordered).2.2 a early final List.mem_cons_self).le
    · rw [List.mem_singleton.mp here, same]

/-- What is not on the page comes after its last item. -/
theorem beyond_page {last a : α} (distinct : (items.map key).Nodup)
    (ends : (page key size cursor items).getLast? = some last) (listed : a ∈ items)
    (after : behind key cursor a = true) (off : a ∉ page key size cursor items) : key last < key a := by
  have few := distinct.sublist (List.filter_sublist (p := behind key cursor).map key)
  have member : a ∈ sorted key (items.filter (behind key cursor)) :=
    mem_sorted.mpr (List.mem_filter.mpr ⟨listed, after⟩)
  have ordered := pairwise_sorted few
  rw [← List.take_append_drop size (sorted key (items.filter (behind key cursor)))] at member ordered
  have dropped := (List.mem_append.mp member).resolve_left off
  exact (List.pairwise_append.mp ordered).2.2 last (List.mem_of_getLast? ends) a dropped

/-- The last page holds all that is left. -/
theorem whole_page (ends : hasMore key size cursor items = false) {a : α} (listed : a ∈ items)
    (after : behind key cursor a = true) : a ∈ page key size cursor items := by
  have member : a ∈ sorted key (items.filter (behind key cursor)) :=
    mem_sorted.mpr (List.mem_filter.mpr ⟨listed, after⟩)
  rw [page, List.take_of_length_le]
  · exact member
  · rw [(sorted_perm _).length_eq]
    exact not_lt.mp (of_decide_eq_false ends)

/-- What a page leaves out comes after it, and the page is full. -/
theorem page_or_behind {a : α} (distinct : (items.map key).Nodup) (listed : a ∈ items)
    (after : behind key cursor a = true) :
    a ∈ page key size cursor items ∨ size ≤ (page key size cursor items).length ∧
      behind key ((page key size cursor items).getLast?.map key) a = true := by
  by_cases on : a ∈ page key size cursor items
  · exact Or.inl on
  · refine Or.inr ⟨?_, ?_⟩
    · cases more : hasMore key size cursor items with
      | false => exact absurd (whole_page more listed after) on
      | true =>
          rw [page, List.length_take, (sorted_perm _).length_eq]
          have less := of_decide_eq_true more
          omega
    · cases ends : (page key size cursor items).getLast? with
      | none => rfl
      | some last => exact decide_eq_true (beyond_page distinct ends listed after on)

/-- What comes after a page comes after its cursor. -/
theorem behind_of_page {a : α} (some_ : page key size cursor items ≠ [])
    (beyond : behind key ((page key size cursor items).getLast?.map key) a = true) : behind key cursor a = true := by
  rw [List.getLast?_eq_some_getLast some_] at beyond
  have last := (mem_page (List.getLast_mem some_)).2
  cases cursor with
  | none => rfl
  | some k =>
      simp only [behind, Option.map_some, Option.all_some, decide_eq_true_eq] at beyond last ⊢
      exact last.trans beyond

end Pages

section Runs

variable {key} {size : Nat} {db : Nat → List α}

/-- The keys that are still ahead. -/
def ahead (keys : Finset κ) (cursor : Option κ) : Finset κ := keys.filter fun k => cursor.all (· < k)

theorem ahead_lt {keys : Finset κ} {cursor : Option κ} {last : κ} (inside : last ∈ keys)
    (after : cursor.all (· < last) = true) : (ahead keys (some last)).card < (ahead keys cursor).card := by
  refine Finset.card_lt_card (Finset.ssubset_iff_subset_ne.mpr ⟨?_, ?_⟩)
  · intro k member
    obtain ⟨listed, later⟩ := Finset.mem_filter.mp member
    refine Finset.mem_filter.mpr ⟨listed, ?_⟩
    cases cursor with
    | none => rfl
    | some c =>
        have first : c < last := by simpa using after
        simpa using first.trans (by simpa using later)
  · intro same
    have member : last ∈ ahead keys cursor := Finset.mem_filter.mpr ⟨inside, after⟩
    rw [← same] at member
    simp [ahead] at member

/-- With finitely many keys to come the pages end; they run in order, behind the cursor, and
hold every key that is there at each read. -/
theorem drain_complete (positive : 0 < size) (distinct : ∀ n, ((db n).map key).Nodup) (keys : Finset κ)
    (within : ∀ n, ∀ a ∈ db n, key a ∈ keys) (reads index : Nat) (cursor : Option κ)
    (enough : (ahead keys cursor).card < reads) :
    ∃ pages, drain key size db reads index cursor = some pages ∧
      pages.flatten.Pairwise (fun a b => key a < key b) ∧
      (∀ a ∈ pages.flatten, behind key cursor a = true) ∧
      ∀ k, cursor.all (· < k) = true → (∀ n < pages.length, ∃ a ∈ db (index + n), key a = k) →
        k ∈ pages.flatten.map key := by
  induction reads generalizing index cursor with
  | zero => exact absurd enough (Nat.not_lt_zero _)
  | succ reads ih =>
      have ordered := @pairwise_page α κ _ key size cursor _ (distinct index)
      cases more : hasMore key size cursor (db index) with
      | false =>
          refine ⟨[page key size cursor (db index)], by simp [drain, more], ?_, ?_, ?_⟩
          · simpa using ordered
          · intro a member
            exact (mem_page (by simpa using member)).2
          · intro k after stays
            obtain ⟨a, listed, rfl⟩ := stays 0 Nat.zero_lt_one
            simpa using ⟨a, whole_page more listed after, rfl⟩
      | true =>
          obtain ⟨last, final, ends⟩ := last_page positive more
          obtain ⟨there, after⟩ := mem_page final
          have fewer := ahead_lt (within index last there) after
          obtain ⟨pages, drained, rising, behind_, complete⟩ := ih (index + 1) (some (key last)) (by omega)
          have beyond : ∀ a ∈ pages.flatten, key last < key a := by
            intro a member
            simpa [behind] using behind_ a member
          refine ⟨page key size cursor (db index) :: pages, by simp [drain, more, ends, drained], ?_, ?_, ?_⟩
          · rw [List.flatten_cons]
            refine List.pairwise_append.mpr ⟨ordered, rising, ?_⟩
            intro a early b late
            exact (last_le (distinct index) ends a early).trans_lt (beyond b late)
          · intro a member
            rcases List.mem_append.mp member with early | late
            · exact (mem_page early).2
            · cases cursor with
              | none => rfl
              | some c =>
                  have first : c < key last := by simpa [behind] using after
                  simpa [behind] using first.trans (beyond a late)
          · intro k later stays
            rw [List.flatten_cons, List.map_append, List.mem_append]
            obtain ⟨a, listed, rfl⟩ := stays 0 (Nat.succ_pos _)
            by_cases onPage : a ∈ page key size cursor (db index)
            · exact Or.inl (List.mem_map_of_mem onPage)
            · right
              refine complete (key a) ?_ ?_
              · simpa using beyond_page (distinct index) ends listed later onPage
              · intro n inside
                obtain ⟨b, there', same⟩ := stays (n + 1) (Nat.succ_lt_succ inside)
                exact ⟨b, by rwa [Nat.add_right_comm, Nat.add_assoc], same⟩

end Runs

end Kurul.Sequence
