import Kurul.RateLimit.UploadBudget

/-! Runs of the upload budget, with Redis failing at any of the charges. -/
namespace Kurul.UploadBudget

open FixedWindow (Window live charged)

structure Charge where
  at_ : Nat
  key : String
  bytes : Nat
  reply : Reply

def fresh : Budget := ⟨fun _ => none, [], false⟩

section Runs

variable (limit windowSeconds : Nat)

def next (budget : Budget) (c : Charge) : Budget := (charge c.at_ c.key c.bytes limit windowSeconds c.reply budget).2

def run (budget : Budget) : List Charge → Budget
  | [] => budget
  | c :: rest => run (next limit windowSeconds budget c) rest

def scriptRan : Reply → Bool
  | .answered => true
  | .failed ran => ran

/-- The bytes that the script lets through for a key. -/
def scriptAdmits (key : String) (budget : Budget) (c : Charge) : Nat :=
  if scriptRan c.reply ∧ c.key = key ∧ (CHARGE_SCRIPT c.at_ c.key c.bytes windowSeconds limit budget.store).1.1 = 1 then
    c.bytes
  else 0

/-- The bytes that the map counts for a key. -/
def memoryCounts (key : String) (c : Charge) : Nat := if c.reply ≠ .answered ∧ c.key = key then c.bytes else 0

/-- The bytes that the map lets through for a key. -/
def memoryAdmits (key : String) (budget : Budget) (c : Charge) : Nat :=
  if c.reply ≠ .answered ∧ c.key = key ∧
      (charge c.at_ c.key c.bytes limit windowSeconds c.reply budget).1.allowed = true then
    c.bytes
  else 0

def admitted (admits : Budget → Charge → Nat) (budget : Budget) : List Charge → Nat
  | [] => 0
  | c :: rest => admits budget c + admitted admits (next limit windowSeconds budget c) rest

/-- The map holds the key after every one of the charges. -/
def Present (key : String) (budget : Budget) : List Charge → Prop
  | [] => True
  | c :: rest => (next limit windowSeconds budget c).windows.lookup key ≠ none ∧
      Present key (next limit windowSeconds budget c) rest

/-- A charge that the map counts and that opens a window, with the charges in that window after it. -/
structure OpensInMemory (budget : Budget) (opening : Charge) (within : List Charge) : Prop where
  counted : opening.reply ≠ .answered
  opens : live opening.at_ (budget.windows.lookup opening.key) = none
  inside : ∀ c ∈ within, c.at_ < opening.at_ + windowSeconds * 1000
  present : Present limit windowSeconds opening.key (next limit windowSeconds budget opening) within

structure OpensInRedis (budget : Budget) (opening : Charge) (within : List Charge) : Prop where
  ran : scriptRan opening.reply = true
  opens : Redis.alive opening.at_ (budget.store opening.key) = none
  inside : ∀ c ∈ within, c.at_ < opening.at_ + windowSeconds * 1000

/-- What holds of a budget wherever a run has brought it. -/
structure Safe (budget : Budget) : Prop where
  /-- Within one window of the map no more is let through than the limit. -/
  memory : ∀ opening within, OpensInMemory limit windowSeconds budget opening within →
    admitted limit windowSeconds (memoryAdmits limit windowSeconds opening.key) budget (opening :: within) ≤ limit
  /-- The window stays, with all that was counted in it, whatever Redis answered in between. -/
  keeps : ∀ opening within, OpensInMemory limit windowSeconds budget opening within →
    (run limit windowSeconds budget (opening :: within)).windows.lookup opening.key =
      some ⟨((opening :: within).map (memoryCounts opening.key)).sum, opening.at_ + windowSeconds * 1000⟩
  redis : ∀ opening within, OpensInRedis windowSeconds budget opening within →
    admitted limit windowSeconds (scriptAdmits limit windowSeconds opening.key) budget (opening :: within) ≤ limit
  bounded : budget.windows.length ≤ UPLOAD_BUDGET_FALLBACK_MAX_ENTRIES
  /-- An open window is given up for another only where no window is over. -/
  spares : ∀ c key window, budget.windows.lookup key = some window → c.at_ < window.expiresAt →
    (next limit windowSeconds budget c).windows.lookup key = none → ∀ entry ∈ budget.windows, c.at_ < entry.2.expiresAt

end Runs

section Memory

variable {limit windowSeconds total expiresAt before : Nat} {key : String} {budget : Budget} {c : Charge}

theorem next_windows : (next limit windowSeconds budget c).windows =
    if c.reply = .answered then budget.windows
    else (FixedWindow.charge UPLOAD_BUDGET_FALLBACK_MAX_ENTRIES c.at_ c.key c.bytes (windowSeconds * 1000) budget.windows).2 := by
  unfold next charge chargeSync
  cases c.reply <;> simp

theorem memory_allowed (counted : c.reply ≠ .answered) :
    (charge c.at_ c.key c.bytes limit windowSeconds c.reply budget).1.allowed =
      decide ((charged c.at_ c.bytes (windowSeconds * 1000) (budget.windows.lookup c.key)).total ≤ limit) := by
  unfold charge
  cases reply : c.reply with
  | answered => exact absurd reply counted
  | failed ran =>
      dsimp only
      rw [chargeSync_fst rfl]

/-- The charge in a window that stays open: the map counts it, and lets it through within the limit. -/
theorem memory_step (found : budget.windows.lookup key = some ⟨total, expiresAt⟩) (inside : c.at_ < expiresAt)
    (present : (next limit windowSeconds budget c).windows.lookup key ≠ none) :
    (next limit windowSeconds budget c).windows.lookup key = some ⟨total + memoryCounts key c, expiresAt⟩ ∧
      (memoryAdmits limit windowSeconds key budget c = 0 ∨
        memoryAdmits limit windowSeconds key budget c = memoryCounts key c ∧ total + memoryCounts key c ≤ limit) := by
  rw [next_windows] at present ⊢
  unfold memoryAdmits memoryCounts
  by_cases counted : c.reply = .answered
  · simp [counted, found]
  · rw [if_neg counted, FixedWindow.lookup_charge] at present ⊢
    by_cases same : c.key = key
    · subst same
      rw [if_pos rfl, memory_allowed counted, found, FixedWindow.charged_open (FixedWindow.live_open inside)]
      simp only [ne_eq, counted, not_false_eq_true, and_self, true_and, if_true, decide_eq_true_eq]
      by_cases within : total + c.bytes ≤ limit <;> simp [within]
    · rw [if_neg (Ne.symm same)] at present ⊢
      have stays : ¬FixedWindow.evicted UPLOAD_BUDGET_FALLBACK_MAX_ENTRIES c.at_ c.key budget.windows = some key := by
        intro gone
        rw [if_pos gone] at present
        exact present rfl
      rw [if_neg stays, found]
      simp [same]

theorem memory_run {within : List Charge} (found : budget.windows.lookup key = some ⟨total, expiresAt⟩)
    (inside : ∀ c ∈ within, c.at_ < expiresAt) (present : Present limit windowSeconds key budget within)
    (covered : before ≤ total) (fits : before ≤ limit) :
    before + admitted limit windowSeconds (memoryAdmits limit windowSeconds key) budget within ≤ limit ∧
      (run limit windowSeconds budget within).windows.lookup key =
        some ⟨total + (within.map (memoryCounts key)).sum, expiresAt⟩ := by
  induction within generalizing budget total before with
  | nil => exact ⟨fits, found⟩
  | cons c rest ih =>
      obtain ⟨here, later⟩ := List.forall_mem_cons.mp inside
      obtain ⟨found', admits⟩ := memory_step found here present.1
      rw [admitted, run, List.map_cons, List.sum_cons, ← Nat.add_assoc, ← Nat.add_assoc]
      exact ih found' later present.2 (by omega) (by omega)

/-- The charge that opens a window. -/
theorem memory_open (counted : c.reply ≠ .answered) (opens : live c.at_ (budget.windows.lookup c.key) = none) :
    (next limit windowSeconds budget c).windows.lookup c.key = some ⟨c.bytes, c.at_ + windowSeconds * 1000⟩ ∧
      memoryAdmits limit windowSeconds c.key budget c ≤ c.bytes ∧ memoryAdmits limit windowSeconds c.key budget c ≤
        limit := by
  rw [next_windows, if_neg counted, FixedWindow.lookup_charge, if_pos rfl, FixedWindow.charged_fresh opens]
  refine ⟨rfl, ?_⟩
  unfold memoryAdmits
  rw [memory_allowed counted, FixedWindow.charged_fresh opens]
  by_cases within : c.bytes ≤ limit
  · simp [counted, within]
  · simp [within]

theorem opens_in_memory {within : List Charge} (opens : OpensInMemory limit windowSeconds budget c within) :
    admitted limit windowSeconds (memoryAdmits limit windowSeconds c.key) budget (c :: within) ≤ limit ∧
      (run limit windowSeconds budget (c :: within)).windows.lookup c.key =
        some ⟨((c :: within).map (memoryCounts c.key)).sum, c.at_ + windowSeconds * 1000⟩ := by
  obtain ⟨found, covered, fits⟩ := @memory_open limit windowSeconds _ _ opens.counted opens.opens
  have after := memory_run found opens.inside opens.present covered fits
  have first : memoryCounts c.key c = c.bytes := by simp [memoryCounts, opens.counted]
  rw [admitted, run, List.map_cons, List.sum_cons, first]
  exact after

end Memory

section Script

variable {limit windowSeconds total expiresAt before : Nat} {key : String} {budget : Budget} {c : Charge}

theorem next_store : (next limit windowSeconds budget c).store =
    if scriptRan c.reply then (Redis.countWindow c.at_ c.key c.bytes windowSeconds budget.store).2 else budget.store := by
  unfold next charge CHARGE_SCRIPT scriptRan
  cases c.reply <;> simp

theorem script_flag : (CHARGE_SCRIPT c.at_ c.key c.bytes windowSeconds limit budget.store).1.1 = 1 ↔
    (Redis.countWindow c.at_ c.key c.bytes windowSeconds budget.store).1.1 ≤ limit := by
  unfold CHARGE_SCRIPT
  dsimp only
  split
  · rename_i beyond
    simpa using beyond
  · rename_i within
    simpa using within

theorem scriptAdmits_eq : scriptAdmits limit windowSeconds key budget c =
    if scriptRan c.reply ∧ c.key = key ∧
        (Redis.countWindow c.at_ c.key c.bytes windowSeconds budget.store).1.1 ≤ limit then c.bytes
    else 0 := by
  simp only [scriptAdmits, script_flag]

theorem script_step (found : budget.store key = some ⟨total, some expiresAt⟩) (inside : c.at_ < expiresAt) :
    ∃ counts, (next limit windowSeconds budget c).store key = some ⟨total + counts, some expiresAt⟩ ∧
      (scriptAdmits limit windowSeconds key budget c = 0 ∨
        scriptAdmits limit windowSeconds key budget c = counts ∧ total + counts ≤ limit) := by
  rw [next_store, scriptAdmits_eq]
  by_cases ran : scriptRan c.reply = true
  · rw [if_pos ran]
    by_cases same : c.key = key
    · subst same
      have alive : Redis.alive c.at_ (budget.store c.key) = some ⟨total, some expiresAt⟩ := by
        rw [found, Redis.alive_open inside]
      rw [Redis.countWindow_open alive inside]
      refine ⟨c.bytes, Function.update_self .., ?_⟩
      by_cases within : total + c.bytes ≤ limit <;> simp [ran, within]
    · rw [Redis.countWindow_frame (Ne.symm same), found]
      exact ⟨0, rfl, Or.inl (by simp [same])⟩
  · rw [if_neg ran, found]
    exact ⟨0, rfl, Or.inl (by simp [ran])⟩

theorem script_run {within : List Charge} (found : budget.store key = some ⟨total, some expiresAt⟩)
    (inside : ∀ c ∈ within, c.at_ < expiresAt) (covered : before ≤ total) (fits : before ≤ limit) :
    before + admitted limit windowSeconds (scriptAdmits limit windowSeconds key) budget within ≤ limit := by
  induction within generalizing budget total before with
  | nil => exact fits
  | cons c rest ih =>
      obtain ⟨here, later⟩ := List.forall_mem_cons.mp inside
      obtain ⟨counts, found', admits⟩ := @script_step limit windowSeconds _ _ _ _ _ found here
      rw [admitted, ← Nat.add_assoc]
      exact ih found' later (by omega) (by omega)

theorem script_open (ran : scriptRan c.reply = true) (opens : Redis.alive c.at_ (budget.store c.key) = none) :
    (next limit windowSeconds budget c).store c.key = some ⟨c.bytes, some (c.at_ + windowSeconds * 1000)⟩ ∧
      scriptAdmits limit windowSeconds c.key budget c ≤ c.bytes ∧ scriptAdmits limit windowSeconds c.key budget c ≤
        limit := by
  rw [next_store, if_pos ran, scriptAdmits_eq, Redis.countWindow_fresh opens]
  refine ⟨Function.update_self .., ?_⟩
  by_cases within : c.bytes ≤ limit
  · simp [ran, within]
  · simp [within]

theorem opens_in_redis {within : List Charge} (opens : OpensInRedis windowSeconds budget c within) :
    admitted limit windowSeconds (scriptAdmits limit windowSeconds c.key) budget (c :: within) ≤ limit := by
  obtain ⟨found, covered, fits⟩ := @script_open limit windowSeconds _ _ opens.ran opens.opens
  exact script_run found opens.inside covered fits

end Script

section Reach

variable {limit windowSeconds : Nat} {budget : Budget} {c : Charge}

/-- The map as the charges keep it. -/
def Sound (budget : Budget) : Prop :=
  InsertionMap.Distinct budget.windows ∧ budget.windows.length ≤ UPLOAD_BUDGET_FALLBACK_MAX_ENTRIES

theorem sound_next (sound : Sound budget) : Sound (next limit windowSeconds budget c) := by
  unfold Sound
  rw [next_windows]
  split
  · exact sound
  · exact ⟨FixedWindow.distinct_charge sound.1, FixedWindow.length_charge (by decide) sound.2⟩

theorem sound_run {charges : List Charge} (sound : Sound budget) : Sound (run limit windowSeconds budget charges) := by
  induction charges generalizing budget with
  | nil => exact sound
  | cons c rest ih => exact ih (sound_next sound)

theorem spares_open (sound : Sound budget) {key : String} {window : Window}
    (found : budget.windows.lookup key = some window)
    (still : c.at_ < window.expiresAt) (gone : (next limit windowSeconds budget c).windows.lookup key = none) :
    ∀ entry ∈ budget.windows, c.at_ < entry.2.expiresAt := by
  rw [next_windows] at gone
  by_cases counted : c.reply = .answered
  · rw [if_pos counted, found] at gone
    cases gone
  · rw [if_neg counted, FixedWindow.lookup_charge] at gone
    by_cases same : key = c.key
    · rw [if_pos same] at gone
      cases gone
    · rw [if_neg same] at gone
      by_cases taken : FixedWindow.evicted UPLOAD_BUDGET_FALLBACK_MAX_ENTRIES c.at_ c.key budget.windows = some key
      · exact FixedWindow.victim_open sound.1 (Option.ite_none_right_eq_some.mp taken).2 found still
      · rw [if_neg taken, found] at gone
        cases gone

end Reach

/-- In every run of charges, with Redis failing at any of them, the budget is safe. -/
theorem upload_budget_safe (limit windowSeconds : Nat) (charges : List Charge) :
    Safe limit windowSeconds (run limit windowSeconds fresh charges) := by
  have start : Sound fresh := ⟨List.nodup_nil, Nat.zero_le _⟩
  have sound : Sound (run limit windowSeconds fresh charges) := sound_run start
  constructor
  · exact fun opening within opens => (opens_in_memory opens).1
  · exact fun opening within opens => (opens_in_memory opens).2
  · exact fun opening within opens => opens_in_redis opens
  · exact sound.2
  · exact fun c key window found still gone => spares_open sound found still gone

end Kurul.UploadBudget
