import Kurul.Machine
import Kurul.RateLimit.AuthRateLimit
import Kurul.RateLimit.UploadBudget

/-! Each limiter and its fallback side by side: every request is put to both. -/
namespace Kurul.Fallbacks

open FixedWindow (Window charged Fair Matches Timely)

/-- A limiter's Redis store, the map of its fallback, and the time of the last request. -/
structure Stores where
  clock : Nat
  store : Redis.Store String
  entries : List (String × Window)

def empty : Stores := ⟨0, fun _ => none, []⟩

/-- Both count the same under every key. -/
def Level (stores : Stores) : Prop := ∀ key, Matches stores.clock (stores.entries.lookup key) (stores.store key)

theorem level_empty : Level empty := fun _ => rfl

/-- One request more, counted by both without a key losing its place. -/
theorem Level.counted {stores : Stores} (level : Level stores) {cap now amount seconds : Nat} {key : String}
    (order : stores.clock ≤ now) (roomy : FixedWindow.evicted cap now key stores.entries = none) {raised : Window}
    (raised_ : charged now amount (seconds * 1000) (stores.entries.lookup key) = raised) :
    Level ⟨now, Function.update stores.store key (some ⟨raised.total, some raised.expiresAt⟩),
      (FixedWindow.charge cap now key amount (seconds * 1000) stores.entries).2⟩ := by
  intro other
  dsimp only
  rw [FixedWindow.lookup_charge, roomy, raised_]
  by_cases same : other = key
  · rw [if_pos same, same, Function.update_self]
    exact FixedWindow.matches_some
  · rw [if_neg same, Function.update_of_ne same, if_neg (by simp)]
    exact (level other).mono order

/-- Two answers, flag and seconds, to a request counted in a window: one verdict, and a fair wait in each
where it is a refusal. -/
structure Agree (now : Nat) (window : Window) (redis memory : Bool × Nat) : Prop where
  verdict : redis.1 = memory.1
  redis : Fair now window redis.1 redis.2
  memory : Fair now window memory.1 memory.2

theorem agree_iff {now amount seconds limit : Nat} {before : Option Window} {raised : Window} {redis memory : Bool × Nat}
    (raised_ : charged now amount (seconds * 1000) before = raised)
    (redis_ : redis.1 = decide (raised.total ≤ limit)) (memory_ : memory.1 = decide (raised.total ≤ limit))
    (left : redis.1 = false →
      redis.2 = FixedWindow.reported (((raised.expiresAt - now + 500) / 1000 : Nat) : Int) seconds)
    (wait : memory.1 = false → memory.2 = FixedWindow.waiting now seconds before) :
    Agree now raised redis memory ↔ Timely now amount seconds limit before := by
  have refused : decide (raised.total ≤ limit) = false ↔ limit < raised.total := by simp
  rw [← FixedWindow.both_fair_iff raised_ refused]
  constructor
  · intro agree
    refine ⟨fun no => ?_, fun no => ?_⟩
    · rw [← redis_] at no
      rw [← left no]
      exact agree.redis no
    · rw [← memory_] at no
      rw [← wait no]
      exact agree.memory no
  · rintro ⟨fairRedis, fairMemory⟩
    refine ⟨redis_.trans memory_.symm, fun no => ?_, fun no => ?_⟩
    · rw [left no]
      exact fairRedis (redis_ ▸ no)
    · rw [wait no]
      exact fairMemory (memory_ ▸ no)

namespace Auth

open AuthRateLimit

structure Request where
  at_ : Nat
  raw : String
  rule : Rule

def fromRedis (stores : Stores) (request : Request) : Verdict × Redis.Store String :=
  consume request.at_ request.raw request.rule stores.store

def fromMemory (stores : Stores) (request : Request) : Verdict × List (String × Window) :=
  consumeInMemory request.at_ (redisKey request.raw) request.rule stores.entries

/-- Times do not go back, and the fallback has a place for the key. -/
def step (stores : Stores) (request : Request) : Option Stores :=
  if stores.clock ≤ request.at_ ∧
      FixedWindow.evicted FALLBACK_MAX_ENTRIES request.at_ (redisKey request.raw) stores.entries = none then
    some ⟨request.at_, (fromRedis stores request).2, (fromMemory stores request).2⟩
  else none

/-- The window that the request is counted in. -/
def counted (stores : Stores) (request : Request) : Window :=
  charged request.at_ 1 (request.rule.window * 1000) (stores.entries.lookup (redisKey request.raw))

def answer (verdict : Verdict) : Bool × Nat := (verdict.allowed, verdict.retryAfter.getD 0)

def Agrees (stores : Stores) (request : Request) : Prop :=
  Agree request.at_ (counted stores request) (answer (fromRedis stores request).1) (answer (fromMemory stores request).1)

def InTime (stores : Stores) (request : Request) : Prop :=
  Timely request.at_ 1 request.rule.window request.rule.max (stores.entries.lookup (redisKey request.raw))

instance (stores : Stores) (request : Request) : Decidable (InTime stores request) :=
  inferInstanceAs (Decidable (Timely ..))

variable {stores next : Stores} {request : Request}

theorem fromRedis_eq (level : Level stores) (order : stores.clock ≤ request.at_) :
    fromRedis stores request =
      (if (counted stores request).total > request.rule.max then
          ⟨false, some (FixedWindow.reported ((((counted stores request).expiresAt - request.at_ + 500) / 1000 : Nat) : Int)
            request.rule.window)⟩
        else ⟨true, none⟩,
      Function.update stores.store (redisKey request.raw)
        (some ⟨(counted stores request).total, some (counted stores request).expiresAt⟩)) :=
  consume_eq ((level (redisKey request.raw)).mono order) rfl

theorem fromMemory_eq : (fromMemory stores request).1 =
    if (counted stores request).total > request.rule.max then
      ⟨false, some (FixedWindow.waiting request.at_ request.rule.window (stores.entries.lookup (redisKey request.raw)))⟩
    else ⟨true, none⟩ :=
  consumeInMemory_eq rfl

theorem answer_if {total max seconds : Nat} : answer (if total > max then ⟨false, some seconds⟩ else ⟨true, none⟩) =
    (decide (total ≤ max), if total ≤ max then 0 else seconds) := by
  by_cases within : total ≤ max
  · simp [answer, within, Nat.not_lt.mpr within]
  · simp [answer, within, Nat.lt_of_not_le within]

theorem step_level (level : Level stores) (stepped : step stores request = some next) : Level next := by
  obtain ⟨⟨order, roomy⟩, made⟩ := Option.ite_none_right_eq_some.mp stepped
  cases made
  rw [fromRedis_eq level order]
  exact level.counted order roomy rfl

theorem agrees_iff (level : Level stores) (order : stores.clock ≤ request.at_) :
    Agrees stores request ↔ InTime stores request := by
  unfold Agrees
  rw [fromRedis_eq level order, fromMemory_eq, answer_if, answer_if]
  refine agree_iff rfl rfl rfl (fun no => ?_) (fun no => ?_)
  · exact if_neg (of_decide_eq_false no)
  · exact if_neg (of_decide_eq_false no)

/-- Along a run both agree with a fair wait at every refusal, exactly where every request is in time. -/
theorem run_agrees {requests : List Request} {final : Stores} (ran : Machine.run step empty requests = some final) :
    Machine.Meets step Agrees empty requests ↔ Machine.Meets step InTime empty requests := by
  apply Machine.meets_iff (I := Level) _ _ level_empty ran
  · exact fun _ _ _ level stepped => step_level level stepped
  · intro stores request next level stepped
    exact agrees_iff level (Option.ite_none_right_eq_some.mp stepped).1.1

end Auth

namespace Upload

open UploadBudget

structure Request where
  at_ : Nat
  key : String
  bytes : Nat
  limit : Nat
  windowSeconds : Nat

def script (stores : Stores) (request : Request) : (Nat × Int) × Redis.Store String :=
  CHARGE_SCRIPT request.at_ request.key request.bytes request.windowSeconds request.limit stores.store

def fromMemory (stores : Stores) (request : Request) : ByteBudgetVerdict × List (String × Window) :=
  chargeSync request.at_ request.key request.bytes request.limit request.windowSeconds stores.entries

def step (stores : Stores) (request : Request) : Option Stores :=
  if stores.clock ≤ request.at_ ∧
      FixedWindow.evicted UPLOAD_BUDGET_FALLBACK_MAX_ENTRIES request.at_ request.key stores.entries = none then
    some ⟨request.at_, (script stores request).2, (fromMemory stores request).2⟩
  else none

def counted (stores : Stores) (request : Request) : Window :=
  charged request.at_ request.bytes (request.windowSeconds * 1000) (stores.entries.lookup request.key)

def answer (verdict : ByteBudgetVerdict) : Bool × Nat := (verdict.allowed, verdict.retryAfterSeconds)

def Agrees (stores : Stores) (request : Request) : Prop :=
  Agree request.at_ (counted stores request) (answer (verdictOf request.windowSeconds (script stores request).1))
    (answer (fromMemory stores request).1)

def InTime (stores : Stores) (request : Request) : Prop :=
  Timely request.at_ request.bytes request.windowSeconds request.limit (stores.entries.lookup request.key)

instance (stores : Stores) (request : Request) : Decidable (InTime stores request) :=
  inferInstanceAs (Decidable (Timely ..))

variable {stores next : Stores} {request : Request}

theorem script_spec (level : Level stores) (order : stores.clock ≤ request.at_) :
    verdictOf request.windowSeconds (script stores request).1 =
      ⟨decide ((counted stores request).total ≤ request.limit),
        FixedWindow.reported ((((counted stores request).expiresAt - request.at_ + 500) / 1000 : Nat) : Int)
          request.windowSeconds⟩ ∧
    (script stores request).2 = Function.update stores.store request.key
      (some ⟨(counted stores request).total, some (counted stores request).expiresAt⟩) :=
  script_eq ((level request.key).mono order) rfl

theorem fromMemory_eq : (fromMemory stores request).1 =
    ⟨decide ((counted stores request).total ≤ request.limit),
      FixedWindow.waiting request.at_ request.windowSeconds (stores.entries.lookup request.key)⟩ :=
  chargeSync_fst rfl

theorem step_level (level : Level stores) (stepped : step stores request = some next) : Level next := by
  obtain ⟨⟨order, roomy⟩, made⟩ := Option.ite_none_right_eq_some.mp stepped
  cases made
  rw [(script_spec level order).2]
  exact level.counted order roomy rfl

theorem agrees_iff (level : Level stores) (order : stores.clock ≤ request.at_) :
    Agrees stores request ↔ InTime stores request := by
  unfold Agrees
  rw [(script_spec level order).1, fromMemory_eq]
  exact agree_iff rfl rfl rfl (fun _ => rfl) (fun _ => rfl)

theorem run_agrees {requests : List Request} {final : Stores} (ran : Machine.run step empty requests = some final) :
    Machine.Meets step Agrees empty requests ↔ Machine.Meets step InTime empty requests := by
  apply Machine.meets_iff (I := Level) _ _ level_empty ran
  · exact fun _ _ _ level stepped => step_level level stepped
  · intro stores request next level stepped
    exact agrees_iff level (Option.ite_none_right_eq_some.mp stepped).1.1

end Upload

/-- Of both limiters: in a run, the store and its fallback give one verdict to every request and a fair wait
with every refusal, exactly where every refused request is in time. -/
theorem limiters_agree_with_fallbacks (consumed : List Auth.Request) (uploads : List Upload.Request) :
    (∀ final, Machine.run Auth.step empty consumed = some final →
      (Machine.Meets Auth.step Auth.Agrees empty consumed ↔ Machine.Meets Auth.step Auth.InTime empty consumed)) ∧
    ∀ final, Machine.run Upload.step empty uploads = some final →
      (Machine.Meets Upload.step Upload.Agrees empty uploads ↔
        Machine.Meets Upload.step Upload.InTime empty uploads) := by
  constructor
  · exact fun _ ran => Auth.run_agrees ran
  · exact fun _ ran => Upload.run_agrees ran

def firstAttempt : Auth.Request := ⟨0, "ip|/sign-in", 10, 1⟩
def secondAttempt : Auth.Request := ⟨5000, "ip|/sign-in", 10, 1⟩
def firstUpload : Upload.Request := ⟨0, "user", 8, 10, 60⟩
def secondUpload : Upload.Request := ⟨30000, "user", 8, 10, 60⟩

/-- An attempt and an upload refused half way through their windows. -/
theorem limiters_agree_with_fallbacks_halfway :
    (Machine.run Auth.step empty [firstAttempt]).map (fun stores => (Auth.fromRedis stores secondAttempt).1) =
        some ⟨false, some 5⟩ ∧
      Machine.Meets Auth.step Auth.Agrees empty [firstAttempt, secondAttempt] ∧
      (Machine.run Upload.step empty [firstUpload]).map
          (fun stores => UploadBudget.verdictOf 60 (Upload.script stores secondUpload).1) = some ⟨false, 30⟩ ∧
      Machine.Meets Upload.step Upload.Agrees empty [firstUpload, secondUpload] := by
  have ran : (Machine.run Auth.step empty [firstAttempt, secondAttempt]).isSome := by decide +kernel
  have uploaded : (Machine.run Upload.step empty [firstUpload, secondUpload]).isSome := by decide +kernel
  obtain ⟨final, ran⟩ := Option.isSome_iff_exists.mp ran
  obtain ⟨stored, uploaded⟩ := Option.isSome_iff_exists.mp uploaded
  have agree := limiters_agree_with_fallbacks [firstAttempt, secondAttempt] [firstUpload, secondUpload]
  refine ⟨by decide +kernel, (agree.1 final ran).mpr ?_, by decide +kernel, (agree.2 stored uploaded).mpr ?_⟩
  · exact Machine.meets_of_checks (fun stores request => decide (Auth.InTime stores request))
      (fun _ _ => of_decide_eq_true) (by decide +kernel)
  · exact Machine.meets_of_checks (fun stores request => decide (Upload.InTime stores request))
      (fun _ _ => of_decide_eq_true) (by decide +kernel)

/-- A second attempt, refused with three tenths of a second of its window left. -/
def lateRequests : List Auth.Request := [⟨0, "ip|/sign-in", 10, 1⟩, ⟨9700, "ip|/sign-in", 10, 1⟩]

theorem last_half_second : (Machine.run Auth.step empty lateRequests).isSome ∧
    ¬Machine.Meets Auth.step Auth.Agrees empty lateRequests := by
  have ran : (Machine.run Auth.step empty lateRequests).isSome := by decide +kernel
  refine ⟨ran, fun agree => ?_⟩
  obtain ⟨final, ran⟩ := Option.isSome_iff_exists.mp ran
  have inTime := ((Auth.run_agrees ran).mp agree).2 _ (if_pos (by decide +kernel))
  have late := inTime.1
  have found : FixedWindow.live 9700 ((Auth.fromMemory empty ⟨0, "ip|/sign-in", 10, 1⟩).2.lookup
      (AuthRateLimit.redisKey "ip|/sign-in")) = some ⟨1, 10000⟩ := by decide +kernel
  unfold Auth.InTime Timely at late
  rw [found] at late
  simp at late

end Kurul.Fallbacks
