import KompicsBenches.GuardedRuns

namespace KompicsBenches.SlidingWindow

open GuardedRuns

-- A requester that is started once and then gets answers. Both make it send requests
-- and signal that it is done, or fail.
structure Requester (σ M : Type) where
  start : σ → Option (σ × List M × ℕ)
  answer : σ → Option (σ × List M × ℕ)

-- Requests and answers arrive in any order, each of them once. `sent` are the
-- requests so far, in their order, and `handled` counts the answers.
structure System (σ M A : Type) where
  requester : σ
  started : Bool
  requests : Multiset M
  answers : Multiset A
  sent : List M
  handled : ℕ
  signals : ℕ

inductive Event (M A : Type) where
  | start
  | request (m : M)
  | answer (a : A)

section Steps
variable {σ M A : Type} [DecidableEq M] [DecidableEq A] (r : Requester σ M) (reply : M → A)

def initial (s : σ) : System σ M A := ⟨s,false,0,0,[],0,0⟩

def System.after (s : System σ M A) (requester : σ) (requests : List M) (signals : ℕ) : System σ M A :=
  { s with
    requester := requester
    requests := s.requests + requests
    sent := s.sent ++ requests
    signals := s.signals + signals }

def step (s : System σ M A) : Event M A → Option (System σ M A)
  | .start =>
    if s.started then none
    else (r.start s.requester).map fun (requester,requests,signals) =>
      { s with started := true }.after requester requests signals
  | .request m =>
    if m ∈ s.requests then some { s with requests := s.requests.erase m, answers := s.answers + {reply m} }
    else none
  | .answer a =>
    if a ∈ s.answers then
      (r.answer s.requester).map fun (requester,requests,signals) =>
        { s with answers := s.answers.erase a, handled := s.handled + 1 }.after requester requests signals
    else none

end Steps

-- At most `window` of `count` requests are out; all of them are sent and answered
-- when the one signal is given, and until then something is out.
structure Paced {σ M A : Type} (r : Requester σ M) (request : ℕ → M) (count window : ℕ) (s : System σ M A) :
    Prop where
  bound : s.sent.length ≤ s.handled + window
  sent : s.sent <+: (List.range count).map request
  once : s.signals = if s.handled = count then 1 else 0
  complete : s.signals = 1 → s.sent = (List.range count).map request ∧ s.requests = 0 ∧ s.answers = 0
  busy : s.started = true → s.requests = 0 → s.answers = 0 → s.signals = 1
  answered : s.answers ≠ 0 → (r.answer s.requester).isSome

-- The requests between two counts.
def between {M : Type} (request : ℕ → M) (a b : ℕ) : List M := (List.range' a (b - a)).map request

theorem between_cons {M : Type} (request : ℕ → M) (some_left : a < b) :
    between request a b = request a :: between request (a + 1) b := by
  rw [between,show b - a = b - (a + 1) + 1 by omega,List.range'_succ]
  rfl

theorem between_nil {M : Type} (request : ℕ → M) (none_left : b ≤ a) : between request a b = [] := by
  rw [between,show b - a = 0 by omega]
  rfl

-- The requester is ahead of the answers by its window, as long as there is more to
-- ask for.
structure Windowed {σ M : Type} (r : Requester σ M) (request : ℕ → M) (count window : ℕ) (begun : σ)
    (holds : σ → ℕ → Prop) : Prop where
  start : ∃ next, r.start begun = some (next,between request 0 (min count window),0) ∧ holds next 0
  answer : ∀ s handled, holds s handled → handled < count → ∃ next, r.answer s =
    some (next,between request (min count (window + handled)) (min count (window + handled + 1)),
      if handled + 1 = count then 1 else 0) ∧ holds next (handled + 1)

section Runs
variable {σ M A : Type} {r : Requester σ M} {request : ℕ → M} {count window : ℕ} {begun : σ} {holds : σ → ℕ → Prop}
  {s next : System σ M A}

inductive Progress (request : ℕ → M) (count window : ℕ) (begun : σ) (holds : σ → ℕ → Prop) (s : System σ M A) :
    Prop where
  | waiting : s.started = false → s.requester = begun → s.sent = [] → s.requests = 0 → s.answers = 0 →
      s.handled = 0 → s.signals = 0 → Progress request count window begun holds s
  | running : s.started = true → holds s.requester s.handled → s.handled ≤ count →
      s.sent = (List.range (min count (window + s.handled))).map request →
      s.handled + s.requests.card + s.answers.card = s.sent.length →
      s.signals = (if s.handled = count then 1 else 0) → Progress request count window begun holds s

theorem range_between (request : ℕ → M) {a b : ℕ} (low : a ≤ b) :
    (List.range a).map request ++ between request a b = (List.range b).map request := by
  rw [between,← List.map_append,List.range_eq_range',List.range_eq_range']
  have split : List.range' 0 a ++ List.range' (0 + a) (b - a) = _ := List.range'_append_1
  rw [Nat.zero_add,Nat.add_sub_cancel' low] at split
  rw [split]

theorem Progress.paced (some_request : 1 ≤ count) (some_window : 1 ≤ window) (fits : min count window ≤ bound)
    (windowed : Windowed r request count window begun holds)
    (progress : Progress request count window begun holds s) : Paced r request count bound s := by
  cases progress with
  | waiting idle fresh sent requests answers handled signals =>
    constructor
    · simp [sent]
    · simp [sent]
    · rw [signals,handled,if_neg (by omega)]
    · omega
    · intro started
      rw [idle] at started
      cases started
    · intro some_answer
      exact absurd answers some_answer
  | running started held few sent out signals =>
    have length : s.sent.length = min count (window + s.handled) := by simp [sent]
    constructor
    · omega
    · rw [sent,← range_between request (show min count (window + s.handled) ≤ count by omega)]
      exact List.prefix_append _ _
    · exact signals
    · intro done
      have all : s.handled = count := by
        by_contra open_request
        rw [if_neg open_request] at signals
        omega
      refine ⟨?_,Multiset.card_eq_zero.mp (by omega),Multiset.card_eq_zero.mp (by omega)⟩
      rw [sent,all,Nat.min_eq_left (by omega)]
    · intro _ no_request no_answer
      simp only [no_request,no_answer,Multiset.card_zero] at out
      rw [signals,if_pos (by omega)]
    · intro some_answer
      have more : s.handled < count := by
        have some_out := Multiset.card_pos.mpr some_answer
        omega
      obtain ⟨after,answered,-⟩ := windowed.answer s.requester s.handled held more
      rw [answered]
      rfl

variable [DecidableEq M] [DecidableEq A] {reply : M → A}

theorem progress_step (some_request : 1 ≤ count) (windowed : Windowed r request count window begun holds)
    (progress : Progress request count window begun holds s) (done : step r reply s event = some next) :
    Progress request count window begun holds next := by
  cases event with
  | start =>
    simp only [step] at done
    split at done
    · cases done
    · rename_i idle
      cases progress with
      | waiting _ fresh sent requests answers handled signals =>
        obtain ⟨after,started,held⟩ := windowed.start
        rw [fresh,started] at done
        cases done
        refine .running rfl ?_ ?_ ?_ ?_ ?_
        · simpa [System.after,handled] using held
        · simp [System.after,handled]
        · simp [System.after,sent,handled,between,List.range_eq_range']
        · simp [System.after,sent,handled,requests,answers]
        · simp only [System.after,handled,signals]
          rw [if_neg (by omega)]
      | running started => exact absurd started idle
  | request m =>
    simp only [step] at done
    split at done
    · rename_i present
      cases done
      cases progress with
      | waiting _ _ _ requests =>
        rw [requests] at present
        exact absurd present (Multiset.notMem_zero m)
      | running started held few sent out signals =>
        refine .running started held few sent ?_ signals
        have taken := Multiset.card_erase_add_one present
        simp only [Multiset.card_add,Multiset.card_singleton]
        omega
    · cases done
  | answer a =>
    simp only [step] at done
    split at done
    · rename_i present
      cases progress with
      | waiting _ _ _ _ answers =>
        rw [answers] at present
        exact absurd present (Multiset.notMem_zero a)
      | running started held few sent out signals =>
        have taken := Multiset.card_erase_add_one present
        have more : s.handled < count := by
          have length : s.sent.length = min count (window + s.handled) := by simp [sent]
          omega
        obtain ⟨after,answered,holds_next⟩ := windowed.answer s.requester s.handled held more
        rw [answered] at done
        cases done
        refine .running started holds_next more ?_ ?_ ?_
        · simp only [System.after]
          rw [sent,range_between request (by omega)]
          rfl
        · simp only [System.after,Multiset.card_add,Multiset.coe_card,List.length_append]
          omega
        · simp only [System.after,signals]
          rw [if_neg (by omega),Nat.zero_add]
    · cases done

theorem reached_progress (some_request : 1 ≤ count) (windowed : Windowed r request count window begun holds)
    (path : Reached (step r reply) (fun _ _ => True) (initial begun) s) :
    Progress request count window begun holds s := by
  apply path.invariant (Progress request count window begun holds)
  · exact .waiting rfl rfl rfl rfl rfl rfl rfl
  · intro s event next progress _ done
    exact progress_step some_request windowed progress done

-- The window is used up at the start, when there is enough to ask for.
theorem paced_iff (some_request : 1 ≤ count) (some_window : 1 ≤ window) (bound : ℕ)
    (windowed : Windowed r request count window begun holds) :
    (∀ s, Reached (step r reply) (fun _ _ => True) (initial begun) s → Paced r request count bound s) ↔
      min count window ≤ bound := by
  constructor
  · intro paced
    obtain ⟨next,started,-⟩ := windowed.start
    have begins : step r reply (initial begun) .start =
        some ({ initial begun with started := true }.after next (between request 0 (min count window)) 0) := by
      simp [step,initial,started]
    have first := (paced _ (.step .start trivial begins)).bound
    simpa [System.after,initial,between] using first
  · intro fits s path
    exact (reached_progress some_request windowed path).paced some_request some_window fits windowed

end Runs

end KompicsBenches.SlidingWindow
