import TopdeskMcp.Services.ApiClient
import Mathlib.Tactic.SplitIfs

/-!
# The retry loop of `dispatch`

`dispatch` sends until a response arrives or `retry_attempts + 1` sends have failed in
transport. `Obeys` says this of a dispatch with a budget of sends, and one turn of the
loop passes the rest of the budget on (`Obeys.retry`).

The loop's counter is a `u32` that is compared after it is incremented. With
`retry_attempts` at the top of the range no value exceeds the limit, and after 2^32
failures the counter overflows; `CounterFits` is what keeps the loop to its budget, and
`obeys_iff` says when it holds.
-/

namespace TopdeskMcp.Theorems.Retry

open TopdeskMcp

/-- A send that got no response. -/
def Failed (outcome : SendOutcome) : Prop := ∃ text, outcome = .error text

/-- The first `n` sends all fail in transport. -/
def AllFail (n : Nat) (outcomes : List SendOutcome) : Prop :=
  ∃ failed rest, outcomes = failed ++ rest ∧ failed.length = n ∧ ∀ outcome ∈ failed, Failed outcome

/-- A dispatch that keeps to a budget of sends: it stops at the first response and returns
what that determines, and it returns the last transport error exactly when the whole
budget fails. -/
structure Obeys (budget : Nat) (outcomes : List SendOutcome) (d : Dispatched) : Prop where
  sends_le : d.sends ≤ budget
  response : ∀ failed status body rest, outcomes = failed ++ .response status body :: rest →
    (∀ outcome ∈ failed, Failed outcome) → failed.length < budget →
    d.result = some (readResponse status body) ∧ d.sends = failed.length + 1
  exhausted : ∀ text, d.result = some (.error (.transport text)) ↔
    ∃ failed rest, outcomes = failed ++ rest ∧ failed.length = budget ∧
      (∀ outcome ∈ failed, Failed outcome) ∧ failed.getLast? = some (.error text)

/-- No increment of the attempt counter overflows. -/
def CounterFits (retryAttempts attempt : UInt32) : List SendOutcome → Prop
  | .error _ :: outcomes => attempt.toNat + 1 < UInt32.size ∧
      (¬ retryAttempts < attempt + 1 → CounterFits retryAttempts (attempt + 1) outcomes)
  | .response _ _ :: _ => True
  | [] => True

/-! ## One turn of the loop -/

theorem readResponse_ne_transport (status : Nat) (body : Option Json.Value) (text : String) :
    readResponse status body ≠ .error (.transport text) := by
  unfold readResponse
  split <;> simp

/-- A prefix of failures cannot reach past a response. -/
theorem not_failed_response {status : Nat} {body : Option Json.Value}
    {failed rest outcomes : List SendOutcome} (heq : .response status body :: outcomes =
      failed ++ rest) (hfailed : ∀ outcome ∈ failed, Failed outcome) : failed = [] := by
  cases failed with
  | nil => rfl
  | cons outcome failed =>
      obtain ⟨text, rfl⟩ := hfailed outcome (by simp)
      simp at heq

variable {budget : Nat} {outcomes : List SendOutcome} {text : String}

theorem allFail_zero (outcomes : List SendOutcome) : AllFail 0 outcomes :=
  ⟨[], outcomes, rfl, rfl, by simp⟩

theorem allFail_error {n : Nat} : AllFail (n + 1) (.error text :: outcomes) ↔ AllFail n outcomes := by
  constructor
  · rintro ⟨failed, rest, heq, hlength, hfailed⟩
    cases failed with
    | nil => simp at hlength
    | cons outcome failed =>
        refine ⟨failed, rest, (List.cons.inj heq).2, by simpa using hlength, ?_⟩
        exact fun o ho => hfailed o (by simp [ho])
  · rintro ⟨failed, rest, rfl, rfl, hfailed⟩
    refine ⟨.error text :: failed, rest, rfl, rfl, ?_⟩
    intro outcome hmem
    rcases List.mem_cons.mp hmem with rfl | hmem
    · exact ⟨text, rfl⟩
    · exact hfailed outcome hmem

theorem not_allFail_response {n : Nat} {status : Nat} {body : Option Json.Value} :
    ¬ AllFail (n + 1) (.response status body :: outcomes) := by
  rintro ⟨failed, rest, heq, hlength, hfailed⟩
  obtain rfl := not_failed_response heq hfailed
  simp at hlength

theorem not_allFail_nil {n : Nat} : ¬ AllFail (n + 1) [] := by
  rintro ⟨failed, rest, heq, hlength, -⟩
  obtain ⟨rfl, -⟩ := List.append_eq_nil_iff.mp heq.symm
  simp at hlength

/-- The last send never returns. -/
theorem obeys_nil (hbudget : 0 < budget) : Obeys budget [] { result := none, sends := 1 } where
  sends_le := hbudget
  response failed status body rest heq := by simp at heq
  exhausted text := by
    refine ⟨fun h => by simp at h, ?_⟩
    rintro ⟨failed, rest, heq, hlength, -, -⟩
    obtain ⟨rfl, -⟩ := List.append_eq_nil_iff.mp heq.symm
    simp only [List.length_nil] at hlength
    omega

theorem obeys_response (hbudget : 0 < budget) (status : Nat) (body : Option Json.Value) :
    Obeys budget (.response status body :: outcomes)
      { result := some (readResponse status body), sends := 1 } where
  sends_le := hbudget
  response failed status' body' rest heq hfailed _ := by
    obtain rfl := not_failed_response heq hfailed
    obtain ⟨hresponse, -⟩ := List.cons.inj heq
    obtain ⟨rfl, rfl⟩ := SendOutcome.response.inj hresponse
    exact ⟨rfl, rfl⟩
  exhausted text := by
    constructor
    · intro h
      exact absurd (Option.some.inj h) (readResponse_ne_transport status body text)
    · rintro ⟨failed, rest, heq, hlength, hfailed, -⟩
      obtain rfl := not_failed_response heq hfailed
      simp only [List.length_nil] at hlength
      omega

/-- A failure at the end of the budget is returned. -/
theorem obeys_last : Obeys 1 (.error text :: outcomes)
    { result := some (.error (.transport text)), sends := 1 } where
  sends_le := Nat.le_refl 1
  response failed status body rest heq hfailed hlt := by
    obtain rfl := List.length_eq_zero_iff.mp (by omega : failed.length = 0)
    simp at heq
  exhausted text' := by
    constructor
    · intro h
      obtain rfl : text = text' := by simpa using h
      exact ⟨[.error text], outcomes, rfl, rfl, by simp [Failed], rfl⟩
    · rintro ⟨failed, rest, heq, hlength, -, hlast⟩
      obtain ⟨outcome, rfl⟩ := List.length_eq_one_iff.mp hlength
      obtain ⟨rfl, -⟩ := List.cons.inj heq
      simpa using hlast

/-- A failure before the end of the budget leaves the rest of it to the rest of the loop. -/
theorem Obeys.retry (text : String) {d : Dispatched} (hbudget : 0 < budget) (h : Obeys budget outcomes d) :
    Obeys (budget + 1) (.error text :: outcomes) { d with sends := d.sends + 1 } where
  sends_le := Nat.succ_le_succ h.sends_le
  response failed status body rest heq hfailed hlt := by
    cases failed with
    | nil => simp at heq
    | cons outcome failed =>
        obtain ⟨-, heq⟩ := List.cons.inj heq
        simp only [List.length_cons, Nat.add_lt_add_iff_right] at hlt
        obtain ⟨hresult, hsends⟩ := h.response failed status body rest heq
          (fun o ho => hfailed o (by simp [ho])) hlt
        exact ⟨hresult, by simp [hsends]⟩
  exhausted text' := by
    rw [h.exhausted text']
    constructor
    · rintro ⟨failed, rest, heq, hlength, hfailed, hlast⟩
      refine ⟨.error text :: failed, rest, by simp [heq], by simp [hlength], ?_, ?_⟩
      · intro outcome hmem
        rcases List.mem_cons.mp hmem with rfl | hmem
        · exact ⟨text, rfl⟩
        · exact hfailed outcome hmem
      · rw [List.getLast?_cons, hlast]
        rfl
    · rintro ⟨failed, rest, heq, hlength, hfailed, hlast⟩
      cases failed with
      | nil => simp at hlength
      | cons outcome failed =>
          obtain ⟨-, heq⟩ := List.cons.inj heq
          simp only [List.length_cons, Nat.add_right_cancel_iff] at hlength
          have hne : failed ≠ [] := List.ne_nil_of_length_pos (by omega)
          refine ⟨failed, rest, heq, hlength, fun o ho => hfailed o (by simp [ho]), ?_⟩
          rwa [List.getLast?_cons_of_ne_nil hne] at hlast

/-! ## The whole loop -/

/-- While the counter fits, the loop keeps to the sends it has left. -/
theorem obeys_dispatchLoop {retryAttempts attempt : UInt32} (hle : attempt ≤ retryAttempts)
    (h : CounterFits retryAttempts attempt outcomes) :
    Obeys (retryAttempts.toNat - attempt.toNat + 1) outcomes
      (dispatchLoop retryAttempts attempt outcomes) := by
  induction outcomes generalizing attempt with
  | nil => exact obeys_nil (Nat.succ_pos _)
  | cons outcome outcomes ih =>
      cases outcome with
      | response status body => exact obeys_response (Nat.succ_pos _) status body
      | error text =>
          obtain ⟨hfits, hrest⟩ := h
          have hle' := UInt32.le_iff_toNat_le.mp hle
          have hnext : (attempt + 1).toNat = attempt.toNat + 1 := by
            rw [UInt32.toNat_add]
            exact Nat.mod_eq_of_lt hfits
          unfold dispatchLoop
          split
          · -- the counter has reached the limit
            rename_i hlast
            rw [UInt32.lt_iff_toNat_lt, hnext] at hlast
            rw [show retryAttempts.toNat - attempt.toNat + 1 = 1 by omega]
            exact obeys_last
          · rename_i hmore
            have hle'' : attempt + 1 ≤ retryAttempts := UInt32.not_lt.mp hmore
            have hobeys := (ih hle'' (hrest hmore)).retry text (Nat.succ_pos _)
            rw [UInt32.le_iff_toNat_le, hnext] at hle''
            rw [hnext] at hobeys
            rwa [show retryAttempts.toNat - attempt.toNat + 1 =
              retryAttempts.toNat - (attempt.toNat + 1) + 1 + 1 by omega]

/-- The counter overflows exactly when the limit is the top of the range and every send
up to the one that reaches it fails. -/
theorem counterFits_iff {retryAttempts attempt : UInt32} (hle : attempt ≤ retryAttempts) {n : Nat}
    (hn : attempt.toNat + (n + 1) = UInt32.size) : CounterFits retryAttempts attempt outcomes ↔
      ¬ (retryAttempts.toNat + 1 = UInt32.size ∧ AllFail (n + 1) outcomes) := by
  induction outcomes generalizing attempt n with
  | nil => exact ⟨fun _ h => not_allFail_nil h.2, fun _ => trivial⟩
  | cons outcome outcomes ih =>
      cases outcome with
      | response status body => exact ⟨fun _ h => not_allFail_response h.2, fun _ => trivial⟩
      | error text =>
          have hle' := UInt32.le_iff_toNat_le.mp hle
          rw [allFail_error]
          cases n with
          | zero =>
              -- the counter is at the top of the range, and so is the limit
              refine ⟨fun h => absurd h.1 (by omega), fun h => absurd ⟨?_, allFail_zero _⟩ h⟩
              have hlt : retryAttempts.toNat < UInt32.size := retryAttempts.toNat_lt
              omega
          | succ n =>
              have hnext : (attempt + 1).toNat = attempt.toNat + 1 := by
                rw [UInt32.toNat_add]
                exact Nat.mod_eq_of_lt (show attempt.toNat + 1 < UInt32.size by omega)
              unfold CounterFits
              by_cases hlast : retryAttempts < attempt + 1
              · -- the limit is reached below the top of the range
                rw [UInt32.lt_iff_toNat_lt, hnext] at hlast
                refine ⟨fun _ h => absurd h.1 (by omega), fun _ => ⟨by omega, fun h => ?_⟩⟩
                rw [UInt32.lt_iff_toNat_lt, hnext] at h
                exact absurd hlast h
              · rw [← ih (UInt32.not_lt.mp hlast) (by rw [hnext]; omega)]
                exact ⟨fun h => h.2 hlast, fun h => ⟨by omega, fun _ => h⟩⟩

/-- What the retry loop promises for `retry_attempts`: it obeys its budget, and its counter
does not overflow. -/
def KeepsToBudget (retryAttempts : UInt32) (outcomes : List SendOutcome) (d : Dispatched) : Prop :=
  Obeys (retryAttempts.toNat + 1) outcomes d ∧ CounterFits retryAttempts 0 outcomes

theorem dispatchLoop_keeps_iff {retryAttempts : UInt32} :
    KeepsToBudget retryAttempts outcomes (dispatchLoop retryAttempts 0 outcomes) ↔
      CounterFits retryAttempts 0 outcomes :=
  ⟨fun h => h.2, fun h => ⟨obeys_dispatchLoop (UInt32.le_iff_toNat_le.mpr (Nat.zero_le _)) h, h⟩⟩

/-- **Retry bound and result.** With a valid method, `dispatch` keeps to its budget of
`retry_attempts + 1` sends without overflow if and only if `retry_attempts` is below the
top of its range or one of the first 2^32 sends does not fail in transport. -/
theorem dispatch_keeps_iff (retryAttempts : UInt32) (request : Request)
    (outcomes : List SendOutcome) (hmethod : isMethod request.method = true) :
    KeepsToBudget retryAttempts outcomes (dispatch retryAttempts request outcomes) ↔
      (retryAttempts.toNat < UInt32.size - 1 ∨ ¬ AllFail UInt32.size outcomes) := by
  have hlt : retryAttempts.toNat < UInt32.size := retryAttempts.toNat_lt
  rw [dispatch, if_pos hmethod, dispatchLoop_keeps_iff,
    counterFits_iff (UInt32.le_iff_toNat_le.mpr (Nat.zero_le _)) (n := UInt32.size - 1) (by decide),
    not_and_or]
  exact or_congr_left (by omega)

/-- A request whose method is valid. -/
def getRequest : Request where
  method := "GET"
  url := "https://desk.example/".toList
  body := none
  headers := ∅

/-- Two failures and a response, with three retries. -/
theorem dispatch_keeps_iff_response :
    KeepsToBudget 3 [.error "reset", .error "reset", .response 200 none]
      (dispatch 3 getRequest [.error "reset", .error "reset", .response 200 none]) :=
  (dispatch_keeps_iff 3 getRequest _ (by decide)).mpr (.inl (by decide))

/-- At the top of the range failures never end the loop. -/
theorem dispatchLoop_top (text : String) (n : Nat) (attempt : UInt32) :
    dispatchLoop 4294967295 attempt (List.replicate n (.error text)) =
      { result := none, sends := n + 1 } := by
  induction n generalizing attempt with
  | zero => rfl
  | succ n ih =>
      have hlt := (attempt + 1).toNat_lt
      have hnot : ¬ (4294967295 : UInt32) < attempt + 1 := by
        rw [UInt32.lt_iff_toNat_lt]
        show ¬ 4294967295 < (attempt + 1).toNat
        omega
      rw [List.replicate_succ, dispatchLoop, if_neg hnot, ih]

/-- 2^32 transport errors. -/
def resets : List SendOutcome := List.replicate UInt32.size (.error "reset")

/-- With `retry_attempts` at 4294967295 and 2^32 transport errors, one more request is sent
than the limit allows. -/
theorem dispatch_overflows :
    (dispatch 4294967295 getRequest resets).sends = UInt32.size + 1 ∧
      ¬ KeepsToBudget 4294967295 resets (dispatch 4294967295 getRequest resets) := by
  have hdispatch : dispatch 4294967295 getRequest resets =
      { result := none, sends := UInt32.size + 1 } := by
    rw [dispatch, if_pos (by decide)]
    exact dispatchLoop_top "reset" UInt32.size 0
  rw [hdispatch]
  refine ⟨rfl, fun h => ?_⟩
  exact absurd h.1.sends_le (by decide)

end TopdeskMcp.Theorems.Retry
