import TopdeskMcp.Tools.CallTool
import TopdeskMcp.Theorems.Paths

/-!
# The resilience limits across calls

The rate limiter and the circuit breaker live in the API client, and
`call_operation` makes a new client for every call. `longLived` is the process
whose calls share one client; what the two let through is the same as long as no
call meets a limit that earlier calls have set (`limits_hold_iff`).

* `Streak` counts the failures in dispatch since the last success, and
  `Remembers` is what a breaker's state is after them;
* `Related` ties the two processes together: same past, same auth manager, and a
  client whose limiter and breaker remember that past;
* one step within the limits keeps them related (`related_step`), and the first
  step beyond them is one the long-lived client rejects (`beyond_differs`).
-/

namespace TopdeskMcp.Theorems.Limits

open TopdeskMcp Trace ApiClient

abbrev Log := List (Invocation × Executed)

/-- When the calls that got past the rate limiter started. -/
def grants (log : Log) : List Nat :=
  (log.filter fun call => call.2.granted).map fun call => call.1.env.start

/-- Failures in dispatch since the last success, and when the last one ended. -/
structure Streak where
  count : Nat
  last : Nat

def Streak.next (k : Streak) (call : Invocation × Executed) : Streak :=
  if call.2.dispatched.isSome then
    match call.2.result with
    | none => k
    | some (.ok _) => { k with count := 0 }
    | some (.error _) => { count := k.count + 1, last := call.1.env.finish }
  else k

def streak (log : Log) : Streak := log.foldl Streak.next { count := 0, last := 0 }

/-- Five consecutive calls or more have failed in dispatch, the last of them less
than 30 seconds before `now`. -/
def Streak.Tripped (k : Streak) (now : Nat) : Prop :=
  5 ≤ k.count ∧ now < k.last + durationFromSecs 30

instance (k : Streak) (now : Nat) : Decidable (k.Tripped now) := by
  unfold Streak.Tripped; infer_instance

/-- Both limits hold of the calls a process has made. -/
structure LimitsHold (config : Config) (log : Log) : Prop where
  rate : ∀ t, ((grants log).filter fun s => t ≤ s ∧ s < t + durationFromSecs 1).length ≤
    config.rateLimit.toNat
  breaker : ∀ before i executed after, log = before ++ (i, executed) :: after →
    (streak before).Tripped i.env.start → executed.sends = 0

/-- Calls made with one client. -/
structure LongLived where
  client : ApiClient
  process : Process

def LongLived.initial (config : Config) (auth : AuthState) (clock : Nat) : LongLived where
  client := .new config
  process := .initial auth clock

/-- The same calls, executed by one long-lived client. -/
def longLived (U : UrlCrate) (config : Config) : Lts LongLived Invocation where
  init l := ∃ auth clock, l = .initial config auth clock
  step l i :=
    if l.process.Follows i then
      let done := l.client.execute U i.endpoint i.args i.requestOverride i.env l.process.auth
      some { client := done.2, process := l.process.record i done.1 }
    else none

/-- What of a call shows: its grant, the request that is dispatched, the sends. -/
def observed (call : Invocation × Executed) : Bool × Option Request × Nat :=
  (call.2.granted, call.2.dispatched, call.2.sends)

section

variable {S : Schemas} {U : UrlCrate} {config : Config} {p p' : Process} {l l' : LongLived}
  {i : Invocation}

/-- The arguments pass input validation. -/
def Valid (S : Schemas) (config : Config) (i : Invocation) : Prop :=
  validateInput S config.apiVersion i.operationId i.args = .ok ()

/-- The request of a call can be built: its address, and its auth headers. -/
def Ready (U : UrlCrate) (config : Config) (p : Process) (i : Invocation) : Prop :=
  ∃ request, (prepare U config i.endpoint (argsMap i.args) i.requestOverride i.env.auth p.auth).1 =
    .ok request

/-- Fewer than `rate_limit` calls were let through in the second before, and no call
that can be built starts within 30 seconds of five consecutive failures. A rate limit
of zero lets nothing through. -/
def WithinLimits (U : UrlCrate) (config : Config) (p : Process) (i : Invocation) : Prop :=
  config.rateLimit.toNat = 0 ∨
    ((recent (durationFromSecs 1) i.env.start (grants p.log)).length < config.rateLimit.toNat ∧
      (Ready U config p i → ¬ (streak p.log).Tripped i.env.start))

/-! ## Logs grow at the end -/

theorem grants_append (log : Log) (call : Invocation × Executed) :
    grants (log ++ [call]) =
      if call.2.granted then grants log ++ [call.1.env.start] else grants log := by
  cases h : call.2.granted <;> simp [grants, h]

theorem streak_append (log : Log) (call : Invocation × Executed) :
    streak (log ++ [call]) = (streak log).next call := by
  simp [streak]

theorem perCall_step (h : (perCall S U config).step p i = some p') :
    p.Follows i ∧ p' = p.record i (callOperation S U config i p.auth).executed := by
  simp only [perCall] at h
  split at h
  · rename_i hfollows
    exact ⟨hfollows, (Option.some.inj h).symm⟩
  · simp at h

theorem longLived_step (h : (longLived U config).step l i = some l') :
    l.process.Follows i ∧
      let done := l.client.execute U i.endpoint i.args i.requestOverride i.env l.process.auth
      l' = { client := done.2, process := l.process.record i done.1 } := by
  simp only [longLived] at h
  split at h
  · rename_i hfollows
    exact ⟨hfollows, (Option.some.inj h).symm⟩
  · simp at h

/-- No call is forgotten. -/
theorem perCall_log {calls : List Invocation} (h : (perCall S U config).run p calls = some p') :
    p.log <+: p'.log := by
  refine Lts.Inductive.reach (I := fun q => p.log <+: q.log) ?_ (List.prefix_refl _) h
  intro q i q' hq _ hstep
  obtain ⟨-, rfl⟩ := perCall_step hstep
  exact hq.trans (List.prefix_append ..)

theorem longLived_log {calls : List Invocation} (h : (longLived U config).run l calls = some l') :
    l.process.log <+: l'.process.log := by
  refine Lts.Inductive.reach (I := fun m => l.process.log <+: m.process.log) ?_
    (List.prefix_refl _) h
  intro m i m' hm _ hstep
  obtain ⟨-, rfl⟩ := longLived_step hstep
  exact hm.trans (List.prefix_append ..)

end

/-! ## What a breaker remembers -/

/-- The breaker's state after a streak of failures: closed while they are fewer than
five, and then open since the last one, or half-open once the reset timeout is over. -/
structure Remembers (b : CircuitBreaker) (k : Streak) (clock : Nat) : Prop where
  threshold : b.failureThreshold = 5
  timeout : b.resetTimeout = durationFromSecs 30
  state : (k.count < 5 ∧ b.inner.state = .closed ∧ b.inner.failureCount.toNat = k.count) ∨
    (5 ≤ k.count ∧ b.inner.openedAt = some k.last ∧
      (b.inner.state = .opened ∨
        (b.inner.state = .halfOpen ∧ k.last + durationFromSecs 30 ≤ clock)))

variable {b b' : CircuitBreaker} {k : Streak} {clock now finish : Nat}

/-- The general rules about breakers apply to this one. -/
theorem remembers_iff (hthreshold : b.failureThreshold = 5)
    (htimeout : b.resetTimeout = durationFromSecs 30) :
    Remembers b k clock ↔ b.Remembers k.count k.last clock := by
  have htrip : b.tripCount = 5 := by
    rw [CircuitBreaker.tripCount, hthreshold]
    rfl
  have hpositive : 0 < durationFromSecs 30 := by decide
  have hover : k.last + durationFromSecs 30 ≤ clock ↔ durationFromSecs 30 ≤ clock - k.last := by
    omega
  unfold CircuitBreaker.Remembers
  rw [htrip, htimeout, ← hover]
  exact ⟨fun h => h.state, fun h => ⟨hthreshold, htimeout, h⟩⟩

theorem Remembers.general (h : Remembers b k clock) : b.Remembers k.count k.last clock :=
  (remembers_iff h.threshold h.timeout).mp h

theorem remembers_new (clock : Nat) : Remembers .default { count := 0, last := 0 } clock :=
  (remembers_iff rfl rfl).mpr (CircuitBreaker.remembers_new ..)

/-- The breaker rejects exactly the calls that come within 30 seconds of five
consecutive failures. -/
theorem Remembers.enter_eq_none_iff (h : Remembers b k clock) (hnow : clock ≤ now) :
    b.enter now = none ↔ k.Tripped now := by
  have htrip : b.tripCount = 5 := by
    rw [CircuitBreaker.tripCount, h.threshold]
    rfl
  have hpositive : 0 < durationFromSecs 30 := by decide
  rw [h.general.enter_eq_none_iff hnow, htrip, h.timeout, Streak.Tripped]
  omega

/-- Nothing is forgotten while no call is made. -/
theorem Remembers.mono (h : Remembers b k clock) {later : Nat} (hle : clock ≤ later) :
    Remembers b k later := (remembers_iff h.threshold h.timeout).mpr (h.general.mono hle)

/-- An admitted call finds the breaker closed or half-open. -/
theorem Remembers.enter (h : Remembers b k clock) (hnow : clock ≤ now)
    (henter : b.enter now = some b') : Remembers b' k now ∧ b'.inner.state ≠ .opened := by
  obtain ⟨hgeneral, hstate⟩ := h.general.enter hnow henter
  have hsame : b'.failureThreshold = b.failureThreshold ∧ b'.resetTimeout = b.resetTimeout := by
    obtain ⟨-, rfl⟩ | ⟨-, -, rfl⟩ := CircuitBreaker.enter_eq_some henter <;> exact ⟨rfl, rfl⟩
  exact ⟨(remembers_iff (hsame.1.trans h.threshold) (hsame.2.trans h.timeout)).mpr hgeneral, hstate⟩

theorem Remembers.onSuccess (h : Remembers b k clock) (later : Nat) :
    Remembers b.onSuccess { k with count := 0 } later := by
  have hthreshold : b.onSuccess.failureThreshold = 5 := h.threshold
  have htimeout : b.onSuccess.resetTimeout = durationFromSecs 30 := h.timeout
  exact (remembers_iff hthreshold htimeout).mpr (CircuitBreaker.Remembers.onSuccess b k.last later)

theorem Remembers.onFailure (h : Remembers b k clock) (hstate : b.inner.state ≠ .opened)
    (finish : Nat) :
    Remembers (b.onFailure finish) { count := k.count + 1, last := finish } finish := by
  have hthreshold := (b.onFailure_failureThreshold finish).trans h.threshold
  have htimeout := (b.onFailure_resetTimeout finish).trans h.timeout
  exact (remembers_iff hthreshold htimeout).mpr (h.general.onFailure hstate finish)

/-- Settling an admitted call extends the streak as its result says. -/
theorem Remembers.settle (h : Remembers b k now) (hstate : b.inner.state ≠ .opened)
    {i : Invocation} {executed : Executed} {result : Option (Except CallError Json.Value)}
    (hdispatched : executed.dispatched.isSome) (hresult : executed.result = result)
    (hfinish : now ≤ i.env.finish) :
    Remembers (settle b i.env.finish result) (k.next (i, executed)) i.env.finish := by
  unfold Streak.next
  rw [if_pos hdispatched, hresult]
  rcases result with _ | (err | value)
  · exact h.mono hfinish
  · exact h.onFailure hstate _
  · exact h.onSuccess _

/-! ## What a client with a past does -/

section

variable {S : Schemas} {U : UrlCrate} {config : Config} {client : ApiClient} {log : Log}
  {auth : AuthState} {i : Invocation}

/-- An execution by a client that remembers the calls in a log. -/
def remembering (U : UrlCrate) (config : Config) (log : Log) (i : Invocation) (auth : AuthState) :
    Executed :=
  if config.rateLimit.toNat ≤ (recent (durationFromSecs 1) i.env.start (grants log)).length then
    stopped (.mcpify .rateLimitExceeded) false auth
  else
    let prepared := prepare U config i.endpoint (argsMap i.args) i.requestOverride i.env.auth auth
    match prepared.1 with
    | .error err => stopped err true prepared.2
    | .ok request =>
        if (streak log).Tripped i.env.start then
          { result := some (.error (.message "circuit breaker is open")), granted := true,
            decorated := some request.headers, dispatched := none, sends := 0, auth := prepared.2 }
        else
          let sent := dispatch config.retryAttempts request i.env.outcomes
          { result := sent.result, granted := true, decorated := some request.headers,
            dispatched := some request, sends := sent.sends, auth := prepared.2 }

/-- The limiter and the breaker of a client have seen just the calls in a log. -/
structure Mindful (config : Config) (log : Log) (clock : Nat) (client : ApiClient) : Prop where
  config_eq : client.config = config
  limit : client.rateLimiter.limit = config.rateLimit.toNat
  window : client.rateLimiter.window = durationFromSecs 1
  limiter : client.rateLimiter.Tracks (grants log) clock
  breaker : Remembers client.circuitBreaker (streak log) clock

theorem mindful_new (config : Config) (clock : Nat) : Mindful config [] clock (.new config) :=
  ⟨rfl, rfl, rfl, fun _ _ => rfl, remembers_new clock⟩

/-- A call that does not reach `dispatch` leaves the streak alone. -/
theorem streak_append_of_none {executed : Executed} (h : executed.dispatched = none) :
    streak (log ++ [(i, executed)]) = streak log := by
  simp [streak_append, Streak.next, h]

/-- The limiter and the breaker after a call make a client that remembers it too. -/
theorem Mindful.extend (h : Mindful config log clock client) (hstart : clock ≤ i.env.start)
    (hfinish : i.env.start ≤ i.env.finish) {executed : Executed} {b : CircuitBreaker}
    (hgranted : executed.granted = !decide (config.rateLimit.toNat ≤
      (recent (durationFromSecs 1) i.env.start (grants log)).length))
    (hbreaker : Remembers b (streak (log ++ [(i, executed)])) i.env.finish) :
    Mindful config (log ++ [(i, executed)]) i.env.finish
      { client with
        rateLimiter := (client.rateLimiter.acquire i.env.start).2, circuitBreaker := b } := by
  obtain ⟨hlimit, hwindow⟩ := client.rateLimiter.acquire_limit i.env.start
  refine ⟨h.config_eq, hlimit.trans h.limit, hwindow.trans h.window, fun now hnow => ?_, hbreaker⟩
  rw [h.limiter.acquire hstart now (hfinish.trans hnow), h.limit, h.window, grants_append, hgranted]
  by_cases hle : config.rateLimit.toNat ≤
      (recent (durationFromSecs 1) i.env.start (grants log)).length <;> simp [hle]

/-- A client that remembers a log executes the next call by it, and remembers that too. -/
theorem Mindful.execute (U : UrlCrate) (auth : AuthState)
    (h : Mindful config log clock client) (hstart : clock ≤ i.env.start)
    (hfinish : i.env.start ≤ i.env.finish) :
    let done := client.execute U i.endpoint i.args i.requestOverride i.env auth
    done.1 = remembering U config log i auth ∧
      Mindful config (log ++ [(i, done.1)]) i.env.finish done.2 := by
  have hacquire := RateLimiter.acquire_eq h.limiter hstart
  have hsame : Remembers client.circuitBreaker (streak log) i.env.finish :=
    h.breaker.mono (hstart.trans hfinish)
  have hconfig : prepare U client.config i.endpoint (argsMap i.args) i.requestOverride i.env.auth
      auth = prepare U config i.endpoint (argsMap i.args) i.requestOverride i.env.auth auth := by
    rw [h.config_eq]
  rw [h.limit, h.window] at hacquire
  by_cases hle : config.rateLimit.toNat ≤
      (recent (durationFromSecs 1) i.env.start (grants log)).length
  · -- the limiter rejects the call
    rw [if_pos hle] at hacquire
    rw [execute_of_rejected hacquire]
    refine ⟨by rw [remembering, if_pos hle], h.extend hstart hfinish (by simp [stopped, hle]) ?_⟩
    rwa [streak_append_of_none rfl]
  · rw [if_neg hle] at hacquire
    cases hprepare : (prepare U config i.endpoint (argsMap i.args) i.requestOverride i.env.auth
        auth).1 with
    | error err =>
        -- the call is granted, and cannot be built
        rw [execute_of_unprepared hacquire (hconfig ▸ hprepare), hconfig]
        refine ⟨by simp only [remembering, if_neg hle, hprepare],
          h.extend hstart hfinish (by simp [stopped, hle]) ?_⟩
        rwa [streak_append_of_none rfl]
    | ok request =>
        rw [execute_of_prepared hacquire (hconfig ▸ hprepare), hconfig]
        let served : ApiClient :=
          { client with rateLimiter := (client.rateLimiter.acquire i.env.start).2 }
        by_cases htripped : (streak log).Tripped i.env.start
        · -- the breaker rejects the request
          have henter : served.circuitBreaker.enter i.env.start = none :=
            (h.breaker.enter_eq_none_iff hstart).mpr htripped
          rw [send_of_rejected henter]
          refine ⟨by simp only [remembering, if_neg hle, hprepare, if_pos htripped],
            h.extend hstart hfinish (by simp [hle]) ?_⟩
          rwa [streak_append_of_none rfl]
        · -- the request is dispatched, and its result settles the breaker
          have hadmitted : served.circuitBreaker.enter i.env.start ≠ none :=
            (h.breaker.enter_eq_none_iff hstart).not.mpr htripped
          obtain ⟨b, hb⟩ := Option.ne_none_iff_exists'.mp hadmitted
          obtain ⟨hremembers, hstate⟩ := h.breaker.enter hstart hb
          have hretries : served.config.retryAttempts = config.retryAttempts :=
            congrArg Config.retryAttempts h.config_eq
          rw [send_of_enter hb, hretries]
          dsimp only
          refine ⟨by simp only [remembering, if_neg hle, hprepare, if_neg htripped], ?_⟩
          refine h.extend hstart hfinish ?_ ?_
          · simp [hle]
          · rw [streak_append]
            exact hremembers.settle hstate rfl rfl hfinish

/-! ## Calls within the limits -/

theorem remembering_granted : (remembering U config log i auth).granted =
    !decide (config.rateLimit.toNat ≤
      (recent (durationFromSecs 1) i.env.start (grants log)).length) := by
  unfold remembering
  by_cases hle : config.rateLimit.toNat ≤
      (recent (durationFromSecs 1) i.env.start (grants log)).length
  · simp [hle, stopped]
  · simp only [hle, if_false, decide_false, Bool.not_false]
    split
    · rfl
    · split <;> rfl

theorem remembering_tripped (h : (streak log).Tripped i.env.start) :
    (remembering U config log i auth).dispatched = none ∧
      (remembering U config log i auth).sends = 0 := by
  unfold remembering
  simp only [if_pos h]
  split
  · exact ⟨rfl, rfl⟩
  · split <;> exact ⟨rfl, rfl⟩

theorem not_tripped_nil (now : Nat) : ¬ (streak []).Tripped now := fun h =>
  absurd h.1 (by decide)

theorem recent_grants_nil (now : Nat) : (recent (durationFromSecs 1) now (grants [])).length = 0 :=
  rfl

/-- Within the limits the past does not matter. -/
theorem remembering_eq {p : Process} (h : WithinLimits U config p i) :
    remembering U config [] i p.auth = remembering U config p.log i p.auth := by
  unfold remembering
  rcases h with hzero | ⟨hlimit, hready⟩
  · -- a limit of zero rejects with any past
    rw [hzero, if_pos (Nat.zero_le _), if_pos (Nat.zero_le _)]
  · rw [recent_grants_nil, if_neg (by omega), if_neg (by omega)]
    dsimp only
    split
    · rfl
    · rename_i request hrequest
      rw [if_neg (not_tripped_nil _), if_neg (hready ⟨request, hrequest⟩)]

/-- Beyond the limits a client with a past shows something else than one without. -/
theorem observed_ne {p : Process} (h : ¬ WithinLimits U config p i) :
    observed (i, remembering U config [] i p.auth) ≠
      observed (i, remembering U config p.log i p.auth) := by
  unfold WithinLimits at h
  push Not at h
  obtain ⟨hpos, h⟩ := h
  intro heq
  have hgranted := congrArg Prod.fst heq
  have hdispatched := congrArg (fun o => o.2.1) heq
  simp only [observed, remembering_granted, recent_grants_nil] at hgranted hdispatched
  by_cases hlimit : (recent (durationFromSecs 1) i.env.start (grants p.log)).length <
      config.rateLimit.toNat
  · -- the breaker's memory keeps the request from being dispatched
    obtain ⟨⟨request, hrequest⟩, htripped⟩ := h hlimit
    rw [(remembering_tripped htripped).1] at hdispatched
    have hfirst : ¬ config.rateLimit.toNat ≤
        (recent (durationFromSecs 1) i.env.start (grants [])).length := by
      rw [recent_grants_nil]
      omega
    simp [remembering, hfirst, hrequest, not_tripped_nil] at hdispatched
  · -- the limiter's memory keeps the call from being granted
    have hfirst : ¬ config.rateLimit.toNat ≤ 0 := by omega
    simp [hfirst, Nat.le_of_not_lt hlimit] at hgranted

end

/-! ## The two processes side by side -/

section

variable {S : Schemas} {U : UrlCrate} {config : Config} {p p' : Process} {l l' : LongLived}
  {i : Invocation} {calls : List Invocation}

/-- `call_operation` executes valid arguments as a client without a past does. -/
theorem callOperation_valid (hvalid : Valid S config i) (hfollows : p.Follows i) :
    (callOperation S U config i p.auth).executed = remembering U config [] i p.auth := by
  rw [callOperation, hvalid]
  exact ((mindful_new config i.env.start).execute U p.auth (Nat.le_refl _) hfollows.2).1

/-- The two processes have made the same calls, and the long-lived client has seen
them. -/
structure Related (config : Config) (p : Process) (l : LongLived) : Prop where
  process : l.process = p
  client : Mindful config p.log p.clock l.client

theorem related_step : (perCall S U config).Simulates (longLived U config)
    (fun p i => WithinLimits U config p i ∧ Valid S config i) (Related config) := by
  rintro p l i p' ⟨rfl, hclient⟩ ⟨hwithin, hvalid⟩ hstep
  obtain ⟨hfollows, rfl⟩ := perCall_step hstep
  obtain ⟨hexecuted, hmindful⟩ := hclient.execute U l.process.auth hfollows.1 hfollows.2
  have hsame := (callOperation_valid (S := S) (U := U) hvalid hfollows).trans
    ((remembering_eq hwithin).trans hexecuted.symm)
  refine ⟨_, if_pos hfollows, ?_, ?_⟩
  · rw [hsame]
  · rw [hsame]
    exact hmindful

/-- What a process within the limits keeps: its grants are spaced, and no call that
came too soon after five failures sent anything. -/
structure Kept (config : Config) (p : Process) : Prop where
  spaced : Spaced config.rateLimit.toNat (durationFromSecs 1) (grants p.log)
  past : ∀ t ∈ grants p.log, t ≤ p.clock
  breaker : ∀ before i executed after, p.log = before ++ (i, executed) :: after →
    (streak before).Tripped i.env.start → executed.sends = 0

theorem Kept.limitsHold (h : Kept config p) : LimitsHold config p.log where
  rate := window_bound h.spaced
  breaker := h.breaker

theorem kept_step : (perCall S U config).Inductive
    (fun p i => WithinLimits U config p i ∧ Valid S config i) (Kept config) := by
  rintro p i p' hkept ⟨hwithin, hvalid⟩ hstep
  obtain ⟨hfollows, rfl⟩ := perCall_step hstep
  have hsame := (callOperation_valid (S := S) (U := U) hvalid hfollows).trans
    (remembering_eq hwithin)
  have hstart : ∀ t ∈ grants p.log, t ≤ i.env.start := fun t ht =>
    (hkept.past t ht).trans hfollows.1
  rw [hsame]
  refine ⟨?_, ?_, ?_⟩
  · rw [Process.record, grants_append, remembering_granted]
    split
    · rename_i hgranted
      exact .snoc hkept.spaced hstart (by simpa using hgranted)
    · exact hkept.spaced
  · rw [Process.record, grants_append]
    intro t ht
    have hle : t ≤ i.env.start := by
      split at ht
      · rcases List.mem_append.mp ht with ht | ht
        · exact hstart t ht
        · rw [List.mem_singleton.mp ht]
      · exact hstart t ht
    exact hle.trans hfollows.2
  · intro before j executed after hlog htripped
    -- the call in question is the last one, or was there before it
    rcases List.eq_nil_or_concat after with rfl | ⟨after', last, rfl⟩
    · obtain ⟨rfl, hcall⟩ := List.append_inj' hlog rfl
      obtain ⟨rfl, rfl⟩ := Prod.mk.inj (List.cons.inj hcall).1
      exact (remembering_tripped htripped).2
    · refine hkept.breaker before j executed after' ?_ htripped
      have hlog' : p.log ++ [(i, remembering U config p.log i p.auth)] =
          (before ++ (j, executed) :: after') ++ [last] := by
        simpa [Process.record] using hlog
      exact (List.append_inj' hlog' rfl).1

/-- The first call beyond the limits shows, whatever comes after it. -/
theorem beyond_differs (hrelated : Related config p l) (hvalid : Valid S config i)
    (hbeyond : ¬ WithinLimits U config p i)
    (hp : (perCall S U config).run p (i :: calls) = some p')
    (hl : (longLived U config).run l (i :: calls) = some l') :
    p'.log.map observed ≠ l'.process.log.map observed := by
  obtain ⟨rfl, hclient⟩ := hrelated
  obtain ⟨q, hq, hrest⟩ := Lts.run_cons_eq_some.mp hp
  obtain ⟨m, hm, hrestl⟩ := Lts.run_cons_eq_some.mp hl
  obtain ⟨hfollows, rfl⟩ := perCall_step hq
  obtain ⟨-, rfl⟩ := longLived_step hm
  obtain ⟨rest, hlog⟩ := perCall_log hrest
  obtain ⟨restl, hlogl⟩ := longLived_log hrestl
  have hexecuted := (hclient.execute U l.process.auth hfollows.1 hfollows.2).1
  rw [← hlog, ← hlogl, callOperation_valid hvalid hfollows, hexecuted]
  simp only [Process.record, List.append_assoc, List.map_append, List.map_cons,
    List.singleton_append]
  intro heq
  exact observed_ne hbeyond (List.cons.inj (List.append_cancel_left heq)).1

/-- The limits hold across calls, and the calls are those of one long-lived client, if
and only if every call is made within the limits. -/
theorem limits_hold_iff {auth : AuthState} {clock : Nat} (hvalid : ∀ i ∈ calls, Valid S config i)
    (hrun : (perCall S U config).run (.initial auth clock) calls = some p) :
    (LimitsHold config p.log ∧
      ∃ l, (longLived U config).run (.initial config auth clock) calls = some l ∧
        p.log.map observed = l.process.log.map observed) ↔
      (perCall S U config).Along (WithinLimits U config) (.initial auth clock) calls := by
  have hstart : Related config (.initial auth clock) (.initial config auth clock) :=
    ⟨rfl, mindful_new config clock⟩
  constructor
  · rintro ⟨-, l, hl, hobserved⟩
    by_contra hnot
    -- up to the first call beyond the limits the two processes are related
    obtain ⟨before, i, after, t, rfl, ht, halong, hbeyond⟩ :=
      Lts.exists_first_of_not_along hrun hnot
    have hbefore := halong.and (Lts.along_of_forall_mem fun j hj _ => hvalid j (by simp [hj]))
    obtain ⟨m, hm, hrelated⟩ := related_step.run hstart hbefore ht
    obtain ⟨t', ht', hp⟩ := Lts.run_append_eq_some.mp hrun
    obtain ⟨m', hm', hl⟩ := Lts.run_append_eq_some.mp hl
    obtain rfl : t = t' := Option.some.inj (ht.symm.trans ht')
    obtain rfl : m = m' := Option.some.inj (hm.symm.trans hm')
    exact beyond_differs hrelated (hvalid i (by simp)) hbeyond hp hl hobserved
  · intro halong
    have hall := halong.and (Lts.along_of_forall_mem fun i hi _ => hvalid i hi)
    have hkept : Kept config (.initial auth clock) :=
      ⟨.nil, by simp [Process.initial, grants], by simp [Process.initial]⟩
    obtain ⟨l, hl, hrelated⟩ := related_step.run hstart hall hrun
    exact ⟨(kept_step.run hkept hall hrun).limitsHold, l, hl, by rw [hrelated.process]⟩

end

/-! ## Calls at one moment -/

namespace Burst

open Paths.Incident

def config (rateLimit : UInt32) : Config :=
  { url := "https://desk.example/api", authMethod := .basic, transport := .http, rateLimit }

def schemas : Schemas where
  input _ _ _ := none
  output _ _ _ := none

/-- A call that starts and ends at time zero. -/
def call (status : Nat) : Invocation where
  endpoint := endpoint
  operationId := "getIncident"
  args := args "42"
  requestOverride := some basicHeader
  env := { env with outcomes := [.response status none] }

/-- Two calls pass a limit of one a second, and the sixth of six failing calls is sent
like the five before it. -/
theorem limits_fail :
    (∃ p l, (perCall schemas (.whatwg host) (config 1)).run (.initial auth 0)
        [call 200, call 200] = some p ∧
      (longLived (.whatwg host) (config 1)).run (.initial (config 1) auth 0)
        [call 200, call 200] = some l ∧
      ¬ LimitsHold (config 1) p.log ∧ p.log.map observed ≠ l.process.log.map observed) ∧
    ∃ p, (perCall schemas (.whatwg host) (config 100)).run (.initial auth 0)
        (List.replicate 6 (call 500)) = some p ∧ ¬ LimitsHold (config 100) p.log := by
  refine ⟨⟨_, _, rfl, rfl, fun h => ?_, fun h => ?_⟩, _, rfl, fun h => ?_⟩
  · exact absurd (h.rate 0) (by decide)
  · have hgrants := congrArg (List.map Prod.fst) h
    exact absurd hgrants (by decide)
  · have hsends := h.breaker [_, _, _, _, _] _ _ [] rfl ⟨by decide, by decide⟩
    exact absurd hsends (by decide)

theorem limits_hold_iff_pair : ∃ p, (perCall schemas (.whatwg host) (config 100)).run
    (.initial auth 0) [call 500, call 200] = some p ∧ LimitsHold (config 100) p.log := by
  have hvalid : ∀ i ∈ [call 500, call 200], Valid schemas (config 100) i := by
    intro i _
    rfl
  have hwithin : (perCall schemas (.whatwg host) (config 100)).Along
      (WithinLimits (.whatwg host) (config 100)) (.initial auth 0) [call 500, call 200] :=
    .cons (.inr ⟨by decide, fun _ h => absurd h.1 (by decide)⟩) rfl
      (.cons (.inr ⟨by decide, fun _ h => absurd h.1 (by decide)⟩) rfl trivial)
  exact ⟨_, rfl, ((limits_hold_iff hvalid rfl).mpr hwithin).1⟩

end Burst

end TopdeskMcp.Theorems.Limits
