import TopdeskMcp.Theorems.Gate

/-!
# What the probes of the HTTP server see

`/metrics` and `/healthz` answer from state that the rest of the process changes: the counters
and the registry are functions of the events so far (`counters_run`, `shown_run`), whatever
happened in between to the requests and the calls.
-/

namespace TopdeskMcp.Theorems.Probes

open TopdeskMcp Http Trace

open TopdeskMcp.Theorems.Health (flagOf statusOf flagOf_register flagOf_report statusOf_report)

section

variable {app : App} {auth : AuthState} {checks : List (String × Bool)} {s s' : Gateway}
  {es : List Event} {incoming : Incoming} {id : Nat}

/-! ## Requests that are counted -/

/-- The requests that go by a counter: those that `metrics_handler` gets, and all that come to the
gate, with the refused ones among them. -/
def counts : Event → Bool
  | .receive _ incoming =>
      match incoming.route with
      | .healthz => false
      | .metrics => incoming.isGet
      | .mcp => true
      | .unrouted => true
  | _ => false

def countEvent (counters : Metrics.Counters) (e : Event) : Metrics.Counters :=
  if counts e then Metrics.increment httpRequestsTotal counters else counters

theorem counters_receive : (s.receive app id incoming).counters =
    countEvent s.counters (.receive id incoming) := by
  unfold Gateway.receive
  split
  · rename_i hroute
    rw [Gateway.counters_get]
    simp [countEvent, counts, hroute]
  · rename_i hroute
    rw [Gateway.counters_get]
    simp [countEvent, counts, hroute, Gateway.count]
  · rename_i hroute
    rw [Gateway.counters_gated rfl]
    simp [countEvent, counts, hroute, Gateway.count]
  · rename_i hroute
    rw [Gateway.counters_gated rfl]
    simp [countEvent, counts, hroute, Gateway.count]

theorem counters_step {e : Event} (h : s.step app e = some s') :
    s'.counters = countEvent s.counters e := by
  rcases Gateway.step_cases h with ⟨id, incoming, rfl, -, rfl⟩ |
    ⟨id, call, operationId, arguments, incoming, mcp, rfl, -, -, rfl⟩ |
    ⟨event, mcp, rfl, -, -, rfl⟩ | ⟨check, outcome, now, rfl, rfl⟩ |
    ⟨id, inner, incoming, rfl, -, rfl⟩
  · exact counters_receive
  · rfl
  · rfl
  · unfold Gateway.report
    split <;> rfl
  · rfl

theorem foldl_countEvent (es : List Event) (n : Nat) :
    es.foldl countEvent (Metrics.counted httpRequestsTotal n) =
      Metrics.counted httpRequestsTotal (n + es.countP counts) := by
  induction es generalizing n with
  | nil => rfl
  | cons e es ih =>
      rw [List.foldl_cons, List.countP_cons]
      by_cases he : counts e = true
      · rw [countEvent, if_pos he, if_pos he]
        show es.foldl countEvent (Metrics.counted httpRequestsTotal (n + 1)) = _
        rw [ih, Nat.add_assoc, Nat.add_comm 1]
      · rw [countEvent, if_neg he, if_neg he]
        exact ih n

/-- The counters are those of the requests so far. -/
theorem counters_run (hrun : (gateway app).run (.initial auth checks) es = some s) :
    s.counters = Metrics.counted httpRequestsTotal (es.countP counts) := by
  have hfold := Lts.run_foldl (f := Gateway.counters) (g := countEvent)
    (fun _ _ _ => counters_step) hrun
  rw [hfold]
  have hcount := foldl_countEvent es 0
  rw [Nat.zero_add] at hcount
  exact hcount

/-! ## Requests that are being handled -/

/-- A request that is being handled has been received, and if it is one for `metrics_handler` it
has a method of it. -/
def Received (es : List Event) (s : Gateway) : Prop :=
  ∀ id incoming, s.requests id = .handling incoming → .receive id incoming ∈ es ∧
    (incoming.route = .metrics → incoming.isGet = true)

theorem received_run (hrun : (gateway app).run (.initial auth checks) es = some s) :
    Received es s := by
  induction es using List.reverseRecOn generalizing s with
  | nil =>
      obtain rfl : Gateway.initial auth checks = s := by simpa using hrun
      intro id incoming h
      simp [Gateway.initial] at h
  | append_singleton es e ih =>
      obtain ⟨t, ht, hstep⟩ := Lts.run_concat_eq_some.mp hrun
      have hold : ∀ id incoming, t.requests id = .handling incoming →
          .receive id incoming ∈ es ++ [e] ∧
            (incoming.route = .metrics → incoming.isGet = true) :=
        fun id incoming h => (ih ht id incoming h).imp_left (List.mem_append_left _)
      intro id incoming h
      rcases Gateway.step_cases hstep with ⟨other, found, rfl, -, rfl⟩ |
        ⟨other, call, operationId, arguments, found, mcp, -, -, -, rfl⟩ |
        ⟨event, mcp, -, -, -, rfl⟩ | ⟨check, outcome, now, -, rfl⟩ |
        ⟨other, inner, found, -, -, rfl⟩
      · by_cases heq : id = other
        · subst heq
          obtain ⟨rfl, hget⟩ := Gateway.requests_receive_self h
          exact ⟨by simp, hget⟩
        · rw [Gateway.requests_receive_of_ne heq] at h
          exact hold id incoming h
      · exact hold id incoming h
      · exact hold id incoming h
      · refine hold id incoming ?_
        unfold Gateway.report at h
        split at h <;> exact h
      · refine hold id incoming ?_
        by_cases heq : id = other
        · subst heq
          simp [Gateway.finish, Gateway.setRequest] at h
        · simpa [Gateway.finish, Gateway.setRequest, heq] using h

/-- A handler that ends answers with what it finds. -/
theorem answered_of_respond {inner : Response} (hhandling : s.requests id = .handling incoming)
    (hstep : s.step app (.respond id inner) = some s') : s'.requests id =
      .answered incoming (app.answer incoming (s.response incoming.route inner)) := by
  simp only [Gateway.step, hhandling, Option.some.injEq] at hstep
  rw [← hstep]
  exact Function.update_self ..

/-- **Scrapes.** Whatever has happened, `/metrics` answers with the number of requests so far,
modulo 2^64: all that came to the gate count, also the refused ones and those to paths that have no
route, and so do the scrapes, this one among them; requests to `/healthz`, and those to `/metrics`
with another method than `GET` and `HEAD`, do not. -/
theorem scrape_exact (app : App) (auth : AuthState) (checks : List (String × Bool))
    (es : List Event) (s s' : Gateway) (id : Nat) (incoming : Incoming) (inner : Response)
    (hrun : (gateway app).run (.initial auth checks) es = some s)
    (hhandling : s.requests id = .handling incoming) (hroute : incoming.route = .metrics)
    (hstep : s.step app (.respond id inner) = some s') :
    s'.requests id = .answered incoming (app.answer incoming
      { status := 200, headers := [],
        body := .text ("http_requests_total " ++
          (UInt64.ofNat (es.countP counts)).toNat.repr ++ "\n") }) := by
  obtain ⟨hreceived, hget⟩ := received_run hrun id incoming hhandling
  -- the request itself has been counted
  have hpos : 0 < es.countP counts := by
    refine List.countP_pos_iff.mpr ⟨_, hreceived, ?_⟩
    simp [counts, hroute, hget hroute]
  obtain ⟨n, hn⟩ := Nat.exists_eq_succ_of_ne_zero hpos.ne'
  rw [answered_of_respond hhandling hstep, hroute]
  simp only [Gateway.response, renderedMetrics]
  rw [counters_run hrun, hn, Metrics.renderMetrics_counted]
  rfl

/-! ## The last reports -/

/-- What an event says of a check. -/
def outcomeAt (check : Nat) : Event → Option CheckOutcome
  | .report other outcome _ => if other = check then some outcome else none
  | _ => none

/-- The last report of a check, if there was one. -/
def lastOutcome (es : List Event) (check : Nat) : Option CheckOutcome :=
  (es.filterMap (outcomeAt check)).getLast?

theorem lastOutcome_concat (es : List Event) (e : Event) (check : Nat) :
    lastOutcome (es ++ [e]) check = (outcomeAt check e).or (lastOutcome es check) := by
  unfold lastOutcome
  rw [List.filterMap_append]
  cases he : outcomeAt check e with
  | none => simp [he]
  | some outcome => simp [he]

/-- A check that was never reported is healthy. -/
def lastStatus (es : List Event) (check : Nat) : ComponentStatus :=
  ((lastOutcome es check).getD .ok).status

/-- The registry has one state a check, with the check's flag and its last report. -/
structure Shown (checks : List (String × Bool)) (es : List Event) (s : Gateway) : Prop where
  registered : s.health.checks = checks.map Prod.fst
  keys : (AList.keys s.health.registry.components).Perm (checks.map Prod.fst)
  state : ∀ i check, checks[i]? = some check →
    flagOf s.health.registry check.1 = some check.2 ∧
      statusOf s.health.registry check.1 = some (lastStatus es i)

theorem statusOf_register (r : ComponentRegistry) (name other : String) (critical : Bool) :
    statusOf (r.register name critical) other =
      if name = other then some .healthy else statusOf r other := by
  unfold statusOf ComponentRegistry.register
  split
  · rename_i h
    rw [h, AList.lookup_insert]
    rfl
  · rename_i h
    rw [AList.lookup_insert_ne (Ne.symm h)]

theorem shown_initial (hnodup : (checks.map Prod.fst).Nodup) :
    Shown checks [] (.initial auth checks) := by
  induction checks using List.reverseRecOn with
  | nil => exact ⟨rfl, .refl _, fun i check h => by simp at h⟩
  | append_singleton checks check ih =>
      rw [List.map_append, List.nodup_append] at hnodup
      obtain ⟨hnodup, -, hnew⟩ := hnodup
      have hold := ih hnodup
      have hinitial : (Gateway.initial auth (checks ++ [check])).health =
          (Gateway.initial auth checks).health.register check.1 check.2 := by
        simp [Gateway.initial]
      have hnotin : check.1 ∉ checks.map Prod.fst := fun hmem => hnew _ hmem _ (by simp) rfl
      refine ⟨?_, ?_, ?_⟩
      · rw [hinitial, List.map_append, ← hold.registered]
        rfl
      · rw [hinitial]
        show (AList.keys (AList.insert _ _ _)).Perm _
        rw [AList.keys_insert, List.erase_of_not_mem fun hmem => hnotin (hold.keys.mem_iff.mp hmem),
          List.map_append]
        exact (List.Perm.cons _ hold.keys).trans (List.perm_append_singleton ..).symm
      · intro i found hfound
        rw [hinitial]
        show flagOf (ComponentRegistry.register ..) _ = _ ∧
          statusOf (ComponentRegistry.register ..) _ = _
        rw [flagOf_register, statusOf_register]
        by_cases hi : i < checks.length
        · rw [List.getElem?_append_left hi] at hfound
          have hne : check.1 ≠ found.1 := fun heq =>
            hnotin (heq ▸ List.mem_map_of_mem (List.mem_of_getElem? hfound))
          rw [if_neg hne, if_neg hne]
          exact hold.state i found hfound
        · rw [List.getElem?_append_right (by omega)] at hfound
          obtain rfl : check = found := by
            cases hsub : i - checks.length with
            | zero => simpa [hsub] using hfound
            | succ n => simp [hsub] at hfound
          rw [if_pos rfl, if_pos rfl]
          exact ⟨rfl, rfl⟩

/-- A name is that of one check. -/
theorem index_of_name (hnodup : (checks.map Prod.fst).Nodup) {i j : Nat}
    {check other : String × Bool} (hcheck : checks[i]? = some check)
    (hother : checks[j]? = some other) (hname : check.1 = other.1) : i = j := by
  have hsame : (checks.map Prod.fst)[i]? = (checks.map Prod.fst)[j]? := by
    rw [List.getElem?_map, List.getElem?_map, hcheck, hother]
    exact congrArg some hname
  have hlt : i < (checks.map Prod.fst).length := by
    rw [List.length_map]
    exact (List.getElem?_eq_some_iff.mp hcheck).1
  exact (List.getElem?_inj hlt hnodup).mp hsame

/-- A report is that of one check. -/
theorem Shown.report (h : Shown checks es s) (hnodup : (checks.map Prod.fst).Nodup) (check : Nat)
    (outcome : CheckOutcome) (now : Nat) :
    Shown checks (es ++ [.report check outcome now]) (s.report check outcome now) := by
  unfold Gateway.report
  cases hname : s.health.checks[check]? with
  | none =>
      refine ⟨h.registered, h.keys, fun i found hfound => ?_⟩
      have hne : check ≠ i := by
        rintro rfl
        rw [h.registered, List.getElem?_map, hfound] at hname
        simp at hname
      rw [lastStatus, lastOutcome_concat, outcomeAt, if_neg hne]
      exact h.state i found hfound
  | some name =>
      rw [h.registered, List.getElem?_map, Option.map_eq_some_iff] at hname
      obtain ⟨reported, hreported, rfl⟩ := hname
      have hflag : (flagOf s.health.registry reported.1).isSome := by
        rw [(h.state check reported hreported).1]
        rfl
      refine ⟨h.registered, ?_, fun i found hfound => ?_⟩
      · show (AList.keys (AList.insert _ _ _)).Perm _
        rw [AList.keys_insert]
        have hmem : reported.1 ∈ AList.keys s.health.registry.components :=
          h.keys.mem_iff.mpr (List.mem_map_of_mem (List.mem_of_getElem? hreported))
        exact (List.perm_cons_erase hmem).symm.trans h.keys
      · obtain ⟨hsame, hstatus⟩ := h.state i found hfound
        show flagOf (ComponentRegistry.report ..) _ = _ ∧
          statusOf (ComponentRegistry.report ..) _ = _
        rw [flagOf_report hflag, statusOf_report, lastStatus, lastOutcome_concat, outcomeAt]
        refine ⟨hsame, ?_⟩
        by_cases heq : check = i
        · subst heq
          obtain rfl := Option.some.inj (hreported.symm.trans hfound)
          rw [if_pos rfl, if_pos rfl]
          rfl
        · have hne : reported.1 ≠ found.1 := fun hname =>
            heq (index_of_name hnodup hreported hfound hname)
          rw [if_neg hne, if_neg heq, hstatus]
          rfl

theorem shown_run (hnodup : (checks.map Prod.fst).Nodup)
    (hrun : (gateway app).run (.initial auth checks) es = some s) : Shown checks es s := by
  induction es using List.reverseRecOn generalizing s with
  | nil =>
      obtain rfl : Gateway.initial auth checks = s := by simpa using hrun
      exact shown_initial hnodup
  | append_singleton es e ih =>
      obtain ⟨t, ht, hstep⟩ := Lts.run_concat_eq_some.mp hrun
      have hold := ih ht
      -- an event that is no report says nothing of a check
      have hsilent : (∀ check, outcomeAt check e = none) → s.health = t.health →
          Shown checks (es ++ [e]) s := by
        intro he hsame
        have hlast : ∀ i, lastStatus (es ++ [e]) i = lastStatus es i := by
          intro i
          rw [lastStatus, lastOutcome_concat, he i]
          rfl
        refine ⟨hsame ▸ hold.registered, hsame ▸ hold.keys, fun i check hcheck => ?_⟩
        rw [hsame, hlast]
        exact hold.state i check hcheck
      rcases Gateway.step_cases hstep with ⟨id, incoming, rfl, -, rfl⟩ |
        ⟨id, call, operationId, arguments, incoming, mcp, rfl, -, -, rfl⟩ |
        ⟨event, mcp, rfl, -, -, rfl⟩ | ⟨check, outcome, now, rfl, rfl⟩ |
        ⟨id, inner, incoming, rfl, -, rfl⟩
      · exact hsilent (fun _ => rfl) Gateway.health_receive
      · exact hsilent (fun _ => rfl) rfl
      · exact hsilent (fun _ => rfl) rfl
      · exact hold.report hnodup check outcome now
      · exact hsilent (fun _ => rfl) rfl

/-! ## The health endpoint -/

/-- The last report of a check is a failure. -/
def Failing (es : List Event) (check : Nat) : Prop :=
  ∃ outcome, lastOutcome es check = some outcome ∧ outcome ≠ .ok

theorem lastStatus_eq_unhealthy_iff {check : Nat} :
    lastStatus es check = .unhealthy ↔ Failing es check := by
  rw [lastStatus, Health.status_eq_unhealthy_iff, Failing]
  cases lastOutcome es check <;> simp

theorem lastStatus_eq_healthy_iff {check : Nat} :
    lastStatus es check = .healthy ↔ ¬ Failing es check := by
  rw [lastStatus, Health.status_eq_healthy_iff, Failing]
  cases lastOutcome es check <;> simp

/-- The states of the registry are those of the checks. -/
theorem Shown.states (h : Shown checks es s) (p : Bool → ComponentStatus → Prop) :
    (∃ state ∈ s.health.registry.states, p state.critical state.status) ↔
      ∃ i check, checks[i]? = some check ∧ p check.2 (lastStatus es i) := by
  constructor
  · rintro ⟨state, hstate, hp⟩
    obtain ⟨name, hlookup⟩ := ComponentRegistry.mem_states.mp hstate
    have hkey : name ∈ AList.keys s.health.registry.components :=
      AList.mem_keys.mpr (AList.lookup_isSome.mp (by rw [hlookup]; rfl))
    obtain ⟨check, hcheck, rfl⟩ := List.mem_map.mp (h.keys.mem_iff.mp hkey)
    obtain ⟨i, hi⟩ := List.getElem?_of_mem hcheck
    obtain ⟨hflag, hstatus⟩ := h.state i check hi
    rw [flagOf, hlookup] at hflag
    rw [statusOf, hlookup] at hstatus
    have hcritical : state.critical = check.2 := Option.some.inj hflag
    have hsame : state.status = lastStatus es i := Option.some.inj hstatus
    exact ⟨i, check, hi, hcritical ▸ hsame ▸ hp⟩
  · rintro ⟨i, check, hi, hp⟩
    obtain ⟨hflag, hstatus⟩ := h.state i check hi
    obtain ⟨state, hlookup, hcritical⟩ := Option.map_eq_some_iff.mp hflag
    rw [statusOf, hlookup] at hstatus
    have hsame : state.status = lastStatus es i := Option.some.inj hstatus
    refine ⟨state, ComponentRegistry.mem_states.mpr ⟨check.1, hlookup⟩, ?_⟩
    rw [hcritical, hsame]
    exact hp

theorem Shown.unhealthy_iff (h : Shown checks es s) :
    s.health.registry.overallStatus = .unhealthy ↔
      ∃ i check, checks[i]? = some check ∧ check.2 = true ∧ Failing es i := by
  rw [ComponentRegistry.overallStatus_eq_unhealthy_iff,
    h.states fun critical status => critical = true ∧ status = .unhealthy]
  simp only [lastStatus_eq_unhealthy_iff]

theorem Shown.healthy_iff (h : Shown checks es s) :
    s.health.registry.overallStatus = .healthy ↔
      ∀ i check, checks[i]? = some check → ¬ Failing es i := by
  have hstates := h.states fun _ status => status ≠ .healthy
  rw [ComponentRegistry.overallStatus_eq_healthy_iff, ← not_iff_not]
  push Not
  rw [hstates]
  simp only [ne_eq, lastStatus_eq_healthy_iff, not_not]

theorem Shown.length_states (h : Shown checks es s) :
    s.health.registry.states.length = checks.length := by
  have hlength := h.keys.length_eq
  rw [List.length_map] at hlength
  rw [← hlength, ComponentRegistry.states, List.length_map, AList.keys, List.keys, List.length_map]

/-- The health response that goes with a status. -/
def healthResponse (status : ComponentStatus) (components : Nat) : Response where
  status := if status = .unhealthy then 503 else 200
  headers := []
  body := .json (.object
    [("status", .string (debugStatus status)), ("components", .number components.repr)])

/-- **The health endpoint.** Whatever has happened, `/healthz` answers 503 if and only if the last
report of a critical check was a failure, it says `Healthy` if and only if the last report of no
check was, and it counts the checks; a check without a report has not failed. -/
theorem probe_exact (app : App) (auth : AuthState) (checks : List (String × Bool))
    (es : List Event) (s s' : Gateway) (id : Nat) (incoming : Incoming) (inner : Response)
    (hnodup : (checks.map Prod.fst).Nodup)
    (hrun : (gateway app).run (.initial auth checks) es = some s)
    (hhandling : s.requests id = .handling incoming) (hroute : incoming.route = .healthz)
    (hstep : s.step app (.respond id inner) = some s') :
    ∃ status, s'.requests id =
        .answered incoming (app.answer incoming (healthResponse status checks.length)) ∧
      (status = .unhealthy ↔
        ∃ i check, checks[i]? = some check ∧ check.2 = true ∧ Failing es i) ∧
      (status = .healthy ↔ ∀ i check, checks[i]? = some check → ¬ Failing es i) := by
  have hshown := shown_run hnodup hrun
  refine ⟨s.health.registry.overallStatus, ?_, hshown.unhealthy_iff, hshown.healthy_iff⟩
  rw [answered_of_respond hhandling hstep, hroute]
  simp only [Gateway.response, healthz]
  rw [hshown.length_states, healthResponse]

end

/-! ## A store that cannot be opened -/

namespace Unopened

open Isolation.TwoClients Gate.TwoMachines

/-- A request of this machine. -/
def probe (method path : String) : Incoming where
  method := method
  path := path
  addr := .v4 ⟨127, 0, 0, 1⟩
  headers := []

/-- The store cannot be opened, and there are requests to every route; of the five the last two
are not counted. -/
def visits : List Event :=
  [.receive 0 (probe "POST" "/mcp"), .receive 1 (probe "GET" "/metrics"),
    .receive 2 (probe "GET" "/favicon.ico"), .receive 3 (probe "GET" "/healthz"),
    .receive 4 (probe "POST" "/metrics"), .report 0 (.failed "failed to open") 30]

theorem scrape_exact_three : ∃ s s' : Gateway,
    (gateway app).run (.initial seeded Gateway.harnessChecks) visits = some s ∧
      s.step app (.respond 1 unauthorized) = some s' ∧
      s'.requests 1 = .answered (probe "GET" "/metrics") (app.answer (probe "GET" "/metrics")
        { status := 200, headers := [], body := .text "http_requests_total 3\n" }) := by
  have hrun : (gateway app).run (.initial seeded Gateway.harnessChecks) visits = some _ := rfl
  exact ⟨_, _, rfl, rfl, scrape_exact app seeded Gateway.harnessChecks visits _ _ 1 _ unauthorized
    hrun rfl rfl rfl⟩

theorem probe_exact_unopened : ∃ s s' : Gateway,
    (gateway app).run (.initial seeded Gateway.harnessChecks) visits = some s ∧
      s.step app (.respond 3 unauthorized) = some s' ∧
      s'.requests 3 = .answered (probe "GET" "/healthz")
        (app.answer (probe "GET" "/healthz") (healthResponse .unhealthy 1)) := by
  have hrun : (gateway app).run (.initial seeded Gateway.harnessChecks) visits = some _ := rfl
  obtain ⟨status, hanswered, hunhealthy, -⟩ := probe_exact app seeded Gateway.harnessChecks visits
    _ _ 3 _ unauthorized (List.nodup_singleton _) hrun rfl rfl rfl
  have hfailing : Failing visits 0 := ⟨_, rfl, by simp⟩
  obtain rfl : status = .unhealthy := hunhealthy.mpr ⟨0, ("store", true), rfl, rfl, hfailing⟩
  exact ⟨_, _, rfl, rfl, hanswered⟩

end Unopened

end TopdeskMcp.Theorems.Probes
