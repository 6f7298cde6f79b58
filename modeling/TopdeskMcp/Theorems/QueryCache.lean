import TopdeskMcp.Core.CacheManager
import Mathlib.Data.Finset.Card

/-!
# What the query cache remembers

Each entry is the last write to its key, with the time it expires at (`Faithful.sound`). The cache
gives up an entry that has not expired only for a key that does not fit, so it has them all as
long as the keys fit (`Faithful.complete`).

The size stays within its bound, except that a cache for no entries keeps one: there is nothing to
give up when the first one comes.
-/

namespace TopdeskMcp.Theorems.QueryCaches

open TopdeskMcp TopdeskMcp.QueryCache Recency Trace

variable {α : Type}

def Sets (e : Event α) : Prop := ∃ key value first, e.call = .set key value first

/-- The time that the call would have to compute is later than any. -/
def Overflows (lastInstant ttl : Nat) (e : Event α) : Prop :=
  Sets e ∧ lastInstant < e.now + ttl

/-- The value of the last write to the key, which has not expired. -/
def Live (ttl : Nat) (es : List (Event α)) (key : String) (value : α) (now : Nat) : Prop :=
  ∃ setAt, latest (log es) key = some (value, setAt) ∧ now ≤ setAt + ttl

/-- What a cache that is not poisoned knows of the run. -/
structure Faithful (maxSize ttl : Nat) (es : List (Event α)) (s : Timed α) : Prop where
  sound : ∀ key entry, s.cache.store.lookup key = some entry →
    ∃ setAt, latest (log es) key = some (entry.value, setAt) ∧ entry.expiresAt = setAt + ttl
  complete : (written (log es)).card ≤ maxSize → ∀ key value setAt,
    latest (log es) key = some (value, setAt) → s.clock ≤ setAt + ttl →
      s.cache.store.lookup key = some { value, expiresAt := setAt + ttl }

/-! ## The store -/

section Store

variable {cache : QueryCache α} {key other : String} {first : Option String} {value : α}
  {now lastInstant : Nat}

theorem length_entries (store : AList fun _ : String => CacheEntry α) :
    store.entries.length = store.keys.length := (List.length_map ..).symm

theorem lookup_of_erase {store : AList fun _ : String => CacheEntry α} {entry : CacheEntry α}
    (h : (store.erase key).lookup other = some entry) : store.lookup other = some entry := by
  by_cases heq : other = key
  · rw [heq, AList.lookup_erase] at h
    cases h
  · rwa [AList.lookup_erase_ne heq] at h

theorem lookup_evict {entry : CacheEntry α}
    (h : (cache.evict key first).lookup other = some entry) :
    cache.store.lookup other = some entry := by
  unfold evict at h
  split at h
  · cases first with
    | none => exact h
    | some oldestKey => exact lookup_of_erase h
  · exact h

theorem lookup_evict_of_fits (h : cache.store.entries.length < cache.maxSize ∨ key ∈ cache.store) :
    cache.evict key first = cache.store := by
  unfold evict
  rw [if_neg]
  rintro ⟨hfull, hnew⟩
  rcases h with hroom | hmem
  · omega
  · exact hnew hmem

/-- What is asked for and expired is removed; nothing else happens to the store. -/
theorem store_get (cache : QueryCache α) (key : String) (now : Nat) :
    (cache.get key now).2.store = cache.store ∨
      (cache.get key now).2.store = cache.store.erase key ∧
        ∃ entry, cache.store.lookup key = some entry ∧ entry.expiresAt < now := by
  unfold QueryCache.get
  split
  · exact .inl rfl
  · split
    · exact .inl rfl
    · rename_i entry hentry
      split
      · exact .inr ⟨rfl, entry, hentry, ‹_›⟩
      · exact .inl rfl

theorem lookup_get {entry : CacheEntry α}
    (h : (cache.get key now).2.store.lookup other = some entry) :
    cache.store.lookup other = some entry := by
  rcases store_get cache key now with hsame | ⟨herase, -⟩
  · rwa [hsame] at h
  · rw [herase] at h
    exact lookup_of_erase h

/-- What has not expired stays. -/
theorem lookup_get_of_le {entry : CacheEntry α} (h : cache.store.lookup other = some entry)
    (hlive : now ≤ entry.expiresAt) : (cache.get key now).2.store.lookup other = some entry := by
  rcases store_get cache key now with hsame | ⟨herase, expired, hexpired, hlt⟩
  · rwa [hsame]
  · have hne : other ≠ key := by
      rintro rfl
      obtain rfl := Option.some.inj (hexpired.symm.trans h)
      omega
    rwa [herase, AList.lookup_erase_ne hne]

theorem set_of_le (hsound : cache.poisoned = false) (hle : now + cache.ttl ≤ lastInstant) :
    cache.set lastInstant key value first now = (.returned (), { cache with
      store := (cache.evict key first).insert key { value, expiresAt := now + cache.ttl } }) := by
  unfold QueryCache.set
  rw [hsound, if_neg (by simp), if_pos hle]

theorem clear_of_sound (hsound : cache.poisoned = false) :
    cache.clear = (.returned (), { cache with store := ∅ }) := by
  unfold QueryCache.clear
  rw [hsound, if_neg (by simp)]

end Store

/-! ## One call -/

section Calls

variable {lastInstant maxSize ttl now : Nat} {es : List (Event α)} {s s' : Timed α}
  {key : String} {value : α} {first : Option String}

theorem Faithful.get (h : Faithful maxSize ttl es s) (hclock : s.clock ≤ now) :
    Faithful maxSize ttl (es ++ [⟨now, .get key⟩])
      { cache := (s.cache.get key now).2, clock := now } := by
  have hlog : log (es ++ [⟨now, .get key⟩]) = log es := log_concat es ⟨now, .get key⟩
  constructor
  · intro other entry hentry
    rw [hlog]
    exact h.sound other entry (lookup_get hentry)
  · intro hcard other value setAt hlatest hlive
    rw [hlog] at hcard hlatest
    have hlive' : now ≤ setAt + ttl := hlive
    exact lookup_get_of_le (h.complete hcard other value setAt hlatest (by omega)) hlive

theorem faithful_clear (es : List (Event α)) (s : Timed α) (maxSize ttl now : Nat) :
    Faithful maxSize ttl (es ++ [⟨now, .clear⟩])
      { cache := { s.cache with store := ∅ }, clock := now } := by
  have hlog : log (es ++ [⟨now, .clear⟩]) = .reset :: log es := log_concat es ⟨now, .clear⟩
  constructor
  · intro key entry hentry
    rw [AList.lookup_empty] at hentry
    cases hentry
  · intro _ key value setAt hlatest
    rw [hlog, latest_reset] at hlatest
    cases hlatest

/-- Keys of the store are keys that were written, so as long as these fit there is room. -/
theorem Faithful.fits (h : Faithful maxSize ttl es s)
    (hcard : (insert key (written (log es))).card ≤ maxSize) :
    s.cache.store.entries.length < maxSize ∨ key ∈ s.cache.store := by
  by_cases hkey : key ∈ s.cache.store
  · exact .inr hkey
  · left
    have hsubset : insert key s.cache.store.keys.toFinset ⊆ insert key (written (log es)) := by
      apply Finset.insert_subset_insert
      intro other hother
      obtain ⟨entry, hentry⟩ := Option.isSome_iff_exists.mp
        (AList.lookup_isSome.mpr (List.mem_toFinset.mp hother))
      obtain ⟨setAt, hlatest, -⟩ := h.sound other entry hentry
      exact mem_written_of_latest hlatest
    have hle := Finset.card_le_card hsubset
    have hnew : key ∉ s.cache.store.keys.toFinset := fun hmem => hkey (List.mem_toFinset.mp hmem)
    rw [Finset.card_insert_of_notMem hnew,
      List.toFinset_card_of_nodup s.cache.store.keys_nodup, ← length_entries] at hle
    omega

theorem Faithful.set (h : Faithful maxSize ttl es s) (hclock : s.clock ≤ now)
    (hsize : s.cache.maxSize = maxSize) (key : String) (value : α) (first : Option String) :
    Faithful maxSize ttl (es ++ [⟨now, .set key value first⟩])
      { cache := { s.cache with
          store := (s.cache.evict key first).insert key { value, expiresAt := now + ttl } }
        clock := now } := by
  have hlog : log (es ++ [⟨now, .set key value first⟩]) = .write key (value, now) :: log es :=
    log_concat es ⟨now, .set key value first⟩
  constructor
  · intro other entry hentry
    have hentry' : ((s.cache.evict key first).insert key
        { value, expiresAt := now + ttl }).lookup other = some entry := hentry
    rw [hlog]
    by_cases heq : other = key
    · subst heq
      rw [AList.lookup_insert] at hentry'
      obtain rfl := Option.some.inj hentry'
      exact ⟨now, latest_write_self, rfl⟩
    · rw [AList.lookup_insert_ne heq] at hentry'
      rw [latest_write_of_ne heq]
      exact h.sound other entry (lookup_evict hentry')
  · intro hcard other value' setAt hlatest hlive
    rw [hlog] at hcard hlatest
    rw [written_write] at hcard
    show ((s.cache.evict key first).insert key { value, expiresAt := now + ttl }).lookup other = _
    by_cases heq : other = key
    · subst heq
      rw [latest_write_self] at hlatest
      obtain ⟨rfl, rfl⟩ := Prod.mk.inj (Option.some.inj hlatest)
      rw [AList.lookup_insert]
    · rw [latest_write_of_ne heq] at hlatest
      have hfits := h.fits hcard
      rw [← hsize] at hfits
      have hless := Finset.card_le_card (Finset.subset_insert key (written (log es)))
      have hlive' : now ≤ setAt + ttl := hlive
      rw [AList.lookup_insert_ne heq, lookup_evict_of_fits hfits]
      exact h.complete (by omega) other value' setAt hlatest (by omega)

theorem perform_settings (lastInstant : Nat) (cache : QueryCache α) (e : Event α) :
    (cache.perform lastInstant e).maxSize = cache.maxSize ∧
      (cache.perform lastInstant e).ttl = cache.ttl := by
  unfold perform
  cases e.call with
  | get key =>
      simp only [QueryCache.get]
      repeat' split
      all_goals exact ⟨rfl, rfl⟩
  | set key value first =>
      simp only [QueryCache.set]
      repeat' split
      all_goals exact ⟨rfl, rfl⟩
  | clear =>
      simp only [QueryCache.clear]
      split
      all_goals exact ⟨rfl, rfl⟩

/-- The lock is poisoned once a write overflows. -/
theorem perform_poisoned_iff (lastInstant : Nat) (cache : QueryCache α) (e : Event α) :
    (cache.perform lastInstant e).poisoned = true ↔
      cache.poisoned = true ∨ Overflows lastInstant cache.ttl e := by
  unfold perform Overflows Sets
  cases e.call with
  | get key =>
      simp only [QueryCache.get]
      split
      · simp
      · split
        · simp
        · split <;> simp
  | set key value first =>
      simp only [QueryCache.set]
      split
      · rename_i hpoisoned
        simp [hpoisoned]
      · rename_i hpoisoned
        split
        · rename_i hle
          simp [hpoisoned, Nat.not_lt.mpr hle]
        · rename_i hlt
          simp [Nat.not_le.mp hlt]
  | clear =>
      simp only [QueryCache.clear]
      split <;> simp [*]

/-- What is known after a run. -/
structure Ran (lastInstant maxSize ttl : Nat) (es : List (Event α)) (s : Timed α) : Prop where
  settings : s.cache.maxSize = maxSize ∧ s.cache.ttl = ttl
  times : ∀ e ∈ es, e.now ≤ s.clock
  poisoned : s.cache.poisoned = true ↔ ∃ e ∈ es, Overflows lastInstant ttl e
  faithful : s.cache.poisoned = false → Faithful maxSize ttl es s

theorem Ran.step {e : Event α} (h : Ran lastInstant maxSize ttl es s)
    (hstep : QueryCache.step lastInstant s e = some s') :
    Ran lastInstant maxSize ttl (es ++ [e]) s' := by
  obtain ⟨⟨hclock, -⟩, rfl⟩ := step_eq_some.mp hstep
  have hpoisoned := perform_poisoned_iff lastInstant s.cache e
  have hsettings := perform_settings lastInstant s.cache e
  rw [h.settings.2] at hpoisoned
  refine ⟨⟨hsettings.1.trans h.settings.1, hsettings.2.trans h.settings.2⟩, ?_, ?_, ?_⟩
  · intro e' he'
    show e'.now ≤ e.now
    rcases List.mem_append.mp he' with hold | hlast
    · exact Nat.le_trans (h.times e' hold) hclock
    · rw [List.mem_singleton.mp hlast]
  · rw [hpoisoned, h.poisoned]
    simp [or_and_right, exists_or]
  · intro hsound
    have hnot : ¬ (s.cache.poisoned = true ∨ Overflows lastInstant ttl e) := by
      rw [← hpoisoned, hsound]
      simp
    push Not at hnot
    obtain ⟨hold, hfits⟩ := hnot
    have hfaithful := h.faithful (by simpa using hold)
    obtain ⟨now, call⟩ := e
    cases call with
    | get key => exact hfaithful.get hclock
    | set key value first =>
        have hle : now + s.cache.ttl ≤ lastInstant := by
          rw [h.settings.2]
          by_contra hlt
          exact hfits ⟨⟨key, value, first, rfl⟩, Nat.not_le.mp hlt⟩
        have hset := hfaithful.set hclock h.settings.1 key value first
        rw [← h.settings.2] at hset ⊢
        simp only [perform, set_of_le (by simpa using hold) hle]
        exact hset
    | clear =>
        simp only [perform, clear_of_sound (by simpa using hold : s.cache.poisoned = false)]
        exact faithful_clear es s maxSize ttl now

end Calls

/-! ## Runs -/

section Runs

variable {lastInstant maxSize ttl : Nat} {es : List (Event α)} {s₀ s : Timed α}

theorem run_concat {e : Event α} :
    (queryCache α lastInstant maxSize ttl).run s₀ (es ++ [e]) = some s ↔
      ∃ t, (queryCache α lastInstant maxSize ttl).run s₀ es = some t ∧
        QueryCache.step lastInstant t e = some s := by
  rw [Lts.run_append_eq_some]
  constructor
  · rintro ⟨t, ht, hrun⟩
    obtain ⟨s', hs', hnil⟩ := Lts.run_cons_eq_some.mp hrun
    obtain rfl : s' = s := by simpa using hnil
    exact ⟨t, ht, hs'⟩
  · rintro ⟨t, ht, hstep⟩
    exact ⟨t, ht, Lts.run_cons_eq_some.mpr ⟨s, hstep, rfl⟩⟩

theorem ran (h₀ : (queryCache α lastInstant maxSize ttl).init s₀)
    (hrun : (queryCache α lastInstant maxSize ttl).run s₀ es = some s) :
    Ran lastInstant maxSize ttl es s := by
  induction es using List.reverseRecOn generalizing s with
  | nil =>
      obtain rfl : s₀ = s := by simpa using hrun
      have hnew : s₀.cache = .new maxSize ttl := h₀
      refine ⟨by rw [hnew]; exact ⟨rfl, rfl⟩, by simp, by rw [hnew]; simp [new], ?_⟩
      intro _
      constructor
      · intro key entry hentry
        rw [hnew] at hentry
        cases hentry
      · intro _ key value setAt hlatest
        cases hlatest
  | append_singleton es e ih =>
      obtain ⟨t, ht, hstep⟩ := run_concat.mp hrun
      exact (ih ht).step hstep

/-- What is returned is the last value that was set, and it has not expired. -/
def NeverStale (ttl : Nat) (es : List (Event α)) (s : Timed α) : Prop :=
  ∀ key value now, s.clock ≤ now → (s.cache.get key now).1 = .returned (some value) →
    Live ttl es key value now

/-- As long as the keys fit, such a value is returned. -/
def NeverLost (maxSize ttl : Nat) (es : List (Event α)) (s : Timed α) : Prop :=
  (written (log es)).card ≤ maxSize → ∀ key value now, s.clock ≤ now →
    Live ttl es key value now → (s.cache.get key now).1 = .returned (some value)

theorem Ran.neverStale (h : Ran lastInstant maxSize ttl es s) : NeverStale ttl es s := by
  intro key value now _ hget
  unfold QueryCache.get at hget
  split at hget
  · cases hget
  · rename_i hsound
    split at hget
    · cases hget
    · rename_i entry hentry
      split at hget
      · cases hget
      · rename_i hlive
        obtain ⟨setAt, hlatest, hexpires⟩ :=
          (h.faithful (by simpa using hsound)).sound key entry hentry
        cases hget
        exact ⟨setAt, hlatest, by omega⟩

theorem Ran.neverLost (h : Ran lastInstant maxSize ttl es s)
    (hfits : ∀ e ∈ es, ¬ Overflows lastInstant ttl e) : NeverLost maxSize ttl es s := by
  have hsound : s.cache.poisoned = false := by
    rw [Bool.eq_false_iff, Ne, h.poisoned]
    rintro ⟨e, he, hoverflows⟩
    exact hfits e he hoverflows
  rintro hcard key value now hclock ⟨setAt, hlatest, hlive⟩
  have hentry := (h.faithful hsound).complete hcard key value setAt hlatest (by omega)
  unfold QueryCache.get
  rw [hsound, if_neg (by simp), hentry]
  exact congrArg Prod.fst (if_neg (Nat.not_lt.mpr hlive))

/-- **Coherence.** A value that is returned is the last one that was set under its key, and it is
not too old; and while no more keys are set than fit, and the times at which they expire exist, no
such value is missed. -/
theorem coherence (lastInstant maxSize ttl : Nat) (s₀ s : Timed α) (es : List (Event α))
    (h₀ : (queryCache α lastInstant maxSize ttl).init s₀)
    (hrun : (queryCache α lastInstant maxSize ttl).run s₀ es = some s) :
    NeverStale ttl es s ∧
      ((∀ e ∈ es, ¬ Overflows lastInstant ttl e) → NeverLost maxSize ttl es s) :=
  ⟨(ran h₀ hrun).neverStale, (ran h₀ hrun).neverLost⟩

end Runs

/-! ## The size -/

section Size

variable {lastInstant maxSize ttl : Nat} {es : List (Event α)} {s₀ s : Timed α}
  {cache : QueryCache α}

theorem length_erase_le (store : AList fun _ : String => CacheEntry α) (key : String) :
    (store.erase key).entries.length ≤ store.entries.length := by
  rw [length_entries, length_entries, AList.keys_erase]
  exact List.length_erase_le

/-- The new entry has the place of the old one of its key, a place of its own, or that of the entry
that is given up. -/
theorem length_insert_evict (key : String) (entry : CacheEntry α) (value : α)
    {first : Option String} (hpossible : (Call.set key value first).Possible cache.store)
    (hsize : cache.store.entries.length ≤ cache.maxSize) (hone : 1 ≤ cache.maxSize) :
    ((cache.evict key first).insert key entry).entries.length ≤ cache.maxSize := by
  rw [length_entries] at hsize
  rw [length_entries, AList.keys_insert, List.length_cons]
  unfold evict
  split
  · rename_i hfull
    rw [length_entries] at hfull
    cases first with
    | none =>
        have hempty : cache.store.entries = [] := hpossible
        rw [← length_entries, hempty, List.length_nil] at hfull
        omega
    | some oldestKey =>
        have hmem : oldestKey ∈ cache.store.keys := hpossible
        have herase : (cache.store.keys.erase oldestKey).length = cache.store.keys.length - 1 :=
          List.length_erase_of_mem hmem
        have hpos := List.length_pos_of_mem hmem
        have hle : ((cache.store.keys.erase oldestKey).erase key).length ≤
            (cache.store.keys.erase oldestKey).length := List.length_erase_le
        rw [AList.keys_erase]
        omega
  · rename_i hroom
    by_cases hkey : key ∈ cache.store
    · have herase : (cache.store.keys.erase key).length = cache.store.keys.length - 1 :=
        List.length_erase_of_mem hkey
      have hpos := List.length_pos_of_mem (AList.mem_keys.mp hkey)
      omega
    · have hle : (cache.store.keys.erase key).length ≤ cache.store.keys.length :=
        List.length_erase_le
      rw [length_entries] at hroom
      have hlt : cache.store.keys.length < cache.maxSize := by
        by_contra hfull
        exact hroom ⟨Nat.not_lt.mp hfull, hkey⟩
      omega

theorem length_evict_le (key : String) (first : Option String) :
    (cache.evict key first).entries.length ≤ cache.store.entries.length := by
  unfold evict
  split
  · cases first with
    | none => exact Nat.le_refl _
    | some oldestKey => exact length_erase_le ..
  · exact Nat.le_refl _

/-- A call keeps the size within the bound, or inserts an entry into a cache for none. -/
theorem length_perform {e : Event α} (hpossible : e.call.Possible cache.store)
    (hsize : cache.store.entries.length ≤ cache.maxSize)
    (hone : 1 ≤ cache.maxSize ∨ (Sets e → Overflows lastInstant cache.ttl e)) :
    (cache.perform lastInstant e).store.entries.length ≤ cache.maxSize := by
  obtain ⟨now, call⟩ := e
  cases call with
  | get key =>
      show (cache.get key now).2.store.entries.length ≤ _
      rcases store_get cache key now with hsame | ⟨herase, -⟩
      · rw [hsame]
        exact hsize
      · rw [herase]
        exact Nat.le_trans (length_erase_le ..) hsize
  | set key value first =>
      show (cache.set lastInstant key value first now).2.store.entries.length ≤ _
      unfold QueryCache.set
      split
      · exact hsize
      · split
        · rename_i hle
          rcases hone with hone | hoverflows
          · exact length_insert_evict key _ value hpossible hsize hone
          · have hlt := (hoverflows ⟨key, value, first, rfl⟩).2
            have hlt' : lastInstant < now + cache.ttl := hlt
            omega
        · exact Nat.le_trans (length_evict_le ..) hsize
  | clear =>
      show cache.clear.2.store.entries.length ≤ _
      unfold QueryCache.clear
      split
      · exact hsize
      · exact Nat.zero_le _

/-- At no time of the run are there more entries than fit. -/
def Bounded (lastInstant maxSize ttl : Nat) (s₀ : Timed α) (es : List (Event α)) : Prop :=
  ∀ before after s, es = before ++ after →
    (queryCache α lastInstant maxSize ttl).run s₀ before = some s →
      s.cache.store.entries.length ≤ maxSize

theorem length_run (h₀ : (queryCache α lastInstant maxSize ttl).init s₀)
    (hrun : (queryCache α lastInstant maxSize ttl).run s₀ es = some s)
    (hone : 1 ≤ maxSize ∨ ∀ e ∈ es, Sets e → Overflows lastInstant ttl e) :
    s.cache.store.entries.length ≤ maxSize := by
  induction es using List.reverseRecOn generalizing s with
  | nil =>
      obtain rfl : s₀ = s := by simpa using hrun
      have hnew : s₀.cache = .new maxSize ttl := h₀
      rw [hnew]
      exact Nat.zero_le _
  | append_singleton es e ih =>
      obtain ⟨t, ht, hstep⟩ := run_concat.mp hrun
      obtain ⟨⟨-, hpossible⟩, rfl⟩ := step_eq_some.mp hstep
      have hsettings := (ran h₀ ht).settings
      have hsize := ih ht (hone.imp_right fun hall e' he' => hall e' (by simp [he']))
      have hone' : 1 ≤ t.cache.maxSize ∨ (Sets e → Overflows lastInstant t.cache.ttl e) := by
        rw [hsettings.1, hsettings.2]
        exact hone.imp_right fun hall => hall e (by simp)
      rw [← hsettings.1] at hsize ⊢
      exact length_perform hpossible hsize hone'

/-- A write that does not overflow comes after none that does, so there is an entry after it. -/
theorem length_pos_of_set {e : Event α} {t : Timed α} (hran : Ran lastInstant maxSize ttl es t)
    (hstep : QueryCache.step lastInstant t e = some s) (hsets : Sets e)
    (hfits : ¬ Overflows lastInstant ttl e) : 0 < s.cache.store.entries.length := by
  obtain ⟨⟨hclock, -⟩, rfl⟩ := step_eq_some.mp hstep
  have hle : e.now + ttl ≤ lastInstant := by
    by_contra hlt
    exact hfits ⟨hsets, Nat.not_le.mp hlt⟩
  have hsound : t.cache.poisoned = false := by
    rw [Bool.eq_false_iff, Ne, hran.poisoned]
    rintro ⟨e', he', -, hlt⟩
    have htime := hran.times e' he'
    omega
  obtain ⟨now, call⟩ := e
  obtain ⟨key, value, first, rfl⟩ := hsets
  rw [← hran.settings.2] at hle
  show 0 < (t.cache.set lastInstant key value first now).2.store.entries.length
  rw [set_of_le hsound hle, length_entries, AList.keys_insert]
  exact Nat.succ_pos _

/-- **The size bound** holds throughout a run if and only if there is room for an entry, or no
write of the run is completed. -/
theorem size_bound_iff (lastInstant maxSize ttl : Nat) (s₀ s : Timed α) (es : List (Event α))
    (h₀ : (queryCache α lastInstant maxSize ttl).init s₀)
    (hrun : (queryCache α lastInstant maxSize ttl).run s₀ es = some s) :
    Bounded lastInstant maxSize ttl s₀ es ↔
      1 ≤ maxSize ∨ ∀ e ∈ es, Sets e → Overflows lastInstant ttl e := by
  constructor
  · intro hbounded
    by_contra hnot
    push Not at hnot
    obtain ⟨hzero, e, he, hsets, hfits⟩ := hnot
    obtain ⟨before, after, rfl⟩ := List.append_of_mem he
    rw [List.append_cons, Lts.run_append_eq_some] at hrun
    obtain ⟨t, ht, -⟩ := hrun
    obtain ⟨r, hr, hstep⟩ := run_concat.mp ht
    have hpos := length_pos_of_set (ran h₀ hr) hstep hsets hfits
    have hle := hbounded (before ++ [e]) after t (List.append_cons ..) ht
    omega
  · rintro hone before after t rfl ht
    exact length_run h₀ ht (hone.imp_right fun hall e he => hall e (by simp [he]))

end Size

/-! ## The longest time to live, and the smallest cache -/

namespace Extremes

/-- The last `Instant` of a clock whose seconds are signed 64-bit numbers. -/
def lastInstant : Nat := UInt64.size / 2 * 1_000_000_000 - 1

/-- `Duration::MAX`. -/
def longest : Nat := UInt64.size * 1_000_000_000 - 1

def minute : Nat := 60_000_000_000

def started (maxSize ttl : Nat) : Timed Nat := { cache := .new maxSize ttl, clock := 0 }

def write : Event Nat := ⟨0, .set "a" 1 none⟩

/-- The write panics, and so does the call that asks for its value. -/
theorem coherence_fails : ∃ s, (queryCache Nat lastInstant 1 longest).run (started 1 longest)
    [write] = some s ∧ ¬ (NeverStale longest [write] s ∧ NeverLost 1 longest [write] s) := by
  refine ⟨_, rfl, ?_⟩
  rintro ⟨-, hlost⟩
  have hget := hlost (Nat.le_refl 1) "a" 1 0 (Nat.le_refl 0) ⟨0, rfl, Nat.zero_le _⟩
  cases hget

/-- With room for two keys: the third write is to a key that is there, the fourth gives one up, and
after `clear` there is room again. -/
def traffic : List (Event Nat) :=
  [⟨0, .set "a" 1 none⟩, ⟨1, .set "b" 2 (some "a")⟩, ⟨2, .set "a" 3 (some "b")⟩,
    ⟨3, .set "c" 4 (some "b")⟩, ⟨4, .get "b"⟩, ⟨5, .clear⟩, ⟨6, .set "b" 5 none⟩,
    ⟨7, .set "c" 6 (some "b")⟩, ⟨8, .set "b" 7 (some "c")⟩]

theorem fits_minute : ∀ e ∈ traffic, ¬ Overflows lastInstant minute e := by
  have hfits : ∀ e ∈ traffic, e.now + minute ≤ lastInstant := by decide
  rintro e he ⟨-, hlt⟩
  exact absurd (hfits e he) (Nat.not_le.mpr hlt)

theorem coherence_minute : ∃ s, (queryCache Nat lastInstant 2 minute).run (started 2 minute)
      traffic = some s ∧ NeverStale minute traffic s ∧ NeverLost 2 minute traffic s ∧
    (s.cache.get "a" 9).1 = .returned none ∧ (s.cache.get "b" 9).1 = .returned (some 7) := by
  refine ⟨_, rfl, ?_⟩
  have hcoherent := coherence lastInstant 2 minute (started 2 minute) _ traffic rfl rfl
  exact ⟨hcoherent.1, hcoherent.2 fits_minute, rfl, rfl⟩

/-- A cache for no entries has one after the first write. -/
theorem size_bound_fails : ¬ Bounded lastInstant 0 minute (started 0 minute) [write] := by
  intro hbounded
  have hsize := hbounded [write] [] _ rfl rfl
  exact absurd hsize (by decide)

theorem size_bound_two : Bounded lastInstant 2 minute (started 2 minute) traffic :=
  (size_bound_iff lastInstant 2 minute (started 2 minute) _ traffic rfl rfl).mpr
    (.inl (Nat.le_succ 1))

end Extremes

end TopdeskMcp.Theorems.QueryCaches
