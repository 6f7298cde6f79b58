import TopdeskMcp.Lib.Trace

/-!
# A cache that is filled once

Any number of callers ask for the value of a key. A caller looks the key up; if it is not there
the caller builds a value of its own, with no lock held, and inserts it unless the key has one
by then. What the key has after that is what the caller gets.

Several callers may build a value for one key, but a key is bound once (`bound_run`), and a
value is only ever at one place (`Inv`): under a key, or with the caller that has built it. So
calls get the same value if and only if they ask for the same key (`same_iff`).
-/

namespace Once

open Trace Function

universe u v

/-- A value at an address of its own. -/
structure Cell (α : Type v) where
  address : Nat
  content : α

inductive Phase (κ : Type u) (α : Type v) where
  | idle
  | building (key : κ)
  | built (key : κ) (cell : Cell α)
  | returned (key : κ) (cell : Cell α)
  | failed

structure State (κ : Type u) (α : Type v) where
  cache : κ → Option (Cell α)
  next : Nat
  callers : Nat → Phase κ α

inductive Action (κ : Type u) (α : Type v) where
  | request (key : κ)
  | build (content : α)
  | abandon
  | insert
  | finish

structure Event (κ : Type u) (α : Type v) where
  caller : Nat
  action : Action κ α

/-- Where a cell is. -/
inductive Place (κ : Type u) where
  | key (key : κ)
  | caller (caller : Nat)

variable {κ : Type u} {α : Type v}

namespace State

def goto (s : State κ α) (caller : Nat) (phase : Phase κ α) : State κ α :=
  { s with callers := update s.callers caller phase }

/-- The phase a lookup leads to. -/
def answer (s : State κ α) (key : κ) : Phase κ α :=
  match s.cache key with
  | some cell => .returned key cell
  | none => .building key

/-- A cell at the next address. -/
def build (s : State κ α) (caller : Nat) (key : κ) (content : α) : State κ α :=
  { s with next := s.next + 1 }.goto caller (.built key ⟨s.next, content⟩)

/-- What the key has, or the own cell if it has nothing. -/
def held (s : State κ α) (key : κ) (cell : Cell α) : Cell α := (s.cache key).getD cell

def insert [DecidableEq κ] (s : State κ α) (caller : Nat) (key : κ) (cell : Cell α) : State κ α :=
  { s with cache := update s.cache key (some (s.held key cell)) }.goto caller
    (.returned key (s.held key cell))

def At (s : State κ α) (cell : Cell α) : Place κ → Prop
  | .key key => s.cache key = some cell
  | .caller caller => ∃ key, s.callers caller = .built key cell

end State

def act [DecidableEq κ] (s : State κ α) (caller : Nat) :
    Action κ α → Phase κ α → Option (State κ α)
  | .request key, .idle => some (s.goto caller (s.answer key))
  | .build content, .building key => some (s.build caller key content)
  | .abandon, .building _ => some (s.goto caller .failed)
  | .insert, .built key cell => some (s.insert caller key cell)
  | .finish, .returned _ _ => some (s.goto caller .idle)
  | .finish, .failed => some (s.goto caller .idle)
  | _, _ => none

/-- Nobody has asked for anything. -/
def Fresh (s : State κ α) : Prop := (∀ key, s.cache key = none) ∧ ∀ caller, s.callers caller = .idle

def once [DecidableEq κ] : Lts (State κ α) (Event κ α) where
  init := Fresh
  step s e := act s e.caller e.action (s.callers e.caller)

/-- All that a step of a caller can do. -/
inductive Acts [DecidableEq κ] (s : State κ α) (caller : Nat) : State κ α → Prop
  | request {key} : Acts s caller (s.goto caller (s.answer key))
  | build {key content} : Acts s caller (s.build caller key content)
  | insert {key cell} (hphase : s.callers caller = .built key cell) :
      Acts s caller (s.insert caller key cell)
  | leave {phase} (hphase : phase = .failed ∨ phase = .idle) : Acts s caller (s.goto caller phase)

theorem acts_of_step [DecidableEq κ] {s s' : State κ α} {e : Event κ α}
    (h : once.step s e = some s') : Acts s e.caller s' := by
  obtain ⟨caller, action⟩ := e
  unfold once at h
  cases action with
  | request key =>
      cases hphase : s.callers caller <;> simp only [hphase, act] at h <;> cases h
      exact .request
  | build content =>
      cases hphase : s.callers caller <;> simp only [hphase, act] at h <;> cases h
      exact .build
  | abandon =>
      cases hphase : s.callers caller <;> simp only [hphase, act] at h <;> cases h
      exact .leave (.inl rfl)
  | insert =>
      cases hphase : s.callers caller <;> simp only [hphase, act] at h <;> cases h
      exact .insert hphase
  | finish =>
      cases hphase : s.callers caller <;> simp only [hphase, act] at h <;> cases h
      · exact .leave (.inr rfl)
      · exact .leave (.inr rfl)

variable {s s' : State κ α} {caller : Nat} {key : κ} {cell : Cell α} {phase : Phase κ α}

@[simp] theorem callers_goto_self : (s.goto caller phase).callers caller = phase :=
  update_self ..

@[simp] theorem callers_goto_of_ne {other : Nat} (h : other ≠ caller) :
    (s.goto caller phase).callers other = s.callers other := update_of_ne h ..

/-! ## Every cell is at one place -/

structure Inv (s : State κ α) : Prop where
  returned : ∀ caller key cell, s.callers caller = .returned key cell → s.cache key = some cell
  older : ∀ cell place, s.At cell place → cell.address < s.next
  unique : ∀ cell cell' place place', s.At cell place → s.At cell' place' →
    cell.address = cell'.address → place = place'

/-- A caller that goes on to another phase than `built` takes no cell along. -/
theorem at_goto {place : Place κ} (hphase : ∀ key cell, phase ≠ .built key cell)
    (h : (s.goto caller phase).At cell place) : s.At cell place ∧ place ≠ .caller caller := by
  cases place with
  | key key => exact ⟨h, by simp⟩
  | caller other =>
      obtain ⟨key, hkey⟩ := h
      by_cases heq : other = caller
      · subst heq
        rw [callers_goto_self] at hkey
        exact absurd hkey (hphase key cell)
      · rw [callers_goto_of_ne heq] at hkey
        exact ⟨⟨key, hkey⟩, by simpa using heq⟩

theorem Inv.goto (h : Inv s) (hphase : ∀ key cell, phase ≠ .built key cell)
    (hreturned : ∀ key cell, phase = .returned key cell → s.cache key = some cell) :
    Inv (s.goto caller phase) where
  returned other key cell hother := by
    by_cases heq : other = caller
    · subst heq
      rw [callers_goto_self] at hother
      exact hreturned key cell hother
    · rw [callers_goto_of_ne heq] at hother
      exact h.returned other key cell hother
  older cell place hat := h.older cell place (at_goto hphase hat).1
  unique cell cell' place place' hat hat' :=
    h.unique cell cell' place place' (at_goto hphase hat).1 (at_goto hphase hat').1

theorem Inv.answer (h : Inv s) (key : κ) : Inv (s.goto caller (s.answer key)) := by
  unfold State.answer
  cases hkey : s.cache key with
  | none => exact h.goto (by simp) (by simp)
  | some cell =>
      refine h.goto (by simp) ?_
      intro key' cell' heq
      obtain ⟨rfl, rfl⟩ := Phase.returned.inj heq
      exact hkey

/-- A new cell is with its caller, at an address that no other cell has. -/
theorem Inv.build (h : Inv s) (key : κ) (content : α) : Inv (s.build caller key content) := by
  have hat : ∀ cell place, (s.build caller key content).At cell place →
      s.At cell place ∨ (cell.address = s.next ∧ place = .caller caller) := by
    intro cell place hplace
    cases place with
    | key key => exact .inl hplace
    | caller other =>
        obtain ⟨key', hkey⟩ := hplace
        by_cases heq : other = caller
        · subst heq
          obtain ⟨-, rfl⟩ := Phase.built.inj (callers_goto_self.symm.trans hkey)
          exact .inr ⟨rfl, rfl⟩
        · exact .inl ⟨key', (callers_goto_of_ne heq).symm.trans hkey⟩
  constructor
  · intro other key' cell hother
    by_cases heq : other = caller
    · subst heq
      have hphase := callers_goto_self.symm.trans hother
      simp at hphase
    · exact h.returned other key' cell ((callers_goto_of_ne heq).symm.trans hother)
  · intro cell place hplace
    show cell.address < s.next + 1
    rcases hat cell place hplace with hold | ⟨hnew, -⟩
    · have hlt := h.older cell place hold
      omega
    · omega
  · intro cell cell' place place' hplace hplace' heq
    rcases hat cell place hplace with hold | ⟨hnew, rfl⟩
    · rcases hat cell' place' hplace' with hold' | ⟨hnew', rfl⟩
      · exact h.unique cell cell' place place' hold hold' heq
      · have hlt := h.older cell place hold
        omega
    · rcases hat cell' place' hplace' with hold' | ⟨hnew', rfl⟩
      · have hlt := h.older cell' place' hold'
        omega
      · rfl

theorem inv_of_fresh (h : Fresh s) : Inv s := by
  have hnone : ∀ cell place, ¬ s.At cell place := by
    intro cell place hat
    cases place with
    | key key =>
        have hcache : s.cache key = some cell := hat
        rw [h.1] at hcache
        simp at hcache
    | caller caller =>
        obtain ⟨key, hkey⟩ := hat
        rw [h.2] at hkey
        simp at hkey
  constructor
  · intro caller key cell hreturned
    rw [h.2] at hreturned
    simp at hreturned
  · intro cell place hat
    exact absurd hat (hnone cell place)
  · intro cell _ place _ hat
    exact absurd hat (hnone cell place)

section

variable [DecidableEq κ]

/-- A key that is bound keeps its cell. -/
theorem bound_insert {other : κ} {cell' : Cell α} (h : s.cache other = some cell') :
    (s.insert caller key cell).cache other = some cell' := by
  show update s.cache key (some (s.held key cell)) other = _
  by_cases heq : other = key
  · rw [heq, update_self, State.held, ← heq, h, Option.getD_some]
  · rw [update_of_ne heq, h]

/-- A cell goes from its caller to the key, or stays where it is. -/
theorem at_insert (hphase : s.callers caller = .built key cell) {cell' : Cell α} {place : Place κ}
    (h : (s.insert caller key cell).At cell' place) : place ≠ .caller caller ∧
      (s.At cell' place ∨ (place = .key key ∧ s.At cell' (.caller caller))) := by
  obtain ⟨hat, hne⟩ := at_goto (by simp) h
  refine ⟨hne, ?_⟩
  cases place with
  | caller other => exact .inl hat
  | key other =>
      have hcache : update s.cache key (some (s.held key cell)) other = some cell' := hat
      by_cases heq : other = key
      · subst heq
        rw [update_self, State.held] at hcache
        cases hkey : s.cache other with
        | some mine =>
            rw [hkey, Option.getD_some] at hcache
            exact .inl (hkey.trans hcache)
        | none =>
            rw [hkey, Option.getD_none] at hcache
            exact .inr ⟨rfl, other, Option.some.inj hcache ▸ hphase⟩
      · rw [update_of_ne heq] at hcache
        exact .inl hcache

theorem Inv.insert (h : Inv s) (hphase : s.callers caller = .built key cell) :
    Inv (s.insert caller key cell) := by
  constructor
  · intro other key' cell' hother
    by_cases heq : other = caller
    · subst heq
      obtain ⟨rfl, rfl⟩ := Phase.returned.inj (callers_goto_self.symm.trans hother)
      exact update_self ..
    · exact bound_insert (h.returned other key' cell' ((callers_goto_of_ne heq).symm.trans hother))
  · intro cell' place hplace
    obtain ⟨-, hold | ⟨-, hold⟩⟩ := at_insert hphase hplace
    · exact h.older cell' place hold
    · exact h.older cell' _ hold
  · intro cell₁ cell₂ place₁ place₂ hplace₁ hplace₂ heq
    obtain ⟨hne₁, hold₁ | ⟨rfl, hold₁⟩⟩ := at_insert hphase hplace₁
    · obtain ⟨-, hold₂ | ⟨rfl, hold₂⟩⟩ := at_insert hphase hplace₂
      · exact h.unique cell₁ cell₂ place₁ place₂ hold₁ hold₂ heq
      · exact absurd (h.unique cell₁ cell₂ place₁ _ hold₁ hold₂ heq) hne₁
    · obtain ⟨hne₂, hold₂ | ⟨rfl, hold₂⟩⟩ := at_insert hphase hplace₂
      · exact absurd (h.unique cell₁ cell₂ _ place₂ hold₁ hold₂ heq).symm hne₂
      · rfl

theorem Inv.acts (h : Inv s) (hacts : Acts s caller s') : Inv s' := by
  cases hacts with
  | request => exact h.answer _
  | build => exact h.build _ _
  | insert hphase => exact h.insert hphase
  | leave hphase =>
      rcases hphase with rfl | rfl
      · exact h.goto (by simp) (by simp)
      · exact h.goto (by simp) (by simp)

theorem inv_inductive : (once : Lts (State κ α) (Event κ α)).Inductive (fun _ _ => True) Inv :=
  fun _ _ _ h _ hstep => h.acts (acts_of_step hstep)

/-! ## Runs -/

theorem Acts.bound (h : Acts s caller s') (hkey : s.cache key = some cell) :
    s'.cache key = some cell := by
  cases h with
  | insert => exact bound_insert hkey
  | _ => exact hkey

/-- A key is bound once. -/
theorem bound_run {es : List (Event κ α)} (hrun : once.run s es = some s')
    (hkey : s.cache key = some cell) : s'.cache key = some cell := by
  have hinductive : (once : Lts (State κ α) (Event κ α)).Inductive (fun _ _ => True)
      (fun s => s.cache key = some cell) := fun _ _ _ h _ hstep => (acts_of_step hstep).bound h
  exact hinductive.reach hkey hrun

/-- Whenever two calls return, they return the same cell if and only if they are for the same
key, and it is one cell if it is at one address. -/
theorem same_iff {s₀ : State κ α} {es fs : List (Event κ α)} (hfresh : Fresh s₀)
    (hrun : once.run s₀ es = some s) (hrun' : once.run s fs = some s') {caller' : Nat} {key' : κ}
    {cell' : Cell α} (h : s.callers caller = .returned key cell)
    (h' : s'.callers caller' = .returned key' cell') :
    (key = key' ↔ cell = cell') ∧ (cell.address = cell'.address ↔ cell = cell') := by
  have hinv := inv_inductive.reach (inv_of_fresh hfresh) hrun
  have hinv' := inv_inductive.reach hinv hrun'
  have hcache := bound_run hrun' (hinv.returned caller key cell h)
  have hcache' := hinv'.returned caller' key' cell' h'
  have hcell : key = key' → cell = cell' := by
    rintro rfl
    exact Option.some.inj (hcache.symm.trans hcache')
  have hkey : cell.address = cell'.address → key = key' := fun heq =>
    Place.key.inj (hinv'.unique cell cell' (.key key) (.key key') hcache hcache' heq)
  constructor
  · exact ⟨hcell, fun heq => hkey (congrArg Cell.address heq)⟩
  · exact ⟨fun heq => hcell (hkey heq), congrArg Cell.address⟩

end

end Once
