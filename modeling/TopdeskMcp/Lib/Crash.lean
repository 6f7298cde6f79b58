import TopdeskMcp.Lib.Utf8
import Mathlib.Data.List.Infix
import Mathlib.Logic.Function.Basic
import Mathlib.Tactic.Common

/-!
# Programs that can be cut off

A program over a durable state runs to its end or is cut off on the way, and what it
leaves then is one of the states it passes through.

* `Prog` is a program that can fail, as the function from the state it starts in to its
  `Run`: the states it passes through, its result and the state it ends in;
* `Safe P m Q C` is its contract: from `P` it succeeds with `Q`, and wherever it is cut
  off it leaves `C`. `Stuck P m` says that from `P` it fails, and `Fails P m E` that it
  does and leaves `E`; `Yields P m Q` is for a success only, and `Keeps part m` for a part of
  the state that it leaves as it was;
* `Files` is a directory, where a write is the creation of an empty file and then one
  byte after the other. Whoever writes in larger pieces passes through fewer states;
* `Storage` is what the file system does with each file: it may refuse to read, write or
  remove it, and a write may end short.
-/

namespace Crash

universe u v w

structure Run (σ : Type u) (ε : Type v) (α : Type w) where
  visited : List σ
  result : Except ε α
  final : σ

def Prog (σ : Type u) (ε : Type v) (α : Type w) := σ → Run σ ε α

namespace Prog

variable {σ : Type u} {ε : Type v} {α β : Type w}

def done (a : α) : Prog σ ε α := fun s => ⟨[s], .ok a, s⟩

def fail (e : ε) : Prog σ ε α := fun s => ⟨[s], .error e, s⟩

def andThen (m : Prog σ ε α) (f : α → Prog σ ε β) : Prog σ ε β := fun s =>
  match (m s).result with
  | .error e => ⟨(m s).visited, .error e, (m s).final⟩
  | .ok a =>
      let rest := f a (m s).final
      ⟨(m s).visited ++ rest.visited, rest.result, rest.final⟩

instance : Monad (Prog σ ε) where
  pure := done
  bind := andThen

/-- A single step: it is taken or not. -/
def atomically (f : σ → Except ε (α × σ)) : Prog σ ε α := fun s =>
  match f s with
  | .error e => ⟨[s], .error e, s⟩
  | .ok (a, t) => ⟨[s, t], .ok a, t⟩

variable {m : Prog σ ε α} {f : α → Prog σ ε β} {s t : σ} {a : α} {e : ε}

theorem bind_of_ok (h : (m s).result = .ok a) :
    (m >>= f) s = ⟨(m s).visited ++ (f a (m s).final).visited, (f a (m s).final).result,
      (f a (m s).final).final⟩ := by
  show andThen m f s = _
  unfold andThen
  rw [h]

theorem bind_of_error (h : (m s).result = .error e) :
    (m >>= f) s = ⟨(m s).visited, .error e, (m s).final⟩ := by
  show andThen m f s = _
  unfold andThen
  rw [h]

/-- What a program leaves when it is cut off, it leaves as a part of a larger one. -/
theorem mem_visited_bind (h : t ∈ (m s).visited) : t ∈ ((m >>= f) s).visited := by
  cases hresult : (m s).result with
  | error e =>
      rw [bind_of_error hresult]
      exact h
  | ok a =>
      rw [bind_of_ok hresult]
      exact List.mem_append_left _ h

/-- ... and so does what comes after a first part that succeeds. -/
theorem mem_visited_bind_of_ok (hok : (m s).result = .ok a)
    (h : t ∈ (f a (m s).final).visited) : t ∈ ((m >>= f) s).visited := by
  rw [bind_of_ok hok]
  exact List.mem_append_right _ h

/-! ## Contracts -/

/-- From `P` the program succeeds with `Q`, and wherever it is cut off it leaves `C`. -/
def Safe (P : σ → Prop) (m : Prog σ ε α) (Q : α → σ → Prop) (C : σ → Prop) : Prop :=
  ∀ s, P s → (∀ t ∈ (m s).visited, C t) ∧ ∃ a, (m s).result = .ok a ∧ Q a (m s).final

/-- From `P` the program fails. -/
def Stuck (P : σ → Prop) (m : Prog σ ε α) : Prop := ∀ s, P s → ∃ e, (m s).result = .error e

variable {P : σ → Prop} {Q : α → σ → Prop} {R : β → σ → Prop} {C C' : σ → Prop}

theorem Safe.mono_cut (h : Safe P m Q C) (hC : ∀ s, C s → C' s) : Safe P m Q C' := by
  intro s hs
  obtain ⟨hcut, hpost⟩ := h s hs
  exact ⟨fun t ht => hC t (hcut t ht), hpost⟩

/-- What does not occur in the rest of a contract may be fixed in its precondition. -/
theorem Safe.of_exists {ι : Type} {P : ι → σ → Prop} (h : ∀ i, Safe (P i) m Q C) :
    Safe (fun s => ∃ i, P i s) m Q C := by
  rintro s ⟨i, hs⟩
  exact h i s hs

/-- A part of a precondition that is not about the state is a hypothesis. -/
theorem Safe.of_and {p : Prop} (h : p → Safe P m Q C) : Safe (fun s => p ∧ P s) m Q C := by
  rintro s ⟨hp, hs⟩
  exact h hp s hs

theorem Safe.pure (hQ : ∀ s, P s → Q a s) (hC : ∀ s, P s → C s) :
    Safe P (Pure.pure a : Prog σ ε α) Q C := by
  intro s hs
  refine ⟨fun t ht => ?_, a, rfl, hQ s hs⟩
  obtain rfl := List.mem_singleton.mp ht
  exact hC t hs

/-- Sequencing: the first program ends where the second one starts. -/
theorem Safe.bind (hm : Safe P m Q C) (hf : ∀ a, Safe (Q a) (f a) R C) :
    Safe P (m >>= f) R C := by
  intro s hs
  obtain ⟨hcut, a, hresult, hmid⟩ := hm s hs
  obtain ⟨hcut', b, hresult', hpost⟩ := hf a _ hmid
  rw [bind_of_ok hresult]
  refine ⟨fun t ht => ?_, b, hresult', hpost⟩
  exact (List.mem_append.mp ht).elim (hcut t) (hcut' t)

theorem Safe.atomically {f : σ → Except ε (α × σ)} (hC : ∀ s, P s → C s)
    (h : ∀ s, P s → ∃ a t, f s = .ok (a, t) ∧ Q a t ∧ C t) :
    Safe P (Prog.atomically f) Q C := by
  intro s hs
  obtain ⟨a, t, hstep, hpost, hcut⟩ := h s hs
  unfold Prog.atomically
  rw [hstep]
  refine ⟨fun t' ht' => ?_, a, rfl, hpost⟩
  rcases List.mem_cons.mp ht' with rfl | ht'
  · exact hC _ hs
  · rw [List.mem_singleton.mp ht']
    exact hcut

/-- A loop over a list, by an invariant on what has been gone through. -/
theorem Safe.forM {γ : Type} {I : List γ → σ → Prop} {body : γ → Prog σ ε PUnit} {items : List γ}
    (hC : ∀ past s, I past s → C s)
    (hbody : ∀ past x rest, items = past ++ x :: rest →
      Safe (I past) (body x) (fun _ => I (past ++ [x])) C) :
    Safe (I []) (items.forM body) (fun _ => I items) C := by
  suffices h : ∀ rest past, items = past ++ rest →
      Safe (I past) (rest.forM body) (fun _ => I items) C from h items [] rfl
  intro rest
  induction rest with
  | nil =>
      intro past hitems
      rw [List.append_nil] at hitems
      subst hitems
      exact Safe.pure (fun s hs => hs) (hC items)
  | cons x rest ih =>
      intro past hitems
      apply Safe.bind (hbody past x rest hitems)
      intro _
      exact ih (past ++ [x]) (by simp [hitems])

theorem Stuck.atomically {f : σ → Except ε (α × σ)} (h : ∀ s, P s → ∃ e, f s = .error e) :
    Stuck P (Prog.atomically f) := by
  intro s hs
  obtain ⟨e, he⟩ := h s hs
  unfold Prog.atomically
  rw [he]
  exact ⟨e, rfl⟩

/-- A failure ends the program. -/
theorem Stuck.bind (h : Stuck P m) : Stuck P (m >>= f) := by
  intro s hs
  obtain ⟨e, he⟩ := h s hs
  rw [bind_of_error he]
  exact ⟨e, rfl⟩

theorem Stuck.bind_of_safe (hm : Safe P m Q C) (hf : ∀ a, Stuck (Q a) (f a)) :
    Stuck P (m >>= f) := by
  intro s hs
  obtain ⟨-, a, hresult, hmid⟩ := hm s hs
  rw [bind_of_ok hresult]
  exact hf a _ hmid

/-- From `P` the program fails and leaves `E`. -/
def Fails (P : σ → Prop) (m : Prog σ ε α) (E : σ → Prop) : Prop :=
  ∀ s, P s → (∃ e, (m s).result = .error e) ∧ E (m s).final

variable {E : σ → Prop}

theorem Fails.fail (h : ∀ s, P s → E s) : Fails P (Prog.fail e : Prog σ ε α) E :=
  fun s hs => ⟨⟨e, rfl⟩, h s hs⟩

theorem Fails.atomically {f : σ → Except ε (α × σ)} (h : ∀ s, P s → (∃ e, f s = .error e) ∧ E s) :
    Fails P (Prog.atomically f) E := by
  intro s hs
  obtain ⟨⟨e, he⟩, hleft⟩ := h s hs
  unfold Prog.atomically
  rw [he]
  exact ⟨⟨e, rfl⟩, hleft⟩

/-- A failure ends the program there. -/
theorem Fails.bind (h : Fails P m E) : Fails P (m >>= f) E := by
  intro s hs
  obtain ⟨⟨e, he⟩, hleft⟩ := h s hs
  rw [bind_of_error he]
  exact ⟨⟨e, rfl⟩, hleft⟩

theorem Fails.bind_of_safe (hm : Safe P m Q C) (hf : ∀ a, Fails (Q a) (f a) E) :
    Fails P (m >>= f) E := by
  intro s hs
  obtain ⟨-, a, hresult, hmid⟩ := hm s hs
  rw [bind_of_ok hresult]
  exact hf a _ hmid

/-- A loop fails at the first item whose body fails. -/
theorem Fails.forM {γ : Type} {I : List γ → σ → Prop} {body : γ → Prog σ ε PUnit} {past : List γ}
    {x : γ} (rest : List γ)
    (hbody : ∀ before y after, past = before ++ y :: after →
      Safe (I before) (body y) (fun _ => I (before ++ [y])) fun _ => True)
    (hx : Fails (I past) (body x) E) : Fails (I []) ((past ++ x :: rest).forM body) E := by
  suffices h : ∀ after before, past = before ++ after →
      Fails (I before) ((after ++ x :: rest).forM body) E from h past [] rfl
  intro after
  induction after with
  | nil =>
      intro before hpast
      rw [List.append_nil] at hpast
      subst hpast
      exact hx.bind
  | cons y after ih =>
      intro before hpast
      apply Fails.bind_of_safe (hbody before y after hpast)
      intro _
      exact ih (before ++ [y]) (by simp [hpast])

/-! ## What a success leaves -/

/-- Where the program succeeds from `P` it leaves `Q`. -/
def Yields (P : σ → Prop) (m : Prog σ ε α) (Q : α → σ → Prop) : Prop :=
  ∀ s, P s → ∀ a, (m s).result = .ok a → Q a (m s).final

/-- A loop that fails does so in the body for one item, after those before it succeeded. -/
theorem foldlM_cases {γ : Type} {I : List γ → α → σ → Prop} (body : α → γ → Prog σ ε α)
    (items : List γ)
    (hbody : ∀ past x rest a, items = past ++ x :: rest →
      Yields (I past a) (body a x) (I (past ++ [x])))
    (hs : I [] a s) :
    (∀ b, (items.foldlM body a s).result = .ok b → I items b (items.foldlM body a s).final) ∧
    (∀ e, (items.foldlM body a s).result = .error e → ∃ past x rest b t,
      items = past ++ x :: rest ∧ I past b t ∧ (body b x t).result = .error e ∧
        (items.foldlM body a s).final = (body b x t).final) := by
  suffices h : ∀ rest past a s, items = past ++ rest → I past a s →
      (∀ b, (rest.foldlM body a s).result = .ok b → I items b (rest.foldlM body a s).final) ∧
      (∀ e, (rest.foldlM body a s).result = .error e → ∃ past x rest' b t,
        items = past ++ x :: rest' ∧ I past b t ∧ (body b x t).result = .error e ∧
          (rest.foldlM body a s).final = (body b x t).final) from h items [] a s rfl hs
  intro rest
  induction rest with
  | nil =>
      intro past a s hitems hs
      rw [List.append_nil] at hitems
      subst hitems
      refine ⟨fun b hok => ?_, fun e herr => ?_⟩
      · rw [← Except.ok.inj hok]
        exact hs
      · exact absurd (show Except.ok a = Except.error e from herr) (by simp)
  | cons x rest ih =>
      intro past a s hitems hs
      rw [List.foldlM_cons]
      cases hresult : (body a x s).result with
      | error e =>
          rw [bind_of_error hresult]
          refine ⟨fun b hok => by simp at hok, fun e' herr => ?_⟩
          obtain rfl := Except.error.inj herr
          exact ⟨past, x, rest, a, s, hitems, hs, hresult, rfl⟩
      | ok b =>
          rw [bind_of_ok hresult]
          exact ih (past ++ [x]) b _ (by simp [hitems])
            (hbody past x rest a hitems s hs b hresult)

/-! ## What no run changes -/

/-- However the program ends, it leaves this part of the state as it was. -/
def Keeps {τ : Type*} (part : σ → τ) (m : Prog σ ε α) : Prop := ∀ s, part (m s).final = part s

variable {τ : Type*} {part : σ → τ}

theorem Keeps.pure : Keeps part (Pure.pure a : Prog σ ε α) := fun _ => rfl

theorem Keeps.fail : Keeps part (Prog.fail e : Prog σ ε α) := fun _ => rfl

theorem Keeps.atomically {f : σ → Except ε (α × σ)}
    (h : ∀ s a t, f s = .ok (a, t) → part t = part s) : Keeps part (Prog.atomically f) := by
  intro s
  unfold Prog.atomically
  split
  · rfl
  · rename_i a t hstep
    exact h s a t hstep

theorem Keeps.bind (hm : Keeps part m) (hf : ∀ a, Keeps part (f a)) : Keeps part (m >>= f) := by
  intro s
  cases hresult : (m s).result with
  | error e =>
      rw [bind_of_error hresult]
      exact hm s
  | ok a =>
      rw [bind_of_ok hresult]
      exact (hf a _).trans (hm s)

theorem Keeps.forM {γ : Type} {body : γ → Prog σ ε PUnit} {items : List γ}
    (h : ∀ x, Keeps part (body x)) : Keeps part (items.forM body) := by
  induction items with
  | nil => exact Keeps.pure
  | cons x items ih => exact Keeps.bind (h x) fun _ => ih

theorem Keeps.foldlM {γ : Type} {body : α → γ → Prog σ ε α} {items : List γ} {a : α}
    (h : ∀ a, ∀ x ∈ items, Keeps part (body a x)) : Keeps part (items.foldlM body a) := by
  induction items generalizing a with
  | nil => exact Keeps.pure
  | cons x items ih =>
      rw [List.foldlM_cons]
      exact Keeps.bind (h a x (by simp)) fun b => ih fun a y hy => h a y (by simp [hy])

end Prog

/-! ## Files -/

/-- The contents of the files there are. -/
abbrev Files (ν : Type) := ν → Option Bytes

namespace Files

open Prog

variable {ν : Type} {ε : Type} {path file : ν} {contents : Bytes} {e : ε} {P Q C : Files ν → Prop}

def pathExists (path : ν) : Prog (Files ν) ε Bool := fun s => ⟨[s], .ok (s path).isSome, s⟩

def read (path : ν) (missing : ε) : Prog (Files ν) ε Bytes :=
  atomically fun s => match s path with
    | none => .error missing
    | some contents => .ok (contents, s)

/-- A read succeeds with the contents of the file. -/
theorem safe_pathExists (hC : ∀ s, P s → C s) :
    Safe P (pathExists path : Prog (Files ν) ε Bool)
      (fun present s => P s ∧ present = (s path).isSome) C := by
  intro s hs
  refine ⟨fun t ht => ?_, _, rfl, hs, rfl⟩
  obtain rfl := List.mem_singleton.mp ht
  exact hC t hs

theorem safe_read (h : ∀ s, P s → ∃ contents, s path = some contents) (hC : ∀ s, P s → C s) :
    Safe P (read path e) (fun contents s => P s ∧ s path = some contents) C := by
  apply Safe.atomically hC
  intro s hs
  obtain ⟨contents, hcontents⟩ := h s hs
  rw [hcontents]
  exact ⟨contents, s, rfl, ⟨hs, hcontents⟩, hC s hs⟩

theorem keeps_pathExists :
    Keeps (fun s : Files ν => s file) (pathExists path : Prog (Files ν) ε Bool) :=
  fun _ => rfl

theorem keeps_read : Keeps (fun s : Files ν => s file) (read path e) := by
  apply Keeps.atomically
  intro s contents t hstep
  cases hfile : s path with
  | none => simp [hfile] at hstep
  | some contents =>
      simp only [hfile, Except.ok.injEq, Prod.mk.injEq] at hstep
      rw [hstep.2]

variable [DecidableEq ν]

def put (s : Files ν) (path : ν) (contents : Bytes) : Files ν :=
  Function.update s path (some contents)

def erase (s : Files ν) (path : ν) : Files ν := Function.update s path none

@[simp] theorem put_self (s : Files ν) : s.put path contents path = some contents :=
  Function.update_self ..

@[simp] theorem put_of_ne (s : Files ν) {other : ν} (h : other ≠ path) :
    s.put path contents other = s other := Function.update_of_ne h ..

@[simp] theorem put_put (s : Files ν) (contents' : Bytes) :
    (s.put path contents).put path contents' = s.put path contents' := Function.update_idem ..

@[simp] theorem erase_self (s : Files ν) : s.erase path path = none := Function.update_self ..

@[simp] theorem erase_of_ne (s : Files ν) {other : ν} (h : other ≠ path) :
    s.erase path other = s other := Function.update_of_ne h ..

/-- Create the file, or truncate it. -/
def create (path : ν) : Prog (Files ν) ε Unit := atomically fun s => .ok ((), s.put path [])

/-- Append to the file, byte by byte. -/
def writeAll (path : ν) (contents : Bytes) : Prog (Files ν) ε Unit := fun s =>
  let old := (s path).getD []
  ⟨contents.inits.map fun written => s.put path (old ++ written), .ok (),
    s.put path (old ++ contents)⟩

def write (path : ν) (contents : Bytes) : Prog (Files ν) ε Unit := do
  create path
  writeAll path contents

def remove (path : ν) (missing : ε) : Prog (Files ν) ε Unit :=
  atomically fun s => match s path with
    | none => .error missing
    | some _ => .ok ((), s.erase path)

/-- A write that is cut off leaves the file as it was, or a beginning of what is written. -/
theorem safe_write (hcut : ∀ s, P s → C s ∧ ∀ written, written <+: contents → C (s.put path written))
    (hQ : ∀ s, P s → Q (s.put path contents)) :
    Safe P (write path contents : Prog (Files ν) ε Unit) (fun _ => Q) C := by
  apply Safe.bind (Q := fun _ s => ∃ t, P t ∧ s = t.put path [])
  · apply Safe.atomically (fun s hs => (hcut s hs).1)
    intro s hs
    exact ⟨(), _, rfl, ⟨s, hs, rfl⟩, (hcut s hs).2 [] List.nil_prefix⟩
  · rintro _ s ⟨t, ht, rfl⟩
    refine ⟨fun u hu => ?_, (), rfl, ?_⟩
    · obtain ⟨written, hwritten, rfl⟩ := List.mem_map.mp hu
      rw [put_self, Option.getD_some, List.nil_append, put_put]
      exact (hcut t ht).2 written ((List.mem_inits ..).mp hwritten)
    · show Q ((t.put path []).put path (((t.put path []) path).getD [] ++ contents))
      rw [put_self, Option.getD_some, List.nil_append, put_put]
      exact hQ t ht

theorem safe_remove (h : ∀ s, P s → s path ≠ none) (hC : ∀ s, P s → C s ∧ C (s.erase path))
    (hQ : ∀ s, P s → Q (s.erase path)) :
    Safe P (remove path e) (fun _ => Q) C := by
  apply Safe.atomically (fun s hs => (hC s hs).1)
  intro s hs
  obtain ⟨contents, hcontents⟩ := Option.ne_none_iff_exists'.mp (h s hs)
  rw [hcontents]
  exact ⟨(), _, rfl, hQ s hs, (hC s hs).2⟩

/-! ## Other files -/

theorem keeps_write (h : file ≠ path) :
    Keeps (fun s : Files ν => s file) (write path contents : Prog (Files ν) ε Unit) := by
  intro s
  show (((s.put path []).put path _) : Files ν) file = s file
  rw [put_of_ne _ h, put_of_ne _ h]

theorem keeps_remove (h : file ≠ path) : Keeps (fun s : Files ν => s file) (remove path e) := by
  apply Keeps.atomically
  intro s _ t hstep
  cases hfile : s path with
  | none => simp [hfile] at hstep
  | some contents =>
      simp only [hfile, Except.ok.injEq, Prod.mk.injEq, true_and] at hstep
      rw [← hstep]
      exact erase_of_ne s h

/-! ## A file system that fails -/

/-- How the writing of a file ends: `refused` leaves the file as it was, `short` after so many
bytes. -/
inductive Writing where
  | whole
  | refused
  | short (length : Nat)
  deriving DecidableEq

/-- What becomes of the operations on each file. -/
structure Storage (ν : Type) where
  readable : ν → Bool
  writing : ν → Writing
  removable : ν → Bool

namespace Storage

def reliable : Storage ν where
  readable _ := true
  writing _ := .whole
  removable _ := true

variable (storage : Storage ν) {refused short : ε} {E : Files ν → Prop}

def read (path : ν) (failed : ε) : Prog (Files ν) ε Bytes :=
  if storage.readable path then Files.read path failed else fail failed

def write (path : ν) (contents : Bytes) (refused short : ε) : Prog (Files ν) ε Unit :=
  match storage.writing path with
  | .whole => Files.write path contents
  | .refused => fail refused
  | .short length => do
      Files.write path (contents.take length)
      fail short

def remove (path : ν) (failed : ε) : Prog (Files ν) ε Unit :=
  if storage.removable path then Files.remove path failed else fail failed

variable {storage}

omit [DecidableEq ν] in
theorem read_of_readable (h : storage.readable path = true) :
    storage.read path e = Files.read path e := if_pos h

theorem write_of_whole (h : storage.writing path = .whole) :
    storage.write path contents refused short = Files.write path contents := by
  unfold write
  rw [h]

theorem remove_of_removable (h : storage.removable path = true) :
    storage.remove path e = Files.remove path e := if_pos h

omit [DecidableEq ν] in
/-- What is read of one directory. -/
theorem safe_read {disk : Files ν} (h : storage.readable path = true)
    (hfile : disk path = some contents) :
    Safe (fun s => s = disk) (storage.read path e) (fun found s => found = contents ∧ s = disk)
      (fun _ => True) := by
  rw [read_of_readable h]
  apply Safe.atomically fun _ _ => trivial
  rintro s rfl
  exact ⟨contents, s, by rw [hfile], ⟨rfl, rfl⟩, trivial⟩

omit [DecidableEq ν] in
theorem fails_read (h : storage.readable path = false) (hE : ∀ s, P s → E s) :
    Fails P (storage.read path e) E := by
  rw [read, if_neg (by simp [h])]
  exact Fails.fail hE

theorem fails_remove (h : storage.removable path = false) (hE : ∀ s, P s → E s) :
    Fails P (storage.remove path e) E := by
  rw [remove, if_neg (by simp [h])]
  exact Fails.fail hE

/-- A write that fails leaves the file as it was, or a beginning of what is written. -/
theorem fails_write (h : storage.writing path ≠ .whole) (hrefused : ∀ s, P s → E s)
    (hshort : ∀ s written, P s → written <+: contents → E (s.put path written)) :
    Fails P (storage.write path contents refused short) E := by
  unfold write
  split
  · rename_i hwhole
    exact absurd hwhole h
  · exact Fails.fail hrefused
  · rename_i length _
    have hwritten : Safe P (Files.write path (contents.take length) : Prog (Files ν) ε Unit)
        (fun _ => E) (fun _ => True) :=
      safe_write (fun _ _ => ⟨trivial, fun _ _ => trivial⟩) fun s hs =>
        hshort s _ hs (List.take_prefix ..)
    exact Fails.bind_of_safe hwritten fun _ => Fails.fail fun _ h => h

omit [DecidableEq ν] in
theorem keeps_read : Keeps (fun s : Files ν => s file) (storage.read path e) := by
  unfold read
  split
  · exact Files.keeps_read
  · exact Keeps.fail

theorem keeps_write (h : file ≠ path) : Keeps (fun s : Files ν => s file)
    (storage.write path contents refused short) := by
  unfold write
  split
  · exact Files.keeps_write h
  · exact Keeps.fail
  · exact Keeps.bind (Files.keeps_write h) fun _ => Keeps.fail

theorem keeps_remove (h : file ≠ path) :
    Keeps (fun s : Files ν => s file) (storage.remove path e) := by
  unfold remove
  split
  · exact Files.keeps_remove h
  · exact Keeps.fail

end Storage

end Files

end Crash
