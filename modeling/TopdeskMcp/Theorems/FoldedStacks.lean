import Mathlib.Algebra.BigOperators.Group.List.Basic
import Mathlib.Algebra.Order.Ring.Int
import TopdeskMcp.Lib.Lines
import TopdeskMcp.Lib.Table
import TopdeskMcp.Scripts.SamplyToText

/-!
# What a folded profile says

A stack is written out from its frame down to the bottom (`Chain`), and a stack has one chain. What
the script remembers are chains, so it does not matter what it has met before
(`stackFrames_spec`, `stackFrames_of_chain`).

* The two files count the chains of all samples (`profile_exact`);
* a frame has the name that the sidecar has for its address (`frame_name_exact`).
-/

namespace TopdeskMcp.Theorems.FoldedStacks

open TopdeskMcp.Samply

section

variable {thread : Thread} {resolvers : Option Resolvers} {stack : Option Int}
  {frames frames' : List String} {cache cache' : Cache} {limit : Nat}

/-! ## Chains -/

/-- The names from the bottom of a stack to its frame. -/
inductive Chain (thread : Thread) (resolvers : Option Resolvers) :
    Option Int → List String → Prop
  | bottom : Chain thread resolvers none []
  | frame {stack frame : Int} {below : Option Int} {name : String} {frames : List String}
      (hbelow : index thread.stackTable.below stack = .ok below)
      (hframe : index thread.stackTable.frame stack = .ok frame)
      (hname : resolveFrameName thread frame resolvers = .ok name)
      (hrest : Chain thread resolvers below frames) :
      Chain thread resolvers (some stack) (frames ++ [name])

theorem Chain.unique (h : Chain thread resolvers stack frames)
    (h' : Chain thread resolvers stack frames') : frames = frames' := by
  induction h generalizing frames' with
  | bottom =>
      cases h'
      rfl
  | frame hbelow hframe hname hrest ih =>
      cases h' with
      | frame hbelow' hframe' hname' hrest' =>
          obtain rfl := Except.ok.inj (hbelow.symm.trans hbelow')
          obtain rfl := Except.ok.inj (hframe.symm.trans hframe')
          obtain rfl := Except.ok.inj (hname.symm.trans hname')
          rw [ih hrest']

theorem Chain.ne_nil {i : Int} (h : Chain thread resolvers (some i) frames) : frames ≠ [] := by
  cases h
  simp

/-- What is remembered are chains. -/
def Remembered (thread : Thread) (resolvers : Option Resolvers) (cache : Cache) : Prop :=
  ∀ i frames, cache.lookup i = some frames → Chain thread resolvers (some i) frames

theorem Remembered.cons (h : Remembered thread resolvers cache) {i : Int}
    (hchain : Chain thread resolvers (some i) frames) :
    Remembered thread resolvers ((i, frames) :: cache) := by
  intro j frames' hlookup
  rw [List.lookup_cons] at hlookup
  by_cases heq : j = i
  · subst heq
    rw [beq_self_eq_true] at hlookup
    exact Option.some.inj hlookup ▸ hchain
  · rw [beq_false_of_ne heq] at hlookup
    exact h j frames' hlookup

/-- The stacks of the samples that have one. -/
def stacksOf (thread : Thread) : List Int := thread.samples.filterMap id

/-- The functions that were running. -/
def tops (chains : List (List String)) : List String := chains.filterMap List.getLast?

/-- The counters count the samples with these chains. -/
structure CountsOf (counts : Counts) (chains : List (List String)) : Prop where
  folded : Counter.IsCount counts.folded (chains.map foldedStack)
  selfTime : Counter.IsCount counts.selfTime (tops chains)

theorem CountsOf.sample {counts : Counts} {chains : List (List String)} (h : CountsOf counts chains)
    (hne : frames ≠ []) : CountsOf (counts.sample frames) (chains ++ [frames]) := by
  have htop := List.getLast?_eq_some_getLast hne
  unfold Counts.sample
  rw [htop]
  constructor
  · rw [List.map_append]
    exact h.folded.add (foldedStack frames)
  · rw [tops, List.filterMap_append, List.filterMap_cons, htop]
    exact h.selfTime.add (frames.getLast hne)

theorem CountsOf.update {counts more : Counts} {chains chains' : List (List String)}
    (h : CountsOf counts chains) (hmore : CountsOf more chains') :
    CountsOf (counts.update more) (chains ++ chains') := by
  constructor
  · rw [List.map_append]
    exact h.folded.update hmore.folded
  · rw [tops, List.filterMap_append]
    exact h.selfTime.update hmore.selfTime

/-- Every stack has its chain. -/
def Chains (thread : Thread) (resolvers : Option Resolvers) (indices : List Int)
    (chains : List (List String)) : Prop :=
  List.Forall₂ (fun i frames => Chain thread resolvers (some i) frames) indices chains

end

/-! ## The whole profile -/

section

variable {limit : Nat} {profile : Profile} {syms : Option Syms} {resolvers : Option Resolvers}
  {threads : List Thread} {counts counts' : Counts} {chains more : List (List String)}

/-- The samples that have a stack, each with its thread. -/
def samplesOf (threads : List Thread) : List (Thread × Int) :=
  threads.flatMap fun thread => (stacksOf thread).map fun stack => (thread, stack)

/-- Every sample has its chain. -/
def ChainsOf (resolvers : Option Resolvers) (threads : List Thread)
    (chains : List (List String)) : Prop :=
  List.Forall₂ (fun sample frames => Chain sample.1 resolvers (some sample.2) frames)
    (samplesOf threads) chains

theorem ChainsOf.unique {chains' : List (List String)} (h : ChainsOf resolvers threads chains)
    (h' : ChainsOf resolvers threads chains') : chains = chains' := by
  unfold ChainsOf at h h'
  generalize samplesOf threads = samples at h h'
  induction h generalizing chains' with
  | nil =>
      cases h'
      rfl
  | cons hchain hrest ih =>
      cases h' with
      | cons hchain' hrest' => rw [hchain.unique hchain', ih hrest']

theorem ChainsOf.cons {thread : Thread} (h : Chains thread resolvers (stacksOf thread) chains)
    (hrest : ChainsOf resolvers threads more) :
    ChainsOf resolvers (thread :: threads) (chains ++ more) := by
  have hthread : List.Forall₂
      (fun (sample : Thread × Int) frames => Chain sample.1 resolvers (some sample.2) frames)
      ((stacksOf thread).map fun stack => (thread, stack)) chains :=
    List.forall₂_map_left_iff.mpr h
  exact List.rel_append hthread hrest

theorem ChainsOf.short (h : ChainsOf resolvers threads chains)
    (hlimit : ∀ frames ∈ chains, frames.length < limit) :
    ∀ thread ∈ threads, ∀ i ∈ stacksOf thread, ∃ frames,
      Chain thread resolvers (some i) frames ∧ frames.length < limit := by
  intro thread hthread i hi
  have hsample : (thread, i) ∈ samplesOf threads :=
    List.mem_flatMap.mpr ⟨thread, hthread, List.mem_map.mpr ⟨i, hi, rfl⟩⟩
  obtain ⟨j, hj, heq⟩ := List.getElem_of_mem hsample
  have hlength := h.length_eq
  have hchain := h.get hj (hlength ▸ hj)
  rw [List.get_eq_getElem, List.get_eq_getElem, heq] at hchain
  exact ⟨_, hchain, hlimit _ (List.getElem_mem _)⟩

/-- The two files count the chains, the first one all of them and the second one, for the thirty
functions that were running most often, those that have the function on top. -/
structure Exact (output : Output) (chains : List (List String)) : Prop where
  folded : ∀ stack n, (stack, n) ∈ output.folded ↔
    stack ∈ chains.map foldedStack ∧ n = (chains.map foldedStack).count stack
  foldedOnce : (Counter.keys output.folded).Nodup
  foldedSorted : output.folded.Pairwise fun a b => b.2 ≤ a.2
  foldedTotal : (output.folded.map (·.2)).sum = chains.length
  top : ∀ name n, (name, n) ∈ output.top → name ∈ tops chains ∧ n = (tops chains).count name
  topOnce : (Counter.keys output.top).Nodup
  topSorted : output.top.Pairwise fun a b => b.2 ≤ a.2
  topLength : output.top.length ≤ 30
  topRest : ∀ name ∈ tops chains, name ∉ Counter.keys output.top →
    output.top.length = 30 ∧ ∀ entry ∈ output.top, (tops chains).count name ≤ entry.2

end

namespace Sampled

/-- `main` at the bottom, a frame without an address on top of it, and a frame of its own. -/
def thread : Thread where
  frameTable := { func := [0, 1, 2], address := [some 5, none, some 105] }
  funcTable := { name := [0, 1, 2], resource := [some 0, none, some 0] }
  resourceLib := [some 0]
  stringArray := ["0x5", "idle", "0x69"]
  stackTable := { below := [none, some 0], frame := [0, 1] }
  samples := [some 1, none, some 0, some 1]

def profile : Profile := { libs := [some "A"], threads := [thread] }

def entry : SymsEntry where
  codeId := some "A"
  knownAddresses := [(5, 0)]
  symbolTable := [⟨100, 10, 1⟩]

def syms : Syms := { stringTable := ["main", "work"], data := [entry] }

end Sampled

/-! ## The sidecar -/

section

variable {ranges : List Range} {syms : Syms} {entry : SymsEntry} {address : Int}
  {name : String} {found : Option String}

theorem rangeLe_trans (a b c : Range) (hab : rangeLe a b) (hbc : rangeLe b c) : rangeLe a c := by
  simp only [rangeLe, Bool.or_eq_true, Bool.and_eq_true, decide_eq_true_eq, beq_iff_eq]
    at hab hbc ⊢
  rcases hab with hab | ⟨hab, hab' | ⟨hab', hname⟩⟩ <;>
    rcases hbc with hbc | ⟨hbc, hbc' | ⟨hbc', hname'⟩⟩
  case inr.inr.inr.inr =>
    exact .inr ⟨hab.trans hbc, .inr ⟨hab'.trans hbc', String.le_trans hname hname'⟩⟩
  all_goals omega

theorem rangeLe_total (a b : Range) : (rangeLe a b || rangeLe b a) = true := by
  simp only [rangeLe, Bool.or_eq_true, Bool.and_eq_true, decide_eq_true_eq, beq_iff_eq]
  rcases Int.lt_trichotomy a.1 b.1 with hlt | heq | hgt
  · exact .inl (.inl hlt)
  · rcases Int.lt_trichotomy a.2.1 b.2.1 with hlt' | heq' | hgt'
    · exact .inl (.inr ⟨heq, .inl hlt'⟩)
    · rcases String.le_total a.2.2 b.2.2 with hname | hname
      · exact .inl (.inr ⟨heq, .inr ⟨heq', hname⟩⟩)
      · exact .inr (.inr ⟨heq.symm, .inr ⟨heq'.symm, hname⟩⟩)
    · exact .inr (.inr ⟨heq.symm, .inl hgt'⟩)
  · exact .inr (.inl hgt)

/-- No function begins inside of another one. -/
structure Separate (ranges : List Range) : Prop where
  apart : ∀ a ∈ ranges, ∀ b ∈ ranges, a.1 < b.1 → a.2.1 ≤ b.1
  same : ∀ a ∈ ranges, ∀ b ∈ ranges, a.1 = b.1 → a = b

/-- Where the bisection ends, among the functions. -/
theorem right_starts (hsorted : ranges.Pairwise fun a b => a.1 ≤ b.1) (address : Int) :
    Bisect.right (ranges.map (·.1)) address ≤ ranges.length ∧
      ∀ (i : Nat) (range : Range), ranges[i]? = some range →
        (i < Bisect.right (ranges.map (·.1)) address → range.1 ≤ address) ∧
        (Bisect.right (ranges.map (·.1)) address ≤ i → address < range.1) := by
  have hstarts : (ranges.map (·.1)).Pairwise (· ≤ ·) := List.pairwise_map.mpr hsorted
  obtain ⟨hlength, hlow, hhigh⟩ := Bisect.isRight_right hstarts address
  rw [List.length_map] at hlength
  refine ⟨hlength, fun i range hrange => ?_⟩
  have hstart : (ranges.map (·.1))[i]? = some range.1 := by
    rw [List.getElem?_map, hrange, Option.map_some]
  exact ⟨fun hlt => hlow i _ hlt hstart, fun hle => hhigh i _ hle hstart⟩

/-- The bisection finds the function that an address is in. -/
theorem symbolAt_eq_some_iff (hsorted : ranges.Pairwise fun a b => a.1 ≤ b.1)
    (hsep : Separate ranges) :
    symbolAt ranges address = some name ↔
      ∃ start stop, (start, stop, name) ∈ ranges ∧ start ≤ address ∧ address < stop := by
  obtain ⟨hlength, hplace⟩ := right_starts hsorted address
  unfold symbolAt
  generalize Bisect.right (ranges.map (·.1)) address = place at hlength hplace
  cases place with
  | zero =>
      simp only [reduceCtorEq, false_iff]
      rintro ⟨start, stop, hmem, hle, -⟩
      obtain ⟨i, hi⟩ := List.getElem?_of_mem hmem
      have habove : address < start := (hplace i _ hi).2 (Nat.zero_le i)
      omega
  | succ pos =>
      have hpos : ranges[pos]? = some ranges[pos] := List.getElem?_eq_getElem hlength
      generalize ranges[pos] = last at hpos
      obtain ⟨start, stop, lastName⟩ := last
      have hlast := List.mem_of_getElem? hpos
      simp only [hpos, Option.bind_some]
      constructor
      · intro h
        rw [Option.ite_none_right_eq_some] at h
        obtain ⟨hinside, heq⟩ := h
        obtain rfl := Option.some.inj heq
        exact ⟨start, stop, hlast, hinside⟩
      · rintro ⟨start', stop', hmem, hle, hlt⟩
        obtain ⟨i, hi⟩ := List.getElem?_of_mem hmem
        -- the function begins where the last one does that can be it, or it ends before that
        have hbefore : i ≤ pos := by
          by_contra hafter
          have habove : address < start' := (hplace i _ hi).2 (by omega)
          omega
        have hbelow : start ≤ address := (hplace pos _ hpos).1 (Nat.lt_succ_self pos)
        have hstarts : start' ≤ start := by
          refine Bisect.le_of_pairwise (List.pairwise_map.mpr hsorted) ?_ ?_ hbefore
          · rw [List.getElem?_map, hi, Option.map_some]
          · rw [List.getElem?_map, hpos, Option.map_some]
        rcases Int.lt_or_eq_of_le hstarts with hstrict | heq
        · have hapart : stop' ≤ start := hsep.apart _ hmem _ hlast hstrict
          omega
        · obtain ⟨rfl, rfl, rfl⟩ : start' = start ∧ stop' = stop ∧ name = lastName := by
            simpa using hsep.same _ hmem _ hlast heq
          rw [if_pos ⟨hle, hlt⟩]

/-- The address is in the function. -/
def Covers (row : SymbolRow) (address : Int) : Prop :=
  row.rva ≤ address ∧ address < row.rva + row.size

/-- What a sidecar says of an address: the name that it has for it, or else the name of the function
that the address is in. -/
inductive Says (syms : Syms) (entry : SymsEntry) (address : Int) : Option String → Prop
  | known {idx : Int} (hknown : (address, idx) ∈ entry.knownAddresses) :
      Says syms entry address (some (nameAt syms idx))
  | inside {row : SymbolRow} (hnot : ∀ idx, (address, idx) ∉ entry.knownAddresses)
      (hrow : row ∈ entry.symbolTable) (hcovers : Covers row address) :
      Says syms entry address (some (nameAt syms row.symbol))
  | unknown (hnot : ∀ idx, (address, idx) ∉ entry.knownAddresses)
      (hnone : ∀ row ∈ entry.symbolTable, ¬ Covers row address) :
      Says syms entry address none

/-- An address has one name, and no function begins inside of another one. -/
structure WellFormed (entry : SymsEntry) : Prop where
  known : ∀ address i j, (address, i) ∈ entry.knownAddresses →
    (address, j) ∈ entry.knownAddresses → i = j
  apart : ∀ a ∈ entry.symbolTable, ∀ b ∈ entry.symbolTable, a.rva < b.rva → a.rva + a.size ≤ b.rva
  same : ∀ a ∈ entry.symbolTable, ∀ b ∈ entry.symbolTable, a.rva = b.rva → a = b

theorem WellFormed.row_unique (h : WellFormed entry) {a b : SymbolRow}
    (ha : a ∈ entry.symbolTable) (hb : b ∈ entry.symbolTable) (hcovers : Covers a address)
    (hcovers' : Covers b address) : a = b := by
  unfold Covers at hcovers hcovers'
  rcases Int.lt_trichotomy a.rva b.rva with hlt | heq | hgt
  · have hapart := h.apart a ha b hb hlt
    omega
  · exact h.same a ha b hb heq
  · have hapart := h.apart b hb a ha hgt
    omega

theorem Says.unique {found' : Option String} (hformed : WellFormed entry)
    (h : Says syms entry address found) (h' : Says syms entry address found') : found = found' := by
  cases h with
  | known hknown =>
      cases h' with
      | known hknown' => rw [hformed.known _ _ _ hknown hknown']
      | inside hnot _ _ => exact absurd hknown (hnot _)
      | unknown hnot _ => exact absurd hknown (hnot _)
  | inside hnot hrow hcovers =>
      cases h' with
      | known hknown => exact absurd hknown (hnot _)
      | inside _ hrow' hcovers' => rw [hformed.row_unique hrow hrow' hcovers hcovers']
      | unknown _ hnone => exact absurd hcovers (hnone _ hrow)
  | unknown hnot hnone =>
      cases h' with
      | known hknown => exact absurd hknown (hnot _)
      | inside _ hrow hcovers => exact absurd hcovers (hnone _ hrow)
      | unknown _ _ => rfl

theorem lookup_known (hformed : WellFormed entry) {idx : Int}
    (h : (address, idx) ∈ entry.knownAddresses) :
    (resolverOf syms entry).known.lookup address = some (nameAt syms idx) := by
  have hmem : (address, nameAt syms idx) ∈ (resolverOf syms entry).known :=
    List.mem_reverse.mpr (List.mem_map.mpr ⟨_, h, rfl⟩)
  cases hlookup : (resolverOf syms entry).known.lookup address with
  | none =>
      have hother := List.lookup_eq_none_iff.mp hlookup _ hmem
      simp at hother
  | some found =>
      obtain ⟨⟨address', idx'⟩, hmem', heq⟩ :=
        List.mem_map.mp (List.mem_reverse.mp (Table.mem_of_lookup hlookup))
      obtain ⟨rfl, rfl⟩ := Prod.mk.inj heq
      rw [hformed.known _ _ _ h hmem']

theorem lookup_known_eq_none (h : ∀ idx, (address, idx) ∉ entry.knownAddresses) :
    (resolverOf syms entry).known.lookup address = none := by
  rw [List.lookup_eq_none_iff]
  intro pair hpair
  obtain ⟨⟨address', idx⟩, hmem, rfl⟩ := List.mem_map.mp (List.mem_reverse.mp hpair)
  exact bne_iff_ne.mpr fun heq => h idx (heq ▸ hmem)

theorem mem_ranges {range : Range} :
    range ∈ (resolverOf syms entry).ranges ↔
      ∃ row ∈ entry.symbolTable, symbolRange syms row = range := by
  show range ∈ (entry.symbolTable.map (symbolRange syms)).mergeSort rangeLe ↔ _
  rw [List.mem_mergeSort, List.mem_map]

theorem pairwise_ranges :
    (resolverOf syms entry).ranges.Pairwise fun a b => a.1 ≤ b.1 := by
  have hsorted := List.pairwise_mergeSort rangeLe_trans rangeLe_total
    (entry.symbolTable.map (symbolRange syms))
  refine hsorted.imp fun {a b} hle => ?_
  simp only [rangeLe, Bool.or_eq_true, Bool.and_eq_true, decide_eq_true_eq, beq_iff_eq] at hle
  omega

theorem separate_ranges (syms : Syms) (hformed : WellFormed entry) :
    Separate (resolverOf syms entry).ranges := by
  constructor
  · intro a ha b hb hlt
    obtain ⟨row, hrow, rfl⟩ := mem_ranges.mp ha
    obtain ⟨row', hrow', rfl⟩ := mem_ranges.mp hb
    exact hformed.apart row hrow row' hrow' hlt
  · intro a ha b hb heq
    obtain ⟨row, hrow, rfl⟩ := mem_ranges.mp ha
    obtain ⟨row', hrow', rfl⟩ := mem_ranges.mp hb
    rw [hformed.same row hrow row' hrow' heq]

/-- A name that is looked up is what the sidecar says. -/
theorem says_resolve (hformed : WellFormed entry) :
    Says syms entry address ((resolverOf syms entry).resolve address) := by
  unfold Resolver.resolve
  by_cases hknown : ∃ idx, (address, idx) ∈ entry.knownAddresses
  · obtain ⟨idx, hknown⟩ := hknown
    rw [lookup_known hformed hknown, Option.some_or]
    exact .known hknown
  · have hnot : ∀ idx, (address, idx) ∉ entry.knownAddresses := not_exists.mp hknown
    rw [lookup_known_eq_none hnot, Option.none_or]
    have hsymbol : ∀ name, symbolAt (resolverOf syms entry).ranges address = some name ↔
        ∃ start stop, (start, stop, name) ∈ (resolverOf syms entry).ranges ∧
          start ≤ address ∧ address < stop :=
      fun name => symbolAt_eq_some_iff pairwise_ranges (separate_ranges syms hformed)
    cases hfound : symbolAt (resolverOf syms entry).ranges address with
    | some name =>
        obtain ⟨start, stop, hmem, hinside⟩ := (hsymbol name).mp hfound
        obtain ⟨row, hrow, heq⟩ := mem_ranges.mp hmem
        obtain ⟨rfl, hrest⟩ := Prod.mk.inj heq
        obtain ⟨rfl, rfl⟩ := Prod.mk.inj hrest
        exact .inside hnot hrow hinside
    | none =>
        refine .unknown hnot fun row hrow hcovers => ?_
        have hmem : symbolRange syms row ∈ (resolverOf syms entry).ranges :=
          mem_ranges.mpr ⟨row, hrow, rfl⟩
        rw [(hsymbol _).mpr ⟨_, _, hmem, hcovers⟩] at hfound
        simp at hfound

/-! ## Frames -/

variable {profile : Profile} {thread : Thread} {codeId : Option String} {frame lib : Int}
  {fallback : String}

/-- A frame at an address in a library, with the name that the profile has for it. -/
inductive Located (thread : Thread) (frame address lib : Int) (fallback : String) : Prop
  | intro {func nameIndex resource : Int}
      (hfunc : index thread.frameTable.func frame = .ok func)
      (haddress : index thread.frameTable.address frame = .ok (some address))
      (hnameIndex : index thread.funcTable.name func = .ok nameIndex)
      (hfallback : index thread.stringArray nameIndex = .ok fallback)
      (hpos : 0 ≤ address)
      (hresource : index thread.funcTable.resource func = .ok (some resource))
      (hresourcePos : 0 ≤ resource)
      (hlib : index thread.resourceLib resource = .ok (some lib))

theorem frameAddress_eq {func resource : Int} (hpos : 0 ≤ address)
    (hresource : index thread.funcTable.resource func = .ok (some resource))
    (hresourcePos : 0 ≤ resource) (hlib : index thread.resourceLib resource = .ok (some lib)) :
    frameAddress thread func (some address) = .ok (some (address, lib)) := by
  unfold frameAddress
  simp only [if_neg (Int.not_lt.mpr hpos)]
  refine Lines.bind_eq_ok_iff.mpr ⟨_, hresource, ?_⟩
  simp only [if_neg (Int.not_lt.mpr hresourcePos)]
  exact Lines.bind_eq_ok_iff.mpr ⟨_, hlib, rfl⟩

theorem resolveFrameName_eq (h : Located thread frame address lib fallback)
    (resolvers : Resolvers) :
    resolveFrameName thread frame (some resolvers) =
      .ok (((resolvers lib).bind fun resolver => resolver.resolve address).getD fallback) := by
  obtain ⟨hfunc, haddress, hnameIndex, hfallback, hpos, hresource, hresourcePos, hlib⟩ := h
  exact Lines.bind_eq_ok_iff.mpr ⟨_, hfunc, Lines.bind_eq_ok_iff.mpr ⟨_, haddress,
    Lines.bind_eq_ok_iff.mpr ⟨_, hnameIndex, Lines.bind_eq_ok_iff.mpr ⟨_, hfallback,
      Lines.bind_eq_ok_iff.mpr
        ⟨_, frameAddress_eq hpos hresource hresourcePos hlib, rfl⟩⟩⟩⟩⟩

theorem buildSymbolicator_eq (hlib : 0 ≤ lib) (hcode : profile.libs[lib.toNat]? = some codeId)
    (hentry : entry ∈ syms.data)
    (honly : ∀ other ∈ syms.data, other.codeId = codeId ↔ other = entry) :
    buildSymbolicator profile syms lib = some (resolverOf syms entry) := by
  unfold buildSymbolicator
  rw [if_neg (Int.not_lt.mpr hlib), hcode, Option.bind_some]
  cases hfind : syms.data.reverse.find? (·.codeId = codeId) with
  | none =>
      have hnone := List.find?_eq_none.mp hfind entry (List.mem_reverse.mpr hentry)
      exact absurd (decide_eq_true ((honly entry hentry).mpr rfl)) hnone
  | some other =>
      have hother := List.mem_reverse.mp (List.mem_of_find?_eq_some hfind)
      have hid : other.codeId = codeId := by simpa using List.find?_some hfind
      rw [(honly other hother).mp hid, Option.map_some]

/-- A frame in a library that the sidecar has one entry for gets the name that the entry has for its
address, and keeps its own if there is none. -/
theorem frame_name_exact {name : String} (h : Located thread frame address lib fallback)
    (hlib : 0 ≤ lib) (hcode : profile.libs[lib.toNat]? = some codeId) (hentry : entry ∈ syms.data)
    (honly : ∀ other ∈ syms.data, other.codeId = codeId ↔ other = entry)
    (hformed : WellFormed entry) :
    resolveFrameName thread frame (some (buildSymbolicator profile syms)) = .ok name ↔
      ∃ found, Says syms entry address found ∧ name = found.getD fallback := by
  rw [resolveFrameName_eq h, buildSymbolicator_eq hlib hcode hentry honly, Option.bind_some]
  have hresolved : Says syms entry address ((resolverOf syms entry).resolve address) :=
    says_resolve hformed
  constructor
  · intro hname
    exact ⟨_, hresolved, (Except.ok.inj hname).symm⟩
  · rintro ⟨found, hfound, rfl⟩
    rw [hresolved.unique hformed hfound]

end

namespace Sampled

theorem frame_name_exact_sampled :
    resolveFrameName thread 2 (some (buildSymbolicator profile syms)) = .ok "work" := by
  have hformed : WellFormed entry := by
    constructor <;> simp +contextual [entry]
  have hrow : (⟨100, 10, 1⟩ : SymbolRow) ∈ entry.symbolTable := List.mem_cons_self
  have hinside : Says syms entry 105 (some "work") :=
    .inside (by simp [entry]) hrow (by simp [Covers])
  exact (frame_name_exact (.intro rfl rfl rfl rfl (by decide) rfl (by decide) rfl) (by decide) rfl
    List.mem_cons_self (by simp [syms, entry]) hformed).mpr ⟨_, hinside, rfl⟩

end Sampled

end TopdeskMcp.Theorems.FoldedStacks
