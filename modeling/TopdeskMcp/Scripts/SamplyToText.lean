import TopdeskMcp.Lib.Bisect
import TopdeskMcp.Lib.Counter

/-!
# Profiles as text (`scripts/samply_to_text.py`)

A profile has its stacks in a table: each one is a frame on top of another stack. The script writes
out the stack of each sample by the names of its functions, remembers what it has written out, and
counts. Names are looked up in a sidecar by address, if there is one.

The tables that a profile must have are there. How deep `stack_frames` can call itself is a
parameter of the interpreter (`recursionLimit`). An exception ends the script.
-/

namespace TopdeskMcp.Samply

/-- `items[i]`; a negative index counts from the end. -/
def index {α : Type} (items : List α) (i : Int) : Except String α :=
  let i := if i < 0 then i + items.length else i
  if i < 0 then .error "list index out of range"
  else
    match items[i.toNat]? with
    | some item => .ok item
    | none => .error "list index out of range"

structure FrameTable where
  func : List Int
  address : List (Option Int)

structure FuncTable where
  name : List Int
  resource : List (Option Int)

structure StackTable where
  /-- `prefix` -/
  below : List (Option Int)
  frame : List Int

structure Thread where
  frameTable : FrameTable
  funcTable : FuncTable
  /-- `resourceTable["lib"]` -/
  resourceLib : List (Option Int)
  stringArray : List String
  stackTable : StackTable
  /-- `samples["stack"]`; a thread without samples has none. -/
  samples : List (Option Int)

structure Profile where
  /-- The `codeId` of each library. -/
  libs : List (Option String)
  threads : List Thread

/-! ## The sidecar -/

structure SymbolRow where
  rva : Int
  size : Int
  symbol : Int

structure SymsEntry where
  codeId : Option String
  knownAddresses : List (Int × Int)
  symbolTable : List SymbolRow

structure Syms where
  stringTable : List String
  data : List SymsEntry

/-- The start, the end and the name of a function. -/
abbrev Range := Int × Int × String

/-- Tuples are compared from the left. -/
def rangeLe (a b : Range) : Bool :=
  a.1 < b.1 || a.1 == b.1 && (a.2.1 < b.2.1 || a.2.1 == b.2.1 && a.2.2 ≤ b.2.2)

/-- What is known of a library. Of a dictionary that is filled from a list the last entries
count. -/
structure Resolver where
  known : List (Int × String)
  ranges : List Range

def nameAt (syms : Syms) (idx : Int) : String :=
  if 0 ≤ idx ∧ idx < syms.stringTable.length then syms.stringTable.getD idx.toNat "" else "0x?"

def symbolRange (syms : Syms) (row : SymbolRow) : Range :=
  (row.rva, row.rva + row.size, nameAt syms row.symbol)

def resolverOf (syms : Syms) (entry : SymsEntry) : Resolver where
  known := (entry.knownAddresses.map fun known => (known.1, nameAt syms known.2)).reverse
  ranges := (entry.symbolTable.map (symbolRange syms)).mergeSort rangeLe

/-- The resolver of a library, by its number. -/
abbrev Resolvers := Int → Option Resolver

def buildSymbolicator (profile : Profile) (syms : Syms) : Resolvers := fun libIndex =>
  if libIndex < 0 then none else
    (profile.libs[libIndex.toNat]?).bind fun codeId =>
      (syms.data.reverse.find? (·.codeId = codeId)).map (resolverOf syms)

/-- The function whose range an address is in. -/
def symbolAt (ranges : List Range) (address : Int) : Option String :=
  -- `bisect_right(range_starts, address) - 1`
  match Bisect.right (ranges.map (·.1)) address with
  | 0 => none
  | pos + 1 => (ranges[pos]?).bind fun (start, stop, name) =>
      if start ≤ address ∧ address < stop then some name else none

def Resolver.resolve (resolver : Resolver) (address : Int) : Option String :=
  (resolver.known.lookup address).or (symbolAt resolver.ranges address)

/-! ## Names -/

/-- The address and the library of a frame, if it has both. -/
def frameAddress (thread : Thread) (func : Int) (address : Option Int) :
    Except String (Option (Int × Int)) :=
  match address with
  | none => .ok none
  | some address =>
      if address < 0 then .ok none
      else do
        let resource ← index thread.funcTable.resource func
        match resource with
        | none => return none
        | some resource =>
            if resource < 0 then return none
            let lib ← index thread.resourceLib resource
            return lib.map fun lib => (address, lib)

def resolveFrameName (thread : Thread) (frame : Int) (resolvers : Option Resolvers) :
    Except String String := do
  let func ← index thread.frameTable.func frame
  let address ← index thread.frameTable.address frame
  let fallbackName ← index thread.stringArray (← index thread.funcTable.name func)
  match resolvers with
  | none => return fallbackName
  | some resolvers =>
      let found ← frameAddress thread func address
      return (found.bind fun (address, lib) =>
        (resolvers lib).bind fun resolver => resolver.resolve address).getD fallbackName

/-! ## Stacks -/

/-- The stacks that have been written out. -/
abbrev Cache := List (Int × List String)

def stackFrames (thread : Thread) (resolvers : Option Resolvers) :
    Nat → Option Int → Cache → Except String (List String × Cache)
  | 0, _, _ => .error "maximum recursion depth exceeded"
  | _ + 1, none, cache => .ok ([], cache)
  | limit + 1, some stack, cache =>
      match cache.lookup stack with
      | some frames => .ok (frames, cache)
      | none => do
          let below ← index thread.stackTable.below stack
          let frame ← index thread.stackTable.frame stack
          let name ← resolveFrameName thread frame resolvers
          let (frames, cache) ← stackFrames thread resolvers limit below cache
          return (frames ++ [name], (stack, frames ++ [name]) :: cache)

structure Counts where
  folded : Counter.Entries String
  selfTime : Counter.Entries String

def foldedStack (frames : List String) : String := String.intercalate ";" frames

/-- A sample with these frames. -/
def Counts.sample (counts : Counts) (frames : List String) : Counts :=
  match frames.getLast? with
  | none => counts
  | some top =>
      { folded := Counter.add counts.folded (foldedStack frames) 1
        selfTime := Counter.add counts.selfTime top 1 }

/-- The body of the loop of `collapse_thread`. -/
def collapseSample (recursionLimit : Nat) (thread : Thread) (resolvers : Option Resolvers)
    (state : Counts × Cache) : Option Int → Except String (Counts × Cache)
  | none => .ok state
  | some stack => do
      let (frames, cache) ← stackFrames thread resolvers recursionLimit (some stack) state.2
      return (state.1.sample frames, cache)

def collapseThread (recursionLimit : Nat) (thread : Thread) (resolvers : Option Resolvers) :
    Except String Counts := do
  let (counts, _) ←
    thread.samples.foldlM (collapseSample recursionLimit thread resolvers) (⟨[], []⟩, [])
  return counts

/-! ## The script -/

def Counts.update (counts more : Counts) : Counts where
  folded := Counter.update counts.folded more.folded
  selfTime := Counter.update counts.selfTime more.selfTime

def collapse (recursionLimit : Nat) (profile : Profile) (resolvers : Option Resolvers) :
    Except String Counts :=
  profile.threads.foldlM (fun counts thread => do
    return counts.update (← collapseThread recursionLimit thread resolvers)) ⟨[], []⟩

def foldedLine (entry : String × Nat) : String := entry.1 ++ " " ++ entry.2.repr ++ "\n"

/-- Eight characters, unless the count has more. -/
def topLine (entry : String × Nat) : String :=
  String.ofList (List.replicate (8 - entry.2.repr.length) ' ') ++ entry.2.repr ++ "  " ++ entry.1 ++
    "\n"

/-- The entries of the two files. -/
structure Output where
  folded : List (String × Nat)
  top : List (String × Nat)

def Output.foldedText (output : Output) : String := String.join (output.folded.map foldedLine)

def Output.topText (output : Output) : String :=
  "# Top functions by self-time (sample count)\n" ++ String.join (output.top.map topLine)

/-- The two files. -/
structure Written where
  folded : String
  top : String

def Output.write (output : Output) : Written where
  folded := output.foldedText
  top := output.topText

def output (counts : Counts) : Output where
  folded := Counter.mostCommon counts.folded
  top := (Counter.mostCommon counts.selfTime).take 30

def main (recursionLimit : Nat) (profile : Profile) (syms : Option Syms) :
    Except String Written := do
  let counts ← collapse recursionLimit profile (syms.map (buildSymbolicator profile))
  return (output counts).write

end TopdeskMcp.Samply
