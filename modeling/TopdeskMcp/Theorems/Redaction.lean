import TopdeskMcp.Core.Sanitizer
import TopdeskMcp.Lib.JsonPath

/-!
# What redaction keeps and what it hides

A path is clear when it passes through no sensitive key. Along clear paths `sanitize` keeps the
shapes of all nodes, and where a path stops being clear there is the redacted text. So the result
is a matter of the clear paths alone, and redacting it again changes nothing.
-/

namespace TopdeskMcp.Theorems.Redaction

open Json Json.Value Sanitizer

def Sensitive : Step → Prop
  | .item _ => False
  | .member _ key => isSensitiveKey key

instance (step : Step) : Decidable (Sensitive step) :=
  match step with
  | .item _ => inferInstanceAs (Decidable False)
  | .member _ key => inferInstanceAs (Decidable (isSensitiveKey key))

def Clear (path : List Step) : Prop := ∀ step ∈ path, ¬ Sensitive step

variable {v w : Value} {step : Step} {path before after : List Step}

/-! ## One step -/

theorem shape_sanitize (v : Value) : (sanitize v).shape = v.shape := by
  cases v with
  | null | bool | number | string => rfl
  | array items => simp [sanitize, shape, sanitizeItems_eq_map]
  | object members => simp [sanitize, shape, sanitizeMembers_eq_map, Function.comp_def]

/-- What becomes of a child. -/
def redact (step : Step) (val : Value) : Value := if Sensitive step then redacted else sanitize val

theorem redact_member (index : Nat) (key : String) (val : Value) :
    redact (.member index key) val = if isSensitiveKey key then redacted else sanitize val := rfl

theorem child_sanitize (v : Value) (step : Step) :
    (sanitize v).child step = (v.child step).map (redact step) := by
  cases v with
  | null | bool | number | string => cases step <;> rfl
  | array items =>
      cases step with
      | item index =>
          show (sanitizeItems items)[index]? = (items[index]?).map _
          rw [sanitizeItems_eq_map, List.getElem?_map]
          rfl
      | member index key => rfl
  | object members =>
      cases step with
      | item index => rfl
      | member index key =>
          ext u
          rw [sanitize, child_member, Option.map_eq_some_iff, sanitizeMembers_eq_map,
            List.getElem?_map, Option.map_eq_some_iff]
          constructor
          · rintro ⟨⟨name, value⟩, hmember, heq⟩
            obtain ⟨rfl, rfl⟩ := Prod.mk.inj heq
            exact ⟨value, child_member.mpr hmember, redact_member ..⟩
          · rintro ⟨value, hchild, rfl⟩
            exact ⟨(key, value), child_member.mp hchild, by rw [redact_member]⟩

/-! ## Along a path -/

theorem node_sanitize (h : Clear path) : (sanitize v).node path = (v.node path).map sanitize := by
  induction path generalizing v with
  | nil => rfl
  | cons step path ih =>
      have hpath : Clear path := fun s hs => h s (List.mem_cons_of_mem _ hs)
      have hredact : redact step = sanitize := funext fun _ => if_neg (h step List.mem_cons_self)
      rw [node_cons, node_cons, child_sanitize, hredact, Option.bind_map, Option.map_bind]
      exact congrArg (Option.bind _) (funext fun _ => ih hpath)

theorem shapes_sanitize (h : Clear path) :
    ((sanitize v).node path).map shape = (v.node path).map shape := by
  rw [node_sanitize h, Option.map_map]
  exact congrArg (Option.map · _) (funext shape_sanitize)

/-- From the first sensitive key on there is the redacted text, or nothing. -/
theorem node_sanitize_sensitive (hbefore : Clear before) (h : Sensitive step) :
    (sanitize v).node (before ++ step :: after) =
      (v.node (before ++ [step])).bind fun _ => redacted.node after := by
  have hredact : redact step = fun _ => redacted := funext fun _ => if_pos h
  rw [node_append, node_append, node_sanitize hbefore, Option.bind_map, Option.bind_assoc]
  refine congrArg (Option.bind _) (funext fun u => ?_)
  show ((sanitize u).node (step :: after)) = (u.node [step]).bind _
  rw [node_cons, node_cons, child_sanitize, hredact, Option.bind_map, Option.bind_assoc]
  rfl

theorem clear_or_sensitive (path : List Step) : Clear path ∨
    ∃ before step after, path = before ++ step :: after ∧ Clear before ∧ Sensitive step := by
  induction path with
  | nil => exact .inl (by simp [Clear])
  | cons step path ih =>
      by_cases hstep : Sensitive step
      · exact .inr ⟨[], step, path, rfl, by simp [Clear], hstep⟩
      · rcases ih with hclear | ⟨before, step', after, rfl, hbefore, hsensitive⟩
        · exact .inl (List.forall_mem_cons.mpr ⟨hstep, hclear⟩)
        · exact .inr ⟨step :: before, step', after, rfl,
            List.forall_mem_cons.mpr ⟨hstep, hbefore⟩, hsensitive⟩

/-! ## Two values -/

/-- Nothing but what is below sensitive keys tells the values apart. -/
def AgreeOutside (v w : Value) : Prop :=
  ∀ path, Clear path → (v.node path).map shape = (w.node path).map shape

theorem AgreeOutside.isSome_eq (h : AgreeOutside v w) (hbefore : Clear before) (step : Step) :
    (v.node (before ++ [step])).isSome = (w.node (before ++ [step])).isSome := by
  have hshape := h before hbefore
  rw [node_append, node_append]
  cases hv : v.node before with
  | none =>
      cases hw : w.node before with
      | none => rfl
      | some u' => simp [hv, hw] at hshape
  | some u =>
      cases hw : w.node before with
      | none => simp [hv, hw] at hshape
      | some u' =>
          have hsame : u.shape = u'.shape := by simpa [hv, hw] using hshape
          have hchild : (u.child step).isSome = (u'.child step).isSome := by
            rw [Bool.eq_iff_iff, isSome_child_iff, isSome_child_iff, hsame]
          simpa [node_cons] using hchild

theorem AgreeOutside.sanitize_eq (h : AgreeOutside v w) : sanitize v = sanitize w := by
  refine eq_of_shapes _ _ fun path => ?_
  rcases clear_or_sensitive path with hclear | ⟨before, step, after, rfl, hbefore, hstep⟩
  · rw [shapes_sanitize hclear, shapes_sanitize hclear]
    exact h path hclear
  · rw [node_sanitize_sensitive hbefore hstep, node_sanitize_sensitive hbefore hstep]
    have hsome := h.isSome_eq hbefore step
    cases hv : v.node (before ++ [step]) with
    | none =>
        rw [hv] at hsome
        rw [Option.isSome_eq_false_iff.mp hsome.symm |> Option.isNone_iff_eq_none.mp]
    | some u =>
        rw [hv] at hsome
        obtain ⟨u', hu'⟩ := Option.isSome_iff_exists.mp hsome.symm
        rw [hu']
        rfl

/-- **Redaction.** Along every path without a sensitive key the nodes keep their kinds, keys,
lengths and leaves; at the first sensitive key of a path there is the redacted text and nothing
below it. So values that differ only below sensitive keys become equal, and redacting twice is
redacting once. -/
theorem redaction (v : Value) :
    (∀ path, Clear path → ((sanitize v).node path).map shape = (v.node path).map shape) ∧
    (∀ before step, Clear before → Sensitive step → (v.node (before ++ [step])).isSome →
      (sanitize v).node (before ++ [step]) = some redacted ∧
      ∀ below after, (sanitize v).node (before ++ step :: below :: after) = none) ∧
    (∀ w, AgreeOutside v w → sanitize v = sanitize w) ∧
    sanitize (sanitize v) = sanitize v := by
  refine ⟨fun path => shapes_sanitize, ?_, fun w => AgreeOutside.sanitize_eq, ?_⟩
  · intro before step hbefore hstep hsome
    obtain ⟨u, hu⟩ := Option.isSome_iff_exists.mp hsome
    constructor
    · rw [node_sanitize_sensitive hbefore hstep, hu]
      rfl
    · intro below after
      rw [node_sanitize_sensitive hbefore hstep, hu, Option.bind_some, node_cons]
      cases below <;> rfl
  · have hagree : AgreeOutside (sanitize v) v := fun path => shapes_sanitize
    exact hagree.sanitize_eq

end TopdeskMcp.Theorems.Redaction
