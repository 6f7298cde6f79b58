import TopdeskMcp.Lib.Json
import Mathlib.Data.Option.Basic
import Mathlib.Data.List.Basic

/-!
# Paths into JSON values

A path leads from a value to one of its descendants, and a `Shape` is what a descendant is
without its own children. The shapes along all paths are the whole value (`eq_of_shapes`).

A member is found by its place and its key, so that a path also tells members of one key apart.
-/

namespace Json

inductive Step where
  | item (index : Nat)
  | member (index : Nat) (key : String)
  deriving DecidableEq

/-- A node without its children; a value that has none is its own shape. -/
inductive Shape where
  | leaf (value : Value)
  | array (length : Nat)
  | object (keys : List String)

/-- Whether a step leads anywhere. -/
def Shape.HasChild : Shape → Step → Prop
  | .array length, .item index => index < length
  | .object keys, .member index key => keys[index]? = some key
  | _, _ => False

namespace Value

def shape : Value → Shape
  | .array items => .array items.length
  | .object members => .object (members.map (·.1))
  | leaf => .leaf leaf

def child : Value → Step → Option Value
  | .array items, .item index => items[index]?
  | .object members, .member index key =>
      (members[index]?).bind fun member => if member.1 = key then some member.2 else none
  | _, _ => none

/-- The node at a path. -/
def node : Value → List Step → Option Value
  | v, [] => some v
  | v, step :: path => (v.child step).bind (·.node path)

variable {v w : Value} {step : Step} {path : List Step}

@[simp] theorem node_nil (v : Value) : v.node [] = some v := rfl

theorem node_cons (v : Value) (step : Step) (path : List Step) :
    v.node (step :: path) = (v.child step).bind (·.node path) := rfl

theorem node_append (v : Value) (before after : List Step) :
    v.node (before ++ after) = (v.node before).bind (·.node after) := by
  induction before generalizing v with
  | nil => rfl
  | cons step before ih =>
      rw [List.cons_append, node_cons, node_cons, Option.bind_assoc]
      exact congrArg (Option.bind _) (funext ih)

theorem child_member {members : List (String × Value)} {index : Nat} {key : String} :
    (Value.object members).child (.member index key) = some w ↔
      members[index]? = some (key, w) := by
  unfold child
  constructor
  · intro h
    obtain ⟨⟨name, value⟩, hmember, hvalue⟩ := Option.bind_eq_some_iff.mp h
    split at hvalue
    · rename_i hname
      rw [hmember, ← hname, ← Option.some.inj hvalue]
    · simp at hvalue
  · intro h
    simp [h]

/-- Which children a node has is a matter of its shape. -/
theorem isSome_child_iff : (v.child step).isSome ↔ v.shape.HasChild step := by
  cases v with
  | null | bool | number | string => cases step <;> simp [child, shape, Shape.HasChild]
  | array items =>
      cases step with
      | item index => simp [child, shape, Shape.HasChild]
      | member index key => simp [child, shape, Shape.HasChild]
  | object members =>
      cases step with
      | item index => simp [child, shape, Shape.HasChild]
      | member index key =>
          rw [Option.isSome_iff_exists]
          simp only [child_member, shape, Shape.HasChild, List.getElem?_map,
            Option.map_eq_some_iff, Prod.exists]
          constructor
          · rintro ⟨w, hw⟩
            exact ⟨key, w, hw, rfl⟩
          · rintro ⟨_, w, hw, rfl⟩
            exact ⟨w, hw⟩

/-! ## A value is what its paths lead to -/

/-- The same nodes, as far as their shapes tell. -/
def SameShapes (v w : Value) : Prop :=
  ∀ path, (v.node path).map shape = (w.node path).map shape

theorem SameShapes.root (h : SameShapes v w) : v.shape = w.shape := Option.some.inj (h [])

theorem SameShapes.child {v' w' : Value} (h : SameShapes v w) (step : Step)
    (hv : v.child step = some v') (hw : w.child step = some w') : SameShapes v' w' := by
  intro path
  have hpath := h (step :: path)
  rwa [node_cons, node_cons, hv, hw] at hpath

theorem sizeOf_member_lt {members : List (String × Value)} {member : String × Value}
    (h : member ∈ members) : sizeOf member.2 < sizeOf members := by
  have hlt := List.sizeOf_lt_of_mem h
  obtain ⟨key, value⟩ := member
  rw [Prod.mk.sizeOf_spec] at hlt
  show sizeOf value < _
  omega

/-- By recursion into the children of a node. -/
theorem eq_of_shapes (v w : Value) (h : SameShapes v w) : v = w := by
  have hroot := h.root
  match v, w with
  | .array items, .array items' =>
      have hlength : items.length = items'.length := Shape.array.inj hroot
      congr 1
      refine List.ext_getElem hlength ?_
      intro index hindex hindex'
      have hchild : SameShapes items[index] items'[index] :=
        h.child (.item index) (List.getElem?_eq_getElem hindex)
          (List.getElem?_eq_getElem hindex')
      have hsize := List.sizeOf_lt_of_mem (List.getElem_mem hindex)
      exact eq_of_shapes _ _ hchild
  | .object members, .object members' =>
      have hkeys : members.map (·.1) = members'.map (·.1) := Shape.object.inj hroot
      have hlength : members.length = members'.length := by simpa using congrArg List.length hkeys
      congr 1
      refine List.ext_getElem hlength ?_
      intro index hindex hindex'
      have hkey : members[index].1 = members'[index].1 := by
        have hget := congrArg (·[index]?) hkeys
        simpa [hindex, hindex'] using hget
      have hchild : SameShapes members[index].2 members'[index].2 :=
        h.child (.member index members[index].1)
          (child_member.mpr (List.getElem?_eq_getElem hindex))
          (child_member.mpr (by rw [hkey]; exact List.getElem?_eq_getElem hindex'))
      have hsize := sizeOf_member_lt (List.getElem_mem hindex)
      exact Prod.ext hkey (eq_of_shapes _ _ hchild)
  | .null, w | .bool _, w | .number _, w | .string _, w =>
      cases w <;> simp_all [shape]
  | .array _, .null | .array _, .bool _ | .array _, .number _ | .array _, .string _
  | .array _, .object _ => simp [shape] at hroot
  | .object _, .null | .object _, .bool _ | .object _, .number _ | .object _, .string _
  | .object _, .array _ => simp [shape] at hroot
termination_by v

end Value

end Json
