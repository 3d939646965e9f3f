import Federate.Library.Hex

/-!
# JSON trees

A tree of JSON values with the members of an object in order. A `Value` is a tree whose
objects list their members in strictly increasing key order, so that an object is a map and
equal maps are equal values; the order is part of the type.
-/

/-- The numbers of a JSON document: unsigned, negative, or a floating-point bit pattern. -/
inductive Number where
  | posInt (n : UInt64)
  | negInt (n : Int64)
  | float (bits : UInt64)
  deriving DecidableEq

/-- The number is one that reading gives: a negative integer is below zero, and a floating-point
number is finite. -/
def Number.Readable : Number → Prop
  | .posInt _ => True
  | .negInt n => n < 0
  | .float bits => (bits >>> 52) &&& 0x7FF ≠ 0x7FF

/-- A JSON tree. -/
inductive Json where
  | null
  | bool (b : Bool)
  | num (n : Number)
  | str (s : String)
  | arr (items : List Json)
  | obj (fields : List (String × Json))

namespace Json

mutual
/-- Every object of the tree lists its members in strictly increasing key order. -/
def Sorted : Json → Prop
  | .arr items => SortedItems items
  | .obj fields => fields.Pairwise (fun a b => a.1 < b.1) ∧ SortedFields fields
  | _ => True

/-- Every item is sorted. -/
def SortedItems : List Json → Prop
  | [] => True
  | item :: rest => item.Sorted ∧ SortedItems rest

/-- Every member is sorted. -/
def SortedFields : List (String × Json) → Prop
  | [] => True
  | (_, value) :: rest => value.Sorted ∧ SortedFields rest
end

mutual
/-- Every number of the tree is one that reading gives. -/
def Readable : Json → Prop
  | .num n => n.Readable
  | .arr items => ReadableItems items
  | .obj fields => ReadableFields fields
  | _ => True

/-- Every item is readable. -/
def ReadableItems : List Json → Prop
  | [] => True
  | item :: rest => item.Readable ∧ ReadableItems rest

/-- Every member is readable. -/
def ReadableFields : List (String × Json) → Prop
  | [] => True
  | (_, value) :: rest => value.Readable ∧ ReadableFields rest
end

/-- A member present only when its value is. -/
def optField (key : String) (value : Option Json) : List (String × Json) :=
  (value.map fun found => (key, found)).toList

/-- An unsigned number. -/
def ofUInt64 (n : UInt64) : Json := .num (.posInt n)

/-- An optional string, `null` when absent. -/
def ofOption (value : Option String) : Json := (value.map str).getD .null

/-- The values of the members with a key, in order. -/
def members (key : String) : List (String × Json) → List Json
  | [] => []
  | (name, value) :: rest => if name = key then value :: members key rest else members key rest

/-- The member with a key, `null` when there is none or the tree is no object. -/
def index (key : String) : Json → Json
  | .obj fields => (members key fields).getLast?.getD .null
  | _ => .null

@[simp] theorem members_nil (key : String) : members key [] = [] := rfl

@[simp] theorem members_cons (key name : String) (value : Json) (rest : List (String × Json)) :
    members key ((name, value) :: rest) =
      if name = key then value :: members key rest else members key rest := rfl

/-- The members of a concatenation are those of the two parts. -/
@[simp] theorem members_append (key : String) (first second : List (String × Json)) :
    members key (first ++ second) = members key first ++ members key second := by
  induction first with
  | nil => rfl
  | cons field rest ih =>
    obtain ⟨name, value⟩ := field
    by_cases same : name = key <;> simp [same, ih]

/-- An optional member is found under its own key only. -/
@[simp] theorem members_optField (key name : String) (value : Option Json) :
    members key (optField name value) = if name = key then value.toList else [] := by
  cases value <;> simp [optField]

end Json

/-- A JSON value whose objects are maps. -/
structure Value where
  /-- The tree. -/
  tree : Json
  /-- Its objects list their members in key order. -/
  sorted : tree.Sorted

/-- The value is one that reading an optional member gives: its numbers are, and it is not
`null`, which reads as an absent member. -/
structure Value.FromJson (v : Value) : Prop where
  /-- Its numbers are readable. -/
  readable : v.tree.Readable
  /-- It is not `null`. -/
  present : v.tree ≠ .null

/-- A value is determined by its tree. -/
theorem Value.ext {a b : Value} (same : a.tree = b.tree) : a = b := by
  cases a
  cases b
  simp_all
