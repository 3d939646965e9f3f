import Mathlib.Data.List.Nodup
import Mathlib.Data.List.Sort
import Mathlib.Data.String.Basic
import Federate.Library.Encoding
import Federate.Library.Json

/-!
# The text of a JSON tree

A writer prints a tree without whitespace, the members of an object in an order of its choice.
When its tokens are those of JSON, the text determines the tree: up to numbers with one text and
the order of members.
-/

/-- The number is an integer: unsigned, or below zero. -/
def Number.Integral : Number → Prop
  | .posInt _ => True
  | .negInt n => n < 0
  | .float _ => False

namespace Json

open Encoding

/-! ## Parts of a tree -/

/-- The first tree occurs in the second. -/
inductive Part (part : Json) : Json → Prop
  | whole : Part part part
  | item {item : Json} {items : List Json} (member : item ∈ items) (inside : Part part item) :
      Part part (.arr items)
  | field {field : String × Json} {fields : List (String × Json)} (member : field ∈ fields)
      (inside : Part part field.2) : Part part (.obj fields)

/-- No object of the tree has two members with one key. -/
def Keyed (v : Json) : Prop := ∀ fields, Part (.obj fields) v → (fields.map Prod.fst).Nodup

/-- Every number of the tree is an integer. -/
def Integral (v : Json) : Prop := ∀ n, Part (.num n) v → n.Integral

/-- A property of trees that passes from the items and members to the whole holds of every tree. -/
theorem memberInduction {P : Json → Prop} (null : P .null) (bool : ∀ b, P (.bool b))
    (num : ∀ n, P (.num n)) (str : ∀ s, P (.str s))
    (arr : ∀ items, (∀ item ∈ items, P item) → P (.arr items))
    (obj : ∀ fields, (∀ field ∈ fields, P field.2) → P (.obj fields)) : ∀ v, P v
  | .null => null
  | .bool b => bool b
  | .num n => num n
  | .str s => str s
  | .arr items => arr items fun item _ => memberInduction null bool num str arr obj item
  | .obj fields => obj fields fun field _ => memberInduction null bool num str arr obj field.2
termination_by v => v
decreasing_by
  · have smaller := List.sizeOf_lt_of_mem ‹item ∈ items›
    simp only [Json.arr.sizeOf_spec]
    omega
  · have smaller := List.sizeOf_lt_of_mem ‹field ∈ fields›
    obtain ⟨key, value⟩ := field
    simp only [Prod.mk.sizeOf_spec] at smaller
    simp only [Json.obj.sizeOf_spec]
    omega

/-- Every item is readable exactly when each is. -/
theorem readableItems_iff {items : List Json} :
    ReadableItems items ↔ ∀ item ∈ items, item.Readable := by
  induction items with
  | nil => simp [ReadableItems]
  | cons first rest ih => simp [ReadableItems, ih]

/-- Every member is readable exactly when each is. -/
theorem readableFields_iff {fields : List (String × Json)} :
    ReadableFields fields ↔ ∀ field ∈ fields, field.2.Readable := by
  induction fields with
  | nil => simp [ReadableFields]
  | cons first rest ih => simp [ReadableFields, ih]

/-- Every number inside a readable tree is readable. -/
theorem Readable.part {v : Json} (readable : v.Readable) {n : Number} (inside : Part (.num n) v) :
    n.Readable := by
  induction inside with
  | whole => exact readable
  | item member inside ih => exact ih (readableItems_iff.mp readable _ member)
  | field member inside ih => exact ih (readableFields_iff.mp readable _ member)

/-- A tree whose numbers are integers is readable. -/
theorem Integral.readable {v : Json} (integral : v.Integral) : v.Readable := by
  induction v using memberInduction with
  | num n =>
    have number := integral n .whole
    cases n with
    | posInt n => trivial
    | negInt n => exact number
    | float bits => exact number.elim
  | arr items ih =>
    exact readableItems_iff.mpr fun item member =>
      ih item member fun n inside => integral n (.item member inside)
  | obj fields ih =>
    exact readableFields_iff.mpr fun field member =>
      ih field member fun n inside => integral n (.field member inside)
  | _ => trivial

/-! ## Objects with optional members -/

/-- The members that are present. -/
def layout (slots : List (String × Option Json)) : List (String × Json) :=
  slots.flatMap fun slot => optField slot.1 slot.2

/-- A present member fills a slot. -/
theorem mem_layout {slots : List (String × Option Json)} {field : String × Json} :
    field ∈ layout slots ↔ (field.1, some field.2) ∈ slots := by
  obtain ⟨key, value⟩ := field
  simp only [layout, optField, List.mem_flatMap, Option.mem_toList, Option.map_eq_some_iff,
    Prod.mk.injEq]
  constructor
  · rintro ⟨⟨key', value'⟩, member, found, rfl, rfl, rfl⟩
    exact member
  · exact fun member => ⟨_, member, value, rfl, rfl, rfl⟩

/-- The value, if any, is readable. -/
def ReadableSlot (value : Option Json) : Prop := ∀ v, value = some v → v.Readable

@[simp] theorem readableSlot_some {v : Json} : ReadableSlot (some v) ↔ v.Readable := by
  simp [ReadableSlot]

@[simp] theorem readableSlot_map_str (value : Option String) :
    ReadableSlot (value.map .str) := by
  cases value <;> simp [ReadableSlot, Readable]

@[simp] theorem readable_str (s : String) : (str s).Readable := trivial

@[simp] theorem readable_ofOption (value : Option String) : (ofOption value).Readable := by
  cases value <;> trivial

@[simp] theorem readable_ofUInt64 (n : UInt64) : (ofUInt64 n).Readable := trivial

/-- Free-form values that came from JSON are readable. -/
theorem readableSlot_map_tree {value : Option Value} (known : ∀ v, value = some v → v.FromJson) :
    ReadableSlot (value.map Value.tree) := by
  cases value with
  | none => simp [ReadableSlot]
  | some v => simpa using (known v rfl).readable

/-- An object is readable when the values in its slots are. -/
theorem readable_layout {slots : List (String × Option Json)}
    (each : ∀ slot ∈ slots, ReadableSlot slot.2) : (obj (layout slots)).Readable :=
  readableFields_iff.mpr fun _ member => each _ (mem_layout.mp member) _ rfl

/-- The numbers of an object are integers when those in its slots are. -/
theorem integral_layout {slots : List (String × Option Json)}
    (each : ∀ slot ∈ slots, ∀ v, slot.2 = some v → v.Integral) : (obj (layout slots)).Integral := by
  intro n inside
  cases inside with
  | @field found _ member inside => exact each _ (mem_layout.mp member) found.2 rfl n inside

theorem integral_str (s : String) : (str s).Integral := by
  intro n inside
  cases inside

theorem integral_null : null.Integral := by
  intro n inside
  cases inside

/-- The members present determine the slots, when their keys are distinct. -/
theorem layout_injective {slots slots' : List (String × Option Json)}
    (keys : slots.map Prod.fst = slots'.map Prod.fst) (distinct : (slots.map Prod.fst).Nodup)
    (same : layout slots = layout slots') : slots = slots' := by
  induction slots generalizing slots' with
  | nil => exact (List.map_eq_nil_iff.mp keys.symm).symm
  | cons slot rest ih =>
    obtain ⟨key, value⟩ := slot
    cases slots' with
    | nil => exact absurd keys (by simp)
    | cons slot' rest' =>
      obtain ⟨key', value'⟩ := slot'
      simp only [List.map_cons, List.cons.injEq] at keys distinct
      obtain ⟨rfl, keys⟩ := keys
      obtain ⟨fresh, distinct⟩ := List.nodup_cons.mp distinct
      have absent {value : Json} {slots : List (String × Option Json)} {fields : List (String × Json)}
          (fresh : key ∉ slots.map Prod.fst) (starts : layout slots = (key, value) :: fields) :
          False :=
        fresh (List.mem_map_of_mem (mem_layout.mp (starts ▸ List.mem_cons_self)))
      simp only [layout, List.flatMap_cons] at same
      cases value with
      | none =>
        cases value' with
        | none => rw [ih keys distinct same]
        | some found => exact (absent fresh same).elim
      | some found =>
        cases value' with
        | none => exact (absent (keys ▸ fresh) same.symm).elim
        | some found' =>
          obtain ⟨equal, tails⟩ := List.cons.inj same
          obtain ⟨-, rfl⟩ := Prod.mk.inj equal
          rw [ih keys distinct tails]

/-! ## Equal trees -/

/-- The trees are equal, up to a relation on their numbers and a reordering of members. -/
inductive Same (N : Number → Number → Prop)
    (O : List (String × Json) → List (String × Json) → Prop) : Json → Json → Prop
  | null : Same N O .null .null
  | bool (b : Bool) : Same N O (.bool b) (.bool b)
  | num {m n : Number} (related : N m n) : Same N O (.num m) (.num n)
  | str (s : String) : Same N O (.str s) (.str s)
  | arr {items items' : List Json} (each : List.Forall₂ (Same N O) items items') :
      Same N O (.arr items) (.arr items')
  | obj {fields fields' ordered ordered' : List (String × Json)} (order : O fields ordered)
      (order' : O fields' ordered') (keys : ordered.map Prod.fst = ordered'.map Prod.fst)
      (values : List.Forall₂ (Same N O) (ordered.map Prod.snd) (ordered'.map Prod.snd)) :
      Same N O (.obj fields) (.obj fields')

variable {N : Number → Number → Prop} {O : List (String × Json) → List (String × Json) → Prop}

/-- Two objects that are the same up to the order of members have the same keys. -/
theorem Same.keys_perm {fields fields' : List (String × Json)}
    (same : Same N List.Perm (.obj fields) (.obj fields')) :
    (fields.map Prod.fst).Perm (fields'.map Prod.fst) := by
  cases same with
  | obj order order' keys values =>
    exact (order.map Prod.fst).trans (keys ▸ (order'.map Prod.fst).symm)

/-- Members with equal keys and values in pairs. -/
theorem forall₂_member {R : Json → Json → Prop} {fields fields' : List (String × Json)} :
    List.Forall₂ (fun a b => a.1 = b.1 ∧ R a.2 b.2) fields fields' ↔
      fields.map Prod.fst = fields'.map Prod.fst ∧
        List.Forall₂ R (fields.map Prod.snd) (fields'.map Prod.snd) := by
  rw [List.forall₂_map_left_iff, List.forall₂_map_right_iff]
  induction fields generalizing fields' with
  | nil => cases fields' <;> simp
  | cons field fields ih =>
    cases fields' with
    | nil => simp
    | cons field' fields' =>
      simp only [List.forall₂_cons, ih, List.map_cons, List.cons.injEq]
      tauto

/-- A member of an object has its counterpart in an object that is the same up to the order of
members. -/
theorem Same.exists_member {fields fields' : List (String × Json)}
    (same : Same N List.Perm (.obj fields) (.obj fields')) {name : String} {v : Json}
    (member : (name, v) ∈ fields) : ∃ w, (name, w) ∈ fields' ∧ Same N List.Perm v w := by
  cases same with
  | @obj _ _ ordered ordered' order order' keys values =>
    have pairs := forall₂_member.mpr ⟨keys, values⟩
    have found : ∃ field ∈ ordered', name = field.1 ∧ Same N List.Perm v field.2 := by
      have inside := order.mem_iff.mp member
      clear order order' keys values member
      induction pairs with
      | nil => exact absurd inside List.not_mem_nil
      | cons first _ ih =>
        rcases List.mem_cons.mp inside with rfl | later
        · exact ⟨_, List.mem_cons_self, first⟩
        · obtain ⟨field, within, related⟩ := ih later
          exact ⟨field, List.mem_cons_of_mem _ within, related⟩
    obtain ⟨field, within, rfl, related⟩ := found
    exact ⟨field.2, order'.mem_iff.mpr within, related⟩

/-! ## Writers -/

/-- A byte of a number's text. -/
def numberByte (b : UInt8) : Bool :=
  (0x30 ≤ b && b ≤ 0x39) || b == 0x2D || b == 0x2B || b == 0x2E || b == 0x45 || b == 0x65

/-- A byte that follows a value inside an array or object. -/
def StopByte (b : UInt8) : Prop := b = 0x2C ∨ b = 0x5D ∨ b = 0x7D

/-- The texts of `null`, truth values, numbers and strings are JSON tokens: a number is made of
number characters, a string begins with a quotation mark and shows where it ends. -/
structure Tokens (token : Json → List UInt8) : Prop where
  null : token .null = [0x6E, 0x75, 0x6C, 0x6C]
  bool : ∀ b, token (.bool b) =
    if b then [0x74, 0x72, 0x75, 0x65] else [0x66, 0x61, 0x6C, 0x73, 0x65]
  number : ∀ n, token (.num n) ≠ [] ∧ ∀ b ∈ token (.num n), numberByte b = true
  opens : ∀ s, ∃ tail, token (.str s) = 0x22 :: tail
  string : ∀ s t, Delimited (token (.str s)) (token (.str t)) (s = t)

/-- The text of a member. -/
def memberText (token : Json → List UInt8) (write : Json → List UInt8)
    (field : String × Json) : List UInt8 := token (.str field.1) ++ ([0x3A] ++ write field.2)

/-- The function prints trees with these tokens, without whitespace, the members of an object
arranged. -/
structure Writes (token : Json → List UInt8)
    (arrange : List (String × Json) → List (String × Json)) (write : Json → List UInt8) :
    Prop where
  null : write .null = token .null
  bool : ∀ b, write (.bool b) = token (.bool b)
  num : ∀ n, write (.num n) = token (.num n)
  str : ∀ s, write (.str s) = token (.str s)
  arr : ∀ items, write (.arr items) =
    [0x5B] ++ ([0x2C].intercalate (items.map write) ++ [0x5D])
  obj : ∀ fields, write (.obj fields) =
    [0x7B] ++ ([0x2C].intercalate ((arrange fields).map (memberText token write)) ++ [0x7D])

/-- What the first byte of a text tells apart. -/
inductive Kind where
  | null | true | false | num | str | arr | obj
  deriving DecidableEq

/-- The kind of a tree. -/
def kind : Json → Kind
  | .null => .null
  | .bool b => if b then .true else .false
  | .num _ => .num
  | .str _ => .str
  | .arr _ => .arr
  | .obj _ => .obj

/-- The kind of the tree whose text begins with a byte. -/
def kindOf (b : UInt8) : Option Kind :=
  if numberByte b then some .num
  else if b = 0x6E then some .null
  else if b = 0x74 then some .true
  else if b = 0x66 then some .false
  else if b = 0x22 then some .str
  else if b = 0x5B then some .arr
  else if b = 0x7B then some .obj
  else none

variable {token : Json → List UInt8} {arrange : List (String × Json) → List (String × Json)}
  {write : Json → List UInt8}

/-- The first byte of a text tells the kind of the tree. -/
theorem Writes.leads (writes : Writes token arrange write) (tokens : Tokens token) (v : Json) :
    ∃ b tail, write v = b :: tail ∧ kindOf b = some v.kind := by
  cases v with
  | null => exact ⟨0x6E, _, by rw [writes.null, tokens.null], by decide⟩
  | bool b => cases b <;> exact ⟨_, _, by rw [writes.bool, tokens.bool]; rfl, by decide⟩
  | num n =>
    obtain ⟨b, tail, split⟩ := List.exists_cons_of_ne_nil (tokens.number n).1
    have symbol := (tokens.number n).2 b (by rw [split]; exact List.mem_cons_self)
    exact ⟨b, tail, by rw [writes.num, split], by simp [kindOf, symbol, kind]⟩
  | str s =>
    obtain ⟨tail, split⟩ := tokens.opens s
    exact ⟨0x22, tail, by rw [writes.str, split], (by decide : kindOf 0x22 = some .str)⟩
  | arr items => exact ⟨0x5B, _, by rw [writes.arr]; rfl, (by decide : kindOf 0x5B = some .arr)⟩
  | obj fields => exact ⟨0x7B, _, by rw [writes.obj]; rfl, (by decide : kindOf 0x7B = some .obj)⟩

/-- No text begins with a stop. -/
theorem Writes.not_stop (writes : Writes token arrange write) (tokens : Tokens token) (v : Json)
    {close : UInt8} (stops : kindOf close = none) :
    ∃ b tail, write v = b :: tail ∧ b ≠ close := by
  obtain ⟨b, tail, split, leads⟩ := writes.leads tokens v
  refine ⟨b, tail, split, fun same => ?_⟩
  rw [same, stops] at leads
  exact absurd leads nofun

/-- Trees of different kinds have different texts. -/
theorem Writes.splits_of_kinds (writes : Writes token arrange write) (tokens : Tokens token)
    {stop : UInt8 → Prop} {v w : Json} {P : Prop} (differ : v.kind ≠ w.kind) :
    Splits stop (write v) (write w) P := by
  obtain ⟨b, tail, split, leads⟩ := writes.leads tokens v
  obtain ⟨b', tail', split', leads'⟩ := writes.leads tokens w
  rw [split, split']
  refine splits_of_heads fun same => differ ?_
  exact Option.some.inj (leads.symm.trans ((congrArg kindOf same).trans leads'))

/-- The text of a tree determines it, up to numbers with one text and the order of members. -/
theorem Writes.splits (writes : Writes token arrange write) (tokens : Tokens token)
    (order : ∀ fields, O fields (arrange fields))
    (arranged : ∀ fields, ∀ field ∈ arrange fields, field ∈ fields) (v w : Json)
    (numbers : ∀ m n, Part (.num m) v → Part (.num n) w → token (.num m) = token (.num n) → N m n) :
    Splits StopByte (write v) (write w) (Same N O v w) := by
  induction v using memberInduction generalizing w with
  | null =>
    cases w with
    | null => exact (delimited_refl _).splits.mono fun _ => .null
    | bool b => exact writes.splits_of_kinds tokens (by cases b <;> decide)
    | _ => exact writes.splits_of_kinds tokens (by simp [kind])
  | bool b =>
    cases w with
    | bool b' =>
      by_cases same : b = b'
      · exact same ▸ (delimited_refl _).splits.mono fun _ => .bool b
      · exact writes.splits_of_kinds tokens (by cases b <;> cases b' <;> simp_all [kind])
    | _ => exact writes.splits_of_kinds tokens (by cases b <;> simp [kind])
  | num m =>
    cases w with
    | num n =>
      rw [writes.num, writes.num]
      refine (splits_word (tokens.number m).2 (tokens.number n).2 ?_).mono fun same =>
        .num (numbers m n .whole .whole same)
      rintro b (rfl | rfl | rfl) <;> decide
    | bool b => exact writes.splits_of_kinds tokens (by cases b <;> simp [kind])
    | _ => exact writes.splits_of_kinds tokens (by simp [kind])
  | str s =>
    cases w with
    | str t =>
      rw [writes.str, writes.str]
      exact (tokens.string s t).splits.mono fun same => same ▸ .str s
    | bool b => exact writes.splits_of_kinds tokens (by cases b <;> simp [kind])
    | _ => exact writes.splits_of_kinds tokens (by simp [kind])
  | arr items ih =>
    cases w with
    | arr items' =>
      rw [writes.arr, writes.arr]
      have each : ∀ a ∈ items, ∀ b ∈ items', Splits StopByte (write a) (write b) (Same N O a b) :=
        fun a member b member' => ih a member b fun m n inside inside' =>
          numbers m n (.item member inside) (.item member' inside')
      have inside := delimited_list 0x2C 0x5D (.inl rfl) (.inr (.inl rfl)) (by decide) each
        (fun a _ => writes.not_stop tokens a (by decide))
        (fun a _ => writes.not_stop tokens a (by decide))
      exact ((delimited_refl _).append fun _ => inside.splits).mono fun both => .arr both.2
    | bool b => exact writes.splits_of_kinds tokens (by cases b <;> simp [kind])
    | _ => exact writes.splits_of_kinds tokens (by simp [kind])
  | obj fields ih =>
    cases w with
    | obj fields' =>
      rw [writes.obj, writes.obj]
      have opens (field : String × Json) :
          ∃ b tail, memberText token write field = b :: tail ∧ b ≠ 0x7D := by
        obtain ⟨tail, split⟩ := tokens.opens field.1
        exact ⟨0x22, _, by rw [memberText, split]; rfl, by decide⟩
      have each : ∀ a ∈ arrange fields, ∀ b ∈ arrange fields',
          Splits StopByte (memberText token write a) (memberText token write b)
            (a.1 = b.1 ∧ Same N O a.2 b.2) := by
        intro a member b member'
        refine (tokens.string a.1 b.1).append fun _ => ?_
        refine ((delimited_refl _).append fun _ => ?_).mono And.right
        exact ih a (arranged fields a member) b.2 fun m n inside inside' => numbers m n
          (.field (arranged fields a member) inside) (.field (arranged fields' b member') inside')
      have inside := delimited_list 0x2C 0x7D (.inl rfl) (.inr (.inr rfl)) (by decide) each
        (fun a _ => opens a) fun a _ => opens a
      refine ((delimited_refl _).append fun _ => inside.splits).mono fun both => ?_
      obtain ⟨keys, values⟩ := forall₂_member.mp both.2
      exact .obj (order _) (order _) keys values
    | bool b => exact writes.splits_of_kinds tokens (by cases b <;> simp [kind])
    | _ => exact writes.splits_of_kinds tokens (by simp [kind])

/-! ## Sorted members -/

/-- The members in key order. -/
def sortMembers (fields : List (String × Json)) : List (String × Json) :=
  fields.insertionSort fun a b => a.1 ≤ b.1

theorem sortMembers_perm (fields : List (String × Json)) : fields.Perm (sortMembers fields) :=
  (List.perm_insertionSort _ fields).symm

/-- Lists related in pairs have the same images when related elements do. -/
theorem forall₂_map_eq {α β γ : Type} {R : α → β → Prop} {f : α → γ} {g : β → γ} {as : List α}
    {bs : List β} (related : List.Forall₂ R as bs)
    (each : ∀ a ∈ as, ∀ b ∈ bs, R a b → f a = g b) : as.map f = bs.map g := by
  induction related with
  | nil => rfl
  | cons head tail ih =>
    rw [List.map_cons, List.map_cons, each _ List.mem_cons_self _ List.mem_cons_self head,
      ih fun a member b member' =>
        each a (List.mem_cons_of_mem _ member) b (List.mem_cons_of_mem _ member')]

/-- Sorting by distinct keys forgets the order. -/
theorem sorted_eq_of_perm {α : Type} {rows rows' : List (String × α)} (perm : rows.Perm rows')
    (distinct : (rows.map Prod.fst).Nodup) (sorted : rows.Pairwise (·.1 ≤ ·.1))
    (sorted' : rows'.Pairwise (·.1 ≤ ·.1)) : rows = rows' := by
  refine perm.eq_of_pairwise (fun a b member member' below above => ?_) sorted sorted'
  exact List.inj_on_of_nodup_map distinct member (perm.mem_iff.mpr member')
    (le_antisymm below above)

/-- Values that are the same up to the order of members have the same sorted text. -/
theorem Writes.of_same (writes : Writes token sortMembers write) {v w : Json} (keyed : v.Keyed)
    (keyed' : w.Keyed) (same : v.Same Eq List.Perm w) : write v = write w := by
  induction v using memberInduction generalizing w with
  | null => cases same; rfl
  | bool b => cases same; rfl
  | str s => cases same; rfl
  | num m =>
    cases same with
    | num related => rw [related]
  | arr items ih =>
    cases same with
    | @arr _ items' each =>
      have texts : items.map write = items'.map write :=
        forall₂_map_eq each fun a member b member' same => ih a member
          (fun fields inside => keyed fields (.item member inside))
          (fun fields inside => keyed' fields (.item member' inside)) same
      rw [writes.arr, writes.arr, texts]
  | obj fields ih =>
    cases same with
    | @obj _ fields' ordered ordered' order order' keys values =>
      let row (field : String × Json) : String × List UInt8 := (field.1, write field.2)
      have rows : ordered.map row = ordered'.map row := by
        refine forall₂_map_eq (forall₂_member.mpr ⟨keys, values⟩) ?_
        rintro a member b member' ⟨key, same⟩
        exact Prod.ext key (ih a (order.mem_iff.mpr member)
          (fun fields inside => keyed fields (.field (order.mem_iff.mpr member) inside))
          (fun fields inside => keyed' fields (.field (order'.mem_iff.mpr member') inside)) same)
      have sorted (fields : List (String × Json)) :
          ((sortMembers fields).map row).Pairwise (·.1 ≤ ·.1) :=
        List.pairwise_map.mpr (List.pairwise_insertionSort _ fields)
      have perm : ((sortMembers fields).map row).Perm ((sortMembers fields').map row) :=
        (((sortMembers_perm fields).symm.trans order).map row).trans
          (rows ▸ ((order'.symm.trans (sortMembers_perm fields')).map row))
      have distinct : (((sortMembers fields).map row).map Prod.fst).Nodup := by
        rw [List.map_map]
        exact ((sortMembers_perm fields).map Prod.fst).nodup (keyed fields .whole)
      have texts : (sortMembers fields).map (memberText token write) =
          (sortMembers fields').map (memberText token write) := by
        have equal := congrArg (List.map fun r : String × List UInt8 =>
          token (.str r.1) ++ ([0x3A] ++ r.2))
          (sorted_eq_of_perm perm distinct (sorted fields) (sorted fields'))
        rw [List.map_map, List.map_map] at equal
        exact equal
      rw [writes.obj, writes.obj, texts]

end Json
