import Federate.Library.JsonText
import Federate.Library.Rows

/-!
# Reading values from a JSON tree

Readers of single values, lists, maps, enumerations and the fields of a record. A record is read
from an object, whose unknown members are skipped and whose known ones may not repeat, or from an
array that lists the fields in order. A reader fails by giving no value.
-/

namespace Json

open Std (ExtTreeMap)

variable {α β : Type}

/-! ## Readers -/

/-- A text. -/
def asStr : Json → Option String
  | .str s => some s
  | _ => none

/-- An unsigned number. -/
def asUInt64 : Json → Option UInt64
  | .num (.posInt n) => some n
  | _ => none

/-- A value that may be `null`. -/
def orNull (read : Json → Option α) : Json → Option (Option α)
  | .null => some none
  | v => some <$> read v

/-- A list of values. -/
def asList (read : Json → Option α) : Json → Option (List α)
  | .arr items => items.mapM read
  | _ => none

/-- A map of values; a later member of a key replaces an earlier one. -/
def asMap (read : Json → Option α) : Json → Option (ExtTreeMap String α)
  | .obj fields => fields.foldlM
      (fun rows field => (fun value => rows.insert field.1 value) <$> read field.2) ∅
  | _ => none

/-- A variant without data: its name, or an object with its name and `null`. -/
def asVariant (variants : List α) (name : α → String) : Json → Option α
  | .str s => variants.find? fun variant => name variant = s
  | .obj [(key, .null)] => variants.find? fun variant => name variant = key
  | _ => none

/-- The fields of a record. -/
def asRecord (names : List String) : Json → Option (String → Option Json)
  | .obj fields =>
    if ∀ name ∈ names, (members name fields).length ≤ 1 then
      some fun name => (members name fields).head?
    else none
  | .arr items =>
    if items.length ≤ names.length then some fun name => items[names.idxOf name]? else none
  | _ => none

/-- A field that has to be there. -/
def required (read : Json → Option α) (slot : Option Json) : Option α := slot.bind read

/-- A field with a default. -/
def defaulted (absent : α) (read : Json → Option α) (slot : Option Json) : Option α :=
  slot.elim (some absent) read

/-! ## Free-form values -/

/-- The members of an object as a map: in key order, the last one of a key. -/
def rowsOf (fields : List (String × Json)) : List (String × Json) :=
  (fields.foldl (fun rows field => rows.insert field.1 field.2)
    (∅ : ExtTreeMap String Json)).toList

mutual
/-- The tree with the members of every object as a map. -/
def normal : Json → Json
  | .arr items => .arr (normalItems items)
  | .obj fields => .obj (rowsOf (normalFields fields))
  | v => v

/-- Every item in normal form. -/
def normalItems : List Json → List Json
  | [] => []
  | item :: rest => item.normal :: normalItems rest

/-- Every member in normal form. -/
def normalFields : List (String × Json) → List (String × Json)
  | [] => []
  | (key, value) :: rest => (key, value.normal) :: normalFields rest
end

mutual
/-- How many arrays and objects lie inside one another. -/
def depth : Json → ℕ
  | .arr items => depthItems items + 1
  | .obj fields => depthFields fields + 1
  | _ => 0

/-- The depth of the deepest item. -/
def depthItems : List Json → ℕ
  | [] => 0
  | item :: rest => max item.depth (depthItems rest)

/-- The depth of the deepest member. -/
def depthFields : List (String × Json) → ℕ
  | [] => 0
  | (_, value) :: rest => max value.depth (depthFields rest)
end

theorem normalItems_eq (items : List Json) : normalItems items = items.map normal := by
  induction items with
  | nil => rfl
  | cons item rest ih => rw [normalItems, ih, List.map_cons]

theorem normalFields_eq (fields : List (String × Json)) :
    normalFields fields = fields.map fun field => (field.1, field.2.normal) := by
  induction fields with
  | nil => rfl
  | cons field rest ih => rw [normalFields, ih, List.map_cons]

/-- Every item is sorted exactly when each is. -/
theorem sortedItems_iff {items : List Json} : SortedItems items ↔ ∀ item ∈ items, item.Sorted := by
  induction items with
  | nil => simp [SortedItems]
  | cons first rest ih => simp [SortedItems, ih]

/-- Every member is sorted exactly when each is. -/
theorem sortedFields_iff {fields : List (String × Json)} :
    SortedFields fields ↔ ∀ field ∈ fields, field.2.Sorted := by
  induction fields with
  | nil => simp [SortedFields]
  | cons first rest ih => simp [SortedFields, ih]

/-- The members of a map are in key order. -/
theorem rowsOf_sorted (fields : List (String × Json)) :
    (rowsOf fields).Pairwise fun a b => a.1 < b.1 :=
  ExtTreeMap.ordered_keys_toList.imp fun below => compare_lt_iff_lt.mp below

/-- Members in key order are those of their map. -/
theorem rowsOf_of_sorted {fields : List (String × Json)}
    (sorted : fields.Pairwise fun a b => a.1 < b.1) : rowsOf fields = fields := by
  have distinct : fields.Pairwise fun a b => a.1 ≠ b.1 := sorted.imp fun below => below.ne
  refine Rows.toList_eq (sorted.imp fun below => compare_lt_iff_lt.mpr below) fun key value => ?_
  rw [Rows.foldl_insert_getElem? Prod.fst Prod.snd fields distinct, ExtTreeMap.getElem?_empty,
    Option.or_none, Option.map_eq_some_iff]
  constructor
  · rintro ⟨field, found, rfl⟩
    have same : field.1 = key := by simpa using List.find?_some found
    rw [← same]
    exact List.mem_of_find?_eq_some found
  · intro member
    have some : (fields.find? fun field => compare field.1 key = .eq).isSome = true :=
      List.find?_isSome.mpr ⟨_, member, by simp⟩
    obtain ⟨field, found⟩ := Option.isSome_iff_exists.mp some
    have same : field.1 = key := by simpa using List.find?_some found
    have keys : (fields.map Prod.fst).Nodup := List.pairwise_map.mpr distinct
    have whole : field = (key, value) :=
      List.inj_on_of_nodup_map keys (List.mem_of_find?_eq_some found) member same
    exact ⟨field, found, by rw [whole]⟩

/-- A member of the map is one of the members. -/
theorem mem_of_mem_rowsOf {fields : List (String × Json)} {field : String × Json}
    (member : field ∈ rowsOf fields) : field ∈ fields := by
  have found : (Rows.store Prod.fst Prod.snd fields)[field.1]? = some field.2 :=
    ExtTreeMap.mem_toList_iff_getElem?_eq_some.mp member
  rw [Rows.store_getElem?, Option.map_eq_some_iff] at found
  obtain ⟨last, found, same⟩ := found
  have key : last.1 = field.1 := by simpa using List.find?_some found
  have whole : last = field := Prod.ext key same
  exact List.mem_reverse.mp (whole ▸ List.mem_of_find?_eq_some found)

/-- The normal form is sorted. -/
theorem normal_sorted (v : Json) : v.normal.Sorted := by
  induction v using memberInduction with
  | arr items ih =>
    refine sortedItems_iff.mpr fun item member => ?_
    rw [normalItems_eq] at member
    obtain ⟨inner, inside, rfl⟩ := List.mem_map.mp member
    exact ih inner inside
  | obj fields ih =>
    refine ⟨rowsOf_sorted _, sortedFields_iff.mpr fun field member => ?_⟩
    have inside := mem_of_mem_rowsOf member
    rw [normalFields_eq] at inside
    obtain ⟨inner, within, rfl⟩ := List.mem_map.mp inside
    exact ih inner within
  | _ => trivial

/-- A sorted tree is in normal form. -/
theorem normal_of_sorted {v : Json} (sorted : v.Sorted) : v.normal = v := by
  induction v using memberInduction with
  | arr items ih =>
    have each := sortedItems_iff.mp sorted
    rw [normal, normalItems_eq, List.map_congr_left fun item member => ih item member
      (each item member), List.map_id']
  | obj fields ih =>
    have each := sortedFields_iff.mp sorted.2
    have same : (fields.map fun field => (field.1, field.2.normal)) = fields := by
      conv_rhs => rw [← List.map_id' fields]
      refine List.map_congr_left fun field member => ?_
      rw [ih field member (each field member)]
    rw [normal, normalFields_eq, same, rowsOf_of_sorted sorted.1]
  | _ => rfl

/-! ## Reading what was written -/

/-- A list of written values is read back, when each value is. -/
theorem asList_map {write : α → Json} {read : Json → Option α} {values : List α}
    (each : ∀ v ∈ values, read (write v) = some v) :
    asList read (.arr (values.map write)) = some values := by
  show (values.map write).mapM read = _
  induction values with
  | nil => rfl
  | cons v rest ih =>
    rw [List.map_cons, List.mapM_cons, each v List.mem_cons_self,
      ih fun v member => each v (List.mem_cons_of_mem _ member)]
    rfl

/-- The written rows of a map are read row by row. -/
theorem asMap_rows {write : β → Json} {read : Json → Option α} {back : β → α}
    {t : ExtTreeMap String β}
    (each : ∀ (k : String) (v : β), t[k]? = some v → read (write v) = some (back v)) :
    asMap read (.obj (t.toList.map fun p => (p.1, write p.2))) = some (Rows.encoded back t) := by
  have rows : ∀ (entries : List (String × β)) (before : ExtTreeMap String α),
      (∀ p ∈ entries, read (write p.2) = some (back p.2)) →
      (entries.map fun p => (p.1, write p.2)).foldlM
        (fun rows field => (fun value => rows.insert field.1 value) <$> read field.2) before =
      some (entries.foldl (fun rows p => rows.insert p.1 (back p.2)) before) := by
    intro entries
    induction entries with
    | nil => exact fun _ _ => rfl
    | cons p rest ih =>
      intro before each
      rw [List.map_cons, List.foldlM_cons, each p List.mem_cons_self]
      exact ih _ fun q member => each q (List.mem_cons_of_mem _ member)
  rw [← Rows.foldl_insert_toList]
  exact rows t.toList ∅ fun p member =>
    each p.1 p.2 (ExtTreeMap.mem_toList_iff_getElem?_eq_some.mp member)

/-- The member in a slot, if any. -/
def slot (name : String) (slots : List (String × Option Json)) : Option Json :=
  (slots.find? fun entry => entry.1 = name).bind Prod.snd

theorem slot_cons (name key : String) (value : Option Json) (rest : List (String × Option Json)) :
    slot name ((key, value) :: rest) = if key = name then value else slot name rest := by
  by_cases same : key = name <;> simp [slot, same]

/-- The members of a layout under a name are the one in its slot. -/
theorem members_layout {slots : List (String × Option Json)} (distinct : (slots.map Prod.fst).Nodup)
    (name : String) : members name (layout slots) = (slot name slots).toList := by
  induction slots with
  | nil => rfl
  | cons entry rest ih =>
    obtain ⟨key, value⟩ := entry
    rw [List.map_cons, List.nodup_cons] at distinct
    have later := ih distinct.2
    show members name (optField key value ++ layout rest) = _
    rw [members_append, members_optField, later]
    by_cases same : key = name
    · have absent : slot name rest = none := by
        rw [slot, Option.bind_eq_none_iff]
        intro other found
        have equal : other.1 = name := by simpa using List.find?_some found
        have member : other.1 ∈ rest.map Prod.fst :=
          List.mem_map_of_mem (List.mem_of_find?_eq_some found)
        exact absurd (equal.trans same.symm ▸ member) distinct.1
      rw [slot_cons, if_pos same, if_pos same, absent, Option.toList_none,
        List.append_nil]
    · rw [slot_cons, if_neg same, if_neg same, List.nil_append]

/-- A filled slot is found, when names are distinct. -/
theorem slot_of_mem {slots : List (String × Option Json)} (distinct : (slots.map Prod.fst).Nodup)
    {name : String} {v : Json} (member : (name, some v) ∈ slots) : slot name slots = some v := by
  have found : v ∈ members name (layout slots) := by
    have inside : (name, v) ∈ layout slots := mem_layout.mpr member
    generalize layout slots = fields at inside
    induction fields with
    | nil => exact absurd inside List.not_mem_nil
    | cons field rest ih =>
      obtain ⟨key, value⟩ := field
      rw [members_cons]
      rcases List.mem_cons.mp inside with here | later
      · obtain ⟨rfl, rfl⟩ := Prod.mk.inj here
        rw [if_pos rfl]
        exact List.mem_cons_self
      · split
        · exact List.mem_cons_of_mem _ (ih later)
        · exact ih later
  rw [members_layout distinct] at found
  exact Option.mem_toList.mp found

/-- A record is read from a layout slot by slot. -/
theorem asRecord_layout {slots : List (String × Option Json)}
    (distinct : (slots.map Prod.fst).Nodup) (names : List String) :
    asRecord names (.obj (layout slots)) = some fun name => slot name slots := by
  have once : ∀ name ∈ names, (members name (layout slots)).length ≤ 1 := by
    intro name _
    rw [members_layout distinct]
    cases slot name slots <;> simp
  have found : (fun name => (members name (layout slots)).head?) =
      fun name => slot name slots := by
    funext name
    rw [members_layout distinct]
    cases slot name slots <;> rfl
  show (if _ then _ else _) = _
  rw [if_pos once, found]

/-- A record is read from members with distinct keys. -/
theorem asRecord_fields {fields : List (String × Json)} {keys : List String}
    (distinct : keys.Nodup) (named : fields.map Prod.fst = keys) (names : List String) :
    asRecord names (.obj fields) =
      some fun name => slot name (fields.map fun field => (field.1, some field.2)) := by
  have whole : layout (fields.map fun field => (field.1, some field.2)) = fields := by
    clear named
    induction fields with
    | nil => rfl
    | cons field rest ih => exact congrArg (field :: ·) ih
  have unique : ((fields.map fun field => (field.1, some field.2)).map Prod.fst).Nodup := by
    rw [List.map_map]
    exact named ▸ distinct
  have read := asRecord_layout unique names
  rwa [whole] at read

/-- A variant is read from its name, when names tell variants apart. -/
theorem asVariant_str {variants : List α} {name : α → String} {v : α} (member : v ∈ variants)
    (injective : ∀ w, name w = name v → w = v) : asVariant variants name (.str (name v)) = some v := by
  show variants.find? (fun variant => name variant = name v) = some v
  have found : (variants.find? fun variant => name variant = name v).isSome = true :=
    List.find?_isSome.mpr ⟨v, member, by simp⟩
  obtain ⟨w, first⟩ := Option.isSome_iff_exists.mp found
  have same : name w = name v := by simpa using List.find?_some first
  rw [first, injective w same]

end Json

/-- The value of a tree. -/
def Value.ofJson (v : Json) : Value := ⟨v.normal, v.normal_sorted⟩

/-- The value of the tree of a value is that value. -/
@[simp] theorem Value.ofJson_tree (v : Value) : Value.ofJson v.tree = v :=
  Value.ext (Json.normal_of_sorted v.sorted)

/-- A value of integers, no deeper than a limit, that does not read as an absent member. -/
structure Value.Plain (limit : ℕ) (v : Value) : Prop where
  /-- Its numbers are integers. -/
  integral : v.tree.Integral
  /-- It is no deeper. -/
  shallow : v.tree.depth ≤ limit
  /-- It is not `null`. -/
  present : v.tree ≠ .null
