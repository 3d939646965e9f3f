import Federate.Library.Outcome

/-!
# Tables of encoded values

An ordered table stores every value as an encoded row under a key of its own. Storing the
values of a map gives the rows of the map, and reading the rows back in key order gives the
values again whenever the decoder inverts the encoder on them. A log is a table whose keys
number its rows from zero.
-/
namespace Rows

open Std (ExtTreeMap)

variable {κ α β ε : Type} [Ord κ] [Std.TransOrd κ] [Std.LawfulEqOrd κ]

/-- The rows of a map, each value encoded. -/
def encoded (encode : α → β) (t : ExtTreeMap κ α) : ExtTreeMap κ β := t.map fun _ v => encode v

/-- Store values one after the other, each under its own key. -/
def store (key : α → κ) (encode : α → β) (values : List α) : ExtTreeMap κ β :=
  values.foldl (fun rows v => rows.insert (key v) (encode v)) ∅

/-- The values of a map, in key order. -/
def values (t : ExtTreeMap κ α) : List α := t.toList.map Prod.snd

/-- Read every row, in key order. -/
def readAll (decode : β → Except ε α) (rows : ExtTreeMap κ β) : Except ε (List α) :=
  rows.toList.mapM fun row => decode row.2

/-- Read every row under its key, in key order, into a map with the same keys. -/
def load (decode : κ → β → Except ε α) (rows : ExtTreeMap κ β) : Except ε (ExtTreeMap κ α) :=
  rows.toList.foldlM (fun (loaded : ExtTreeMap κ α) (row : κ × β) => do
    let v ← decode row.1 row.2
    return loaded.insert row.1 v) ∅

/-- Every value of the map is filed under its own key. -/
def Keyed (key : α → κ) (t : ExtTreeMap κ α) : Prop := ∀ k v, t[k]? = some v → key v = k

/-- A value is filed under its own key. -/
theorem Keyed.insert {key : α → κ} {t : ExtTreeMap κ α} (keyed : Keyed key t) (v : α) :
    Keyed key (t.insert (key v) v) := by
  intro k other found
  rw [ExtTreeMap.getElem?_insert] at found
  split at found
  · rename_i same
    rw [← Option.some.inj found]
    exact Std.LawfulEqCmp.eq_of_compare same
  · exact keyed k other found

/-- Values that are left out are not missed. -/
theorem Keyed.filter {key : α → κ} {t : ExtTreeMap κ α} (keyed : Keyed key t) (p : α → Bool) :
    Keyed key (t.filter fun _ v => p v) := by
  intro k v found
  rw [ExtTreeMap.getElem?_filter'] at found
  exact keyed k v (Option.filter_eq_some_iff.mp found).1

@[simp] theorem encoded_getElem? (encode : α → β) (t : ExtTreeMap κ α) (k : κ) :
    (encoded encode t)[k]? = t[k]?.map encode := by
  simp [encoded]

@[simp] theorem encoded_empty (encode : α → β) :
    encoded encode (∅ : ExtTreeMap κ α) = ∅ := by
  apply ExtTreeMap.ext_getElem?
  simp

/-- Rows that encoding leaves alone. -/
theorem encoded_eq_self {encode : α → α} {t : ExtTreeMap κ α}
    (each : ∀ (k : κ) (v : α), t[k]? = some v → encode v = v) : encoded encode t = t := by
  apply ExtTreeMap.ext_getElem?
  intro k
  rw [encoded_getElem?]
  cases found : t[k]? with
  | none => rfl
  | some v => rw [Option.map_some, each k v found]

/-- The row of an inserted value is inserted. -/
theorem encoded_insert (encode : α → β) (t : ExtTreeMap κ α) (k : κ) (v : α) :
    encoded encode (t.insert k v) = (encoded encode t).insert k (encode v) := by
  apply ExtTreeMap.ext_getElem?
  intro other
  simp only [encoded_getElem?, ExtTreeMap.getElem?_insert]
  split <;> rfl

omit [Std.LawfulEqOrd κ] in
/-- Encoding does not change the number of rows. -/
@[simp] theorem encoded_size (encode : α → β) (t : ExtTreeMap κ α) :
    (encoded encode t).size = t.size := by
  rw [← ExtTreeMap.length_toList, encoded, ExtTreeMap.toList_map, List.length_map,
    ExtTreeMap.length_toList]

/-- A map is determined by the entries it lists in key order. -/
theorem toList_eq {t : ExtTreeMap κ α} {entries : List (κ × α)}
    (ordered : entries.Pairwise fun a b => compare a.1 b.1 = .lt)
    (same : ∀ k v, t[k]? = some v ↔ (k, v) ∈ entries) : t.toList = entries := by
  have listed : t.toList.Pairwise fun a b => compare a.1 b.1 = .lt :=
    ExtTreeMap.ordered_keys_toList
  have asymm : ∀ a b : κ × α, compare a.1 b.1 = .lt → ¬compare b.1 a.1 = .lt := by
    intro a b below above
    have swapped : compare b.1 a.1 = (compare a.1 b.1).swap := Std.OrientedCmp.eq_swap
    rw [swapped, below] at above
    exact absurd above (by decide)
  have nodup : ∀ l : List (κ × α), (l.Pairwise fun a b => compare a.1 b.1 = .lt) → l.Nodup := by
    intro l below
    refine below.imp fun {a b} lt equal => ?_
    exact asymm a b lt (equal ▸ lt)
  have perm : t.toList.Perm entries :=
    (List.perm_ext_iff_of_nodup (nodup _ listed) (nodup _ ordered)).mpr fun p => by
      rw [← same p.1 p.2]
      exact ExtTreeMap.mem_toList_iff_getElem?_eq_some
  exact perm.eq_of_pairwise (fun a b _ _ ab ba => absurd ba (asymm a b ab)) listed ordered

/-- A key beyond all others is listed last. -/
theorem toList_insert_last {t : ExtTreeMap κ α} {k : κ} (last : ∀ k' ∈ t, compare k' k = .lt)
    (v : α) : (t.insert k v).toList = t.toList ++ [(k, v)] := by
  have absent : k ∉ t := fun member => by simpa using last k member
  apply toList_eq
  · refine List.pairwise_append.mpr ⟨ExtTreeMap.ordered_keys_toList, by simp, ?_⟩
    intro p member q single
    rw [List.mem_singleton.mp single]
    have found := ExtTreeMap.mem_toList_iff_getElem?_eq_some.mp member
    exact last p.1 (ExtTreeMap.mem_iff_isSome_getElem?.mpr (by simp [found]))
  · intro k' v'
    rw [ExtTreeMap.getElem?_insert]
    by_cases equal : k = k'
    · subst equal
      have missing : (k, v') ∉ t.toList := fun member =>
        absent (ExtTreeMap.mem_iff_isSome_getElem?.mpr
          (by simp [ExtTreeMap.mem_toList_iff_getElem?_eq_some.mp member]))
      simp [missing, eq_comm]
    · have differs : compare k k' ≠ .eq := fun same => equal (Std.LawfulEqCmp.eq_of_compare same)
      simp [differs, ExtTreeMap.mem_toList_iff_getElem?_eq_some, Ne.symm equal]

/-- Storing values one after the other adds their rows to those already there. -/
theorem foldl_insert_getElem? (key : α → κ) (encode : α → β) (vs : List α)
    (distinct : vs.Pairwise fun a b => key a ≠ key b) (rows : ExtTreeMap κ β) (k : κ) :
    (vs.foldl (fun rows v => rows.insert (key v) (encode v)) rows)[k]? =
      ((vs.find? fun v => compare (key v) k = .eq).map encode).or rows[k]? := by
  induction vs generalizing rows with
  | nil => simp
  | cons head tail ih =>
    obtain ⟨first, rest⟩ := List.pairwise_cons.mp distinct
    rw [List.foldl_cons, ih rest, ExtTreeMap.getElem?_insert, List.find?_cons]
    by_cases here : compare (key head) k = .eq
    · have same : key head = k := Std.LawfulEqCmp.eq_of_compare here
      have later : tail.find? (fun v => compare (key v) k = .eq) = none := by
        refine List.find?_eq_none.mpr fun v member => ?_
        simpa [← same] using fun equal => first v member equal.symm
      simp [here, later]
    · simp [here]

omit [Std.LawfulEqOrd κ] in
/-- A key holds the last value stored under it. -/
theorem store_getElem? (key : α → κ) (encode : α → β) (vs : List α) (k : κ) :
    (store key encode vs)[k]? =
      (vs.reverse.find? fun v => compare (key v) k = .eq).map encode := by
  induction vs using List.reverseRecOn with
  | nil => simp [store]
  | append_singleton vs last ih =>
    rw [store, List.foldl_append, List.foldl_cons, List.foldl_nil, ExtTreeMap.getElem?_insert,
      ← store, ih, List.reverse_append, List.reverse_singleton, List.singleton_append,
      List.find?_cons]
    by_cases here : compare (key last) k = .eq <;> simp [here]

/-- The keys of stored values. -/
theorem mem_store {key : α → κ} {encode : α → β} {vs : List α} {k : κ} :
    k ∈ store key encode vs ↔ ∃ v ∈ vs, key v = k := by
  rw [ExtTreeMap.mem_iff_isSome_getElem?, store_getElem?]
  simp

/-- The size of a map is the number of its keys. -/
theorem size_eq_card [DecidableEq κ] {t : ExtTreeMap κ α} {keys : Finset κ}
    (same : ∀ k, k ∈ t ↔ k ∈ keys) : t.size = keys.card := by
  have distinct : t.keys.Nodup := ExtTreeMap.nodup_keys
  have equal : t.keys.toFinset = keys := by
    ext k
    rw [List.mem_toFinset, ExtTreeMap.mem_keys, same]
  rw [← ExtTreeMap.length_keys, ← equal, List.toFinset_card_of_nodup distinct]

/-- Inserting the entries of a map one after the other, each value encoded, gives the rows of
the map. -/
theorem foldl_insert_toList (encode : α → β) (t : ExtTreeMap κ α) :
    t.toList.foldl (fun (rows : ExtTreeMap κ β) p => rows.insert p.1 (encode p.2)) ∅ =
      encoded encode t := by
  have distinct : t.toList.Pairwise fun a b => a.1 ≠ b.1 :=
    ExtTreeMap.distinct_keys_toList.imp fun differs same => differs (by simp [same])
  apply ExtTreeMap.ext_getElem?
  intro k
  rw [foldl_insert_getElem? Prod.fst (fun p => encode p.2) _ distinct, encoded_getElem?]
  simp only [ExtTreeMap.getElem?_empty, Option.or_none]
  cases found : t.toList.find? fun p => compare p.1 k = .eq with
  | some p =>
    have named : p.1 = k := by simpa using List.find?_some found
    have held := ExtTreeMap.mem_toList_iff_getElem?_eq_some.mp (List.mem_of_find?_eq_some found)
    rw [← named, held]
    rfl
  | none =>
    cases held : t[k]? with
    | none => rfl
    | some v =>
      have missed := List.find?_eq_none.mp found (k, v)
        (ExtTreeMap.mem_toList_iff_getElem?_eq_some.mpr held)
      simp at missed

/-- A value of the map is one of its values. -/
theorem mem_values {t : ExtTreeMap κ α} {v : α} : v ∈ values t ↔ ∃ k : κ, t[k]? = some v := by
  simp [values, ExtTreeMap.mem_toList_iff_getElem?_eq_some]

/-- Storing the values of a map, each under its own key, gives the rows of the map. -/
theorem store_values {key : α → κ} {t : ExtTreeMap κ α} (keyed : Keyed key t)
    (encode : α → β) : store key encode (values t) = encoded encode t := by
  rw [← foldl_insert_toList, store, values, List.foldl_map]
  refine List.foldl_ext _ _ _ fun rows p member => ?_
  rw [keyed p.1 p.2 (ExtTreeMap.mem_toList_iff_getElem?_eq_some.mp member)]

/-- Reading rows back gives the values in key order, when the decoder inverts the encoder on
every one of them. -/
theorem readAll_encoded {decode : β → Except ε α} {encode : α → β} {t : ExtTreeMap κ α}
    (inverts : ∀ (k : κ) (v : α), t[k]? = some v → decode (encode v) = .ok v) :
    readAll decode (encoded encode t) = .ok (values t) := by
  rw [readAll, encoded, ExtTreeMap.toList_map, values]
  have each : ∀ p ∈ t.toList, decode (encode p.2) = .ok p.2 := fun p member =>
    inverts p.1 p.2 (ExtTreeMap.mem_toList_iff_getElem?_eq_some.mp member)
  generalize t.toList = entries at each
  induction entries with
  | nil => rfl
  | cons head tail ih =>
    have rest := ih fun p member => each p (List.mem_cons_of_mem _ member)
    simp [each head List.mem_cons_self, rest, List.mapM_cons, bind, Except.bind, pure,
      Except.pure]

omit [Std.LawfulEqOrd κ] in
/-- Reading succeeds exactly when every row decodes. -/
theorem readAll_eq_ok {decode : β → Except ε α} {rows : ExtTreeMap κ β} {vs : List α} :
    readAll decode rows = .ok vs ↔
      List.Forall₂ (fun row v => decode row.2 = .ok v) rows.toList vs :=
  Outcome.mapM_eq_ok

omit [Std.LawfulEqOrd κ] in
/-- As many values are read as there are rows. -/
theorem length_of_readAll {decode : β → Except ε α} {rows : ExtTreeMap κ β} {vs : List α}
    (reads : readAll decode rows = .ok vs) : vs.length = rows.size := by
  have pairs := readAll_eq_ok.mp reads
  rw [← pairs.length_eq, ExtTreeMap.length_toList]

/-- Every row that was read decodes to one of the values. -/
theorem exists_of_readAll {decode : β → Except ε α} {rows : ExtTreeMap κ β} {vs : List α}
    (reads : readAll decode rows = .ok vs) {k : κ} {row : β} (held : rows[k]? = some row) :
    ∃ v ∈ vs, decode row = .ok v := by
  have member := ExtTreeMap.mem_toList_iff_getElem?_eq_some.mpr held
  have pairs := readAll_eq_ok.mp reads
  clear reads
  generalize rows.toList = entries at member pairs
  induction pairs with
  | nil => exact absurd member List.not_mem_nil
  | cons here _ ih =>
    rcases List.mem_cons.mp member with first | later
    · rw [← first] at here
      exact ⟨_, List.mem_cons_self, here⟩
    · obtain ⟨v, among, decodes⟩ := ih later
      exact ⟨v, List.mem_cons_of_mem _ among, decodes⟩

/-- A map with only keys of another, and as many, has all its keys. -/
theorem mem_of_size_eq [DecidableEq κ] {rows : ExtTreeMap κ β} {t : ExtTreeMap κ α}
    (known : ∀ k ∈ rows, k ∈ t) (sizes : rows.size = t.size) {k : κ} (member : k ∈ t) :
    k ∈ rows := by
  have listed : ∀ k, k ∈ rows ↔ k ∈ rows.keys.toFinset := fun k => by
    rw [List.mem_toFinset, ExtTreeMap.mem_keys]
  have listed' : ∀ k, k ∈ t ↔ k ∈ t.keys.toFinset := fun k => by
    rw [List.mem_toFinset, ExtTreeMap.mem_keys]
  have below : rows.keys.toFinset ⊆ t.keys.toFinset := fun k among =>
    (listed' k).mp (known k ((listed k).mpr among))
  have many : t.keys.toFinset.card ≤ rows.keys.toFinset.card := by
    rw [← size_eq_card listed, ← size_eq_card listed', sizes]
  have same := Finset.eq_of_subset_of_card_le below many
  exact (listed k).mpr (same ▸ (listed' k).mp member)

/-- Rows that are their own encoding. -/
@[simp] theorem encoded_id (t : ExtTreeMap κ α) : encoded id t = t := by
  apply ExtTreeMap.ext_getElem?
  simp

/-- Loading rows gives the map again, when the decoder inverts the encoder on every value. -/
theorem load_encoded {decode : κ → β → Except ε α} {encode : α → β} {t : ExtTreeMap κ α}
    (inverts : ∀ (k : κ) (v : α), t[k]? = some v → decode k (encode v) = .ok v) :
    load decode (encoded encode t) = .ok t := by
  have each : ∀ p ∈ t.toList, decode p.1 (encode p.2) = .ok p.2 := fun p member =>
    inverts p.1 p.2 (ExtTreeMap.mem_toList_iff_getElem?_eq_some.mp member)
  have again : t.toList.foldl (fun (loaded : ExtTreeMap κ α) p => loaded.insert p.1 p.2) ∅ = t :=
    (foldl_insert_toList id t).trans (encoded_id t)
  rw [load, encoded, ExtTreeMap.toList_map, List.foldlM_map]
  refine Eq.trans ?_ (congrArg Except.ok again)
  generalize t.toList = entries at each
  generalize (∅ : ExtTreeMap κ α) = loaded
  induction entries generalizing loaded with
  | nil => rfl
  | cons head tail ih =>
    have rest := ih (fun p member => each p (List.mem_cons_of_mem _ member))
      (loaded.insert head.1 head.2)
    simpa [each head List.mem_cons_self, bind, Except.bind, pure, Except.pure] using rest

/-- Every loaded value was decoded from the row under its key. -/
theorem of_load {decode : κ → β → Except ε α} {rows : ExtTreeMap κ β} {t : ExtTreeMap κ α}
    (loads : load decode rows = .ok t) {k : κ} {v : α} (held : t[k]? = some v) :
    ∃ row, rows[k]? = some row ∧ decode k row = .ok v := by
  have found : ∀ (entries : List (κ × β)) (start : ExtTreeMap κ α),
      entries.foldlM (fun (loaded : ExtTreeMap κ α) (row : κ × β) => do
        let v ← decode row.1 row.2
        return loaded.insert row.1 v) start = (.ok t : Except ε (ExtTreeMap κ α)) →
      start[k]? = some v ∨ ∃ row, (k, row) ∈ entries ∧ decode k row = .ok v := by
    intro entries
    induction entries with
    | nil =>
      intro start ends
      have same : start = t := Except.ok.inj ends
      exact .inl (same ▸ held)
    | cons head tail ih =>
      intro start ends
      rw [List.foldlM_cons, Outcome.bind_eq_ok] at ends
      obtain ⟨next, first, later⟩ := ends
      simp only [Outcome.bind_eq_ok, Outcome.pure_eq_ok] at first
      obtain ⟨w, decodes, rfl⟩ := first
      rcases ih _ later with before | behind
      · rw [ExtTreeMap.getElem?_insert] at before
        by_cases here : compare head.1 k = .eq
        · have same : head.1 = k := Std.LawfulEqCmp.eq_of_compare here
          rw [if_pos here, Option.some.injEq] at before
          rw [← before, ← same]
          exact .inr ⟨head.2, List.mem_cons_self, decodes⟩
        · rw [if_neg here] at before
          exact .inl before
      · obtain ⟨row, member, decodes'⟩ := behind
        exact .inr ⟨row, List.mem_cons_of_mem _ member, decodes'⟩
  rcases found rows.toList ∅ loads with empty | listed
  · simp at empty
  · obtain ⟨row, member, decodes⟩ := listed
    exact ⟨row, ExtTreeMap.mem_toList_iff_getElem?_eq_some.mp member, decodes⟩

/-- Stored rows are the rows of the map of the stored values. -/
theorem store_eq_encoded (key : α → κ) (encode : α → β) (vs : List α) :
    store key encode vs = encoded encode (store key id vs) := by
  apply ExtTreeMap.ext_getElem?
  intro k
  rw [encoded_getElem?, store_getElem?, store_getElem?, Option.map_id, id]

/-- Stored values are filed under their keys. -/
theorem keyed_store (key : α → κ) (vs : List α) : Keyed key (store key id vs) := by
  intro k v held
  rw [store_getElem?, Option.map_id, id] at held
  simpa using List.find?_some held

/-- Values with distinct keys are all stored, and nothing else is. -/
theorem store_eq_some {key : α → κ} {vs : List α}
    (distinct : vs.Pairwise fun a b => key a ≠ key b) {k : κ} {v : α} :
    (store key id vs)[k]? = some v ↔ v ∈ vs ∧ key v = k := by
  rw [store, foldl_insert_getElem? key id vs distinct, ExtTreeMap.getElem?_empty, Option.or_none,
    Option.map_id, id]
  constructor
  · intro found
    have named : key v = k := by simpa using List.find?_some found
    exact ⟨List.mem_of_find?_eq_some found, named⟩
  · intro stored
    obtain ⟨member, rfl⟩ := stored
    cases found : vs.find? fun w => compare (key w) (key v) = .eq with
    | none =>
      have missed := List.find?_eq_none.mp found v member
      simp at missed
    | some w =>
      have same : key w = key v := by simpa using List.find?_some found
      by_cases equal : w = v
      · rw [equal]
      · have symm : Std.Symm fun a b : α => key a ≠ key b := ⟨fun _ _ differs => differs.symm⟩
        have differs := distinct.forall (List.mem_of_find?_eq_some found) member equal
        exact absurd same differs

/-- Storing the entries of a map under their keys gives the map. -/
theorem store_toList (t : ExtTreeMap κ α) : store Prod.fst Prod.snd t.toList = t := by
  have rows := foldl_insert_toList id t
  rw [encoded_id] at rows
  exact rows

/-! ## Logs -/

/-- The rows of a log, numbered from zero. -/
def numbered (items : List β) : List (UInt64 × β) :=
  items.zipIdx.map fun p => (UInt64.ofNat p.2, p.1)

/-- The table holds exactly the items, numbered from zero. -/
def IsLog (rows : ExtTreeMap UInt64 β) (items : List β) : Prop :=
  items.length ≤ 2 ^ 64 ∧ rows.toList = numbered items

/-- The number of the next row: one more than the last, which must not overflow. -/
def nextNumber (rows : ExtTreeMap UInt64 β) : Option UInt64 :=
  match rows.maxKey? with
  | none => some 0
  | some last => if last.toNat + 1 < 2 ^ 64 then some (last + 1) else none

/-- One more item is numbered by how many there were. -/
theorem numbered_append (items : List β) (item : β) :
    numbered (items ++ [item]) = numbered items ++ [(UInt64.ofNat items.length, item)] := by
  simp [numbered, List.zipIdx_append]

/-- The empty table is the empty log. -/
theorem isLog_empty : IsLog (∅ : ExtTreeMap UInt64 β) [] := by
  simp [IsLog, numbered]

/-- The next number of a log is its length. -/
theorem nextNumber_eq {rows : ExtTreeMap UInt64 β} {items : List β} (log : IsLog rows items)
    {next : UInt64} (found : nextNumber rows = some next) : next.toNat = items.length := by
  obtain ⟨bounded, listed⟩ := log
  have keys : rows.maxKey? = (numbered items).getLast?.map Prod.fst := by
    rw [ExtTreeMap.maxKey?_eq_getLast?_keys, ← ExtTreeMap.map_fst_toList_eq_keys, listed,
      List.getLast?_map]
  rcases List.eq_nil_or_concat items with rfl | ⟨initial, last, rfl⟩
  · simp only [nextNumber, keys, numbered, List.zipIdx_nil, List.map_nil, List.getLast?_nil,
      Option.map_none, Option.some.injEq] at found
    simp [← found]
  · rw [List.concat_eq_append] at keys bounded ⊢
    rw [numbered_append, List.getLast?_concat] at keys
    have small : initial.length < 2 ^ 64 := by simp at bounded; omega
    have number : (UInt64.ofNat initial.length).toNat = initial.length :=
      UInt64.toNat_ofNat_of_lt small
    simp only [nextNumber, keys, Option.map_some, number] at found
    split at found
    · rename_i room
      rw [← Option.some.inj found, UInt64.toNat_add, number]
      simp only [UInt64.toNat_one, List.length_append, List.length_singleton]
      omega
    · exact absurd found (by simp)

/-- Rows numbered below a bound have a next number while the bound is one. -/
theorem exists_nextNumber {rows : ExtTreeMap UInt64 β} {bound : ℕ}
    (below : ∀ number : UInt64, number ∈ rows → number.toNat < bound) (room : bound < 2 ^ 64) :
    ∃ next, nextNumber rows = some next := by
  unfold nextNumber
  split
  · exact ⟨0, rfl⟩
  · rename_i last isLast
    have small := below last (ExtTreeMap.maxKey?_eq_some_iff_mem_and_forall.mp isLast).1
    exact ⟨last + 1, if_pos (by omega)⟩

/-- The next number of rows numbered below a bound is at most the bound. -/
theorem nextNumber_le {rows : ExtTreeMap UInt64 β} {bound : ℕ}
    (below : ∀ number : UInt64, number ∈ rows → number.toNat < bound) {next : UInt64}
    (found : nextNumber rows = some next) : next.toNat ≤ bound := by
  unfold nextNumber at found
  split at found
  · rw [← Option.some.inj found]
    exact Nat.zero_le _
  · rename_i last isLast
    split at found
    · rename_i room
      have small := below last (ExtTreeMap.maxKey?_eq_some_iff_mem_and_forall.mp isLast).1
      rw [← Option.some.inj found, UInt64.toNat_add, UInt64.toNat_one]
      omega
    · exact absurd found (by simp)

/-- The next row of a log appends its item. -/
theorem isLog_insert {rows : ExtTreeMap UInt64 β} {items : List β} (log : IsLog rows items)
    {next : UInt64} (found : nextNumber rows = some next) (item : β) :
    IsLog (rows.insert next item) (items ++ [item]) := by
  have number := nextNumber_eq log found
  obtain ⟨bounded, listed⟩ := log
  have room : items.length < 2 ^ 64 := number ▸ next.toNat_lt
  have last : ∀ k ∈ rows, compare k next = .lt := by
    intro k member
    obtain ⟨item', held⟩ := Option.isSome_iff_exists.mp
      (ExtTreeMap.mem_iff_isSome_getElem?.mp member)
    have entry := ExtTreeMap.mem_toList_iff_getElem?_eq_some.mpr held
    rw [listed, numbered, List.mem_map] at entry
    obtain ⟨⟨found', index⟩, within, equal⟩ := entry
    have below : index < items.length := by
      have := List.mem_zipIdx within
      omega
    have position : (UInt64.ofNat index).toNat = index :=
      UInt64.toNat_ofNat_of_lt (Nat.lt_trans below room)
    rw [← (Prod.mk.inj equal).1, Std.compare_eq_lt, UInt64.lt_iff_toNat_lt, number]
    exact position.symm ▸ below
  refine ⟨by simpa using room, ?_⟩
  rw [toList_insert_last last, listed, numbered_append, ← number, UInt64.ofNat_toNat]

/-- Reading a log gives its items in order. -/
theorem readAll_isLog {decode : β → Except ε α} {encode : α → β}
    {rows : ExtTreeMap UInt64 β} {items : List α} (log : IsLog rows (items.map encode))
    (inverts : ∀ v ∈ items, decode (encode v) = .ok v) : readAll decode rows = .ok items := by
  rw [readAll, log.2, numbered, List.mapM_map]
  have read : ∀ (vs : List α) (from_ : ℕ), (∀ v ∈ vs, decode (encode v) = .ok v) →
      ((vs.map encode).zipIdx from_).mapM (fun p => decode p.1) = .ok vs := by
    intro vs
    induction vs with
    | nil => intro _ _; rfl
    | cons head tail ih =>
      intro from_ each
      have rest := ih (from_ + 1) fun v member => each v (List.mem_cons_of_mem _ member)
      simp [each head List.mem_cons_self, rest, List.mapM_cons, bind, Except.bind, pure,
        Except.pure]
  exact read items 0 inverts

end Rows
