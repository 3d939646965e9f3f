import Federate.Cdn
import Federate.Reference.Operations
import Federate.Library.Totals
import Federate.Library.Transition

/-!
# What the block cache evicts

The eviction loop keeps a running total in machine arithmetic. As long as the blocks on disk have a
size that a word holds, the running total is the sum of the sizes that are left, and the loop takes
the entries that were used longest ago, no more of them than it needs.
-/

namespace Federate

open Outcome Totals Transition

namespace CdnCache

/-- The size of an entry. -/
def entrySize (entry : UInt64 × UInt64) : ℕ := entry.2.toNat

/-! ## The loop -/

/-- What the loop evicts, in order, and the running total it ends with. -/
def evictions (kept : String) (maxBytes : UInt64) :
    List CacheEntry → UInt64 → List CacheEntry × UInt64
  | [], total => ([], total)
  | entry :: rest, total =>
    if total ≤ maxBytes then ([], total)
    else if entry.1 = kept then evictions kept maxBytes rest total
    else
      let later := evictions kept maxBytes rest (total - entry.2.2)
      (entry :: later.1, later.2)

/-- The loop erases what it evicts. -/
theorem evict_eq (kept : String) (maxBytes : UInt64) (entries : List CacheEntry) (total : UInt64)
    (c : CdnCache) : evict kept maxBytes entries total c =
      ⟨((evictions kept maxBytes entries total).1.map Prod.fst).foldl Std.ExtTreeMap.erase c.store,
        ((evictions kept maxBytes entries total).1.map Prod.fst).foldl Std.ExtTreeMap.erase
          c.index⟩ := by
  induction entries generalizing total c with
  | nil => rfl
  | cons entry rest ih =>
    obtain ⟨victim, used, size⟩ := entry
    by_cases fits : total ≤ maxBytes
    · simp [evict, evictions, fits]
    · by_cases own : victim = kept
      · simp only [evict, evictions, fits, own, if_false, if_true]
        exact ih total c
      · simp only [evict, evictions, fits, own, if_false, List.map_cons, List.foldl_cons]
        exact ih (total - size) _

section Loop

variable {kept : String} {maxBytes : UInt64} (total : UInt64) {entries : List CacheEntry}

/-- Entries are evicted in their order, and never the new one. -/
theorem evictions_sublist : (evictions kept maxBytes entries total).1.Sublist entries ∧
    ∀ entry ∈ (evictions kept maxBytes entries total).1, entry.1 ≠ kept := by
  induction entries generalizing total with
  | nil => exact ⟨.slnil, nofun⟩
  | cons entry rest ih =>
    by_cases fits : total ≤ maxBytes
    · simp [evictions, fits]
    · by_cases own : entry.1 = kept
      · simp only [evictions, fits, own, if_false, if_true]
        exact ⟨(ih total).1.cons entry, (ih total).2⟩
      · simp only [evictions, fits, own, if_false]
        refine ⟨(ih _).1.cons_cons entry, fun other member => ?_⟩
        rcases List.mem_cons.mp member with rfl | later
        · exact own
        · exact (ih _).2 other later

/-- Nothing is evicted when the total is within the limit. -/
theorem evictions_of_le (fits : total ≤ maxBytes) : evictions kept maxBytes entries total =
    ([], total) := by
  cases entries with
  | nil => rfl
  | cons entry rest => rw [evictions, if_pos fits]

/-- The sum of an entry and more. -/
theorem sum_entrySize (entry : CacheEntry) (entries : List CacheEntry) :
    sum entrySize (entry :: entries) = entry.2.2.toNat + sum entrySize entries := rfl

/-- An entry leaves the running total of a list that it heads. -/
theorem toNat_sub_size {total : UInt64} {entry : CacheEntry} {rest : List CacheEntry}
    (enough : sum entrySize (entry :: rest) ≤ total.toNat) :
    (total - entry.2.2).toNat + entry.2.2.toNat = total.toNat := by
  rw [sum_entrySize] at enough
  have covered : entry.2.2 ≤ total := UInt64.le_iff_toNat_le.mpr (by omega)
  have less : (total - entry.2.2).toNat = total.toNat - entry.2.2.toNat :=
    UInt64.toNat_sub_of_le _ _ covered
  omega

/-- The running total never underflows: it is what remains of the total. -/
theorem evictions_total (enough : sum entrySize entries ≤ total.toNat) :
    (evictions kept maxBytes entries total).2.toNat +
      sum entrySize (evictions kept maxBytes entries total).1 = total.toNat := by
  induction entries generalizing total with
  | nil => simp [evictions, sum]
  | cons entry rest ih =>
    have split := sum_entrySize entry rest
    by_cases fits : total ≤ maxBytes
    · simp [evictions, fits, sum]
    · by_cases own : entry.1 = kept
      · simp only [evictions, fits, own, if_false, if_true]
        exact ih total (by omega)
      · have less := toNat_sub_size enough
        have later := ih (total - entry.2.2) (by omega)
        simp only [evictions, fits, own, if_false, sum_entrySize]
        omega

/-- The loop ends within the limit, or with no other entry left. -/
theorem evictions_done : (evictions kept maxBytes entries total).2 ≤ maxBytes ∨
    ∀ entry ∈ entries, entry.1 ≠ kept → entry ∈ (evictions kept maxBytes entries total).1 := by
  induction entries generalizing total with
  | nil => simp
  | cons entry rest ih =>
    by_cases fits : total ≤ maxBytes
    · simp [evictions, fits]
    · by_cases own : entry.1 = kept
      · simp only [evictions, fits, own, if_false, if_true]
        rcases ih total with within | all
        · exact .inl within
        · right
          intro other member apart
          rcases List.mem_cons.mp member with rfl | later
          · exact absurd own apart
          · exact all other later apart
      · simp only [evictions, fits, own, if_false]
        rcases ih (total - entry.2.2) with within | all
        · exact .inl within
        · right
          intro other member apart
          rcases List.mem_cons.mp member with rfl | later
          · exact List.mem_cons_self
          · exact List.mem_cons_of_mem _ (all other later apart)

/-- The last entry that was evicted had to go. -/
theorem evictions_needed (enough : sum entrySize entries ≤ total.toNat) {last : CacheEntry}
    (found : (evictions kept maxBytes entries total).1.getLast? = some last) :
    maxBytes.toNat < (evictions kept maxBytes entries total).2.toNat + entrySize last.2 := by
  induction entries generalizing total with
  | nil => simp [evictions] at found
  | cons entry rest ih =>
    have split := sum_entrySize entry rest
    by_cases fits : total ≤ maxBytes
    · simp [evictions, fits] at found
    · by_cases own : entry.1 = kept
      · simp only [evictions, fits, own, if_false, if_true] at found ⊢
        exact ih total (by omega) found
      · have less := toNat_sub_size enough
        have more : maxBytes.toNat < total.toNat :=
          Nat.lt_of_not_le fun le => fits (UInt64.le_iff_toNat_le.mpr le)
        simp only [evictions, fits, own, if_false] at found ⊢
        -- either the loop evicts nothing more, or the last is one of those it evicts later
        cases ended : (evictions kept maxBytes rest (total - entry.2.2)).1.getLast? with
        | none =>
          have none_later := List.getLast?_eq_none_iff.mp ended
          have whole : (evictions kept maxBytes rest (total - entry.2.2)).2.toNat +
              sum entrySize (evictions kept maxBytes rest (total - entry.2.2)).1 =
                (total - entry.2.2).toNat := evictions_total _ (by omega)
          rw [none_later] at found whole
          have same : entry = last := by simpa using found
          have zero : sum entrySize ([] : List CacheEntry) = 0 := rfl
          have size : entrySize last.2 = entry.2.2.toNat := by rw [← same]; rfl
          omega
        | some other =>
          have same : other = last := by simpa [List.getLast?_cons, ended] using found
          exact ih _ (by omega) (same ▸ ended)

/-- What is evicted was used no later than any entry that stays, the new one apart. -/
theorem evictions_oldest (sorted : entries.Pairwise fun a b => a.2.1 ≤ b.2.1)
    {victim entry : CacheEntry} (evicted : victim ∈ (evictions kept maxBytes entries total).1)
    (member : entry ∈ entries) (apart : entry.1 ≠ kept)
    (stays : entry ∉ (evictions kept maxBytes entries total).1) : victim.2.1 ≤ entry.2.1 := by
  induction entries generalizing total with
  | nil => simp at member
  | cons first rest ih =>
    obtain ⟨before, sorted⟩ := List.pairwise_cons.mp sorted
    by_cases fits : total ≤ maxBytes
    · simp [evictions, fits] at evicted
    · by_cases own : first.1 = kept
      · simp only [evictions, fits, own, if_false, if_true] at evicted stays
        rcases List.mem_cons.mp member with rfl | later
        · exact absurd own apart
        · exact ih total sorted evicted later stays
      · simp only [evictions, fits, own, if_false, List.mem_cons, not_or] at evicted stays
        have later : entry ∈ rest := by
          rcases List.mem_cons.mp member with rfl | later
          · exact absurd rfl stays.1
          · exact later
        rcases evicted with rfl | evicted
        · exact before entry later
        · exact ih _ sorted evicted later stays.2

end Loop

/-! ## The law of one insertion -/

/-- What an insertion makes of the index, which has the new block's entry before the eviction. -/
structure EvictionLaw (maxBytes : UInt64) (hash : String) (size : ℕ) (before after : CacheIndex)
    (victims : List CacheEntry) : Prop where
  /-- The blocks fit, unless the new one does not fit by itself. -/
  bounded : total entrySize after ≤ max maxBytes.toNat size
  /-- The new block has its entry. -/
  indexed : ∃ entry, after[hash]? = some entry ∧ entrySize entry = size
  /-- What goes are the victims, -/
  removed : after = (victims.map Prod.fst).foldl Std.ExtTreeMap.erase before
  /-- which are entries of other blocks. -/
  entries : ∀ victim ∈ victims, before[victim.1]? = some victim.2 ∧ victim.1 ≠ hash
  /-- What goes was used no later than any other block that stays. -/
  oldest : ∀ (victim survivor : String) (gone kept : UInt64 × UInt64),
    before[victim]? = some gone → after[victim]? = none →
    survivor ≠ hash → after[survivor]? = some kept → gone.1 ≤ kept.1
  /-- Nothing goes when all blocks fit. -/
  idle : total entrySize before ≤ maxBytes.toNat → after = before
  /-- Without the last victim's going they would not fit. -/
  needed : ∀ last, victims.getLast? = some last →
    maxBytes.toNat < total entrySize after + entrySize last.2

section Law

variable {hash : String} {maxBytes running : UInt64} {index : CacheIndex} {entries : List CacheEntry}

/-- The loop keeps the law when it starts from the total and from the entries in order of age. -/
theorem evictions_law (lists : Lists index entries)
    (sorted : entries.Pairwise fun a b => a.2.1 ≤ b.2.1)
    (whole : running.toNat = total entrySize index) {entry : UInt64 × UInt64}
    (own : index[hash]? = some entry) :
    EvictionLaw maxBytes hash (entrySize entry) index
      (((evictions hash maxBytes entries running).1.map Prod.fst).foldl Std.ExtTreeMap.erase index)
      (evictions hash maxBytes entries running).1 := by
  have enough : sum entrySize entries ≤ running.toNat := by rw [whole, lists.total_eq]
  have some_of : (evictions hash maxBytes entries running).1.Sublist entries :=
    (evictions_sublist running).1
  have others : ∀ e ∈ (evictions hash maxBytes entries running).1, e.1 ≠ hash :=
    (evictions_sublist running).2
  have spent : (evictions hash maxBytes entries running).2.toNat +
      sum entrySize (evictions hash maxBytes entries running).1 = running.toNat :=
    evictions_total running enough
  have done : (evictions hash maxBytes entries running).2 ≤ maxBytes ∨
      ∀ e ∈ entries, e.1 ≠ hash → e ∈ (evictions hash maxBytes entries running).1 :=
    evictions_done running
  have last_needed : ∀ last, (evictions hash maxBytes entries running).1.getLast? = some last →
      maxBytes.toNat <
        (evictions hash maxBytes entries running).2.toNat + entrySize last.2 :=
    fun last => evictions_needed running enough
  have age : ∀ victim ∈ (evictions hash maxBytes entries running).1, ∀ e ∈ entries, e.1 ≠ hash →
      e ∉ (evictions hash maxBytes entries running).1 → victim.2.1 ≤ e.2.1 :=
    fun victim evicted e => evictions_oldest running sorted evicted
  have fitting : running ≤ maxBytes → evictions hash maxBytes entries running = ([], running) :=
    evictions_of_le running
  have left : total entrySize (((evictions hash maxBytes entries running).1.map Prod.fst).foldl
      Std.ExtTreeMap.erase index) + sum entrySize (evictions hash maxBytes entries running).1 =
        total entrySize index := lists.total_erased some_of
  generalize evictions hash maxBytes entries running = loop at *
  have erased : ∀ k, ((loop.1.map Prod.fst).foldl Std.ExtTreeMap.erase index)[k]? =
      if k ∈ loop.1.map Prod.fst then none else index[k]? :=
    fun k => foldl_erase_getElem? (loop.1.map Prod.fst) index k
  have stays : hash ∉ loop.1.map Prod.fst := by
    intro member
    obtain ⟨victim, evicted, same⟩ := List.mem_map.mp member
    exact others victim evicted same
  constructor
  case bounded =>
    rcases done with within | all
    · have le := UInt64.le_iff_toNat_le.mp within
      omega
    · -- only the new block is left
      have alone : ∀ e ∈ entries.filter (fun e => e.1 ∉ loop.1.map Prod.fst),
          e ∈ [(hash, entry)] := by
        intro e member
        obtain ⟨listed, fresh⟩ := List.mem_filter.mp member
        have name : e.1 = hash := by
          by_contra apart
          have gone : e.1 ∈ loop.1.map Prod.fst := List.mem_map_of_mem (all e listed apart)
          simp [gone] at fresh
        have found : index[e.1]? = some e.2 := (lists.listed e.1 e.2).mp listed
        rw [name, own] at found
        have value : entry = e.2 := Option.some.inj found
        rw [List.mem_singleton, ← name, value]
      have least := sum_le_of_subset (fun e : CacheEntry => entrySize e.2)
        (lists.nodup.filter _) alone
      have small : total entrySize ((loop.1.map Prod.fst).foldl Std.ExtTreeMap.erase index) ≤
          entrySize entry := by
        rw [(lists.erase (loop.1.map Prod.fst)).total_eq]
        simpa [sum] using least
      omega
  case indexed =>
    have kept := erased hash
    rw [if_neg stays, own] at kept
    exact ⟨entry, kept, rfl⟩
  case removed => rfl
  case entries =>
    intro victim evicted
    have listed := (lists.listed victim.1 victim.2).mp (some_of.mem evicted)
    exact ⟨listed, others victim evicted⟩
  case oldest =>
    intro victim survivor gone kept before absent apart present
    rw [erased] at absent present
    have evicted : victim ∈ loop.1.map Prod.fst := by
      by_contra other
      rw [if_neg other, before] at absent
      exact absurd absent (Option.some_ne_none gone)
    have remains : survivor ∉ loop.1.map Prod.fst := by
      intro other
      rw [if_pos other] at present
      exact absurd present.symm (Option.some_ne_none kept)
    rw [if_neg remains] at present
    obtain ⟨item, member, name⟩ := List.mem_map.mp evicted
    have value := (lists.listed item.1 item.2).mp (some_of.mem member)
    rw [name, before] at value
    have listed := (lists.listed survivor kept).mpr present
    have order := age item member (survivor, kept) listed apart
      fun other => remains (List.mem_map_of_mem other)
    rw [Option.some.inj value]
    exact order
  case idle =>
    intro fits
    have nothing := fitting (UInt64.le_iff_toNat_le.mpr (by omega))
    rw [nothing]
    rfl
  case needed =>
    intro last found
    have exceeds := last_needed last found
    omega

end Law

/-! ## Entries are of stored blocks -/

/-- Each entry is of a stored block and has its size. -/
def Sized (store : Table String Bytes) (index : CacheIndex) : Prop :=
  ∀ (hash : String) (entry : UInt64 × UInt64), index[hash]? = some entry →
    ∃ bytes, store[hash]? = some bytes ∧ entry.2 = UInt64.ofNat bytes.length

section Sized

variable {store : Table String Bytes} {index : CacheIndex}

/-- A use of a block records its size. -/
theorem Sized.use (sized : Sized store index) {hash : String} {bytes : Bytes}
    (stored : store[hash]? = some bytes) (now : UInt64) :
    Sized store (index.insert hash (now, UInt64.ofNat bytes.length)) := by
  intro other entry found
  rw [Std.ExtTreeMap.getElem?_insert] at found
  by_cases same : compare hash other = .eq
  · rw [if_pos same] at found
    rw [← compare_eq_iff_eq.mp same, ← Option.some.inj found]
    exact ⟨bytes, stored, rfl⟩
  · rw [if_neg same] at found
    exact sized other entry found

/-- An insertion records the size of the new block. -/
theorem Sized.insert (sized : Sized store index) (hash : String) (bytes : Bytes) (now : UInt64) :
    Sized (store.insert hash bytes) (index.insert hash (now, UInt64.ofNat bytes.length)) := by
  intro other entry found
  rw [Std.ExtTreeMap.getElem?_insert] at found ⊢
  by_cases same : compare hash other = .eq
  · rw [if_pos same] at found ⊢
    exact ⟨bytes, rfl, by rw [← Option.some.inj found]⟩
  · rw [if_neg same] at found ⊢
    exact sized other entry found

/-- An eviction drops a block with its entry. -/
theorem Sized.erase (sized : Sized store index) (gone : List String) :
    Sized (gone.foldl Std.ExtTreeMap.erase store) (gone.foldl Std.ExtTreeMap.erase index) := by
  intro other entry found
  rw [foldl_erase_getElem?] at found ⊢
  by_cases erased : other ∈ gone
  · rw [if_pos erased] at found
    exact absurd found.symm (Option.some_ne_none entry)
  · rw [if_neg erased] at found ⊢
    exact sized other entry found

/-- The sizes sum to no more than the bytes that are stored. -/
theorem Sized.total_le (sized : Sized store index) :
    total entrySize index ≤ total List.length store := by
  apply Totals.total_le
  intro hash entry found
  obtain ⟨bytes, stored, size⟩ := sized hash entry found
  refine ⟨bytes, stored, ?_⟩
  rw [entrySize, size, UInt64.toNat_ofNat']
  exact Nat.mod_le _ _

end Sized

/-- The running total starts as the sum of the sizes, if a word holds it. -/
theorem toNat_sum (entries : List CacheEntry) (fits : sum entrySize entries < 2 ^ 64) :
    ((entries.map fun entry : CacheEntry => entry.2.2).sum).toNat = sum entrySize entries := by
  induction entries with
  | nil => rfl
  | cons entry rest ih =>
    have split := sum_entrySize entry rest
    have later := ih (by omega)
    rw [List.map_cons, List.sum_cons, UInt64.toNat_add, later]
    omega

section Put

variable [Externals]

/-- An accepted insertion runs the loop, which stops at once when all blocks fit. -/
theorem putIn_eq (c : CdnCache) (maxBytes now : UInt64) (order : List CacheEntry) {hash : String}
    {bytes : Bytes} (accepted : verifyHash bytes hash = .ok ()) :
    c.putIn maxBytes now order hash bytes =
      .ok (evict hash maxBytes (byAge order) (order.map fun entry => entry.2.2).sum
        ⟨c.store.insert hash bytes, c.indexed now hash bytes⟩) := by
  rw [putIn, accepted]
  by_cases fits : (order.map fun entry => entry.2.2).sum ≤ maxBytes
  · rw [evict_eq, evictions_of_le _ fits]
    simp [fits]
  · simp [fits]

/-- The node's cache is iterated in the order of its table. -/
theorem put_eq_putIn (c : CdnCache) (maxBytes now : UInt64) (hash : String) (bytes : Bytes) :
    c.put maxBytes now true hash bytes =
      (c.putIn maxBytes now (c.indexed now hash bytes).toList hash bytes).toOption.getD c := by
  by_cases accepted : verifyHash bytes hash = .ok ()
  · have sorted : (byAge (c.indexed now hash bytes).toList).Perm (c.indexed now hash bytes).toList :=
      List.mergeSort_perm _ _
    have running := (sorted.map fun entry : CacheEntry => entry.2.2).sum_eq
    rw [putIn_eq c maxBytes now _ accepted, put, if_pos ⟨accepted, rfl⟩]
    show evict hash maxBytes (byAge (c.indexed now hash bytes).toList) _ _ = evict _ _ _ _ _
    rw [← running]
    rfl
  · rw [put, if_neg fun both => accepted both.1, putIn]
    cases checked : verifyHash bytes hash with
    | ok u => exact absurd checked accepted
    | error e => rfl

omit [Externals] in
/-- The entries in order of their age. -/
theorem byAge_sorted (order : List CacheEntry) :
    (byAge order).Pairwise fun a b => a.2.1 ≤ b.2.1 := by
  have sorted : (byAge order).Pairwise fun a b => (decide (a.2.1 ≤ b.2.1)) = true := by
    apply List.pairwise_mergeSort
    · intro a b c first second
      simp only [decide_eq_true_eq] at first second ⊢
      exact UInt64.le_trans first second
    · intro a b
      have either := UInt64.le_total a.2.1 b.2.1
      simpa using either
  exact sorted.imp fun le => of_decide_eq_true le

/-- What an insertion evicts, when the index is iterated in this order. -/
def victims (maxBytes : UInt64) (order : List CacheEntry) (hash : String) : List CacheEntry :=
  (evictions hash maxBytes (byAge order) (order.map fun entry => entry.2.2).sum).1

/-- An insertion keeps the law, and drops the victims' blocks. -/
theorem putIn_law (c : CdnCache) (maxBytes now : UInt64) {order : List CacheEntry} {hash : String}
    {bytes : Bytes} (sized : Sized c.store c.index)
    (listed : order.Perm (c.indexed now hash bytes).toList)
    (fits : total List.length (c.store.insert hash bytes) < 2 ^ 64)
    (accepted : verifyHash bytes hash = .ok ()) :
    ∃ c', c.putIn maxBytes now order hash bytes = .ok c' ∧
      EvictionLaw maxBytes hash bytes.length (c.indexed now hash bytes) c'.index
        (victims maxBytes order hash) := by
  have now_sized : Sized (c.store.insert hash bytes) (c.indexed now hash bytes) :=
    sized.insert hash bytes now
  have lists : Lists (c.indexed now hash bytes) order := (lists_toList _).reorder listed
  have sorted_lists : Lists (c.indexed now hash bytes) (byAge order) :=
    lists.reorder (List.mergeSort_perm _ _)
  have bound := now_sized.total_le
  have whole := toNat_sum order (by rw [← lists.total_eq]; omega)
  rw [← lists.total_eq] at whole
  have own : (c.indexed now hash bytes)[hash]? = some (now, UInt64.ofNat bytes.length) := by
    simp [indexed]
  have size : entrySize (now, UInt64.ofNat bytes.length) = bytes.length := by
    have one : bytes.length ≤ total List.length (c.store.insert hash bytes) :=
      Totals.le_total (Std.ExtTreeMap.getElem?_insert_self)
    rw [entrySize, UInt64.toNat_ofNat']
    omega
  have law : EvictionLaw maxBytes hash _ _ _ _ :=
    evictions_law sorted_lists (byAge_sorted order) whole own
  rw [size] at law
  refine ⟨_, putIn_eq c maxBytes now order accepted, ?_⟩
  rw [evict_eq]
  exact law

/-- An insertion, accepted or not, leaves each entry with its block. -/
theorem Sized.putIn {c c' : CdnCache} (sized : Sized c.store c.index) {maxBytes now : UInt64}
    {order : List CacheEntry} {hash : String} {bytes : Bytes}
    (put : c.putIn maxBytes now order hash bytes = .ok c') : Sized c'.store c'.index := by
  have accepted : verifyHash bytes hash = .ok () := by
    cases checked : verifyHash bytes hash with
    | ok u => rfl
    | error e => simp [CdnCache.putIn, checked] at put
  rw [putIn_eq c maxBytes now order accepted, evict_eq] at put
  rw [← Except.ok.inj put]
  exact (sized.insert hash bytes now).erase _

/-- A hit leaves each entry with its block, and the blocks as they are. -/
theorem Sized.get {c c' : CdnCache} (sized : Sized c.store c.index) {now : UInt64} {hash : String}
    {bytes : Bytes} (hit : c.get now hash = .ok (bytes, c')) :
    Sized c'.store c'.index ∧ c'.store = c.store := by
  simp only [CdnCache.get, Outcome.bind_eq_ok, Outcome.okOr_eq_ok, Outcome.pure_eq_ok] at hit
  obtain ⟨-, -, content, stored, u, -, result⟩ := hit
  have size : (c.index[hash]?.map Prod.snd).getD (UInt64.ofNat content.length) =
      UInt64.ofNat content.length := by
    cases known : c.index[hash]? with
    | none => rfl
    | some entry =>
      obtain ⟨block, stored', size⟩ := sized hash entry known
      rw [stored] at stored'
      rw [Option.some.inj stored']
      exact size
  rw [size] at result
  rw [← (Prod.mk.inj result).2]
  exact ⟨sized.use stored now, rfl⟩

end Put

end CdnCache

/-! ## Runs -/

section Runs

variable [Externals]

open CdnCache

/-- The entries, in memory and in the file, are of stored blocks. -/
structure Accounted (s : DiskCache) : Prop where
  /-- In memory. -/
  held : Sized s.cache.store s.cache.index
  /-- In the file. -/
  saved : Sized s.cache.store (s.saved.getD ∅)

/-- Every operation keeps entries with their blocks. -/
theorem Accounted.step {s : DiskCache} (accounted : Accounted s) (op : CacheOp) :
    Accounted (s.step op) := by
  cases op with
  | get hash now =>
    cases hit : s.cache.get now hash with
    | ok found =>
      obtain ⟨bytes, cache⟩ := found
      have kept := accounted.held.get hit
      simp only [DiskCache.step, hit]
      exact ⟨kept.1, by rw [kept.2]; exact accounted.saved⟩
    | error e =>
      simp only [DiskCache.step, hit]
      exact accounted
  | put hash bytes now order =>
    cases put : s.cache.putIn s.maxBytes now order hash bytes with
    | ok cache =>
      have kept := accounted.held.putIn put
      simp only [DiskCache.step, put]
      exact ⟨kept, kept⟩
    | error e =>
      simp only [DiskCache.step, put]
      exact accounted
  | restart maxBytes => exact ⟨accounted.saved, accounted.saved⟩

omit [Externals] in
/-- An index without entries is accounted for. -/
theorem Accounted.of_empty {s : DiskCache} (empty : s.cache.index = ∅)
    (unsaved : s.saved.getD ∅ = ∅) : Accounted s := by
  have none_of : Sized s.cache.store ∅ := by
    intro hash entry found
    simp at found
  exact ⟨by rw [empty]; exact none_of, by rw [unsaved]; exact none_of⟩

end Runs

/-! ## Two blocks in a small cache -/

section Example

open Reference CdnCache

/-- A cache of ten bytes. -/
def tenBytes : DiskCache := ⟨10, ⟨∅, ∅⟩, none⟩

/-- The first block. -/
def firstBlock : Bytes := [97, 97, 97, 97, 97, 97]

/-- The second block. -/
def secondBlock : Bytes := [98, 98, 98, 98, 98, 98]

/-- The insertion of the first block. -/
noncomputable def insertFirst : CacheOp :=
  .put (hashBytes firstBlock) firstBlock 1 [(hashBytes firstBlock, 1, 6)]

/-- The first block fits by itself. -/
theorem insertFirst_store : (tenBytes.step insertFirst).cache.store =
    (∅ : Table String Bytes).insert (hashBytes firstBlock) firstBlock := by
  have accepted : verifyHash firstBlock (hashBytes firstBlock) = .ok () := by simp
  simp [DiskCache.step, insertFirst, tenBytes, putIn, accepted]

end Example

end Federate
