import Federate.Library.Totals
import Federate.Verif.OptOut

/-!
# Searching and scanning

The inverted index holds how often each page has each term, so a search scores the pages as a scan
of their terms would, and ranks them. A term that the query repeats is counted again at each of its
places, both in the sum and among the matches, which a scan of the distinct terms does not do.
-/

namespace Federate

open Std Totals

section Tables

variable [Unicode]

/-! ## The scan -/

/-- The text of a page. -/
def Page.text (page : Page) : String := (stripTags page.html).getD ""

/-- Its title. -/
def Page.title (page : Page) : String := (extractTitle page.html).getD page.domain

/-- Its terms, with their repetitions. -/
def Page.terms (page : Page) : List String := tokenize page.text ++ tokenize page.title

/-- Its entry in the index. -/
def Page.doc (page : Page) : PageDoc :=
  ⟨page.domain, page.path, page.title, String.intercalate " " (Text.splitWhitespace page.text)⟩

/-- The pages that do not opt out. -/
def indexedPages (pages : List Page) : List Page := pages.filter fun page => !optedOut page.html

/-- The page has a term of the query. -/
def Matches (query : String) (page : Page) : Prop := ∃ t ∈ tokenize query, t ∈ page.terms

instance (query : String) (page : Page) : Decidable (Matches query page) :=
  inferInstanceAs (Decidable (∃ t ∈ tokenize query, t ∈ page.terms))

/-- The score of a page for the distinct terms of a query. -/
def scanScore (query : String) (page : Page) : ℕ :=
  (∑ t ∈ (tokenize query).toFinset, page.terms.count t) *
    ((tokenize query).toFinset.filter (· ∈ page.terms)).card

/-- What a scan of the pages may return, for the pages at these places. -/
structure ScanOf (pages : List Page) (query : String) (limit : ℕ) (places : List ℕ)
    (results : List SearchResult) : Prop where
  /-- As many results as pages match, within the limit. -/
  count : results.length = min limit (pages.countP fun page => Matches query page)
  /-- No page twice. -/
  distinct : places.Nodup
  /-- Each result is a page that matches, with its score. -/
  scored : List.Forall₂ (fun d r => ∃ page, pages[d]? = some page ∧ Matches query page ∧
    r = page.doc.result (scanScore query page)) places results
  /-- The scores descend. -/
  sorted : results.Pairwise fun first second => second.score ≤ first.score
  /-- No page that is left out has a greater score. -/
  best : ∀ d page, pages[d]? = some page → Matches query page → d ∉ places →
    ∀ r ∈ results, scanScore query page ≤ r.score

/-- Calls of `index_html`, one after the other. -/
def SearchIndex.indexAll (s : SearchIndex) (pages : List Page) : Option SearchIndex :=
  pages.foldlM (fun s page => Prod.snd <$> s.indexHtml page) s

/-- A search returns what a scan may return, for every limit and every order of the scores. -/
def SearchIndex.SearchesAs (s : SearchIndex) (pages : List Page) (query : String) : Prop :=
  ∀ limit order, Lists (s.scores query) order → ∃ results places,
    s.searchIn order query limit = some results ∧ ScanOf pages query limit places results

/-! ## The index -/

/-- How often a page has a term, in the index. -/
def frequency (inverted : Table String (Table ℕ UInt32)) (t : String) (d : ℕ) : Option UInt32 :=
  inverted[t]?.bind fun postings => postings[d]?

/-- The index holds these pages. -/
structure SearchIndex.Indexes (s : SearchIndex) (pages : List Page) : Prop where
  /-- The entries. -/
  docs : s.docs = pages.map Page.doc
  /-- The frequencies. -/
  counts : ∀ t d, frequency s.inverted t d = pages[d]?.bind fun page =>
    if page.terms.count t = 0 then none else some (UInt32.ofNat (page.terms.count t))

omit [Unicode] in
/-- Counting a term changes its frequency in the page. -/
theorem frequency_countTerm (inverted : Table String (Table ℕ UInt32)) (term t : String)
    (docId d : ℕ) : frequency (countTerm docId inverted term) t d =
      if t = term ∧ d = docId then some ((frequency inverted term docId).getD 0 + 1)
      else frequency inverted t d := by
  have postings : (inverted.getD term ∅).getD docId 0 = (frequency inverted term docId).getD 0 := by
    simp only [frequency, ExtTreeMap.getD_eq_getD_getElem?]
    cases inverted[term]? <;> simp
  by_cases same : t = term
  · subst same
    rw [countTerm, frequency, ExtTreeMap.getElem?_insert_self, Option.bind_some,
      ExtTreeMap.getElem?_insert, postings]
    by_cases here : d = docId
    · simp [here]
    · have apart : ¬docId = d := fun equal => here equal.symm
      simp only [Std.compare_eq_iff_eq, apart, here, and_false, if_false, frequency,
        ExtTreeMap.getD_eq_getD_getElem?]
      cases inverted[t]? <;> simp
  · have apart : ¬term = t := fun equal => same equal.symm
    simp [countTerm, frequency, ExtTreeMap.getElem?_insert, same, apart]

omit [Unicode] in
/-- Counting all terms of a page. -/
theorem frequency_countAll (terms : List String) (inverted : Table String (Table ℕ UInt32))
    (docId : ℕ) (t : String) (d : ℕ) :
    frequency (terms.foldl (countTerm docId) inverted) t d =
      if d = docId ∧ terms.count t ≠ 0 then
        some ((frequency inverted t docId).getD 0 + UInt32.ofNat (terms.count t))
      else frequency inverted t d := by
  induction terms generalizing inverted with
  | nil => simp
  | cons term terms ih =>
    rw [List.foldl_cons, ih, frequency_countTerm, frequency_countTerm]
    by_cases here : d = docId
    · subst here
      by_cases same : t = term
      · subst same
        have more : UInt32.ofNat (terms.count t + 1) = UInt32.ofNat (terms.count t) + 1 := by
          simp [UInt32.ofNat_add]
        by_cases none : terms.count t = 0
        · simp [none]
        · simp only [none, and_self, ne_eq, not_false_eq_true, if_true, Option.getD_some,
            List.count_cons_self, Nat.succ_ne_zero, more]
          congr 1
          rw [UInt32.add_assoc, UInt32.add_comm 1]
      · have apart : ¬term = t := fun equal => same equal.symm
        simp [same, apart]
    · simp [here]

/-- Indexing a page never panics. -/
theorem SearchIndex.indexHtml_eq (s : SearchIndex) (page : Page) : s.indexHtml page =
    if optedOut page.html then some (false, s)
    else some (true, ⟨s.docs ++ [page.doc],
      page.terms.foldl (countTerm s.docs.length) s.inverted⟩) := by
  obtain ⟨text, read⟩ : ∃ text, stripTags page.html = some text := ⟨_, stripTags_eq page.html⟩
  have same : page.text = text := by rw [Page.text, read]; rfl
  rw [SearchIndex.indexHtml, Page.terms, Page.doc, same, read]
  rfl

/-- Indexing one more page. -/
theorem SearchIndex.Indexes.append {s : SearchIndex} {pages : List Page} (indexes : s.Indexes pages)
    (page : Page) : SearchIndex.Indexes ⟨s.docs ++ [page.doc],
      page.terms.foldl (countTerm s.docs.length) s.inverted⟩ (pages ++ [page]) := by
  have size : s.docs.length = pages.length := by rw [indexes.docs, List.length_map]
  constructor
  · simp [indexes.docs]
  · intro t d
    have fresh : frequency s.inverted t s.docs.length = none := by
      rw [indexes.counts, List.getElem?_eq_none (by omega)]
      rfl
    rw [frequency_countAll, fresh, indexes.counts]
    by_cases here : d = s.docs.length
    · have last : (pages ++ [page])[d]? = some page := by
        rw [here, size, List.getElem?_concat_length]
      have beyond : pages[d]? = none := List.getElem?_eq_none (by omega)
      rw [last, beyond]
      by_cases absent : page.terms.count t = 0
      · simp [here, absent]
      · simp [here, absent]
    · have shorter : (pages ++ [page])[d]? = pages[d]? := by
        by_cases inside : d < pages.length
        · rw [List.getElem?_append_left inside]
        · have above : (pages ++ [page]).length ≤ d := by
            rw [List.length_append, List.length_singleton]
            omega
          rw [List.getElem?_eq_none above, List.getElem?_eq_none (by omega)]
      simp [here, shorter]

/-- After any calls the index holds the pages that do not opt out. -/
theorem SearchIndex.Indexes.indexAll {s : SearchIndex} {pages : List Page}
    (indexes : s.Indexes pages) (calls : List Page) :
    ∃ s', s.indexAll calls = some s' ∧ s'.Indexes (pages ++ indexedPages calls) := by
  induction calls generalizing s pages with
  | nil => exact ⟨s, rfl, by simpa [indexedPages] using indexes⟩
  | cons page calls ih =>
    rw [SearchIndex.indexAll, List.foldlM_cons, SearchIndex.indexHtml_eq]
    by_cases opted : optedOut page.html = true
    · obtain ⟨s', rest, holds⟩ := ih indexes
      rw [if_pos opted]
      exact ⟨s', rest, by simpa [indexedPages, opted] using holds⟩
    · obtain ⟨s', rest, holds⟩ := ih (indexes.append page)
      rw [if_neg opted]
      refine ⟨s', rest, ?_⟩
      have kept : indexedPages (page :: calls) = page :: indexedPages calls := by
        simp [indexedPages, opted]
      rw [kept]
      simpa using holds

/-- The new index holds no page. -/
theorem indexes_empty : SearchIndex.Indexes .empty [] := by
  constructor
  · rfl
  · intro t d
    simp [frequency, SearchIndex.empty]

/-! ## The scores -/

/-- The entry of the scores before a term is added. -/
def entryOf (scores : Scores) (d : ℕ) : ℕ × ℕ := scores[d]?.getD (0, 0)

omit [Unicode] in
/-- Adding postings of distinct pages. -/
theorem addPostings {postings : List (ℕ × UInt32)} (distinct : (postings.map Prod.fst).Nodup)
    (scores : Scores) (d : ℕ) :
    (∀ tf, (d, tf) ∈ postings → (postings.foldl addPosting scores)[d]? =
      some ((entryOf scores d).1 + tf.toNat, (entryOf scores d).2 + 1)) ∧
    (d ∉ postings.map Prod.fst → (postings.foldl addPosting scores)[d]? = scores[d]?) := by
  induction postings generalizing scores with
  | nil => simp
  | cons posting postings ih =>
    obtain ⟨fresh, rest⟩ := List.nodup_cons.mp distinct
    have step : ∀ d, (addPosting scores posting)[d]? = if d = posting.1 then
        some ((entryOf scores posting.1).1 + posting.2.toNat, (entryOf scores posting.1).2 + 1)
        else scores[d]? := by
      intro d
      rw [addPosting, ExtTreeMap.getElem?_insert, ExtTreeMap.getD_eq_getD_getElem?]
      by_cases here : d = posting.1
      · simp [here, entryOf]
      · have apart : ¬posting.1 = d := fun equal => here equal.symm
        simp [here, apart]
    rw [List.foldl_cons]
    constructor
    · intro tf member
      rcases List.mem_cons.mp member with same | later
      · subst same
        rw [(ih rest (addPosting scores (d, tf))).2 fresh, step, if_pos rfl]
      · have apart : d ≠ posting.1 := by
          intro same
          exact fresh (same ▸ List.mem_map_of_mem later)
        have kept : entryOf (addPosting scores posting) d = entryOf scores d := by
          rw [entryOf, step, if_neg apart, entryOf]
        rw [(ih rest (addPosting scores posting)).1 tf later, kept]
    · intro absent
      rw [List.map_cons, List.mem_cons, not_or] at absent
      rw [(ih rest (addPosting scores posting)).2 absent.2, step, if_neg absent.1]

omit [Unicode] in
/-- Adding a term of the query. -/
theorem getElem?_addTerm (inverted : Table String (Table ℕ UInt32)) (scores : Scores)
    (term : String) (d : ℕ) : (addTerm inverted scores term)[d]? =
      match frequency inverted term d with
      | none => scores[d]?
      | some tf => some ((entryOf scores d).1 + tf.toNat, (entryOf scores d).2 + 1) := by
  rw [addTerm, frequency]
  cases found : inverted[term]? with
  | none => rfl
  | some postings =>
    have lists := lists_toList postings
    have added := addPostings lists.distinct scores d
    rw [Option.bind_some]
    cases here : postings[d]? with
    | none =>
      apply added.2
      intro member
      obtain ⟨posting, listed, same⟩ := List.mem_map.mp member
      have held := (lists.listed posting.1 posting.2).mp listed
      rw [same, here] at held
      exact absurd held (by simp)
    | some tf => exact added.1 tf ((lists.listed d tf).mpr here)

/-- How often the page has the term, zero if it has not. -/
def frequencyOr (inverted : Table String (Table ℕ UInt32)) (d : ℕ) (t : String) : ℕ :=
  ((frequency inverted t d).map UInt32.toNat).getD 0

omit [Unicode] in
/-- The scores after the terms of a query. -/
theorem getElem?_addTerms (inverted : Table String (Table ℕ UInt32)) (terms : List String)
    (scores : Scores) (d : ℕ) : (terms.foldl (addTerm inverted) scores)[d]? =
      if ∀ t ∈ terms, frequency inverted t d = none then scores[d]?
      else some ((entryOf scores d).1 + (terms.map (frequencyOr inverted d)).sum,
        (entryOf scores d).2 + terms.countP fun t => (frequency inverted t d).isSome) := by
  induction terms generalizing scores with
  | nil => simp
  | cons term terms ih =>
    have step := getElem?_addTerm inverted scores term d
    rw [List.foldl_cons, ih]
    cases found : frequency inverted term d with
    | none =>
      have same : (addTerm inverted scores term)[d]? = scores[d]? := by rw [step, found]
      have entry : entryOf (addTerm inverted scores term) d = entryOf scores d := by
        rw [entryOf, same, entryOf]
      simp [same, entry, found, frequencyOr]
    | some tf =>
      have added : (addTerm inverted scores term)[d]? =
          some ((entryOf scores d).1 + tf.toNat, (entryOf scores d).2 + 1) := by rw [step, found]
      have entry : entryOf (addTerm inverted scores term) d =
          ((entryOf scores d).1 + tf.toNat, (entryOf scores d).2 + 1) := by
        rw [entryOf, added]
        rfl
      have some_found : ¬∀ t ∈ term :: terms, frequency inverted t d = none := by
        intro all
        rw [all term List.mem_cons_self] at found
        exact absurd found (by simp)
      rw [if_neg some_found, added, entry]
      by_cases rest : ∀ t ∈ terms, frequency inverted t d = none
      · have sum : (terms.map (frequencyOr inverted d)).sum = 0 := by
          rw [List.sum_eq_zero_iff]
          intro n member
          obtain ⟨t, listed, rfl⟩ := List.mem_map.mp member
          rw [frequencyOr, rest t listed]
          rfl
        have count : (terms.countP fun t => (frequency inverted t d).isSome) = 0 := by
          rw [List.countP_eq_zero]
          intro t listed
          simp [rest t listed]
        rw [if_pos rest]
        simp [found, frequencyOr, sum, count]
      · rw [if_neg rest]
        simp only [List.map_cons, List.sum_cons, List.countP_cons, found, frequencyOr,
          Option.map_some, Option.getD_some, Option.isSome_some, if_true, Option.some.injEq,
          Prod.mk.injEq]
        omega

/-- The score of a page for all terms of a query, repetitions counted. -/
def rankScore (query : String) (page : Page) : ℕ :=
  ((tokenize query).map page.terms.count).sum * (tokenize query).countP (· ∈ page.terms)

/-- No page has a term as often as a counter can count. -/
def Countable (pages : List Page) : Prop :=
  ∀ page ∈ pages, ∀ t, page.terms.count t < 2 ^ 32

/-- The scores of a query are those of the pages that match. -/
theorem SearchIndex.Indexes.getElem?_scores {s : SearchIndex} {pages : List Page}
    (indexes : s.Indexes pages) (countable : Countable pages) (query : String) (d : ℕ) :
    (s.scores query)[d]? = pages[d]?.bind fun page => if Matches query page then
      some (((tokenize query).map page.terms.count).sum,
        (tokenize query).countP (· ∈ page.terms)) else none := by
  rw [SearchIndex.scores, getElem?_addTerms]
  have start : entryOf ∅ d = (0, 0) := by simp [entryOf]
  cases found : pages[d]? with
  | none =>
    have absent : ∀ t, frequency s.inverted t d = none := by
      intro t
      rw [indexes.counts, found]
      rfl
    simp [absent]
  | some page =>
    have frequencies : ∀ t, frequency s.inverted t d = if page.terms.count t = 0 then none
        else some (UInt32.ofNat (page.terms.count t)) := by
      intro t
      rw [indexes.counts, found]
      rfl
    have absent : ∀ t, frequency s.inverted t d = none ↔ t ∉ page.terms := by
      intro t
      rw [frequencies, ← List.count_eq_zero]
      split <;> simp_all
    have counts : ∀ t, frequencyOr s.inverted d t = page.terms.count t := by
      intro t
      have small := countable page (List.mem_of_getElem? found) t
      rw [frequencyOr, frequencies]
      by_cases none : page.terms.count t = 0
      · simp [none]
      · rw [if_neg none]
        exact UInt32.toNat_ofNat_of_lt' small
    have matched : (∀ t ∈ tokenize query, frequency s.inverted t d = none) ↔
        ¬Matches query page := by
      simp only [absent, Matches, not_exists, not_and]
    have present : ∀ t, (frequency s.inverted t d).isSome = decide (t ∈ page.terms) := by
      intro t
      rw [Bool.eq_iff_iff, Option.isSome_iff_ne_none, Ne, absent, not_not, decide_eq_true_eq]
    simp only [matched, start, funext counts, present, Nat.zero_add, Option.bind_some]
    by_cases holds : Matches query page
    · simp [holds]
    · simp [holds]

/-! ## The ranking -/

/-- The places of the pages that match. -/
def matching (pages : List Page) (query : String) : List ℕ :=
  (List.range pages.length).filter fun d => pages[d]?.any fun page => Matches query page

/-- A place is among them when its page matches. -/
theorem mem_matching {pages : List Page} {query : String} {d : ℕ} :
    d ∈ matching pages query ↔ ∃ page, pages[d]? = some page ∧ Matches query page := by
  rw [matching, List.mem_filter, List.mem_range]
  constructor
  · rintro ⟨-, holds⟩
    cases found : pages[d]? with
    | none => rw [found] at holds; exact absurd holds (by simp)
    | some page => exact ⟨page, rfl, by simpa [found] using holds⟩
  · rintro ⟨page, found, holds⟩
    obtain ⟨inside, -⟩ := List.getElem?_eq_some_iff.mp found
    exact ⟨inside, by simpa [found] using holds⟩

/-- Their number is that of the pages that match. -/
theorem length_matching (pages : List Page) (query : String) :
    (matching pages query).length = pages.countP fun page => Matches query page := by
  induction pages using List.reverseRecOn with
  | nil => rfl
  | append_singleton pages page ih =>
    have before : ∀ d ∈ List.range pages.length, ((pages ++ [page])[d]?.any fun page =>
        decide (Matches query page)) = (pages[d]?.any fun page => decide (Matches query page)) := by
      intro d member
      rw [List.getElem?_append_left (List.mem_range.mp member)]
    rw [matching, List.length_append, List.length_singleton, List.range_succ, List.filter_append,
      List.length_append, List.filter_congr before, ← matching, ih, List.countP_append]
    by_cases holds : Matches query page <;> simp [holds]

section Ranking

variable {s : SearchIndex} {pages : List Page} {query : String} {order : List (ℕ × ℕ × ℕ)}

/-- The score of the page at a place. -/
def scoreAt (score : String → Page → ℕ) (pages : List Page) (query : String) (d : ℕ) : ℕ :=
  pages[d]?.elim 0 (score query)

/-- The ranking lists the pages that match, each with its score. -/
theorem SearchIndex.Indexes.mem_ranked (indexes : s.Indexes pages) (countable : Countable pages)
    (lists : Lists (s.scores query) order) {d n : ℕ} :
    (d, n) ∈ rankedBy order ↔ d ∈ matching pages query ∧ n = scoreAt rankScore pages query d := by
  rw [rankedBy, List.mem_mergeSort, List.mem_map, mem_matching]
  constructor
  · rintro ⟨⟨d', tf, matched⟩, listed, same⟩
    obtain ⟨rfl, rfl⟩ := Prod.mk.inj same
    have entry := (lists.listed d' (tf, matched)).mp listed
    rw [indexes.getElem?_scores countable, Option.bind_eq_some_iff] at entry
    obtain ⟨page, found, scored⟩ := entry
    by_cases holds : Matches query page
    · rw [if_pos holds, Option.some.injEq, Prod.mk.injEq] at scored
      refine ⟨⟨page, found, holds⟩, ?_⟩
      rw [scoreAt, found, Option.elim_some, rankScore, scored.1, scored.2]
    · rw [if_neg holds] at scored
      exact absurd scored (by simp)
  · rintro ⟨⟨page, found, holds⟩, rfl⟩
    refine ⟨(d, ((tokenize query).map page.terms.count).sum,
      (tokenize query).countP (· ∈ page.terms)), ?_, ?_⟩
    · rw [lists.listed, indexes.getElem?_scores countable, found, Option.bind_some, if_pos holds]
    · rw [scoreAt, found, Option.elim_some, rankScore]

omit [Unicode] in
/-- The ranking has no page twice. -/
theorem ranked_distinct {scores : Scores} (lists : Lists scores order) :
    ((rankedBy order).map Prod.fst).Nodup := by
  have perm := (List.mergeSort_perm (order.map fun entry => (entry.1, entry.2.1 * entry.2.2))
    fun a b => decide (b.2 ≤ a.2)).map Prod.fst
  rw [rankedBy, perm.nodup_iff, List.map_map]
  exact lists.distinct

omit [Unicode] in
/-- The scores of the ranking descend. -/
theorem ranked_sorted : (rankedBy order).Pairwise fun first second => second.2 ≤ first.2 := by
  have sorted : (rankedBy order).Pairwise fun a b => decide (b.2 ≤ a.2) = true := by
    apply List.pairwise_mergeSort
    · intro a b c first second
      rw [decide_eq_true_eq] at first second ⊢
      omega
    · intro a b
      rw [Bool.or_eq_true, decide_eq_true_eq, decide_eq_true_eq]
      omega
  exact sorted.imp fun le => of_decide_eq_true le

/-- The ranked places are those of the pages that match. -/
theorem SearchIndex.Indexes.ranked_perm (indexes : s.Indexes pages) (countable : Countable pages)
    (lists : Lists (s.scores query) order) :
    ((rankedBy order).map Prod.fst).Perm (matching pages query) := by
  have nodup : (matching pages query).Nodup := List.nodup_range.filter _
  refine (List.perm_ext_iff_of_nodup (ranked_distinct lists) nodup).mpr fun d => ?_
  constructor
  · intro member
    obtain ⟨⟨d', n⟩, listed, rfl⟩ := List.mem_map.mp member
    exact ((indexes.mem_ranked countable lists).mp listed).1
  · intro member
    exact List.mem_map.mpr ⟨(d, _), (indexes.mem_ranked countable lists).mpr ⟨member, rfl⟩, rfl⟩

/-- The ranking, place by place. -/
theorem SearchIndex.Indexes.ranked_eq (indexes : s.Indexes pages) (countable : Countable pages)
    (lists : Lists (s.scores query) order) : rankedBy order =
      ((rankedBy order).map Prod.fst).map fun d => (d, scoreAt rankScore pages query d) := by
  rw [List.map_map]
  conv_lhs => rw [← List.map_id (rankedBy order)]
  refine List.map_congr_left fun entry member => ?_
  have scored := ((indexes.mem_ranked countable lists).mp member).2
  show entry = (entry.1, _)
  rw [← scored]

/-- The result at a place. -/
def resultAt (score : String → Page → ℕ) (pages : List Page) (query : String) (d : ℕ) :
    Option SearchResult :=
  pages[d]?.map fun page => page.doc.result (score query page)

/-- A search returns the first pages of the ranking. -/
theorem SearchIndex.Indexes.searchIn_eq (indexes : s.Indexes pages) (countable : Countable pages)
    (lists : Lists (s.scores query) order) (limit : ℕ) :
    s.searchIn order query limit = (((rankedBy order).map Prod.fst).take limit).mapM
      (resultAt rankScore pages query) := by
  by_cases none : tokenize query = []
  · have empty : rankedBy order = [] := by
      have perm := indexes.ranked_perm countable lists
      have nothing : matching pages query = [] := by
        rw [List.eq_nil_iff_forall_not_mem]
        intro d member
        obtain ⟨page, -, t, listed, -⟩ := mem_matching.mp member
        rw [none] at listed
        exact absurd listed List.not_mem_nil
      rw [nothing, List.perm_nil, List.map_eq_nil_iff] at perm
      exact perm
    rw [SearchIndex.searchIn, if_pos none, empty, List.map_nil, List.take_nil, List.mapM_nil]
    rfl
  · rw [SearchIndex.searchIn, if_neg none]
    conv_lhs => rw [indexes.ranked_eq countable lists, ← List.map_take, List.mapM_map]
    congr 1
    funext d
    show (s.docs[d]?.bind fun e => some (e.result (scoreAt rankScore pages query d))) = _
    rw [indexes.docs, resultAt, scoreAt, List.getElem?_map]
    cases pages[d]? <;> rfl

/-- Every place of a page that matches has a result. -/
theorem mapM_resultAt (score : String → Page → ℕ) {places : List ℕ}
    (inside : ∀ d ∈ places, d ∈ matching pages query) :
    ∃ results, places.mapM (resultAt score pages query) = some results ∧
      List.Forall₂ (fun d r => ∃ page, pages[d]? = some page ∧ Matches query page ∧
        r = page.doc.result (score query page)) places results := by
  induction places with
  | nil => exact ⟨[], rfl, .nil⟩
  | cons d places ih =>
    obtain ⟨page, found, holds⟩ := mem_matching.mp (inside d List.mem_cons_self)
    obtain ⟨results, rest, each⟩ :=
      ih fun other member => inside other (List.mem_cons_of_mem _ member)
    refine ⟨page.doc.result (score query page) :: results, ?_, .cons ⟨page, found, holds, rfl⟩ each⟩
    have first : resultAt score pages query d = some (page.doc.result (score query page)) := by
      rw [resultAt, found, Option.map_some]
    rw [List.mapM_cons, first, rest]
    rfl

omit [Unicode] in
/-- A member of one of two related lists has one in the other. -/
theorem forall₂_mem {α β : Type} {R : α → β → Prop} {first : List α} {second : List β}
    (each : List.Forall₂ R first second) {a : α} (member : a ∈ first) : ∃ b ∈ second, R a b := by
  induction each with
  | nil => exact absurd member List.not_mem_nil
  | cons related rest ih =>
    rcases List.mem_cons.mp member with rfl | later
    · exact ⟨_, List.mem_cons_self, related⟩
    · obtain ⟨b, held, holds⟩ := ih later
      exact ⟨b, List.mem_cons_of_mem _ held, holds⟩

/-- The scores of results, place by place. -/
theorem scores_of_results {score : String → Page → ℕ} {places : List ℕ}
    {results : List SearchResult} (each : List.Forall₂ (fun d r => ∃ page,
      pages[d]? = some page ∧ Matches query page ∧ r = page.doc.result (score query page))
        places results) :
    results.map SearchResult.score = places.map (scoreAt score pages query) := by
  induction each with
  | nil => rfl
  | cons first rest ih =>
    obtain ⟨page, found, -, rfl⟩ := first
    rw [List.map_cons, List.map_cons, ih, scoreAt, found]
    rfl

end Ranking

/-! ## Scores with and without repetitions -/

/-- The query has the term twice. -/
def Repeats (query : String) (t : String) : Prop := 2 ≤ (tokenize query).count t

omit [Unicode] in
/-- A sum over a list, term by term. -/
theorem sum_map_eq (terms : List String) (f : String → ℕ) :
    (terms.map f).sum = ∑ t ∈ terms.toFinset, terms.count t * f t := by
  rw [Finset.sum_list_map_count]
  rfl

omit [Unicode] in
/-- A count over a list, term by term. -/
theorem countP_eq (terms : List String) (p : String → Prop) [DecidablePred p] :
    terms.countP (fun t => p t) = ∑ t ∈ terms.toFinset, terms.count t * if p t then 1 else 0 := by
  rw [← sum_map_eq]
  induction terms with
  | nil => rfl
  | cons t terms ih =>
    rw [List.countP_cons, ih, List.map_cons, List.sum_cons, Nat.add_comm]
    simp

omit [Unicode] in
/-- Without repetitions of terms that count, both sums agree. -/
theorem sum_unrepeated {terms : List String} {f : String → ℕ}
    (once : ∀ t, 2 ≤ terms.count t → f t = 0) :
    ∑ t ∈ terms.toFinset, terms.count t * f t = ∑ t ∈ terms.toFinset, f t := by
  refine Finset.sum_congr rfl fun t member => ?_
  have listed := List.count_pos_iff.mpr (List.mem_toFinset.mp member)
  by_cases twice : 2 ≤ terms.count t
  · rw [once t twice, Nat.mul_zero]
  · have one : terms.count t = 1 := by omega
    rw [one, Nat.one_mul]

omit [Unicode] in
/-- Repetitions add to the sum. -/
theorem sum_le_repeated (terms : List String) (f : String → ℕ) :
    ∑ t ∈ terms.toFinset, f t ≤ ∑ t ∈ terms.toFinset, terms.count t * f t := by
  refine Finset.sum_le_sum fun t member => ?_
  have listed := List.count_pos_iff.mpr (List.mem_toFinset.mp member)
  exact Nat.le_mul_of_pos_left _ listed

omit [Unicode] in
/-- A repetition of a term that counts makes the sum greater. -/
theorem sum_lt_repeated {terms : List String} {f : String → ℕ} {t : String}
    (twice : 2 ≤ terms.count t) (counts : 0 < f t) :
    ∑ t ∈ terms.toFinset, f t < ∑ t ∈ terms.toFinset, terms.count t * f t := by
  have member : t ∈ terms.toFinset := List.mem_toFinset.mpr (List.count_pos_iff.mp (by omega))
  refine Finset.sum_lt_sum (fun t member => ?_) ⟨t, member, ?_⟩
  · have listed := List.count_pos_iff.mpr (List.mem_toFinset.mp member)
    exact Nat.le_mul_of_pos_left _ listed
  · nlinarith

/-- The number of distinct terms that a page has. -/
theorem card_filter_eq (query : String) (page : Page) :
    ((tokenize query).toFinset.filter (· ∈ page.terms)).card =
      ∑ t ∈ (tokenize query).toFinset, if t ∈ page.terms then 1 else 0 :=
  Finset.card_filter _ _

/-- When the page has no repeated term of the query, both scores agree. -/
theorem rankScore_eq {query : String} {page : Page}
    (once : ∀ t, Repeats query t → t ∉ page.terms) :
    rankScore query page = scanScore query page := by
  have absent : ∀ t, 2 ≤ (tokenize query).count t → page.terms.count t = 0 :=
    fun t twice => List.count_eq_zero.mpr (once t twice)
  have none : ∀ t, 2 ≤ (tokenize query).count t → (if t ∈ page.terms then 1 else 0) = 0 :=
    fun t twice => if_neg (once t twice)
  rw [rankScore, scanScore, sum_map_eq, countP_eq, card_filter_eq, sum_unrepeated absent,
    sum_unrepeated none]

/-- Counting repetitions lowers no score. -/
theorem scanScore_le (query : String) (page : Page) :
    scanScore query page ≤ rankScore query page := by
  rw [rankScore, scanScore, sum_map_eq, countP_eq, card_filter_eq]
  exact Nat.mul_le_mul (sum_le_repeated _ _) (sum_le_repeated _ _)

/-- A repeated term of the query that the page has makes its score greater. -/
theorem scanScore_lt {query : String} {page : Page} {t : String} (twice : Repeats query t)
    (has : t ∈ page.terms) : scanScore query page < rankScore query page := by
  rw [rankScore, scanScore, sum_map_eq, countP_eq, card_filter_eq]
  exact Nat.mul_lt_mul'' (sum_lt_repeated twice (List.count_pos_iff.mpr has))
    (sum_lt_repeated twice (by rw [if_pos has]; exact Nat.one_pos))

/-! ## Searching as scanning -/

section Scanning

variable {s : SearchIndex} {pages : List Page} {query : String}

/-- When no page has a repeated term of the query, a search is a scan. -/
theorem SearchIndex.Indexes.searchesAs (indexes : s.Indexes pages) (countable : Countable pages)
    (once : ∀ page ∈ pages, ∀ t, Repeats query t → t ∉ page.terms) :
    s.SearchesAs pages query := by
  intro limit order lists
  have perm := indexes.ranked_perm countable lists
  have inside : ∀ d ∈ ((rankedBy order).map Prod.fst).take limit, d ∈ matching pages query :=
    fun d member => perm.mem_iff.mp (List.mem_of_mem_take member)
  obtain ⟨results, returned, each⟩ := mapM_resultAt rankScore inside
  have same : ∀ d page, pages[d]? = some page → rankScore query page = scanScore query page :=
    fun d page found => rankScore_eq (once page (List.mem_of_getElem? found))
  have scores := scores_of_results each
  have ranked := indexes.ranked_eq countable lists
  have sorted : ((rankedBy order).map Prod.snd).Pairwise fun first second => second ≤ first :=
    List.pairwise_map.mpr ranked_sorted
  have seconds : (rankedBy order).map Prod.snd =
      ((rankedBy order).map Prod.fst).map (scoreAt rankScore pages query) := by
    conv_lhs => rw [ranked]
    rw [List.map_map]
    rfl
  rw [seconds] at sorted
  have places := List.take_append_drop limit ((rankedBy order).map Prod.fst)
  refine ⟨results, ((rankedBy order).map Prod.fst).take limit,
    by rw [indexes.searchIn_eq countable lists, returned], ?_⟩
  constructor
  · have lengths := each.length_eq
    rw [← lengths, List.length_take, perm.length_eq, length_matching]
  · exact (ranked_distinct lists).sublist (List.take_sublist _ _)
  · refine each.imp fun d r => ?_
    rintro ⟨page, found, holds, rfl⟩
    exact ⟨page, found, holds, by rw [same d page found]⟩
  · have taken := sorted.sublist (List.Sublist.map _ (List.take_sublist limit _))
    rw [← scores] at taken
    exact List.pairwise_map.mp taken
  · intro d page found holds absent r member
    have listed : d ∈ (rankedBy order).map Prod.fst :=
      perm.mem_iff.mpr (mem_matching.mpr ⟨page, found, holds⟩)
    rw [← places] at listed sorted
    have later : d ∈ ((rankedBy order).map Prod.fst).drop limit :=
      (List.mem_append.mp listed).resolve_left absent
    have score : r.score ∈ results.map SearchResult.score := List.mem_map_of_mem member
    rw [scores] at score
    have last : scoreAt rankScore pages query d = scanScore query page := by
      rw [scoreAt, found, Option.elim_some, same d page found]
    rw [List.map_append, List.pairwise_append] at sorted
    rw [← last]
    exact sorted.2.2 _ score _ (List.mem_map_of_mem later)

/-- When every search is a scan, no page has a repeated term of the query. -/
theorem SearchIndex.Indexes.unrepeated (indexes : s.Indexes pages) (countable : Countable pages)
    (searches : s.SearchesAs pages query) :
    ∀ page ∈ pages, ∀ t, Repeats query t → t ∉ page.terms := by
  intro page member t twice has
  have lists := lists_toList (s.scores query)
  have perm := indexes.ranked_perm countable lists
  obtain ⟨results, places, returned, scan⟩ := searches pages.length _ lists
  have inside : ∀ d ∈ ((rankedBy (s.scores query).toList).map Prod.fst).take pages.length,
      d ∈ matching pages query :=
    fun d member => perm.mem_iff.mp (List.mem_of_mem_take member)
  have whole : ((rankedBy (s.scores query).toList).map Prod.fst).take pages.length =
      (rankedBy (s.scores query).toList).map Prod.fst := by
    apply List.take_of_length_le
    rw [perm.length_eq, length_matching]
    exact List.countP_le_length
  obtain ⟨results', returned', each⟩ := mapM_resultAt rankScore inside
  rw [indexes.searchIn_eq countable lists, returned', Option.some.injEq] at returned
  subst returned
  have ranked := scores_of_results each
  have scanned := scores_of_results scan.scored
  rw [whole] at ranked
  -- both lists of places are those of the pages that match
  have same : places.Perm (matching pages query) := by
    have among : places ⊆ matching pages query := by
      intro d member
      obtain ⟨r, -, page, found, holds, -⟩ := forall₂_mem scan.scored member
      exact mem_matching.mpr ⟨page, found, holds⟩
    have size : (matching pages query).length ≤ places.length := by
      have lengths := scan.scored.length_eq
      have count := scan.count
      have few : (pages.countP fun page => Matches query page) ≤ pages.length :=
        List.countP_le_length
      rw [length_matching, lengths, count]
      omega
    exact (List.subperm_of_subset scan.distinct among).perm_of_length_le size
  have sums : ((matching pages query).map (scoreAt rankScore pages query)).sum =
      ((matching pages query).map (scoreAt scanScore pages query)).sum := by
    rw [← (perm.map (scoreAt rankScore pages query)).sum_eq, ← ranked, scanned,
      (same.map (scoreAt scanScore pages query)).sum_eq]
  obtain ⟨d, found⟩ := List.mem_iff_getElem?.mp member
  have listed : d ∈ matching pages query :=
    mem_matching.mpr ⟨page, found, t, List.count_pos_iff.mp (by rw [Repeats] at twice; omega), has⟩
  have less : ((matching pages query).map (scoreAt scanScore pages query)).sum <
      ((matching pages query).map (scoreAt rankScore pages query)).sum := by
    apply List.sum_lt_sum
    · intro e _
      rw [scoreAt, scoreAt]
      cases pages[e]? with
      | none => exact Nat.le_refl _
      | some page => exact scanScore_le query page
    · refine ⟨d, listed, ?_⟩
      rw [scoreAt, scoreAt, found]
      exact scanScore_lt twice has
  omega

/-- After any calls of `index_html`, a search for a query returns what a scan of the pages returns,
for every limit, exactly when no page has a term that the query repeats. -/
theorem search_scans_iff (calls : List Page) (query : String)
    (countable : Countable (indexedPages calls)) :
    ∃ s, SearchIndex.empty.indexAll calls = some s ∧
      (s.SearchesAs (indexedPages calls) query ↔
        ∀ page ∈ indexedPages calls, ∀ t, Repeats query t → t ∉ page.terms) := by
  obtain ⟨s, indexed, indexes⟩ := indexes_empty.indexAll calls
  rw [List.nil_append] at indexes
  exact ⟨s, indexed, indexes.unrepeated countable, indexes.searchesAs countable⟩

end Scanning

end Tables

/-! ## Two queries -/

namespace Reference

/-- A page with one word. -/
def helloPage : Page := ⟨"home.fed", "/", "hello"⟩

/-- Its terms, with those of its title. -/
theorem helloPage_terms : helloPage.terms = ["hello", "home", "fed"] := by
  have text : helloPage.text = "hello" := by
    rw [Page.text, stripTags_eq]
    decide
  have title : helloPage.title = "home.fed" := by decide
  rw [Page.terms, text, title]
  decide

/-- It is indexed. -/
theorem helloPage_indexed : indexedPages [helloPage] = [helloPage] := by
  have stays : optedOut helloPage.html = false := by decide
  simp [indexedPages, stays]

/-- It has few terms. -/
theorem helloPage_countable : Countable (indexedPages [helloPage]) := by
  intro page member t
  rw [helloPage_indexed, List.mem_singleton] at member
  have few := List.count_le_length (a := t) (l := page.terms)
  rw [member, helloPage_terms] at few ⊢
  exact Nat.lt_of_le_of_lt few (by decide)

/-- A query without repetitions finds what a scan finds. -/
theorem hello_scans : ∃ s, SearchIndex.empty.indexAll [helloPage] = some s ∧
    s.SearchesAs (indexedPages [helloPage]) "hello fed" := by
  obtain ⟨s, indexed, law⟩ := search_scans_iff [helloPage] "hello fed" helloPage_countable
  refine ⟨s, indexed, law.mpr fun page _ t twice => ?_⟩
  have once : ∀ t, (tokenize "hello fed").count t ≤ 1 := by
    have distinct : (tokenize "hello fed").Nodup := by decide
    exact List.nodup_iff_count_le_one.mp distinct
  have few := once t
  rw [Repeats] at twice
  omega

/-- A query that repeats a word of the page scores it four times. -/
theorem helloTwice_differs : scanScore "hello hello" helloPage = 1 ∧
    rankScore "hello hello" helloPage = 4 ∧
      ∃ s, SearchIndex.empty.indexAll [helloPage] = some s ∧
        ¬s.SearchesAs (indexedPages [helloPage]) "hello hello" := by
  have query : tokenize "hello hello" = ["hello", "hello"] := by decide
  refine ⟨?_, ?_, ?_⟩
  · rw [scanScore, helloPage_terms, query]
    decide
  · rw [rankScore, helloPage_terms, query]
    decide
  · obtain ⟨s, indexed, indexes⟩ := indexes_empty.indexAll [helloPage]
    refine ⟨s, indexed, fun searches => ?_⟩
    rw [List.nil_append] at indexes
    refine indexes.unrepeated helloPage_countable searches helloPage ?_ "hello" ?_ ?_
    · rw [helloPage_indexed]
      exact List.mem_cons_self
    · rw [Repeats, query]
      decide
    · rw [helloPage_terms]
      exact List.mem_cons_self

end Reference

end Federate
