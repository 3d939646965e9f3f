import Federate.Gateway
import Federate.Library.Percent
import Federate.Verif.Routers

/-!
# Paths of published files

A file is published under its relative path, and a browser asks for it by the percent-encoding of
that path. The gateway does not decode what it is asked for, so that a file is reached exactly when
its path needs no encoding.
-/

namespace Federate

open Outcome Stateful

namespace Gateway

/-- The address of the block that a GET leads to, under the manifest of the domain. -/
def selects (m : Manifest) (host path : String) : Option String :=
  match translate .get (some host) path with
  | .ok uri => (m.resolvePath uri.path).map fun selected => selected.2
  | .error _ => none

/-- A request that is refused is not resolved. -/
theorem translate_error {method : Method} {host : Option String} {path : String}
    {outcome : Result Resolved} : translate method host path ≠ .error (.resolved outcome) := by
  unfold translate
  split
  · simp
  · split
    · simp
    · split <;> simp

/-- Content that the gateway serves is the block that the request leads to, under a manifest that
the owner of the domain signed. -/
theorem handle_content [Externals] [SerdeDocuments] [ResolverExternals] {r : Resolver}
    {env : Environment} {host path domain path' mime hash : String} {bytes : Bytes}
    {s s' : ResolverState} (reachable : s.Reachable)
    (served : exec (handle r env .get (some host) path) s =
      (.ok (.resolved (.ok (.content domain path' bytes mime hash))), s')) :
    ∃ (m : Manifest) (owner : String), m.verify domain owner = .ok () ∧
      selects m host path = some hash ∧ hashBytes bytes = hash := by
  unfold handle at served
  unfold selects
  cases asked : translate .get (some host) path with
  | error reply =>
    simp only [asked, exec_pure, Prod.mk.injEq, Except.ok.injEq] at served
    exact absurd (served.1 ▸ asked) translate_error
  | ok uri =>
    simp only [asked, exec_bind_eq_ok, exec_attempt_eq_ok, exec_pure, Prod.mk.injEq,
      Except.ok.injEq, Reply.resolved.injEq] at served
    obtain ⟨outcome, s₁, ran, rfl, rfl⟩ := served
    obtain ⟨parsed, key, zone, tldRec, record, -, -, -, named, -, content⟩ :=
      resolve_sound reachable ran
    obtain ⟨m, manifestBytes, file, -, -, -, signed, selected⟩ := content.manifest
    exact ⟨m, record.ownerPublicKey, named ▸ signed, by simp [selected], content.block⟩

/-- A path that is sent as it is, and looked up as it is. -/
structure PlainPath (kept : Percent.Kept) (f : String) : Prop where
  /-- It is not empty. -/
  nonempty : f ≠ ""
  /-- Every character stands for itself in a URL. -/
  kept : ∀ c ∈ f.toList, kept.keeps c = true
  /-- It does not begin with a slash. -/
  relative : f.toList.head? ≠ some '/'
  /-- It does not end with a slash. -/
  file : f.toList.getLast? ≠ some '/'
  /-- With a slash before it, it is not too long. -/
  short : Text.byteLen f < maxPathLen

section Lookup

variable {kept : Percent.Kept} {f : String} {m : Manifest}

/-- A leading slash goes. -/
theorem trim_slash (e : String) :
    (Text.trimStartMatches '/' ("/" ++ e)).toList = e.toList.dropWhile (· = '/') := by
  rw [Text.trimStartMatches, Text.toList_onChars, String.toList_append]
  rfl

/-- A text that begins otherwise keeps its beginning. -/
theorem dropWhile_slash {chars : List Char} (head : chars.head? ≠ some '/') :
    chars.dropWhile (· = '/') = chars := by
  cases chars with
  | nil => rfl
  | cons c rest =>
    have differs : c ≠ '/' := by
      intro same
      exact head (congrArg some same)
    simp [differs]

/-- What is left after the leading slashes does not begin with one. -/
theorem head?_dropWhile_slash (chars : List Char) :
    (chars.dropWhile (· = '/')).head? ≠ some '/' := by
  intro head
  have first := List.head?_dropWhile_not (fun c => decide (c = '/')) chars
  rw [head] at first
  simp at first

/-- The encoding of a text that begins otherwise than with a slash is trimmed of nothing. -/
theorem trim_encode (relative : f.toList.head? ≠ some '/') :
    Text.trimStartMatches '/' ("/" ++ Percent.encode kept f) = Percent.encode kept f := by
  rw [← String.toList_inj, trim_slash, dropWhile_slash]
  exact fun head => relative (Percent.head?_encode kept head)

/-- A text is no longer than its trimmed encoding with something after it. -/
theorem not_extended {suffix : String} (some : suffix ≠ "")
    (begins : (Text.trimStartMatches '/' ("/" ++ Percent.encode kept f)).toList ≠ []) :
    f ≠ Text.trimStartMatches '/' ("/" ++ Percent.encode kept f) ++ suffix := by
  intro same
  have relative : f.toList.head? ≠ Option.some '/' := by
    rw [same, String.toList_append, List.head?_append_of_ne_nil _ begins, trim_slash]
    exact head?_dropWhile_slash _
  rw [trim_encode relative] at same
  have longer := Percent.length_le_flatMap kept f.toList
  have lengths := congrArg (fun s => s.toList.length) same
  have positive : 0 < suffix.toList.length :=
    List.length_pos_iff.mpr fun empty => some (String.toList_eq_nil_iff.mp empty)
  simp only [String.toList_append, List.length_append, Percent.encode, Text.toList_onChars]
    at lengths
  omega

/-- A file that the encoding of its path leads to is sent as it is, unless it is the entry. -/
theorem plain_of_candidate (entry : f = m.entry → f.toList.head? ≠ some '/' ∧ f ≠ "")
    (member : f ∈ m.candidates ("/" ++ Percent.encode kept f)) :
    f ≠ "" ∧ (∀ c ∈ f.toList, kept.keeps c = true) ∧ f.toList.head? ≠ some '/' ∧
      f.toList.getLast? ≠ some '/' := by
  unfold Manifest.candidates at member
  simp only at member
  split at member
  · -- The root path leads to the entry, whose own encoding is not empty.
    rename_i empty
    obtain ⟨relative, nonempty⟩ := entry (List.mem_singleton.mp member)
    rw [trim_encode relative] at empty
    have longer := Percent.length_le_flatMap kept f.toList
    rw [Percent.encode, Text.toList_onChars] at empty
    rw [empty, List.length_nil, Nat.le_zero, List.length_eq_zero_iff] at longer
    exact absurd (String.toList_eq_nil_iff.mp longer) nonempty
  · rename_i begins
    split at member
    · exact absurd (List.mem_singleton.mp member) (not_extended (by decide) begins)
    · rename_i noSlash
      rcases List.mem_cons.mp member with same | index
      · have relative : f.toList.head? ≠ some '/' := by
          rw [same, trim_slash]
          exact head?_dropWhile_slash _
        rw [trim_encode relative] at same begins noSlash
        refine ⟨fun empty => begins ?_, (Percent.encode_eq_self_iff kept).mp same.symm, relative,
          same ▸ noSlash⟩
        rw [← same, empty]
        rfl
      · exact absurd (List.mem_singleton.mp index) (not_extended (by decide) begins)

/-- A request for a valid host and an absolute path without a query is handed on as it is. -/
theorem translate_eq_ok {host path : String} {domain : FederateDomain}
    (parses : FederateDomain.parse host = .ok domain) (absolute : path.toList.head? = some '/')
    (noQuery : '?' ∉ path.toList) :
    translate .get (some host) path =
      if maxPathLen < Text.byteLen path then .error .uriTooLong else .ok ⟨domain, path, none⟩ := by
  have whole : FederateUri.splitQuery path = (path, none) := by
    have absent : path.toList.dropWhile (· ≠ '?') = [] := by
      rw [List.dropWhile_eq_nil_iff]
      intro c member
      have differs : c ≠ '?' := fun same => noQuery (same ▸ member)
      simpa using differs
    simp only [FederateUri.splitQuery, Text.afterFirst, absent]
  have nonempty : path ≠ "" := by
    intro empty
    rw [empty] at absolute
    cases absolute
  have handed : FederateUri.fromHttp host path = .ok ⟨domain, path, none⟩ := by
    rw [FederateUri.fromHttp, parses]
    simp only [bind, Except.bind, whole, if_neg nonempty, rejectIf, absolute, ne_eq,
      not_true_eq_false, if_false]
    rfl
  simp only [translate, ne_eq, not_true_eq_false, false_and, if_false, Option.getD_some, handed]

/-- An encoded path has no query. -/
theorem encode_noQuery : '?' ∉ ("/" ++ Percent.encode kept f).toList := by
  intro member
  rw [String.toList_append, List.mem_append] at member
  rcases member with slash | encoded
  · revert slash
    decide
  · rcases Percent.mem_encode kept encoded with keeps | mark | ⟨n, small, digit⟩
    · exact absurd (kept.query.symm.trans keeps) Bool.false_ne_true
    · revert mark
      decide
    · have other : ∀ n < 16, '?' ≠ Percent.digit n := by decide
      exact other n small digit

/-- A slash is one byte. -/
theorem byteLen_slash (f : String) : Text.byteLen ("/" ++ f) = 1 + Text.byteLen f := by
  rw [Text.byteLen, String.toList_append, List.map_append, List.sum_append]
  rfl

/-- A plain path leads to its file. -/
theorem PlainPath.selects (plain : PlainPath kept f) {host address : String}
    {domain : FederateDomain} (parses : FederateDomain.parse host = .ok domain)
    (held : m.files[f]? = some address) :
    Gateway.selects m host ("/" ++ Percent.encode kept f) = some address := by
  have same : Percent.encode kept f = f := (Percent.encode_eq_self_iff kept).mpr plain.kept
  have trimmed : Text.trimStartMatches '/' ("/" ++ f) = f := by
    have encoded : Text.trimStartMatches '/' ("/" ++ Percent.encode kept f) =
        Percent.encode kept f := trim_encode plain.relative
    rwa [same] at encoded
  have short : ¬maxPathLen < Text.byteLen ("/" ++ f) := by
    have room := plain.short
    rw [byteLen_slash]
    omega
  have noQuery : '?' ∉ ("/" ++ Percent.encode kept f).toList := encode_noQuery
  rw [same] at noQuery ⊢
  rw [Gateway.selects, translate_eq_ok parses (by simp) noQuery, if_neg short]
  have chars : f.toList ≠ [] := fun empty => plain.nonempty (String.toList_eq_nil_iff.mp empty)
  simp [Manifest.resolvePath, Manifest.candidates, trimmed, chars, plain.file, held]

end Lookup

section Sites

variable [Externals] {kept : Percent.Kept} {f : String}

/-- In every site that publishes the file, a GET for its encoded path leads to its block. -/
def Reaches (kept : Percent.Kept) (f : String) : Prop :=
  ∀ (site : List SiteFile) (files : Table String String) (blocks : List (String × Bytes))
    (m : Manifest) (host address : String) (domain : FederateDomain),
    collectSiteBlocks site = some (files, blocks) → files[f]? = some address →
    m.files = files → m.entry = "index.html" → FederateDomain.parse host = .ok domain →
    selects m host ("/" ++ Percent.encode kept f) = some address

/-- Every key of a collected directory is the key of one of its files. -/
theorem mem_collectFiles {site : List SiteFile} (member : f ∈ (collectFiles site).1) :
    ∃ file ∈ site, file.rel = f := by
  have folded (site : List SiteFile) (start : Table String String × List (String × Bytes))
      (member : f ∈ (site.foldl (fun found file =>
        (found.1.insert file.rel (hashBytes file.bytes),
          found.2 ++ [(hashBytes file.bytes, file.bytes)])) start).1) :
      f ∈ start.1 ∨ ∃ file ∈ site, file.rel = f := by
    induction site generalizing start with
    | nil => exact .inl member
    | cons file rest ih =>
      rcases ih _ member with before | ⟨later, listed, same⟩
      · rw [Std.ExtTreeMap.mem_insert, Std.LawfulEqCmp.compare_eq_iff_eq] at before
        rcases before with own | before
        · exact .inr ⟨file, List.mem_cons_self, own⟩
        · exact .inl before
      · exact .inr ⟨later, List.mem_cons_of_mem _ listed, same⟩
  rcases folded site (∅, []) member with empty | found
  · exact absurd empty Std.ExtTreeMap.not_mem_empty
  · exact found

omit [Externals] in
/-- A request that leads to the block of a file, in a site of it and a different entry, is a plain
path. -/
theorem plain_of_selects {m : Manifest} {host address other : String} {domain : FederateDomain}
    (parses : FederateDomain.parse host = .ok domain) (entry : m.entry = "index.html")
    (differs : other ≠ address)
    (files : m.files = ((∅ : Table String String).insert "index.html" other).insert f address)
    (led : selects m host ("/" ++ Percent.encode kept f) = some address) : PlainPath kept f := by
  rw [selects, translate_eq_ok parses (by simp) encode_noQuery] at led
  split at led
  · rename_i uri handed
    split at handed
    · cases handed
    · rename_i short
      obtain rfl := Except.ok.inj handed
      simp only [Manifest.resolvePath, Option.map_eq_some_iff] at led
      obtain ⟨selected, found, rfl⟩ := led
      obtain ⟨c, member, held⟩ := List.exists_of_findSome?_eq_some found
      simp only [Option.map_eq_some_iff] at held
      obtain ⟨address, held, rfl⟩ := held
      have own : c = f := by
        rw [files, Std.ExtTreeMap.getElem?_insert, Std.ExtTreeMap.getElem?_insert] at held
        split at held
        · rename_i same
          exact (Std.LawfulEqCmp.eq_of_compare same).symm
        · split at held
          · exact absurd (Option.some.inj held) differs
          · simp at held
      subst own
      have named : c = m.entry → c.toList.head? ≠ some '/' ∧ c ≠ "" := by
        intro same
        rw [same, entry]
        decide
      obtain ⟨nonempty, each, relative, file⟩ := plain_of_candidate named member
      refine ⟨nonempty, each, relative, file, ?_⟩
      rw [(Percent.encode_eq_self_iff kept).mpr each] at short
      rw [byteLen_slash] at short
      omega
  · cases led

/-- A published file is reached in every site exactly when its path is plain, as long as not all
contents have one address. -/
theorem reaches_iff_plainPath (published : ∃ site files blocks,
      collectSiteBlocks site = some (files, blocks) ∧ f ∈ files)
    (distinct : ∃ bytes bytes' : Bytes, hashBytes bytes ≠ hashBytes bytes') :
    Reaches kept f ↔ PlainPath kept f := by
  constructor
  · intro reaches
    obtain ⟨site, files, blocks, collected, member⟩ := published
    obtain ⟨bytes, bytes', differs⟩ := distinct
    have keyed : ∃ file ∈ site, file.rel = f := by
      simp only [collectSiteBlocks, Option.ite_none_right_eq_some, Option.some.injEq] at collected
      have held : f ∈ (collectFiles site).1 := by
        rw [collected.2]
        exact member
      exact mem_collectFiles held
    obtain ⟨file, -, rfl⟩ := keyed
    -- A site of this file and an entry with another content.
    let pair : Table String String :=
      ((∅ : Table String String).insert "index.html" (hashBytes bytes)).insert file.rel
        (hashBytes bytes')
    have index : SiteFile.rel ⟨"index.html", bytes⟩ = "index.html" := by
      change Text.onChars (List.map fun c => if c = backslash then '/' else c) "index.html" = _
      decide
    have collected : collectSiteBlocks [⟨"index.html", bytes⟩, ⟨file.path, bytes'⟩] =
        some (pair, [(hashBytes bytes, bytes), (hashBytes bytes', bytes')]) := by
      have complete : "index.html" ∈ pair := by
        simp [pair]
      simp only [collectSiteBlocks, collectFiles, List.foldl_cons, List.foldl_nil, index]
      exact if_pos complete
    have parses : FederateDomain.parse "alice.foo" = .ok ⟨"alice", "foo"⟩ := by decide +kernel
    have led := reaches _ pair _ ⟨"", 0, "index.html", pair, "", "", "", none⟩ "alice.foo"
      (hashBytes bytes') _ collected Std.ExtTreeMap.getElem?_insert_self rfl rfl parses
    exact plain_of_selects parses rfl differs rfl led
  · intro plain site files blocks m host address domain collected held same entry parses
    exact plain.selects parses (same ▸ held)

end Sites

end Gateway

end Federate

namespace Federate.Reference

open Gateway

/-- A site with a page whose name has no special characters, and one whose name has a space. -/
def pages : List SiteFile := [⟨"index.html", site⟩, ⟨"about.html", [97]⟩, ⟨"about us.html", [98]⟩]

/-- The keys and addresses of the site. -/
def pageFiles : Table String String :=
  (((∅ : Table String String).insert "index.html" (hashBytes site)).insert "about.html"
    (hashBytes [97])).insert "about us.html" (hashBytes [98])

theorem pages_collected : ∃ blocks, collectSiteBlocks pages = some (pageFiles, blocks) := by
  have complete : "index.html" ∈ pageFiles := by
    simp [pageFiles]
  have index : SiteFile.rel ⟨"index.html", site⟩ = "index.html" := by decide
  have about : SiteFile.rel ⟨"about.html", [97]⟩ = "about.html" := by decide
  have spaced : SiteFile.rel ⟨"about us.html", [98]⟩ = "about us.html" := by decide
  refine ⟨[(hashBytes site, site), (hashBytes [97], [97]), (hashBytes [98], [98])], ?_⟩
  simp only [collectSiteBlocks, collectFiles, pages, List.foldl_cons, List.foldl_nil, index, about,
    spaced]
  exact if_pos complete

/-- The page without special characters is reached. -/
theorem about_reached : Reaches Percent.pathChars "about.html" := by
  obtain ⟨blocks, collected⟩ := pages_collected
  have published : "about.html" ∈ pageFiles := by
    simp [pageFiles]
  have kept : "about.html".toList.all Percent.pathChars.keeps = true := by decide
  have plain : PlainPath Percent.pathChars "about.html" :=
    ⟨by decide, List.all_eq_true.mp kept, by decide, by decide, by decide⟩
  exact (reaches_iff_plainPath ⟨pages, pageFiles, blocks, collected, published⟩
    ⟨[97], [98], by decide +kernel⟩).mpr plain

/-- A browser that asks for the page with a space finds nothing. -/
theorem spaced_not_reached :
    (∃ blocks, collectSiteBlocks pages = some (pageFiles, blocks)) ∧
      pageFiles["about us.html"]? = some (hashBytes [98]) ∧
      Percent.encode Percent.pathChars "about us.html" = "about%20us.html" ∧
      FederateDomain.parse "alice.foo" = .ok ⟨"alice", "foo"⟩ ∧
      selects { siteManifest with files := pageFiles } "alice.foo" "/about%20us.html" = none := by
  have short : ¬maxPathLen < Text.byteLen "/about%20us.html" := by decide
  have noQuery : '?' ∉ "/about%20us.html".toList := by decide
  have candidates : ({ siteManifest with files := pageFiles } : Manifest).candidates
      "/about%20us.html" = ["about%20us.html", "about%20us.html/index.html"] := by decide
  refine ⟨pages_collected, Std.ExtTreeMap.getElem?_insert_self, by decide, parse_alice, ?_⟩
  rw [selects, translate_eq_ok parse_alice (by decide) noQuery, if_neg short]
  simp only [Manifest.resolvePath, candidates]
  simp [pageFiles]

end Federate.Reference
