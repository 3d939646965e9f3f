import Federate.DnsService
import Federate.Library.Backup
import Federate.Library.Case
import Federate.Library.Cut

/-!
# Installing and uninstalling the resolver service

The backup is one slot, and every run of the installer writes it. After a first run it holds what
the system had; after a second one it holds what the first one set. So the uninstaller restores the
initial configuration after one run, and after more runs only where that is what they set.
-/

namespace Federate

open Outcome Backup Transition

/-! ## Linux -/

/-- Runs of the installer on Linux, one after the other. -/
def LinuxFiles.installAll (files : LinuxFiles) (runs : List InstallRun) :
    Except String LinuxFiles :=
  runs.foldlM (fun files run => Prod.snd <$> files.dnsInstall run) files

/-- The resolver configuration with its backup. -/
def LinuxFiles.saved (files : LinuxFiles) : Saved (Option Bytes) :=
  ⟨files.resolvConf, files.resolvBackup.map some⟩

/-- The resolver configuration of the service, whatever was there. -/
def linuxOwn (ip : String) : Option Bytes → Option Bytes := fun _ => some (ownResolvConf ip)

/-- A run without systemd-resolved is a change whose backup is the file, if there is one. -/
theorem LinuxFiles.saved_dnsInstall {files installed : LinuxFiles} {run : InstallRun}
    (plain : run.resolvedActive = false)
    (done : Prod.snd <$> files.dnsInstall run = .ok installed) :
    ∃ set, linuxOwn <$> pickDnsLoopback run.free = .ok set ∧
      installed.saved = change (fun conf => conf.isSome = true) files.saved set := by
  cases installs : files.dnsInstall run with
  | error message => rw [installs] at done; exact absurd done (by simp [Functor.map, Except.map])
  | ok result =>
    rw [installs] at done
    simp only [dnsInstall, bind_eq_ok, exists_unit, rejectIf_eq_ok, pure_eq_ok] at installs
    obtain ⟨-, ip, picked, -, -, rfl⟩ := installs
    have final : _ = installed := Except.ok.inj done
    refine ⟨linuxOwn ip, by rw [picked]; rfl, ?_⟩
    rw [← final, plain]
    cases conf : files.resolvConf <;> simp [saved, pointAt, change, linuxOwn, conf]

/-- The uninstaller puts the backup back. -/
theorem LinuxFiles.saved_dnsUninstall {files restored : LinuxFiles} {root : Bool}
    (done : files.dnsUninstall root = .ok restored) : restored.saved = undo files.saved := by
  simp only [dnsUninstall, bind_eq_ok, exists_unit, pure_eq_ok] at done
  obtain ⟨-, rfl⟩ := done
  cases backup : files.resolvBackup <;> simp [saved, undo, backup]

/-- A setting of the service is the one of an address that was picked. -/
theorem map_pick_eq_ok {α : Type} {own : String → α} {free : String → Bool} {set : α} :
    own <$> pickDnsLoopback free = .ok set ↔
      ∃ ip, pickDnsLoopback free = .ok ip ∧ own ip = set := by
  cases pickDnsLoopback free <;> simp [Functor.map, Except.map]

/-- On Linux without systemd-resolved, uninstalling restores the initial file exactly when there
was one and it is what the run before the last one set. -/
theorem LinuxFiles.restores_iff {files installed restored : LinuxFiles} {runs : List InstallRun}
    {root : Bool} (nonempty : runs ≠ []) (plain : ∀ run ∈ runs, run.resolvedActive = false)
    (installs : files.installAll runs = .ok installed)
    (uninstalls : installed.dnsUninstall root = .ok restored) :
    restored.resolvConf = files.resolvConf ↔ files.resolvConf ≠ none ∧
      ∀ run ∈ runs.dropLast.getLast?, ∀ ip, pickDnsLoopback run.free = .ok ip →
        files.resolvConf = some (ownResolvConf ip) := by
  have each : ∀ (files : LinuxFiles) (s : Saved (Option Bytes)), ∀ run ∈ runs, ∀ files',
      files.saved = s → Prod.snd <$> files.dnsInstall run = .ok files' →
      ∃ set, linuxOwn <$> pickDnsLoopback run.free = .ok set ∧
        files'.saved = change (fun conf => conf.isSome = true) s set := by
    rintro files s run member files' rfl done
    exact LinuxFiles.saved_dnsInstall (plain run member) done
  obtain ⟨sets, labels, reached⟩ := simulated each rfl installs
  have own : ∀ set ∈ sets, ∃ ip, linuxOwn ip = set := by
    intro set member
    obtain ⟨run, -, labelled⟩ := exists_input labels member
    obtain ⟨ip, -, same⟩ := map_pick_eq_ok.mp labelled
    exact ⟨ip, same⟩
  have some_set : sets ≠ [] := by
    intro none
    rw [none, List.map_nil, List.map_eq_nil_iff] at labels
    exact nonempty labels
  have absorbs : ∀ set ∈ sets, ∀ set' ∈ sets, ∀ conf, set (set' conf) = set conf := by
    intro set member set' _ conf
    obtain ⟨ip, rfl⟩ := own set member
    rfl
  have shown : ∀ set ∈ sets, ∀ conf, (set conf).isSome = true := by
    intro set member conf
    obtain ⟨ip, rfl⟩ := own set member
    rfl
  have kept : ∀ conf ∈ files.saved.slot, conf.isSome = true := by
    intro conf member
    obtain ⟨bytes, -, rfl⟩ := Option.mem_map.mp member
    rfl
  have law := undo_run_iff some_set absorbs shown kept
  rw [before_last labels, ← reached, ← LinuxFiles.saved_dnsUninstall uninstalls] at law
  have readable : files.saved.config.isSome = true ↔ files.resolvConf ≠ none :=
    Option.isSome_iff_ne_none
  rw [readable] at law
  refine law.trans (and_congr_right fun _ => forall₂_congr fun run _ => ?_)
  constructor
  · intro each ip picked
    exact (each (linuxOwn ip) (map_pick_eq_ok.mpr ⟨ip, picked, rfl⟩)).symm
  · intro each set labelled
    obtain ⟨ip, picked, rfl⟩ := map_pick_eq_ok.mp labelled
    exact (each ip picked).symm

/-! ## What macOS prints -/

/-- A text that reads as an address. -/
def IsAddress (server : String) : Prop := (Ip.parse server).isSome = true

/-- What `networksetup` prints of the servers of a service. -/
def printedServers (svc : String) (servers : List String) : String :=
  if servers = [] then s!"There aren't any DNS Servers set on {svc}.\n"
  else servers.foldr (fun server text => server ++ "\n" ++ text) ""

/-- The words of the backup that stand for the servers of a service. -/
def keptServers (servers : List String) : List String :=
  if servers = [] then ["Empty"] else servers

/-- The characters of an address are not white space, nor an apostrophe. -/
theorem IsAddress.char {server : String} (address : IsAddress server) {c : Char}
    (member : c ∈ server.toList) : Text.isWhitespace c = false ∧ c ≠ Char.ofNat 39 := by
  obtain ⟨addr, parsed⟩ := Option.isSome_iff_exists.mp address
  have range := (Ip.parse_chars parsed c member).range
  constructor
  · rcases range with rfl | rfl | digit
    · decide
    · decide
    · simp only [Text.isWhitespace, Bool.or_eq_false_iff, Bool.and_eq_false_iff,
        decide_eq_false_iff_not]
      omega
  · intro same
    rw [same] at range
    revert range
    decide

/-- An address is not the empty text. -/
theorem IsAddress.ne_empty {server : String} (address : IsAddress server) : server.toList ≠ [] := by
  intro empty
  have none : (Ip.parse "").isSome = false := by decide
  rw [IsAddress, String.toList_eq_nil_iff.mp empty, none] at address
  exact absurd address (by decide)

/-- The characters of servers printed line by line. -/
theorem toList_printed (servers : List String) :
    (servers.foldr (fun server text => server ++ "\n" ++ text) "").toList =
      (servers.map String.toList).flatMap fun server => server ++ [Char.ofNat 10] := by
  induction servers with
  | nil => rfl
  | cons server servers ih =>
    rw [List.foldr_cons, String.toList_append, String.toList_append, ih, List.map_cons,
      List.flatMap_cons]
    rfl

/-- A line feed is white space, and so is the space in its place. -/
theorem isWhitespace_oneLine (c : Char) : Text.isWhitespace (oneLine c) = Text.isWhitespace c := by
  unfold oneLine
  split
  · rename_i feed
    rw [feed]
    decide
  · rfl

/-- The other characters stay. -/
theorem oneLine_solid {c : Char} (solid : Text.isWhitespace c = false) : oneLine c = c := by
  unfold oneLine
  split
  · rename_i feed
    rw [feed] at solid
    exact absurd solid (by decide)
  · rfl

/-- An apostrophe in one line was there before. -/
theorem oneLine_eq_quote {c : Char} (same : oneLine c = Char.ofNat 39) : c = Char.ofNat 39 := by
  unfold oneLine at same
  split at same
  · exact absurd same (by decide)
  · exact same

/-- The words of a text are those of its trimmed text in one line. -/
theorem wordsOf_oneLine (output : String) :
    Text.wordsOf ((Text.trim output).toList.map oneLine) = Text.wordsOf output.toList := by
  obtain ⟨before, after, split, blank, blankAfter⟩ := Text.trim_split output
  rw [Text.wordsOf_map isWhitespace_oneLine fun c => oneLine_solid]
  conv_rhs => rw [split, String.toList_append, String.toList_append]
  rw [Text.wordsOf_surrounded blank blankAfter]

/-- The condition under which the backup records that a service has no servers. -/
def MentionsNone (output : String) : Prop :=
  "aren't any".toList <:+: (printedLine output).toList ∨ printedLine output = ""

/-- Nothing is set, or nothing was printed. -/
theorem savedServers_of_mentionsNone {output : String} (mention : MentionsNone output) :
    savedServers output = "Empty" := by
  unfold savedServers
  exact if_pos mention

/-- Servers were printed. -/
theorem savedServers_of_not_mentionsNone {output : String} (mention : ¬MentionsNone output) :
    savedServers output = printedLine output := by
  unfold savedServers
  exact if_neg mention

/-- Saving what is printed when no servers are set. -/
theorem savedServers_of_mention {output : String} (before after : String)
    (mentions : Text.trim output = before ++ "aren't any" ++ after) :
    savedServers output = "Empty" := by
  have kept : "aren't any".toList.map oneLine = "aren't any".toList := by simp [oneLine]
  have inside : "aren't any".toList <:+: (printedLine output).toList := by
    rw [printedLine, mentions, Text.toList_onChars, String.toList_append, String.toList_append,
      List.map_append, List.map_append, kept]
    exact List.infix_append _ _ _
  exact savedServers_of_mentionsNone (.inl inside)

/-- What is saved when no servers are set. -/
theorem savedServers_none (svc : String) : savedServers (printedServers svc []) = "Empty" := by
  have text : printedServers svc [] =
      "There aren't any" ++ (" DNS Servers set on " ++ svc ++ ".\n") := by
    rw [printedServers, if_pos rfl, ← String.toList_inj]
    simp [toString]
  have solid : ¬Text.EndsBlank "There aren't any" := by
    rintro ⟨c, last, blank⟩
    have final : c = 'y' := by simpa using last.symm
    rw [final] at blank
    exact absurd blank (by decide)
  have first : (printedServers svc []).toList.head? = some 'T' := by
    rw [text]
    simp
  have split : "There aren't any" = "There " ++ "aren't any" := by
    rw [← String.toList_inj]
    simp
  apply savedServers_of_mention "There "
    (Text.trimEnd (" DNS Servers set on " ++ svc ++ ".\n"))
  rw [Text.trim_of_solid first (by decide), text, Text.trimEnd_append solid, ← split]

/-- What is saved of the servers of a service reads as these servers. -/
theorem splitWhitespace_saved (svc : String) {servers : List String}
    (addresses : ∀ server ∈ servers, IsAddress server) :
    Text.splitWhitespace (savedServers (printedServers svc servers)) = keptServers servers := by
  by_cases none : servers = []
  · rw [none, savedServers_none]
    decide
  · have lines : (printedServers svc servers).toList =
        (servers.map String.toList).flatMap fun server => server ++ [Char.ofNat 10] := by
      rw [printedServers, if_neg none, toList_printed]
    have words : Text.wordsOf (printedServers svc servers).toList = servers.map String.toList := by
      rw [lines]
      refine Text.wordsOf_written (by decide) fun word member => ?_
      obtain ⟨server, listed, rfl⟩ := List.mem_map.mp member
      have address := addresses server listed
      exact ⟨address.ne_empty, fun c inside => (address.char inside).1⟩
    have quote : Char.ofNat 39 ∉ (printedServers svc servers).toList := by
      rw [lines, List.mem_flatMap]
      rintro ⟨word, member, inside⟩
      obtain ⟨server, listed, rfl⟩ := List.mem_map.mp member
      rcases List.mem_append.mp inside with here | feed
      · exact ((addresses server listed).char here).2 rfl
      · exact absurd (List.mem_singleton.mp feed) (by decide)
    have apart : ¬MentionsNone (printedServers svc servers) := by
      rintro (mentions | empty)
      · have member : Char.ofNat 39 ∈ "aren't any".toList := by simp
        have held := mentions.subset member
        rw [printedLine, Text.toList_onChars, List.mem_map] at held
        obtain ⟨c, inside, same⟩ := held
        apply quote
        rw [← oneLine_eq_quote same]
        exact Text.mem_of_mem_trim inside
      · have read := wordsOf_oneLine (printedServers svc servers)
        rw [← Text.toList_onChars (List.map oneLine), ← printedLine, empty, words] at read
        exact none (List.map_eq_nil_iff.mp (read.symm.trans Text.wordsOf_nil))
    rw [savedServers_of_not_mentionsNone apart, printedLine, Text.splitWhitespace,
      Text.toList_onChars, wordsOf_oneLine, words, keptServers, if_neg none, List.map_map]
    simp [Function.comp_def]

/-- What is saved of the servers of a service has one line, and does not end in white space. -/
theorem savedServers_line (output : String) : Char.ofNat 10 ∉ (savedServers output).toList ∧
    ∃ c, (savedServers output).toList.getLast? = some c ∧ Text.isWhitespace c = false := by
  by_cases apart : MentionsNone output
  · rw [savedServers_of_mentionsNone apart]
    exact ⟨by simp, 'y', by simp, by decide⟩
  · rw [savedServers_of_not_mentionsNone apart]
    have filled := (not_or.mp apart).2
    rw [printedLine, Text.toList_onChars]
    constructor
    · rw [List.mem_map]
      rintro ⟨c, -, same⟩
      unfold oneLine at same
      split at same
      · exact absurd same (by decide)
      · rename_i other
        exact other same
    · have nonempty : (Text.trim output).toList ≠ [] := by
        intro none
        rw [printedLine, ← String.toList_inj, Text.toList_onChars, none] at filled
        exact filled rfl
      have solid : Text.isWhitespace ((Text.trim output).toList.getLast nonempty) = false := by
        by_contra blank
        exact Text.trim_solid output
          ⟨_, List.getLast?_eq_some_getLast nonempty, by simpa using blank⟩
      refine ⟨_, ?_, solid⟩
      rw [List.getLast?_map, List.getLast?_eq_some_getLast nonempty, Option.map_some,
        oneLine_solid solid]

/-! ## macOS -/

section Mac

variable {System : Type} [Networksetup System]

open Networksetup

/-- Runs of the installer on macOS, one after the other. -/
def MacSystem.installAll (mac : MacSystem System) (runs : List InstallRun) :
    Except String (MacSystem System) :=
  runs.foldlM (fun mac run => (fun done => done.2.2) <$> mac.dnsInstall run) mac

/-- The documented behaviour of `networksetup`, in terms of the servers each service has. -/
structure Documented (dnsServers : System → String → List String) : Prop where
  /-- Services are listed once. -/
  distinct : ∀ system : System, (macNetworkServices system).Nodup
  /-- Names of services have no tab. -/
  named : ∀ system : System, ∀ svc ∈ macNetworkServices system, Char.ofNat 9 ∉ svc.toList
  /-- Servers are addresses. -/
  addressed : ∀ system svc, ∀ server ∈ dnsServers system svc, IsAddress server
  /-- The servers of a listed service are printed line by line. -/
  prints : ∀ system, ∀ svc ∈ macNetworkServices system,
    getDnsServers system svc = printedServers svc (dnsServers system svc)
  /-- Setting addresses, or the word `Empty` for none, changes the servers of the service. -/
  sets : ∀ system, ∀ svc ∈ macNetworkServices system, ∀ servers,
    (∀ server ∈ servers, IsAddress server) →
      dnsServers (setDnsServers system svc (keptServers servers)).1 =
        Function.update (dnsServers system) svc servers
  /-- Setting servers changes no names. -/
  lists : ∀ (system : System) svc servers,
    listAllNetworkServices (setDnsServers system svc servers).1 = listAllNetworkServices system

/-- One line of the backup. -/
def backupLine (table : String → List String) (svc : String) : String :=
  svc ++ (Char.ofNat 9).toString ++ savedServers (printedServers svc (table svc))

/-- The backup of a table of servers. -/
def backupText (table : String → List String) (services : List String) : String :=
  services.foldr (fun svc text => backupLine table svc ++ "\n" ++ text) ""

/-- The tables with other servers for some services. -/
def overwrite (services : List String) (servers table : String → List String) :
    String → List String :=
  fun svc => if svc ∈ services then servers svc else table svc

/-- Overwriting one service after the others is overwriting all. -/
theorem overwrite_cons {svc : String} {services : List String} (fresh : svc ∉ services)
    (servers table : String → List String) :
    overwrite services servers (Function.update table svc (servers svc)) =
      overwrite (svc :: services) servers table := by
  funext other
  by_cases same : other = svc
  · rw [same]
    simp [overwrite, fresh]
  · simp [overwrite, same]

namespace Documented

variable {dnsServers : System → String → List String} (doc : Documented dnsServers)

include doc

/-- Setting servers keeps the services. -/
theorem services (system : System) (svc : String) (servers : List String) :
    macNetworkServices (setDnsServers system svc servers).1 = macNetworkServices system := by
  rw [macNetworkServices, macNetworkServices, doc.lists]

/-- What the loop of the installer leaves. -/
theorem visit_all {ip : String} (address : IsAddress ip) {services : List String} {table}
    (distinct : services.Nodup) (p : Pointing System)
    (listed : ∀ svc ∈ services, svc ∈ macNetworkServices p.system)
    (unchanged : ∀ svc ∈ services, dnsServers p.system svc = table svc) :
    macNetworkServices (services.foldl (Pointing.visit ip) p).system =
        macNetworkServices p.system ∧
      dnsServers (services.foldl (Pointing.visit ip) p).system =
        overwrite services (fun _ => [ip]) (dnsServers p.system) ∧
      (services.foldl (Pointing.visit ip) p).backup = p.backup ++ backupText table services := by
  induction services generalizing p with
  | nil => exact ⟨rfl, by funext svc; simp [overwrite], by simp [backupText]⟩
  | cons svc services ih =>
    have member := listed svc List.mem_cons_self
    have fresh : svc ∉ services := (List.nodup_cons.mp distinct).1
    have set : dnsServers (p.visit ip svc).system =
        Function.update (dnsServers p.system) svc [ip] :=
      doc.sets p.system svc member [ip] (by simpa using address)
    have names : macNetworkServices (p.visit ip svc).system = macNetworkServices p.system :=
      doc.services p.system svc [ip]
    have line : (p.visit ip svc).backup = p.backup ++ (backupLine table svc ++ "\n") := by
      rw [Pointing.visit, doc.prints p.system svc member, unchanged svc List.mem_cons_self,
        ← String.toList_inj]
      simp [backupLine, toString]
    have later := ih (List.nodup_cons.mp distinct).2 (p.visit ip svc)
      (fun other inside => names ▸ listed other (List.mem_cons_of_mem _ inside))
      (fun other inside => by
        have differs : other ≠ svc := fun same => fresh (same ▸ inside)
        rw [set, Function.update_of_ne differs]
        exact unchanged other (List.mem_cons_of_mem _ inside))
    rw [List.foldl_cons]
    refine ⟨later.1.trans names, ?_, ?_⟩
    · rw [later.2.1, set, overwrite_cons fresh (fun _ => [ip])]
    · rw [later.2.2, line, backupText, backupText, List.foldr_cons, String.append_assoc]

/-- What the loop of the uninstaller leaves. -/
theorem restore_all {services : List String} {table : String → List String}
    (addresses : ∀ svc ∈ services, ∀ server ∈ table svc, IsAddress server)
    (distinct : services.Nodup) (system : System)
    (listed : ∀ svc ∈ services, svc ∈ macNetworkServices system) :
    dnsServers ((services.map (backupLine table)).foldl restoreLine system) =
      overwrite services table (dnsServers system) := by
  induction services generalizing system with
  | nil => funext svc; simp [overwrite]
  | cons svc services ih =>
    have member := listed svc List.mem_cons_self
    have fresh : svc ∉ services := (List.nodup_cons.mp distinct).1
    have name := doc.named system svc member
    have step : restoreLine system (backupLine table svc) =
        (setDnsServers system svc (keptServers (table svc))).1 := by
      rw [restoreLine, backupLine, Text.afterFirst_split name, Text.beforeFirst_split name]
      show (setDnsServers system svc (Text.splitWhitespace _)).1 = _
      rw [splitWhitespace_saved svc (addresses svc List.mem_cons_self)]
    have later := ih (fun other inside => addresses other (List.mem_cons_of_mem _ inside))
      (List.nodup_cons.mp distinct).2 (restoreLine system (backupLine table svc))
      (fun other inside => by
        rw [step, doc.services]
        exact listed other (List.mem_cons_of_mem _ inside))
    rw [List.map_cons, List.foldl_cons, later, step,
      doc.sets system svc member _ (addresses svc List.mem_cons_self), overwrite_cons fresh]

end Documented

/-- The name of a service is in one line. -/
theorem feed_not_mem_service {system : System} {svc : String}
    (listed : svc ∈ macNetworkServices system) : Char.ofNat 10 ∉ svc.toList := by
  obtain ⟨line, kept, rfl⟩ := List.mem_map.mp listed
  have printed := List.mem_of_mem_drop (List.mem_filter.mp kept).1
  obtain ⟨chars, read, rfl⟩ := List.mem_map.mp printed
  intro member
  have inside := Text.mem_of_mem_trim member
  rw [String.toList_ofList] at inside
  exact Text.feed_not_mem read inside

/-- The backup is read back line by line. -/
theorem lines_backup (system : System) (table : String → List String) :
    Text.lines (backupText table (macNetworkServices system)) =
      (macNetworkServices system).map (backupLine table) := by
  have text : ∀ services, (backupText table services).toList =
      (services.map fun svc => (backupLine table svc).toList).flatMap
        fun line => line ++ [Char.ofNat 10] := by
    intro services
    induction services with
    | nil => rfl
    | cons svc services ih =>
      rw [backupText, List.foldr_cons, String.toList_append, String.toList_append, ← backupText,
        ih, List.map_cons, List.flatMap_cons]
      rfl
  have oneLine : ∀ line ∈ (macNetworkServices system).map fun svc => (backupLine table svc).toList,
      Char.ofNat 10 ∉ line := by
    intro line member
    obtain ⟨svc, listed, rfl⟩ := List.mem_map.mp member
    rw [backupLine, String.toList_append, String.toList_append, List.mem_append, List.mem_append]
    rintro ((name | tab) | saved)
    · exact feed_not_mem_service listed name
    · rw [Char.toString_eq_singleton, String.toList_singleton, List.mem_singleton] at tab
      exact absurd tab (by decide)
    · exact (savedServers_line _).1 saved
  have ends : ∀ line ∈ (macNetworkServices system).map fun svc => (backupLine table svc).toList,
      line.getLast? ≠ some (Char.ofNat 13) := by
    intro line member
    obtain ⟨svc, listed, rfl⟩ := List.mem_map.mp member
    obtain ⟨c, last, solid⟩ := (savedServers_line (printedServers svc (table svc))).2
    rw [backupLine, String.toList_append, List.getLast?_append, last, Option.some_or]
    intro same
    rw [Option.some.inj same] at solid
    exact absurd solid (by decide)
  rw [Text.lines, text, Text.linesOf_written oneLine ends, List.map_map]
  simp [Function.comp_def]

/-- The servers while the service is installed. -/
def macOwn (services : List String) (ip : String) : (String → List String) → String → List String :=
  overwrite services fun _ => [ip]

/-- The system holds a table of servers, and the backup file another one. -/
structure MacSystem.Holds (mac : MacSystem System) (dnsServers : System → String → List String)
    (services : List String) (s : Saved (String → List String)) : Prop where
  /-- The services. -/
  listed : macNetworkServices mac.system = services
  /-- The servers of each. -/
  config : dnsServers mac.system = s.config
  /-- The backup, of a table that differs in the listed services alone. -/
  slot : ∀ table ∈ s.slot, mac.dnsBackup = some (backupText table services) ∧
    (∀ svc ∉ services, table svc = s.config svc) ∧
      ∀ svc, ∀ server ∈ table svc, IsAddress server

variable {dnsServers : System → String → List String}

/-- The address that is picked is one. -/
theorem isAddress_of_pick {free : String → Bool} {ip : String}
    (picked : pickDnsLoopback free = .ok ip) : IsAddress ip := by
  have listed : ip ∈ dnsLoopbacks := List.mem_of_find?_eq_some (okOr_eq_ok.mp picked)
  have all : ∀ ip ∈ dnsLoopbacks, (Ip.parse ip).isSome = true := by decide
  exact all ip listed

/-- A run of the installer changes the table and saves the one that was there. -/
theorem MacSystem.Holds.dnsInstall (doc : Documented dnsServers) {mac installed : MacSystem System}
    {services : List String} {s : Saved (String → List String)} {run : InstallRun}
    (holds : mac.Holds dnsServers services s)
    (done : (fun done => done.2.2) <$> mac.dnsInstall run = .ok installed) :
    ∃ set, macOwn services <$> pickDnsLoopback run.free = .ok set ∧
      installed.Holds dnsServers services (change (fun _ => True) s set) := by
  cases installs : mac.dnsInstall run with
  | error message => rw [installs] at done; exact absurd done (by simp [Functor.map, Except.map])
  | ok result =>
    rw [installs] at done
    simp only [MacSystem.dnsInstall, bind_eq_ok, exists_unit, rejectIf_eq_ok, pure_eq_ok]
      at installs
    obtain ⟨-, ip, picked, -, rfl⟩ := installs
    have final : _ = installed := Except.ok.inj done
    obtain ⟨names, servers, backup⟩ := doc.visit_all (isAddress_of_pick picked)
      (doc.distinct mac.system) ⟨mac.system, "", []⟩ (fun svc member => member)
      (fun svc _ => rfl)
    rw [holds.listed] at names servers backup
    refine ⟨macOwn services ip, map_pick_eq_ok.mpr ⟨ip, picked, rfl⟩, ?_⟩
    rw [← final, holds.listed]
    constructor
    · exact names
    · rw [servers, holds.config]
      rfl
    · intro table member
      have saved : table = dnsServers mac.system := by
        rw [holds.config]
        simpa [change, eq_comm] using member
      refine ⟨?_, fun svc outside => ?_, fun svc server kept => ?_⟩
      · rw [backup, saved, String.empty_append]
      · rw [saved, holds.config]
        simp [change, macOwn, overwrite, outside]
      · rw [saved] at kept
        exact doc.addressed _ svc server kept

/-- The uninstaller puts the backup back. -/
theorem MacSystem.Holds.dnsUninstall (doc : Documented dnsServers)
    {mac restored : MacSystem System} {services : List String}
    {s : Saved (String → List String)} {table : String → List String} {root : Bool}
    (holds : mac.Holds dnsServers services s) (saved : s.slot = some table)
    (done : mac.dnsUninstall root = .ok restored) :
    dnsServers restored.system = (undo s).config := by
  obtain ⟨backup, outside, addresses⟩ := holds.slot table saved
  simp only [MacSystem.dnsUninstall, backup, bind_eq_ok, exists_unit, pure_eq_ok] at done
  obtain ⟨-, rfl⟩ := done
  have listed := holds.listed
  rw [← listed] at outside
  rw [← listed, lines_backup, doc.restore_all (fun svc _ => addresses svc)
    (doc.distinct mac.system) mac.system fun svc member => member, undo, saved, holds.config]
  funext svc
  by_cases member : svc ∈ macNetworkServices mac.system
  · simp [overwrite, member]
  · simp [overwrite, member, outside svc member]

/-- On macOS, uninstalling restores the servers of every service exactly when each listed service
had those that the run before the last one set. -/
theorem MacSystem.restores_iff (doc : Documented dnsServers)
    {mac installed restored : MacSystem System} {runs : List InstallRun} {root : Bool}
    (nonempty : runs ≠ []) (installs : mac.installAll runs = .ok installed)
    (uninstalls : installed.dnsUninstall root = .ok restored) :
    dnsServers restored.system = dnsServers mac.system ↔
      ∀ run ∈ runs.dropLast.getLast?, ∀ ip, pickDnsLoopback run.free = .ok ip →
        ∀ svc ∈ macNetworkServices mac.system, dnsServers mac.system svc = [ip] := by
  have start : mac.Holds dnsServers (macNetworkServices mac.system)
      ⟨dnsServers mac.system, none⟩ := ⟨rfl, rfl, fun table member => absurd member (by simp)⟩
  have each : ∀ (mac' : MacSystem System) (s : Saved (String → List String)), ∀ run ∈ runs,
      ∀ installed, mac'.Holds dnsServers (macNetworkServices mac.system) s →
      (fun done => done.2.2) <$> mac'.dnsInstall run = .ok installed →
      ∃ set, macOwn (macNetworkServices mac.system) <$> pickDnsLoopback run.free = .ok set ∧
        installed.Holds dnsServers (macNetworkServices mac.system) (change (fun _ => True) s set) :=
    fun mac' s run _ installed holds done => holds.dnsInstall doc done
  obtain ⟨sets, labels, reached⟩ := simulated each start installs
  have own : ∀ set ∈ sets, ∃ ip, macOwn (macNetworkServices mac.system) ip = set := by
    intro set member
    obtain ⟨run, -, labelled⟩ := exists_input labels member
    obtain ⟨ip, -, same⟩ := map_pick_eq_ok.mp labelled
    exact ⟨ip, same⟩
  have some_set : sets ≠ [] := by
    intro none
    rw [none, List.map_nil, List.map_eq_nil_iff] at labels
    exact nonempty labels
  have absorbs : ∀ set ∈ sets, ∀ set' ∈ sets, ∀ table, set (set' table) = set table := by
    intro set member set' member' table
    obtain ⟨ip, rfl⟩ := own set member
    obtain ⟨ip', rfl⟩ := own set' member'
    funext svc
    by_cases listed : svc ∈ macNetworkServices mac.system <;> simp [macOwn, overwrite, listed]
  have first : ∃ table, (run (change fun _ => True) ⟨dnsServers mac.system, none⟩ sets).slot =
      some table := run_slot some_set fun _ => trivial
  obtain ⟨table, saved⟩ := first
  have law : (undo (run (change fun _ => True) ⟨dnsServers mac.system, none⟩ sets)).config =
        dnsServers mac.system ↔ True ∧ ∀ set ∈ sets.dropLast.getLast?,
          set (dnsServers mac.system) = dnsServers mac.system :=
    undo_run_iff some_set absorbs (fun _ _ _ => trivial) fun _ member => absurd member (by simp)
  rw [before_last labels, ← reached.dnsUninstall doc saved uninstalls, true_and] at law
  refine law.trans (forall₂_congr fun run _ => ?_)
  have own_iff : ∀ ip, macOwn (macNetworkServices mac.system) ip (dnsServers mac.system) =
      dnsServers mac.system ↔
        ∀ svc ∈ macNetworkServices mac.system, dnsServers mac.system svc = [ip] := by
    intro ip
    rw [funext_iff]
    refine forall_congr' fun svc => ?_
    by_cases listed : svc ∈ macNetworkServices mac.system <;>
      simp [macOwn, overwrite, listed, eq_comm]
  constructor
  · intro each ip picked
    exact (own_iff ip).mp (each _ (map_pick_eq_ok.mpr ⟨ip, picked, rfl⟩))
  · intro each set labelled
    obtain ⟨ip, picked, rfl⟩ := map_pick_eq_ok.mp labelled
    exact (own_iff ip).mpr (each ip picked)

end Mac

/-! ## Both systems -/

/-- Uninstalling after any number of runs restores the initial configuration exactly when this is
what the run before the last one set; on Linux there must have been a file, too. -/
theorem uninstall_restores_iff (runs : List InstallRun) (root : Bool) :
    (∀ files installed restored : LinuxFiles, runs ≠ [] →
      (∀ run ∈ runs, run.resolvedActive = false) → files.installAll runs = .ok installed →
      installed.dnsUninstall root = .ok restored →
      (restored.resolvConf = files.resolvConf ↔ files.resolvConf ≠ none ∧
        ∀ run ∈ runs.dropLast.getLast?, ∀ ip, pickDnsLoopback run.free = .ok ip →
          files.resolvConf = some (ownResolvConf ip))) ∧
    (∀ (System : Type) [Networksetup System] (dnsServers : System → String → List String),
      Documented dnsServers → ∀ mac installed restored : MacSystem System,
      runs ≠ [] → mac.installAll runs = .ok installed →
      installed.dnsUninstall root = .ok restored →
      (dnsServers restored.system = dnsServers mac.system ↔
        ∀ run ∈ runs.dropLast.getLast?, ∀ ip, pickDnsLoopback run.free = .ok ip →
          ∀ svc ∈ macNetworkServices mac.system, dnsServers mac.system svc = [ip])) := by
  constructor
  · intro files installed restored nonempty plain installs uninstalls
    exact LinuxFiles.restores_iff nonempty plain installs uninstalls
  · intro System _ dnsServers doc mac installed restored nonempty installs uninstalls
    exact MacSystem.restores_iff doc nonempty installs uninstalls

/-! ## Two systems -/

namespace Reference

/-- A run that nothing stops. -/
def plainInstall : InstallRun :=
  ⟨true, "/usr/local/bin/federate", "127.0.0.1:7700", fun _ => true, true, true, false⟩

/-- A Linux system with a resolver configuration of its own. -/
def plainLinux : LinuxFiles :=
  ⟨none, none, some (fileBytes "nameserver 192.168.1.1\n"), none⟩

/-- The servers of the only service of a macOS system. -/
abbrev WifiServers : Type := {servers : List String // ∀ server ∈ servers, IsAddress server}

instance decidableAddress (server : String) : Decidable (IsAddress server) :=
  inferInstanceAs (Decidable ((Ip.parse server).isSome = true))

/-- `-setdnsservers` on a system whose only service is called Wi-Fi. -/
def setWifi (system : WifiServers) (svc : String) (servers : List String) : WifiServers × Bool :=
  if svc = "Wi-Fi" then
    if servers = ["Empty"] then (⟨[], by simp⟩, true)
    else if addresses : ∀ server ∈ servers, IsAddress server then (⟨servers, addresses⟩, true)
    else (system, false)
  else (system, false)

/-- `networksetup` on that system. -/
instance wifiSetup : Networksetup WifiServers where
  listAllNetworkServices _ :=
    "An asterisk (*) denotes that a network service is disabled.\nWi-Fi\n"
  getDnsServers system svc := printedServers svc system.1
  setDnsServers := setWifi

/-- The servers of each service. -/
def wifiTable (system : WifiServers) (svc : String) : List String :=
  if svc = "Wi-Fi" then system.1 else []

/-- The service is listed. -/
theorem wifi_services (system : WifiServers) : macNetworkServices system = ["Wi-Fi"] := by
  show (((Text.lines "An asterisk (*) denotes that a network service is disabled.\nWi-Fi\n").drop 1
    ).filter fun line => Text.trim line ≠ "" ∧ line.toList.head? ≠ some '*').map Text.trim = _
  decide

/-- Setting addresses of the service sets them. -/
theorem setWifi_kept (system : WifiServers) {servers : List String}
    (addresses : ∀ server ∈ servers, IsAddress server) :
    (setWifi system "Wi-Fi" (keptServers servers)).1 = ⟨servers, addresses⟩ := by
  by_cases none : servers = []
  · subst none
    rfl
  · have other : servers ≠ ["Empty"] := by
      intro same
      have address := addresses "Empty" (by simp [same])
      exact absurd address (by decide)
    rw [keptServers, if_neg none, setWifi, if_pos rfl, if_neg other, dif_pos addresses]

/-- The command behaves as documented. -/
theorem wifi_documented : Documented wifiTable where
  distinct system := by simp [wifi_services]
  named system svc listed := by
    rw [wifi_services, List.mem_singleton] at listed
    rw [listed]
    decide
  addressed system svc server member := by
    unfold wifiTable at member
    split at member
    · exact system.2 server member
    · exact absurd member List.not_mem_nil
  prints system svc listed := by
    rw [wifi_services, List.mem_singleton] at listed
    rw [listed]
    rfl
  sets system svc listed servers addresses := by
    rw [wifi_services, List.mem_singleton] at listed
    subst listed
    show wifiTable (setWifi system "Wi-Fi" (keptServers servers)).1 = _
    rw [setWifi_kept system addresses]
    funext other
    by_cases same : other = "Wi-Fi" <;> simp [wifiTable, same]
  lists _ _ _ := rfl

/-- A Linux system after two runs and the uninstaller. -/
theorem installTwice_runs : ∃ installed restored,
    plainLinux.installAll [plainInstall, plainInstall] = .ok installed ∧
      installed.dnsUninstall true = .ok restored ∧
        restored.resolvConf = some (ownResolvConf "127.0.0.1") :=
  ⟨_, _, rfl, rfl, rfl⟩

/-- A second run of the installer loses the configuration that the system had. -/
theorem installTwice_not_restored : ∃ (files installed restored : LinuxFiles)
    (runs : List InstallRun), runs ≠ [] ∧ (∀ run ∈ runs, run.resolvedActive = false) ∧
      files.installAll runs = .ok installed ∧ installed.dnsUninstall true = .ok restored ∧
      restored.resolvConf ≠ files.resolvConf := by
  obtain ⟨installed, restored, installs, uninstalls, left⟩ := installTwice_runs
  refine ⟨plainLinux, installed, restored, [plainInstall, plainInstall], by simp, ?_, installs,
    uninstalls, ?_⟩
  · intro run member
    have same : run = plainInstall := by simpa using member
    rw [same]
    rfl
  · rw [left]
    decide

/-- A macOS system whose service has one server. -/
def plainMac : MacSystem WifiServers :=
  ⟨⟨["192.168.1.1"], by decide⟩, none, none⟩

/-- A macOS system after one run and the uninstaller. -/
theorem installMac_runs : ∃ installed restored, plainMac.installAll [plainInstall] = .ok installed ∧
    installed.dnsUninstall true = .ok restored :=
  ⟨_, _, rfl, rfl⟩

/-- After one run the uninstaller restores what the systems had. -/
theorem installOnce_restored :
    (∃ installed restored, plainLinux.installAll [plainInstall] = .ok installed ∧
      installed.dnsUninstall true = .ok restored ∧
        restored.resolvConf = plainLinux.resolvConf) ∧
    ∃ installed restored, plainMac.installAll [plainInstall] = .ok installed ∧
      installed.dnsUninstall true = .ok restored ∧
        wifiTable restored.system = wifiTable plainMac.system := by
  constructor
  · refine ⟨_, _, rfl, rfl, ?_⟩
    apply ((uninstall_restores_iff [plainInstall] true).1 plainLinux _ _ (by simp) (by simp [plainInstall]) rfl rfl).mpr
    exact ⟨by simp [plainLinux], fun run member => absurd member (by simp)⟩
  · obtain ⟨installed, restored, installs, uninstalls⟩ := installMac_runs
    refine ⟨installed, restored, installs, uninstalls, ?_⟩
    apply ((uninstall_restores_iff [plainInstall] true).2 WifiServers wifiTable wifi_documented
      plainMac installed restored (by simp) installs uninstalls).mpr
    exact fun run member => absurd member (by simp)

end Reference

end Federate
