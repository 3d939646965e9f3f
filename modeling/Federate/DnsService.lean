import Federate.Core
import Federate.Library.Ip
import Federate.Library.Lines

/-!
# The resolver service

`federate dns install` makes the local resolver the system's resolver and saves what was set
before; `federate dns uninstall` puts that back. On Linux without systemd-resolved the setting is
the file `resolv.conf`, on macOS the servers of each network service. A run that dies is an error;
in the other runs every file operation succeeds.
-/

namespace Federate

open Outcome

/-! ## What both systems share -/

/-- `require_root`. -/
def requireRoot (root : Bool) (cmd : String) : Except String Unit :=
  rejectIf (root = false) s!"this changes system DNS; run: sudo federate {cmd}"

/-- The candidates of `pick_dns_loopback`. -/
def dnsLoopbacks : List String := ["127.0.0.1", "127.53.0.1", "127.53.0.2", "127.53.0.3"]

/-- `pick_dns_loopback`, with the addresses whose port 53 can be bound. -/
def pickDnsLoopback (free : String → Bool) : Except String String :=
  okOr (dnsLoopbacks.find? free)
    ("port 53 is busy on every candidate loopback address; " ++
      "find the occupant with: sudo lsof -i :53")

/-- What a run of the installer finds. -/
structure InstallRun where
  /-- The user is root. -/
  root : Bool
  /-- The path of the program. -/
  exe : String
  /-- The bootstrap node. -/
  bootstrap : String
  /-- The loopback addresses whose port 53 can be bound. -/
  free : String → Bool
  /-- The service manager starts the service. -/
  starts : Bool
  /-- The service is still active two seconds later (Linux). -/
  active : Bool
  /-- systemd-resolved is active (Linux). -/
  resolvedActive : Bool

/-! ## Linux -/

/-- The files of a Linux system that the service touches. -/
structure LinuxFiles where
  /-- `LINUX_DNS_UNIT`. -/
  dnsUnit : Option Bytes
  /-- `LINUX_RESOLVED_DROPIN`. -/
  resolvedDropin : Option Bytes
  /-- `/etc/resolv.conf`. -/
  resolvConf : Option Bytes
  /-- `LINUX_RESOLV_BACKUP`. -/
  resolvBackup : Option Bytes

/-- The bytes of a text file. -/
def fileBytes (text : String) : Bytes := text.toUTF8.data.toList

/-- `LINUX_DNS_DATA`. -/
def linuxDnsData : String := "/var/lib/federate/dns-proxy"

/-- The unit of the service. -/
def linuxDnsUnit (run : InstallRun) (ip : String) : Bytes :=
  fileBytes (s!"[Unit]\nDescription=Federate local verifying DNS resolver\n" ++
    s!"After=network-online.target\nWants=network-online.target\n\n" ++
    s!"[Service]\nExecStart={run.exe} --bootstrap {run.bootstrap} dns proxy " ++
    s!"--listen {ip}:53 --data-dir {linuxDnsData} --local-gateway\nRestart=always\n" ++
    s!"RestartSec=2\n\n[Install]\nWantedBy=multi-user.target\n")

/-- The drop-in that routes every lookup of systemd-resolved to the service. -/
def resolvedDropin (ip : String) : Bytes :=
  fileBytes s!"# installed by `federate dns install`\n[Resolve]\nDNS={ip}\nDomains=~.\n"

/-- The resolver configuration that names the service. -/
def ownResolvConf (ip : String) : Bytes :=
  fileBytes s!"# installed by `federate dns install`\nnameserver {ip}\n"

/-- The last part of `dns_install`: the system's resolver becomes the service. -/
def LinuxFiles.pointAt (files : LinuxFiles) (resolvedActive : Bool) (ip : String) : LinuxFiles :=
  if resolvedActive then { files with resolvedDropin := some (Federate.resolvedDropin ip) }
  else
    { files with
      resolvBackup := files.resolvConf.orElse fun _ => files.resolvBackup
      resolvConf := some (ownResolvConf ip) }

/-- `dns_install` on Linux: the address of the service, and the files. -/
def LinuxFiles.dnsInstall (files : LinuxFiles) (run : InstallRun) :
    Except String (String × LinuxFiles) := do
  requireRoot run.root "dns install"
  let ip ← pickDnsLoopback run.free
  rejectIf (run.starts = false)
    "systemctl enable --now federate-dns failed; run: journalctl -u federate-dns"
  rejectIf (run.active = false)
    "federate-dns failed to start; run: journalctl -u federate-dns -n 20"
  return (ip, { files with dnsUnit := some (linuxDnsUnit run ip) }.pointAt run.resolvedActive ip)

/-- `dns_uninstall` on Linux. -/
def LinuxFiles.dnsUninstall (files : LinuxFiles) (root : Bool) : Except String LinuxFiles := do
  requireRoot root "dns uninstall"
  return ⟨none, none, files.resolvBackup.orElse fun _ => files.resolvConf, none⟩

/-! ## macOS -/

/-- The command `networksetup`: what it prints, what it changes and whether it succeeds. -/
class Networksetup (System : Type) where
  /-- What `-listallnetworkservices` prints. -/
  listAllNetworkServices : System → String
  /-- What `-getdnsservers` prints for a service. -/
  getDnsServers : System → String → String
  /-- `-setdnsservers` of a service, and its success. -/
  setDnsServers : System → String → List String → System × Bool

/-- A macOS system. -/
structure MacSystem (System : Type) where
  /-- The network settings. -/
  system : System
  /-- `MAC_DNS_PLIST`. -/
  dnsPlist : Option String
  /-- `MAC_DNS_BACKUP`. -/
  dnsBackup : Option String

/-- `MAC_DNS_DATA`. -/
def macDnsData : String := "/Library/Application Support/Federate/dns-proxy"

/-- The definition of the service. -/
def macDnsPlist (run : InstallRun) (ip : String) : String :=
  "<?xml version=\"1.0\" encoding=\"UTF-8\"?>\n" ++
  "<!DOCTYPE plist PUBLIC \"-//Apple//DTD PLIST 1.0//EN\" " ++
  "\"http://www.apple.com/DTDs/PropertyList-1.0.dtd\">\n" ++
  "<plist version=\"1.0\"><dict>\n" ++
  "    <key>Label</key><string>network.federate.dns</string>\n" ++
  "    <key>ProgramArguments</key><array>\n" ++
  "        <string>/bin/sh</string><string>-c</string>\n" ++
  s!"        <string>/sbin/ifconfig lo0 alias {ip} 255.255.255.255 2>/dev/null; " ++
  s!"exec \"{run.exe}\" --bootstrap \"{run.bootstrap}\" dns proxy --listen {ip}:53 " ++
  s!"--data-dir \"{macDnsData}\" --local-gateway</string>\n" ++
  "    </array>\n    <key>RunAtLoad</key><true/>\n    <key>KeepAlive</key><true/>\n" ++
  "    <key>StandardErrorPath</key><string>/Library/Logs/federate-dns.log</string>\n" ++
  "</dict></plist>\n"

section Mac

variable {System : Type} [Networksetup System]

open Networksetup

/-- `mac_network_services`. -/
def macNetworkServices (system : System) : List String :=
  (((Text.lines (listAllNetworkServices system)).drop 1).filter fun line =>
    Text.trim line ≠ "" ∧ line.toList.head? ≠ some '*').map Text.trim

/-- A line feed becomes a space. -/
def oneLine (c : Char) : Char := if c = Char.ofNat 10 then ' ' else c

/-- What a command printed, trimmed and in one line. -/
def printedLine (output : String) : String := Text.onChars (List.map oneLine) (Text.trim output)

/-- The servers of a service as the backup keeps them, from what `-getdnsservers` printed. -/
def savedServers (output : String) : String :=
  if "aren't any".toList <:+: (printedLine output).toList ∨ printedLine output = "" then "Empty"
  else printedLine output

/-- The settings, the backup and the messages while the installer visits the services. -/
structure Pointing (System : Type) where
  /-- The network settings. -/
  system : System
  /-- The backup so far. -/
  backup : String
  /-- The services whose servers could not be set. -/
  messages : List String

/-- One service in the loop of `dns_install`. -/
def Pointing.visit (ip : String) (p : Pointing System) (svc : String) : Pointing System :=
  let set := setDnsServers p.system svc [ip]
  { system := set.1
    backup := p.backup ++ s!"{svc}\t{savedServers (getDnsServers p.system svc)}\n"
    messages := if set.2 then p.messages
      else p.messages ++ [s!"[!!] could not set DNS for service {svc}"] }

/-- `dns_install` on macOS: the address of the service, the messages, and the system. -/
def MacSystem.dnsInstall (mac : MacSystem System) (run : InstallRun) :
    Except String (String × List String × MacSystem System) := do
  requireRoot run.root "dns install"
  let ip ← pickDnsLoopback run.free
  rejectIf (run.starts = false) "launchctl bootstrap failed; see /Library/Logs/federate-dns.log"
  let pointed := (macNetworkServices mac.system).foldl (Pointing.visit ip) ⟨mac.system, "", []⟩
  return (ip, pointed.messages, ⟨pointed.system, some (macDnsPlist run ip), some pointed.backup⟩)

/-- One line of the backup in `dns_uninstall`. -/
def restoreLine (system : System) (line : String) : System :=
  match Text.afterFirst (Char.ofNat 9) line with
  | none => system
  | some prev =>
    (setDnsServers system (Text.beforeFirst (Char.ofNat 9) line) (Text.splitWhitespace prev)).1

/-- `dns_uninstall` on macOS. -/
def MacSystem.dnsUninstall (mac : MacSystem System) (root : Bool) :
    Except String (MacSystem System) := do
  requireRoot root "dns uninstall"
  match mac.dnsBackup with
  | some backup => return ⟨(Text.lines backup).foldl restoreLine mac.system, none, none⟩
  | none =>
    let cleared := (macNetworkServices mac.system).foldl
      (fun system svc => (setDnsServers system svc ["Empty"]).1) mac.system
    return ⟨cleared, none, none⟩

end Mac

end Federate
