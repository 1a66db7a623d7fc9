import Monolinux.Hexdump
import Monolinux.Lib.CString
import Monolinux.Lib.Linux
import Monolinux.Lib.Routine
import Monolinux.Lib.Scanf
import Monolinux.Lib.Terminal

/-!
# Network interfaces

`ml_network_interface_configure()` and its likes open a socket, make a few `ioctl()`s and
close it again.  Any number of threads call them, and the shell commands `ifconfig`,
`route` and `ethtool` on top of them, at the same time (`networkCalls`).

A caller has a socket, reads what it needs to know and makes its changes (`netDiscipline`):

* `code_follows`: so does every function and every command, whatever its calls come to.
-/

namespace Monolinux

/-! ## The kernel -/

/-- `struct ethtool_cmd`; `rest` are the fields that are not looked at. -/
structure EthtoolCmd where
  speed : UInt16
  speedHi : UInt16
  duplex : UInt8
  autoneg : UInt8
  rest : List UInt8
  deriving DecidableEq

structure NetInterface where
  index : ℤ
  macAddress : List UInt8
  flags : UInt16
  address : UInt32
  netmask : UInt32
  mtu : ℤ
  settings : EthtoolCmd

/-- The `ioctl()`s, with what they read of a `struct ifreq`. -/
inductive NetIoctl
  | getFlags (name : List UInt8)
  | setFlags (name : List UInt8) (flags : UInt16)
  | setAddr (name : List UInt8) (address : UInt32)
  | setNetmask (name : List UInt8) (netmask : UInt32)
  | setMtu (name : List UInt8) (mtu : ℤ)
  | getIndex (name : List UInt8)
  | getHwaddr (name : List UInt8)
  | getAddr (name : List UInt8)
  | getMtu (name : List UInt8)
  | addRoute (gateway : UInt32)
  | getSettings (name : List UInt8)
  | setSettings (name : List UInt8) (settings : EthtoolCmd)
  deriving DecidableEq

/-- What they store. -/
abbrev NetIoctl.Value : NetIoctl → Type
  | getFlags _ => UInt16
  | getIndex _ => ℤ
  | getHwaddr _ => List UInt8
  | getAddr _ => UInt32
  | getMtu _ => ℤ
  | getSettings _ => EthtoolCmd
  | _ => Unit

/-- Does it change anything? -/
def NetIoctl.isChange : NetIoctl → Bool
  | setFlags _ _ | setAddr _ _ | setNetmask _ _ | setMtu _ _ | addRoute _ | setSettings _ _ => true
  | _ => false

inductive NetCall
  | socket
  | close (netfd : ℕ)
  | ioctl (netfd : ℕ) (request : NetIoctl)
  deriving DecidableEq

/-- An error is `errno`. -/
abbrev NetCall.Response : NetCall → Type
  | socket => Except ℕ+ ℕ
  | close _ => Unit
  | ioctl _ request => Except ℕ+ request.Value

structure NetKernel where
  descriptors : Descriptors Unit
  interface : List UInt8 → NetInterface
  routes : List UInt32

/-- What a call comes to if nothing is wrong with it: it fails, or a new socket gets the number.  That
a route exists is not up to the environment. -/
structure NetOutcome where
  errno : Option ℕ+
  fd : ℕ
  notExists : errno ≠ some 17

namespace NetKernel

def setInterface (k : NetKernel) (name : List UInt8) (f : NetInterface → NetInterface) : NetKernel :=
  { k with interface := Function.update k.interface name (f (k.interface name)) }

def ioctl (k : NetKernel) : (request : NetIoctl) → NetKernel × request.Value
  | .getFlags name => (k, (k.interface name).flags)
  | .setFlags name flags => (k.setInterface name ({ · with flags }), ())
  | .setAddr name address => (k.setInterface name ({ · with address }), ())
  | .setNetmask name netmask => (k.setInterface name ({ · with netmask }), ())
  | .setMtu name mtu => (k.setInterface name ({ · with mtu }), ())
  | .getIndex name => (k, (k.interface name).index)
  | .getHwaddr name => (k, (k.interface name).macAddress)
  | .getAddr name => (k, (k.interface name).address)
  | .getMtu name => (k, (k.interface name).mtu)
  | .addRoute gateway => ({ k with routes := k.routes ++ [gateway] }, ())
  | .getSettings name => (k, (k.interface name).settings)
  | .setSettings name settings => (k.setInterface name ({ · with settings }), ())

/-- Why it cannot be done: `EBADF`, `EEXIST`, or another reason. -/
def refuses (k : NetKernel) (netfd : ℕ) (request : NetIoctl) (o : NetOutcome) : Option ℕ+ :=
  if netfd ∉ k.descriptors.numbers then some 9
  else match request with
    | .addRoute gateway => if gateway ∈ k.routes then some 17 else o.errno
    | _ => o.errno

def handle (k : NetKernel) (c : NetCall) (o : NetOutcome) : NetKernel × c.Response :=
  match c with
  | .socket =>
    match o.errno with
    | some errno => (k, .error errno)
    | none => ({ k with descriptors := k.descriptors.create () o.fd }, .ok (k.descriptors.pick o.fd))
  | .close netfd => ({ k with descriptors := k.descriptors.close netfd }, ())
  | .ioctl netfd request =>
    match k.refuses netfd request o with
    | some errno => (k, .error errno)
    | none => ((k.ioctl request).1, .ok (k.ioctl request).2)

end NetKernel

/-! ## The code -/

abbrev NetRoutine := Routine NetCall NetCall.Response

/-- What `ml_ioctl()` returns. -/
def ioctlResult {β : Type} : Except ℕ+ β → ℤ
  | .ok _ => 0
  | .error _ => -1

/-- `ifr_name`. -/
def ifrName (name : List UInt8) : List UInt8 := name.take 15

def netIoctl (netfd : ℕ) (request : NetIoctl) : NetRoutine (Except ℕ+ request.Value) :=
  Routine.perform (NetCall.ioctl netfd request)

def netOpen : NetRoutine (Except ℕ+ ℕ) := Routine.perform NetCall.socket

def netClose (netfd : ℕ) : NetRoutine Unit := Routine.perform (NetCall.close netfd)

/-- A socket is opened, used and closed. -/
def withNetfd {α : Type} (failed : ℕ+ → α) (body : ℕ → NetRoutine α) : NetRoutine α := do
  match ← netOpen with
  | .error errno => pure (failed errno)
  | .ok netfd =>
    let res ← body netfd
    netClose netfd
    pure res

/-- `IFF_UP` is bit 0. -/
def withUp (up : Bool) (flags : UInt16) : UInt16 := if up then flags ||| 1 else flags &&& ~~~1

/-- `up()` and `down()`. -/
def setUp (up : Bool) (netfd : ℕ) (name : List UInt8) : NetRoutine ℤ := do
  match ← netIoctl netfd (.getFlags name) with
  | .error errno => pure (-errno)
  | .ok flags =>
    match ← netIoctl netfd (.setFlags name (withUp up flags)) with
    | .error errno => pure (-errno)
    | .ok _ => pure 0

def mlNetworkInterfaceUp (name : List UInt8) : NetRoutine ℤ :=
  withNetfd (fun _ => -1000) fun netfd => setUp true netfd (ifrName name)

def mlNetworkInterfaceDown (name : List UInt8) : NetRoutine ℤ :=
  withNetfd (fun _ => -1000) fun netfd => setUp false netfd (ifrName name)

/-- One `ioctl()` after the other, up to one that fails: `set_ip_address()`, `set_netmask()` and `set_mtu()`. -/
def ioctls (netfd : ℕ) : List NetIoctl → NetRoutine ℤ
  | [] => pure 0
  | request :: requests => do
    let res := ioctlResult (← netIoctl netfd request)
    if res ≠ 0 then pure res else ioctls netfd requests

/-- The address and the netmask are what `inet_addr()` returns. -/
def mlNetworkInterfaceConfigure (name : List UInt8) (address netmask : UInt32) (mtu : ℤ) : NetRoutine ℤ :=
  withNetfd (fun _ => -1000) fun netfd =>
    ioctls netfd [.setAddr (ifrName name) address, .setNetmask (ifrName name) netmask, .setMtu (ifrName name) mtu]

/-- `get_ifreq()`: what it returns if it fails. -/
def getIfreq (request : NetIoctl) : NetRoutine (Except ℤ request.Value) :=
  withNetfd (fun _ => .error (-1000)) fun netfd => do
    match ← netIoctl netfd request with
    | .error _ => pure (.error (-1))
    | .ok value => pure (.ok value)

def mlNetworkInterfaceIndex (name : List UInt8) : NetRoutine (Except ℤ ℤ) := getIfreq (.getIndex (ifrName name))

def mlNetworkInterfaceMacAddress (name : List UInt8) : NetRoutine (Except ℤ (List UInt8)) :=
  getIfreq (.getHwaddr (ifrName name))

def mlNetworkInterfaceIpAddress (name : List UInt8) : NetRoutine (Except ℤ UInt32) := getIfreq (.getAddr (ifrName name))

def mlNetworkInterfaceMtu (name : List UInt8) : NetRoutine ℤ := do
  match ← getIfreq (.getMtu (ifrName name)) with
  | .error res => pure res
  | .ok mtu => pure mtu

/-- The route is the default route; nothing is done with the name of the interface. -/
def mlNetworkInterfaceAddRoute (_name : List UInt8) (gateway : UInt32) : NetRoutine ℤ :=
  withNetfd (fun _ => -1000) fun netfd => do
    match ← netIoctl netfd (.addRoute gateway) with
    | .ok _ => pure 0
    | .error errno => pure (if errno = 17 then 0 else -errno)

/-- `ethtool_cmd_speed_set()`. -/
def EthtoolCmd.setSpeed (settings : EthtoolCmd) (speed : ℤ) : EthtoolCmd :=
  { settings with speed := (UInt32.ofInt speed).toUInt16, speedHi := (UInt32.ofInt speed >>> 16).toUInt16 }

/-- `ethtool_cmd_speed()`. -/
def EthtoolCmd.getSpeed (settings : EthtoolCmd) : UInt32 := settings.speedHi.toUInt32 <<< 16 ||| settings.speed.toUInt32

/-- The settings with what is asked for; -1 is what stays as it is. -/
def EthtoolCmd.overwrite (settings : EthtoolCmd) (speed duplex autoneg : ℤ) : EthtoolCmd :=
  let settings := if speed ≠ -1 then settings.setSpeed speed else settings
  let settings := if duplex ≠ -1 then { settings with duplex := UInt8.ofInt duplex } else settings
  if autoneg ≠ -1 then { settings with autoneg := UInt8.ofInt autoneg } else settings

def mlNetworkInterfaceLinkConfigure (name : List UInt8) (speed duplex autoneg : ℤ) : NetRoutine ℤ :=
  withNetfd (fun errno => -errno) fun netfd => do
    match ← netIoctl netfd (.getSettings (ifrName name)) with
    | .error errno => pure (-errno)
    | .ok settings =>
      match ← netIoctl netfd (.setSettings (ifrName name) (settings.overwrite speed duplex autoneg)) with
      | .error errno => pure (-errno)
      | .ok _ => pure 0

/-! ## The shell commands -/

/-- `(int) strtol()`. -/
def atoi (s : List UInt8) : ℤ :=
  let (negative, s) := scanSign (s.dropWhile isspace)
  let n : ℤ := decimalValue (s.takeWhile isdigit)
  (if negative then -min n 9223372036854775808 else min n 9223372036854775807).bmod 4294967296

/-- `inet_ntoa()`. -/
def inetNtoa (address : UInt32) : List UInt8 :=
  let byte (n : UInt32) : List UInt8 := decimal ((address >>> n).toNat % 256 : ℕ)
  byte 0 ++ 0x2e :: byte 8 ++ 0x2e :: byte 16 ++ 0x2e :: byte 24

/-- `"%02x:%02x:%02x:%02x:%02x:%02x"`. -/
def printMacAddress (mac : List UInt8) : List UInt8 := [0x3a].intercalate ((mac.take 6).map fun b => hexDigits 2 b.toNat)

/-- `"%s\n"`, or `"failure\n"`. -/
def printOrFailure (text : Option (List UInt8)) : List UInt8 := text.getD (bytesOf "failure") ++ [0x0a]

def commandIfconfigPrint (name : List UInt8) : NetRoutine (ℤ × List UInt8) := do
  let address ← mlNetworkInterfaceIpAddress name
  let mac ← mlNetworkInterfaceMacAddress name
  let mtu ← mlNetworkInterfaceMtu name
  let index ← mlNetworkInterfaceIndex name
  pure (0, bytesOf "IPAddress:  " ++ printOrFailure (address.toOption.map inetNtoa) ++
    bytesOf "MACAddress: " ++ printOrFailure (mac.toOption.map printMacAddress) ++
    bytesOf "MTU:        " ++ printOrFailure (if mtu > 0 then some (decimal mtu) else none) ++
    bytesOf "Index:      " ++ printOrFailure (index.toOption.map decimal))

/-- A command that fails prints how it is used. -/
def orUsage (usage : List UInt8) (p : NetRoutine (ℤ × List UInt8)) : NetRoutine (ℤ × List UInt8) := do
  let (res, printed) ← p
  pure (res, if res ≠ 0 then printed ++ usage else printed)

/-- A command that prints nothing. -/
def silent (p : NetRoutine ℤ) : NetRoutine (ℤ × List UInt8) := do
  let res ← p
  pure (res, [])

section
variable (inetAddr : List UInt8 → UInt32)

def commandIfconfig (argv : List (List UInt8)) : NetRoutine (ℤ × List UInt8) :=
  orUsage (bytesOf ("Usage: ifconfig <interface>\n" ++ "       ifconfig <interface> up/down\n" ++
    "       ifconfig <interface> <ip-address> <netmask> <mtu>\n"))
    (match argv with
    | [_, name] => commandIfconfigPrint name
    | [_, name, word] =>
      if word = bytesOf "up" then silent (mlNetworkInterfaceUp name)
      else if word = bytesOf "down" then silent (mlNetworkInterfaceDown name)
      else pure (-22, [])
    | [_, name, address, netmask, mtu] =>
      silent (mlNetworkInterfaceConfigure name (inetAddr address) (inetAddr netmask) (atoi mtu))
    | _ => pure (-22, []))

def commandRoute (argv : List (List UInt8)) : NetRoutine (ℤ × List UInt8) :=
  orUsage (bytesOf "Usage: route <interface> <ip-address>\n")
    (match argv with
    | [_, name, address] => silent (mlNetworkInterfaceAddRoute name (inetAddr address))
    | _ => pure (-22, []))

end

def duplexString (duplex : UInt8) : List UInt8 :=
  bytesOf (if duplex = 0 then "half" else if duplex = 1 then "full" else if duplex = 0xff then "unknown" else "invalid")

def autonegString (autoneg : UInt8) : List UInt8 :=
  bytesOf (if autoneg = 0 then "off" else if autoneg = 1 then "on" else "invalid")

/-- `SPEED_UNKNOWN` is -1. -/
def commandEthtoolPrint (name : List UInt8) : NetRoutine (ℤ × List UInt8) :=
  withNetfd (fun errno => (-errno, [])) fun netfd => do
    match ← netIoctl netfd (.getSettings (ifrName name)) with
    | .error errno => pure (-errno, [])
    | .ok settings =>
      let speed := if settings.getSpeed = 0xffffffff then bytesOf "-" else decimal settings.getSpeed.toNat
      pure (0, bytesOf "Speed:           " ++ speed ++ bytesOf " Mbps\n" ++
        bytesOf "Duplex:          " ++ duplexString settings.duplex ++ [0x0a] ++
        bytesOf "Autonegotiation: " ++ autonegString settings.autoneg ++ [0x0a])

/-- What a word of `ethtool` asks for: nothing (`-`), or a value. -/
def ethtoolValue (value : List UInt8 → Option ℤ) (word : List UInt8) : Option ℤ :=
  if word = bytesOf "-" then some (-1) else value word

/-- What `command_ethtool_link_configure()` asks for. -/
def ethtoolValues (speed duplex autoneg : List UInt8) : Option (ℤ × ℤ × ℤ) := do
  let speed ← ethtoolValue (fun word => some (atoi word)) speed
  let duplex ← ethtoolValue (fun word => if word = bytesOf "half" then some 0 else if word = bytesOf "full" then some 1 else none) duplex
  let autoneg ← ethtoolValue (fun word => if word = bytesOf "on" then some 1 else if word = bytesOf "off" then some 0 else none) autoneg
  some (speed, duplex, autoneg)

def commandEthtoolLinkConfigure (argv : List (List UInt8)) : NetRoutine ℤ :=
  match argv with
  | [_, name, speed, duplex, autoneg] =>
    match ethtoolValues speed duplex autoneg with
    | none => pure (-22)
    | some (speed, duplex, autoneg) => mlNetworkInterfaceLinkConfigure name speed duplex autoneg
  | _ => pure (-22)

def commandEthtool (argv : List (List UInt8)) : NetRoutine (ℤ × List UInt8) :=
  orUsage (bytesOf ("Usage: ethtool <interface>\n" ++ "       ethtool <interface> <speed> <duplex> <autoneg>\n" ++
    "         where\n" ++ "           <speed> is the speed in Mbps or -\n" ++
    "           <duplex> is half, full or -\n" ++ "           <autoneg> is on, off or -\n"))
    (match argv with
    | [_, name] => commandEthtoolPrint name
    | _ => silent (commandEthtoolLinkConfigure argv))

/-! ## The callers -/

/-- What the functions of the library and the commands are called with. -/
inductive NetRequest
  | configure (name : List UInt8) (address netmask : UInt32) (mtu : ℤ)
  | up (name : List UInt8)
  | down (name : List UInt8)
  | index (name : List UInt8)
  | macAddress (name : List UInt8)
  | ipAddress (name : List UInt8)
  | mtu (name : List UInt8)
  | addRoute (name : List UInt8) (gateway : UInt32)
  | linkConfigure (name : List UInt8) (speed duplex autoneg : ℤ)
  | ifconfig (argv : List (List UInt8))
  | route (argv : List (List UInt8))
  | ethtool (argv : List (List UInt8))
  deriving DecidableEq

/-- What a function returns that stores a value if it returns zero. -/
def returnCode {β : Type} (p : NetRoutine (Except ℤ β)) : NetRoutine ℤ := do
  match ← p with
  | .error res => pure res
  | .ok _ => pure 0

def NetRequest.code (inetAddr : List UInt8 → UInt32) : NetRequest → NetRoutine (ℤ × List UInt8)
  | configure name address netmask n => silent (mlNetworkInterfaceConfigure name address netmask n)
  | up name => silent (mlNetworkInterfaceUp name)
  | down name => silent (mlNetworkInterfaceDown name)
  | index name => silent (returnCode (mlNetworkInterfaceIndex name))
  | macAddress name => silent (returnCode (mlNetworkInterfaceMacAddress name))
  | ipAddress name => silent (returnCode (mlNetworkInterfaceIpAddress name))
  | mtu name => silent (mlNetworkInterfaceMtu name)
  | addRoute name gateway => silent (mlNetworkInterfaceAddRoute name gateway)
  | linkConfigure name speed duplex autoneg => silent (mlNetworkInterfaceLinkConfigure name speed duplex autoneg)
  | ifconfig argv => commandIfconfig inetAddr argv
  | route argv => commandRoute inetAddr argv
  | ethtool argv => commandEthtool argv

/-- What a caller wants to be changed. -/
inductive NetChange
  | up (up : Bool) (name : List UInt8)
  | configure (name : List UInt8) (address netmask : UInt32) (mtu : ℤ)
  | route (gateway : UInt32)
  | link (name : List UInt8) (speed duplex autoneg : ℤ)
  deriving DecidableEq

def NetRequest.change (inetAddr : List UInt8 → UInt32) : NetRequest → Option NetChange
  | configure name address netmask n => some (.configure (ifrName name) address netmask n)
  | up name => some (.up true (ifrName name))
  | down name => some (.up false (ifrName name))
  | addRoute _ gateway => some (.route gateway)
  | linkConfigure name speed duplex autoneg => some (.link (ifrName name) speed duplex autoneg)
  | ifconfig [_, name, word] =>
    if word = bytesOf "up" then some (.up true (ifrName name))
    else if word = bytesOf "down" then some (.up false (ifrName name))
    else none
  | ifconfig [_, name, address, netmask, n] =>
    some (.configure (ifrName name) (inetAddr address) (inetAddr netmask) (atoi n))
  | route [_, _, address] => some (.route (inetAddr address))
  | ethtool [_, name, speed, duplex, autoneg] =>
    (ethtoolValues speed duplex autoneg).map fun (speed, duplex, autoneg) => .link (ifrName name) speed duplex autoneg
  | _ => none

/-- Any number of callers `ι`, of which `allowed` says what they may ask for at the same time. -/
def networkCalls {ι : Type} [DecidableEq ι] (inetAddr : List UInt8 → UInt32) (allowed : (ι → Option NetRequest) → NetRequest → Prop)
    (interface : List UInt8 → NetInterface) :
    System (Callers ι NetKernel NetCall NetRequest (ℤ × List UInt8) NetCall.Response) (CallersLabel ι NetRequest NetOutcome) :=
  callers NetKernel.handle (NetRequest.code inetAddr) allowed ⟨⟨[], []⟩, interface, []⟩

/-! ## What a caller may do -/

/-- What a call changes, or finds changed already. -/
def madeBy : (c : NetCall) → c.Response → List NetIoctl
  | .ioctl _ request, .ok _ => if request.isChange then [request] else []
  | .ioctl _ (.addRoute gateway), .error errno => if errno = 17 then [.addRoute gateway] else []
  | _, _ => []

/-- How far a caller is: its socket, what it wants, what it has read for that, and what it has changed. -/
structure NetCaller where
  netfd : Option ℕ
  change : Option NetChange
  flags : Option UInt16
  settings : Option EthtoolCmd
  made : List NetIoctl

namespace NetCaller

/-- What it has to do, as far as this can be known before it has read anything. -/
def changes (g : NetCaller) : List NetIoctl :=
  match g.change with
  | none => []
  | some (.up up name) => g.flags.toList.map fun flags => .setFlags name (withUp up flags)
  | some (.configure name address netmask mtu) => [.setAddr name address, .setNetmask name netmask, .setMtu name mtu]
  | some (.route gateway) => [.addRoute gateway]
  | some (.link name speed duplex autoneg) =>
    g.settings.toList.map fun settings => .setSettings name (settings.overwrite speed duplex autoneg)

/-- It has read what it has to read. -/
def Read (g : NetCaller) : Prop :=
  match g.change with
  | some (.up _ _) => g.flags.isSome
  | some (.link _ _ _ _) => g.settings.isSome
  | _ => True

/-- The flags and the settings that were read for the change. -/
def read (g : NetCaller) : (c : NetCall) → c.Response → NetCaller
  | .ioctl _ (.getFlags name), .ok flags =>
    match g.change with
    | some (.up _ name') => if name = name' then { g with flags := some flags } else g
    | _ => g
  | .ioctl _ (.getSettings name), .ok settings =>
    match g.change with
    | some (.link name' _ _ _) => if name = name' then { g with settings := some settings } else g
    | _ => g
  | .socket, .ok netfd => { g with netfd := some netfd }
  | .close _, _ => { g with netfd := none }
  | _, _ => g

end NetCaller

/-- A caller uses its own socket, and reads before it does what it has to do, in order. -/
def netDiscipline : Discipline NetCall NetCall.Response NetCaller where
  may g c :=
    match c with
    | .socket => g.netfd = none
    | .close netfd => g.netfd = some netfd
    | .ioctl netfd request =>
      g.netfd = some netfd ∧ (request.isChange = true → g.made ++ [request] <+: g.changes) ∧
        (request.isChange = false → g.made = [])
  after g c r := { g.read c r with made := g.made ++ madeBy c r }

/-- A caller returns zero if it has done everything, and else has done the first part of it. -/
structure NetCaller.Returns (g : NetCaller) (res : ℤ) : Prop where
  netfd : g.netfd = none
  part : g.made <+: g.changes
  done : res = 0 → g.Read ∧ g.made = g.changes
  failed : res ≠ 0 → g.change.isSome → g.Read → g.made ≠ g.changes

def NetRequest.first (inetAddr : List UInt8 → UInt32) (request : NetRequest) : NetCaller :=
  ⟨none, request.change inetAddr, none, none, []⟩

section
variable {α : Type} {netfd : ℕ} {change : Option NetChange} {flags : Option UInt16} {settings : Option EthtoolCmd}
  {made : List NetIoctl} {g : NetCaller}

@[simp] theorem after_open (g : NetCaller) (netfd : ℕ) :
    netDiscipline.after g .socket (.ok netfd) = { g with netfd := some netfd } := by
  simp [netDiscipline, NetCaller.read, madeBy]

@[simp] theorem after_no_socket (g : NetCaller) (errno : ℕ+) : netDiscipline.after g .socket (.error errno) = g := by
  simp [netDiscipline, NetCaller.read, madeBy]

@[simp] theorem after_close (g : NetCaller) (netfd : ℕ) (r : Unit) :
    netDiscipline.after g (.close netfd) r = { g with netfd := none } := by
  simp [netDiscipline, NetCaller.read, madeBy]

/-- An error changes nothing. -/
theorem after_error (g : NetCaller) (netfd : ℕ) {request : NetIoctl} (hroute : ∀ gateway, request ≠ .addRoute gateway) (errno : ℕ+) :
    netDiscipline.after g (.ioctl netfd request) (.error errno) = g := by
  cases request with
  | addRoute gateway => exact absurd rfl (hroute gateway)
  | _ => simp [netDiscipline, NetCaller.read, madeBy]

@[simp] theorem after_getFlags (up : Bool) (name : List UInt8) (flags' : UInt16) :
    netDiscipline.after ⟨some netfd, some (.up up name), flags, settings, made⟩ (.ioctl netfd (.getFlags name)) (.ok flags') =
      ⟨some netfd, some (.up up name), some flags', settings, made⟩ := by
  simp [netDiscipline, NetCaller.read, madeBy, NetIoctl.isChange]

@[simp] theorem after_getSettings (name : List UInt8) (speed duplex autoneg : ℤ) (settings' : EthtoolCmd) :
    netDiscipline.after ⟨some netfd, some (.link name speed duplex autoneg), flags, settings, made⟩
        (.ioctl netfd (.getSettings name)) (.ok settings') =
      ⟨some netfd, some (.link name speed duplex autoneg), flags, some settings', made⟩ := by
  simp [netDiscipline, NetCaller.read, madeBy, NetIoctl.isChange]

/-- A change that is made. -/
theorem after_change (g : NetCaller) (netfd : ℕ) {request : NetIoctl} (hchange : request.isChange = true) (value : request.Value) :
    netDiscipline.after g (.ioctl netfd request) (.ok value) = { g with made := g.made ++ [request] } := by
  cases request <;> first | rfl | cases hchange

theorem may_read {request : NetIoctl} (hg : g.netfd = some netfd) (hrequest : request.isChange = false) (hmade : g.made = []) :
    netDiscipline.may g (.ioctl netfd request) := by
  refine ⟨hg, fun h => ?_, fun _ => hmade⟩
  rw [hrequest] at h
  cases h

theorem may_change {request : NetIoctl} (hg : g.netfd = some netfd) (hrequest : request.isChange = true)
    (hmade : g.made ++ [request] <+: g.changes) : netDiscipline.may g (.ioctl netfd request) := by
  refine ⟨hg, fun _ => hmade, fun h => ?_⟩
  rw [hrequest] at h
  cases h

/-- **Open, use, close.** -/
theorem follows_withNetfd {post : NetCaller → α → Prop} {failed : ℕ+ → α} {body : ℕ → NetRoutine α} (hg : g.netfd = none)
    (hfailed : ∀ errno, post g (failed errno))
    (hbody : ∀ netfd, netDiscipline.Follows (fun g a => g.netfd = some netfd ∧ post { g with netfd := none } a)
      { g with netfd := some netfd } (body netfd)) :
    netDiscipline.Follows post g (withNetfd failed body) := by
  refine ⟨hg, fun r => ?_⟩
  cases r with
  | error errno =>
    rw [after_no_socket]
    exact hfailed errno
  | ok netfd =>
    rw [after_open]
    show netDiscipline.Follows post _ (body netfd >>= fun res => netClose netfd >>= fun _ => pure res)
    refine follows_bind (hbody netfd) fun g a h => ⟨h.1, fun r => ?_⟩
    rw [after_close]
    exact h.2

/-- What the body of a function with a socket comes to. -/
def ReturnsOpen (netfd : ℕ) (g : NetCaller) (res : ℤ) : Prop :=
  g.netfd = some netfd ∧ ({ g with netfd := none } : NetCaller).Returns res

theorem neg_errno_ne_zero (errno : ℕ+) : -(errno : ℤ) ≠ 0 := by
  have := errno.pos
  omega

theorem follows_setUp (up : Bool) (netfd : ℕ) (name : List UInt8) :
    netDiscipline.Follows (ReturnsOpen netfd) ⟨some netfd, some (.up up name), none, none, []⟩ (setUp up netfd name) := by
  refine ⟨may_read rfl rfl rfl, fun r => ?_⟩
  cases r with
  | error errno =>
    rw [after_error _ _ (by simp)]
    exact ⟨rfl, rfl, List.nil_prefix, fun h => absurd h (neg_errno_ne_zero errno), fun _ _ h => by cases h⟩
  | ok flags =>
    rw [after_getFlags]
    refine ⟨may_change rfl rfl List.prefix_rfl, fun r => ?_⟩
    cases r with
    | error errno =>
      rw [after_error _ _ (by simp)]
      exact ⟨rfl, rfl, List.nil_prefix, fun h => absurd h (neg_errno_ne_zero errno), fun _ _ _ => (List.cons_ne_nil _ _).symm⟩
    | ok value =>
      rw [after_change _ _ rfl]
      exact ⟨rfl, rfl, List.prefix_rfl, fun _ => ⟨rfl, rfl⟩, fun h => absurd rfl h⟩

/-- One change after the other. -/
theorem follows_ioctls {requests : List NetIoctl} (hrequests : ∀ request ∈ requests, request.isChange = true ∧
      ∀ gateway, request ≠ .addRoute gateway) {g : NetCaller} (hg : g.netfd = some netfd)
    (hmade : g.made ++ requests = g.changes) (hread : g.Read) : netDiscipline.Follows (ReturnsOpen netfd) g (ioctls netfd requests) := by
  induction requests generalizing g with
  | nil =>
    rw [List.append_nil] at hmade
    have hclosed : ({ g with netfd := none } : NetCaller).changes = g.changes := rfl
    exact ⟨hg, rfl, by rw [hclosed, ← hmade], fun _ => ⟨hread, hmade⟩, fun h => absurd rfl h⟩
  | cons request requests ih =>
    obtain ⟨⟨hchange, hroute⟩, hrequests⟩ := List.forall_mem_cons.mp hrequests
    have hnext : g.made ++ [request] ++ requests = g.changes := by rw [List.append_assoc]; exact hmade
    refine ⟨may_change hg hchange ⟨requests, hnext⟩, fun r => ?_⟩
    cases r with
    | error errno =>
      rw [after_error _ _ hroute]
      refine ⟨hg, rfl, ⟨request :: requests, hmade⟩, fun h => absurd (show (-1 : ℤ) = 0 from h) (by decide), fun _ _ _ hdone => ?_⟩
      replace hdone : g.made = g.changes := hdone
      rw [← hdone] at hmade
      exact List.cons_ne_nil _ _ (List.append_right_eq_self.mp hmade)
    | ok value =>
      rw [after_change _ _ hchange]
      exact ih hrequests (g := { g with made := g.made ++ [request] }) hg hnext hread

theorem follows_addRoute (netfd : ℕ) (gateway : UInt32) :
    netDiscipline.Follows (ReturnsOpen netfd) ⟨some netfd, some (.route gateway), none, none, []⟩ (do
      match ← netIoctl netfd (.addRoute gateway) with
      | .ok _ => pure 0
      | .error errno => pure (if errno = 17 then 0 else -errno)) := by
  refine ⟨may_change rfl rfl List.prefix_rfl, fun r => ?_⟩
  cases r with
  | ok value =>
    rw [after_change _ _ rfl]
    exact ⟨rfl, rfl, List.prefix_rfl, fun _ => ⟨trivial, rfl⟩, fun h => absurd rfl h⟩
  | error errno =>
    by_cases hexists : errno = 17
    · subst hexists
      exact ⟨rfl, rfl, List.prefix_rfl, fun _ => ⟨trivial, rfl⟩, fun h => absurd rfl h⟩
    · have hafter : netDiscipline.after ⟨some netfd, some (.route gateway), none, none, []⟩ (.ioctl netfd (.addRoute gateway))
          (.error errno) = ⟨some netfd, some (.route gateway), none, none, []⟩ := by
        simp [netDiscipline, NetCaller.read, madeBy, hexists]
      rw [hafter]
      show netDiscipline.Follows _ _ (.done (if errno = 17 then 0 else -(errno : ℤ)))
      rw [if_neg hexists]
      exact ⟨rfl, rfl, List.nil_prefix, fun h => absurd h (neg_errno_ne_zero errno), fun _ _ _ => (List.cons_ne_nil _ _).symm⟩

/-- A value is read, and nothing else is done. -/
theorem follows_getIfreq {request : NetIoctl} (hg : g.netfd = none) (hmade : g.made = []) (hsame : ∀ netfd r, { g with netfd := some netfd } =
      netDiscipline.after { g with netfd := some netfd } (.ioctl netfd request) r) (hchange : request.isChange = false) :
    netDiscipline.Follows (fun g' _ => g' = g) g (getIfreq request) := by
  refine follows_withNetfd hg (fun _ => rfl) fun netfd => ⟨may_read rfl hchange hmade, fun r => ?_⟩
  rw [← hsame netfd r]
  have hclosed : ({ ({ g with netfd := some netfd } : NetCaller) with netfd := none } : NetCaller) = g := by
    rw [← hg]
  cases r with
  | error errno => exact ⟨rfl, hclosed⟩
  | ok value => exact ⟨rfl, hclosed⟩

theorem returns_no_change (res : ℤ) : (⟨none, none, none, none, []⟩ : NetCaller).Returns res :=
  ⟨rfl, List.nil_prefix, fun _ => ⟨trivial, rfl⟩, fun _ h => by cases h⟩

/-- Nothing was done. -/
theorem returns_failed (change : Option NetChange) {res : ℤ} (hres : res ≠ 0) :
    (⟨none, change, none, none, []⟩ : NetCaller).Returns res := by
  refine ⟨rfl, List.nil_prefix, fun h => absurd h hres, fun _ hchange hread => ?_⟩
  cases change with
  | none => cases hchange
  | some change =>
    cases change with
    | up | link => cases hread
    | configure | route => exact (List.cons_ne_nil _ _).symm

theorem follows_returns {failed : ℕ+ → ℤ} (hfailed : ∀ errno, failed errno ≠ 0) {body : ℕ → NetRoutine ℤ}
    (hbody : ∀ netfd, netDiscipline.Follows (ReturnsOpen netfd) ⟨some netfd, change, none, none, []⟩ (body netfd)) :
    netDiscipline.Follows NetCaller.Returns ⟨none, change, none, none, []⟩ (withNetfd failed body) :=
  follows_withNetfd rfl (fun errno => returns_failed change (hfailed errno)) hbody

theorem follows_silent {p : NetRoutine ℤ} (h : netDiscipline.Follows NetCaller.Returns g p) :
    netDiscipline.Follows (fun g a => g.Returns a.1) g (silent p) :=
  follows_bind h fun _ _ h => h

theorem follows_orUsage {p : NetRoutine (ℤ × List UInt8)} (h : netDiscipline.Follows (fun g a => g.Returns a.1) g p)
    (usage : List UInt8) : netDiscipline.Follows (fun g a => g.Returns a.1) g (orUsage usage p) :=
  follows_bind h fun _ _ h => h

/-- A value is read for nobody's change. -/
theorem follows_value (request : NetIoctl) (hchange : request.isChange = false) :
    netDiscipline.Follows (fun g _ => g = ⟨none, none, none, none, []⟩) ⟨none, none, none, none, []⟩ (getIfreq request) := by
  refine follows_getIfreq rfl rfl (fun netfd r => ?_) hchange
  cases r with
  | error errno =>
    refine (after_error _ _ (fun gateway h => ?_) errno).symm
    rw [h] at hchange
    cases hchange
  | ok value => cases request <;> first | rfl | cases hchange

theorem follows_up (up : Bool) (name : List UInt8) :
    netDiscipline.Follows NetCaller.Returns ⟨none, some (.up up (ifrName name)), none, none, []⟩
      (withNetfd (fun _ => -1000) fun netfd => setUp up netfd (ifrName name)) :=
  follows_returns (fun _ => by decide) fun netfd => follows_setUp up netfd (ifrName name)

theorem follows_configure (name : List UInt8) (address netmask : UInt32) (mtu : ℤ) :
    netDiscipline.Follows NetCaller.Returns ⟨none, some (.configure (ifrName name) address netmask mtu), none, none, []⟩
      (mlNetworkInterfaceConfigure name address netmask mtu) :=
  follows_returns (fun _ => by decide) fun _ => follows_ioctls (by simp [NetIoctl.isChange]) rfl rfl trivial

theorem follows_mlAddRoute (name : List UInt8) (gateway : UInt32) :
    netDiscipline.Follows NetCaller.Returns ⟨none, some (.route gateway), none, none, []⟩ (mlNetworkInterfaceAddRoute name gateway) :=
  follows_returns (fun _ => by decide) fun netfd => follows_addRoute netfd gateway

theorem follows_link (name : List UInt8) (speed duplex autoneg : ℤ) :
    netDiscipline.Follows NetCaller.Returns ⟨none, some (.link (ifrName name) speed duplex autoneg), none, none, []⟩
      (mlNetworkInterfaceLinkConfigure name speed duplex autoneg) := by
  refine follows_returns neg_errno_ne_zero fun netfd => ⟨may_read rfl rfl rfl, fun r => ?_⟩
  cases r with
  | error errno =>
    rw [after_error _ _ (by simp)]
    exact ⟨rfl, rfl, List.nil_prefix, fun h => absurd h (neg_errno_ne_zero errno), fun _ _ h => by cases h⟩
  | ok settings =>
    rw [after_getSettings]
    refine ⟨may_change rfl rfl List.prefix_rfl, fun r => ?_⟩
    cases r with
    | error errno =>
      rw [after_error _ _ (by simp)]
      exact ⟨rfl, rfl, List.nil_prefix, fun h => absurd h (neg_errno_ne_zero errno), fun _ _ _ => (List.cons_ne_nil _ _).symm⟩
    | ok value =>
      rw [after_change _ _ rfl]
      exact ⟨rfl, rfl, List.prefix_rfl, fun _ => ⟨rfl, rfl⟩, fun h => absurd rfl h⟩

theorem follows_returnCode (request : NetIoctl) (hchange : request.isChange = false) :
    netDiscipline.Follows NetCaller.Returns ⟨none, none, none, none, []⟩ (returnCode (getIfreq request)) := by
  refine follows_bind (follows_value request hchange) ?_
  rintro _ a rfl
  cases a <;> exact returns_no_change _

theorem follows_mtu (name : List UInt8) :
    netDiscipline.Follows (fun g _ => g = ⟨none, none, none, none, []⟩) ⟨none, none, none, none, []⟩ (mlNetworkInterfaceMtu name) := by
  refine follows_bind (follows_value (.getMtu (ifrName name)) rfl) ?_
  rintro _ a rfl
  cases a <;> exact rfl

theorem follows_ifconfigPrint (name : List UInt8) :
    netDiscipline.Follows (fun g a => g.Returns a.1) ⟨none, none, none, none, []⟩ (commandIfconfigPrint name) := by
  refine follows_bind (follows_value (.getAddr (ifrName name)) rfl) ?_
  rintro _ address rfl
  refine follows_bind (follows_value (.getHwaddr (ifrName name)) rfl) ?_
  rintro _ mac rfl
  refine follows_bind (follows_mtu name) ?_
  rintro _ mtu rfl
  refine follows_bind (follows_value (.getIndex (ifrName name)) rfl) ?_
  rintro _ index rfl
  exact returns_no_change 0

theorem follows_ethtoolPrint (name : List UInt8) :
    netDiscipline.Follows (fun g a => g.Returns a.1) ⟨none, none, none, none, []⟩ (commandEthtoolPrint name) := by
  refine follows_withNetfd rfl (fun _ => returns_no_change _) fun netfd => ⟨may_read rfl rfl rfl, fun r => ?_⟩
  cases r with
  | error errno => exact ⟨rfl, returns_no_change _⟩
  | ok settings => exact ⟨rfl, returns_no_change _⟩

variable {inetAddr : List UInt8 → UInt32}

theorem follows_ifconfig (argv : List (List UInt8)) :
    netDiscipline.Follows (fun g a => g.Returns a.1) ((NetRequest.ifconfig argv).first inetAddr) (commandIfconfig inetAddr argv) := by
  refine follows_orUsage ?_ _
  match argv with
  | [] | [_] => exact returns_no_change _
  | [_, name] => exact follows_ifconfigPrint name
  | [_, name, word] =>
    unfold NetRequest.first NetRequest.change
    dsimp only
    split_ifs with hup hdown
    · exact follows_silent (follows_up true name)
    · exact follows_silent (follows_up false name)
    · exact returns_no_change _
  | [_, _, _, _] => exact returns_no_change _
  | [_, name, address, netmask, mtu] => exact follows_silent (follows_configure name _ _ _)
  | _ :: _ :: _ :: _ :: _ :: _ :: _ => exact returns_no_change _

theorem follows_route (argv : List (List UInt8)) :
    netDiscipline.Follows (fun g a => g.Returns a.1) ((NetRequest.route argv).first inetAddr) (commandRoute inetAddr argv) := by
  refine follows_orUsage ?_ _
  match argv with
  | [] | [_] | [_, _] => exact returns_no_change _
  | [_, name, address] => exact follows_silent (follows_mlAddRoute name _)
  | _ :: _ :: _ :: _ :: _ => exact returns_no_change _

theorem follows_ethtool (argv : List (List UInt8)) :
    netDiscipline.Follows (fun g a => g.Returns a.1) ((NetRequest.ethtool argv).first inetAddr) (commandEthtool argv) := by
  refine follows_orUsage ?_ _
  match argv with
  | [] | [_] => exact returns_no_change _
  | [_, name] => exact follows_ethtoolPrint name
  | [_, _, _] | [_, _, _, _] => exact returns_no_change _
  | [_, name, speed, duplex, autoneg] =>
    unfold NetRequest.first NetRequest.change
    refine follows_silent ?_
    unfold commandEthtoolLinkConfigure
    dsimp only
    cases ethtoolValues speed duplex autoneg with
    | none => exact returns_no_change _
    | some values => exact follows_link name _ _ _
  | _ :: _ :: _ :: _ :: _ :: _ :: _ => exact returns_no_change _

/-- **What every caller does**, whatever its calls come to. -/
theorem code_follows (inetAddr : List UInt8 → UInt32) (request : NetRequest) :
    netDiscipline.Follows (fun g a => g.Returns a.1) (request.first inetAddr) (request.code inetAddr) := by
  cases request with
  | configure name address netmask mtu => exact follows_silent (follows_configure name address netmask mtu)
  | up name => exact follows_silent (follows_up true name)
  | down name => exact follows_silent (follows_up false name)
  | index name => exact follows_silent (follows_returnCode (.getIndex (ifrName name)) rfl)
  | macAddress name => exact follows_silent (follows_returnCode (.getHwaddr (ifrName name)) rfl)
  | ipAddress name => exact follows_silent (follows_returnCode (.getAddr (ifrName name)) rfl)
  | mtu name =>
    refine follows_bind (follows_mtu name) ?_
    rintro _ a rfl
    exact returns_no_change _
  | addRoute name gateway => exact follows_silent (follows_mlAddRoute name gateway)
  | linkConfigure name speed duplex autoneg => exact follows_silent (follows_link name speed duplex autoneg)
  | ifconfig argv => exact follows_ifconfig argv
  | route argv => exact follows_route argv
  | ethtool argv => exact follows_ethtool argv

end

end Monolinux
