import ShardedCache.Client.Basic
import ShardedCache.Node.Connection
import Std.Async

/-!
# The network

The outer layer that moves bytes between nodes and their servers. What happens to a connection is
handed to `Connection.step` as an event, and what that leaves in the write buffer is sent; nothing
is decided here but when to try again.
-/

open Std.Async

namespace ShardedCache

/-- The host and the port of an address, parted at its last colon. -/
def endpoint? (address : String) : Option (String × UInt16) :=
  match (address.splitOn ":").reverse with
  | [] => none
  | port :: host =>
    let host := (":".intercalate host.reverse).toList.filter fun c => c != '[' && c != ']'
    (Text.readNumber 10 65535 port.toList).toOption.map fun n => (String.ofList host, .ofNat n)

/-- The connection of a node and its socket. -/
structure Link where
  node : Nat
  state : Connection := .down 0
  socket : Option TCP.Socket.Client := none
  /-- The moment of the next try to connect. -/
  due : Nat := 0

namespace Link

/-- Hands an event to the connection. A connection that is down is tried again after its delay. -/
def step (l : Link) (config : Config) (event : LinkEvent) (c : Cluster) : Cluster × Link :=
  let (c, state) := Connection.step c l.node l.state event
  match state with
  | .down attempt =>
    let due := c.now + Connection.reconnectDelay attempt config.maxReconnectDelay
    (c, { l with state, socket := none, due })
  | _ => (c, { l with state })

/-- Opens a connection to a server. -/
def openSocket (address : String) : Async (Option TCP.Socket.Client) := do
  try
    let some (host, port) := endpoint? address | return none
    let some ip := (← DNS.getAddrInfo host (toString port))[0]? | return none
    let socket ← TCP.Socket.Client.mk
    socket.connect (match ip with
      | .v4 addr => .v4 { addr, port }
      | .v6 addr => .v6 { addr, port })
    socket.noDelay
    return some socket
  catch _ => return none

/-- Tries to connect for as long as the configuration allows. -/
def connect (l : Link) (config : Config) (c : Cluster) : Async (Cluster × Link) := do
  let address := ((c.node? l.node).map (·.name)).getD ""
  let timeout : Async (Option TCP.Socket.Client) := do
    sleep (.ofNat config.connectTimeout)
    return none
  match ← Async.race (openSocket address) timeout with
  | some socket => return { l with socket := some socket }.step config .connected c
  | none => return l.step config .connectFailed c

/-- Sends what is in the write buffer, and what takes its place, until nothing is left. -/
partial def sendAll (l : Link) (config : Config) (c : Cluster) : Async (Cluster × Link) := do
  let bytes := ((c.node? l.node).map (·.queue.writeBuffer)).getD []
  match l.socket with
  | some socket =>
    if bytes.isEmpty then return (c, l)
    else
      let sent ← try
          socket.send ⟨bytes.toArray⟩
          pure true
        catch _ => pure false
      if sent then
        let (c, l) := l.step config (.sent bytes.length) c
        l.sendAll config c
      else return l.step config .lost c
  | none => return (c, l)

/-- Lets a connection that is up take submissions in. -/
def wake (l : Link) (config : Config) (c : Cluster) : Cluster × Link :=
  match l.state with
  | .up _ => l.step config .woken c
  | .down _ | .stopped => (c, l)

/-- Connects when that is due, takes submissions in and sends them. -/
def tend (l : Link) (config : Config) (c : Cluster) : Async (Cluster × Link) := do
  let (c, l) ← match l.state with
    | .down _ => if l.due ≤ c.now then l.connect config c else pure (c, l)
    | .up _ | .stopped => pure (c, l)
  let (c, l) := l.wake config c
  l.sendAll config c

end Link

namespace Client

/-- How long the network waits for bytes before it looks at the queues again. -/
def pollInterval : Nat := 20

/-- Waits for bytes from any server. -/
def receive (links : List Link) (config : Config) : Async (Option (Nat × LinkEvent)) := do
  let pause ← Selector.sleep (.ofNat pollInterval)
  let reads := links.filterMap fun l => l.socket.map fun socket =>
    Selectable.case (socket.recvSelector (.ofNat config.readBufferSize)) fun bytes? =>
      return some (l.node, match bytes? with
        | some bytes => .received bytes.toList
        | none => .lost)
  Selectable.one (.case pause (fun _ => return none) :: reads).toArray

/-- Tends all links of a client. -/
def tendAll (config : Config) : List Link → Cluster → Async (Cluster × List Link)
  | [], c => return (c, [])
  | l :: rest, c => do
    let (c, l) ← l.tend config c
    let (c, rest) ← tendAll config rest c
    return (c, l :: rest)

/-- Keeps the connections of a client going until `ready`, or until the deadline. Moments are
counted from `start`. -/
partial def drive (client : Client) (start deadline : Nat) (ready : Cluster → Bool)
    (links : List Link) (c : Cluster) : Async (Cluster × List Link) := do
  let c := c.passTo ((← IO.monoMsNow) - start)
  if ready c || deadline ≤ c.now then return (c, links)
  else
    let (c, links) ← tendAll client.config links c
    if ready c then return (c, links)
    else
      match ← try receive links client.config catch _ => pure none with
      | none => client.drive start deadline ready links c
      | some (node, event) =>
        let (c, links) := links.foldr
          (fun l (c, rest) =>
            if l.node = node then
              let (c, l) := l.step client.config event c
              (c, l :: rest)
            else (c, l :: rest))
          (c, ([] : List Link))
        client.drive start deadline ready links c

end Client

end ShardedCache
