import RemoteTable.Http.Message
import Std.Internal.UV.DNS
import Std.Internal.UV.TCP
import Std.Net.Addr

/-!
# Delivery over the network

Posts a text to a server over one connection and waits for the whole answer, up to a deadline.
Servers are reached without encryption; an address that needs it is not reached.
-/

open Std.Net Std.Internal.UV

namespace RemoteTable

namespace Network

/-- The milliseconds between two looks at something that is waited for. -/
def pauseMs : UInt32 := 2

/-- The bytes that are asked for at once. -/
def portion : UInt64 := 65536

/-- Waits for the result of an operation until a deadline. -/
partial def resultBy {α : Type} (deadline : Nat) (promise : IO.Promise (Except IO.Error α)) :
    IO (Option α) := do
  if ← IO.hasFinished promise.result? then
    match ← IO.wait promise.result? with
    | some (.ok result) => return some result
    | _ => return none
  else if deadline ≤ (← IO.monoMsNow) then return none
  else
    IO.sleep pauseMs
    resultBy deadline promise

/-- The number of an address of 32 bits. -/
def v4Of (address : Nat) : IPv4Addr :=
  IPv4Addr.ofParts (UInt8.ofNat (address >>> 24)) (UInt8.ofNat (address >>> 16))
    (UInt8.ofNat (address >>> 8)) (UInt8.ofNat address)

/-- The numbers that a host has. -/
def numbersOf (deadline : Nat) : Host → IO (List IPAddr)
  | .v4 address => return [.v4 (v4Of address)]
  | .v6 pieces => return ((IPv6Addr.ofString (Host.v6Text pieces)).map IPAddr.v6).toList
  | .name text => do
    let found ← resultBy deadline (← DNS.getAddrInfo text "" 0)
    return (found.getD #[]).toList

/-- A number with a port. -/
def socketAddress (port : UInt16) : IPAddr → SocketAddress
  | .v4 address => .v4 ⟨address, port⟩
  | .v6 address => .v6 ⟨address, port⟩

/-- Reads what comes until the other side ends or the deadline passes. -/
partial def receive (deadline : Nat) (socket : TCP.Socket) (read : ByteArray) : IO ByteArray := do
  match ← resultBy deadline (← socket.recv? portion) with
  | some (some more) => receive deadline socket (read ++ more)
  | _ => return read

/-- Sends a message to a number and reads what comes back. -/
def exchangeWith (deadline : Nat) (port : UInt16) (message : String) (number : IPAddr) :
    IO (Option ByteArray) := do
  let socket ← TCP.Socket.new
  match ← resultBy deadline (← socket.connect (socketAddress port number)) with
  | none => return none
  | some () =>
    match ← resultBy deadline (← socket.send #[message.toUTF8]) with
    | none => return none
    | some () => return some (← receive deadline socket ByteArray.empty)

/-- Posts a text to an address, and gives up when the time is over. -/
def deliver (timeoutSecs : Nat) (url : Url) (body : String) : IO Delivery := do
  let deadline := (← IO.monoMsNow) + 1000 * timeoutSecs
  match url.scheme, url.host with
  | "http", some host =>
    try
      let port := UInt16.ofNat (Http.portOf url)
      for number in ← numbersOf deadline host do
        if let some bytes ← exchangeWith deadline port (Http.postMessage url body) number then
          return Http.deliveryOf bytes.toList
      return .lost
    catch _ => return .lost
  | _, _ => return .lost

end Network

end RemoteTable
