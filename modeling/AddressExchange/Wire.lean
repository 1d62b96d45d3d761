import AddressExchange.Message
import AddressExchange.Wire.Frame

/-!
# The wire format

Requests and responses as frames. The items of a response are its addresses; those of a request are
the payer id and the reply key as hexadecimal text. Dates travel in milliseconds.
-/

namespace AddressExchange.Wire

/-- Writes a response. -/
def encodeResponse (r : Response) : Bytes :=
  encodeFrame r.version.toNat r.replayDate r.addresses

/-- Reads a response. -/
def decodeResponse (bs : Bytes) : Except Failure Response := do
  let frame ← decodeFrame bs
  .ok (.make frame.date frame.items)

/-- Writes a request. -/
def encodeRequest (r : Request) : Bytes :=
  encodeFrame r.version.toNat r.date [r.payerId.toHex, r.replyKey.toHex]

/-- Reads a request from its frame. -/
def requestOfFrame (frame : Frame) : Except Failure Request :=
  match frame.items with
  | [id, key] => do
    let payerId ← PayerId.ofHex id
    match PublicKey.ofHex key with
    | .ok replyKey => .ok (.make payerId frame.date replyKey)
    | .error e => .error (.malformed (.replyKey e))
  | items => .error (.malformed (.requestRows items.length))

/-- Reads a request. -/
def decodeRequest (bs : Bytes) : Except Failure Request := do
  requestOfFrame (← decodeFrame bs)

end AddressExchange.Wire
