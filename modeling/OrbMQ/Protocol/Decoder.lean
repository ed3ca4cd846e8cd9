import OrbMQ.Protocol.Wire

/-!
# The packet decoder (`internal/protocol/decoder.go`)

`decode` reads one packet from a stream. The body of a packet is read through a limited reader of
its remaining length (`Go.limited`), except for PUBACK, whose two bytes come from the stream.

What the decoder accepts is in `OrbMQ/Protocol/Grammar.lean`.
-/

namespace OrbMQ

open Go

def errPacketTooLarge : Err := .new "packet exceeds maximum size"

structure ConnectFlags where
  cleanSession : Bool
  willFlag : Bool
  willQoS : UInt8
  willRetain : Bool
  usernameFlag : Bool
  passwordFlag : Bool
  deriving DecidableEq, Repr

def decodeConnectFlags (b : UInt8) : Except Err ConnectFlags :=
  if b &&& 0x01 ≠ 0 then .error (.new "reserved connect flag must be 0") else
  let f : ConnectFlags := {
    cleanSession := b &&& 0x02 != 0
    willFlag := b &&& 0x04 != 0
    willQoS := (b >>> 3) &&& 0x03
    willRetain := b &&& 0x20 != 0
    usernameFlag := b &&& 0x80 != 0
    passwordFlag := b &&& 0x40 != 0 }
  if !f.willFlag && (f.willQoS != 0 || f.willRetain) then
    .error (.new "will QoS and retain must be 0 when will flag is not set")
  else if f.passwordFlag && !f.usernameFlag then
    .error (.new "password flag requires username flag")
  else .ok f

def decodeWill (qos : UInt8) (retain : Bool) : ReadM WillMessage := do
  let topic ← readUTF8String
  liftExcept (validateTopicName topic)
  let payload ← readBinaryData
  return { topic, payload, qos, retain }

/-- An optional field: it is read iff its flag is set. -/
def optional {α : Type} (flag : Bool) (m : ReadM α) : ReadM (Option α) :=
  if flag then do return some (← m) else return none

/-- The bytes of `"MQTT"`. -/
def protocolName : Bytes := [77, 81, 84, 84]

def decodeConnect : ReadM ConnectPacket := do
  let protoName ← readUTF8String
  failIf (protoName ≠ protocolName) (.new "invalid protocol name")
  let level ← readByte
  failIf (level ≠ 0x04) (.new "unsupported protocol level")
  let flagsByte ← readByte
  let flags ← liftExcept (decodeConnectFlags flagsByte)
  let keepAlive ← readUint16
  let clientID ← readUTF8String
  failIf (clientID = [] ∧ flags.cleanSession = false)
    (.new "clientID must be present if clean session is false")
  let will ← optional flags.willFlag (decodeWill flags.willQoS flags.willRetain)
  let username ← optional flags.usernameFlag readUTF8String
  let password ← optional flags.passwordFlag readBinaryData
  let n ← remaining
  failIf (n ≠ 0) (.new "malformed CONNECT packet: extra bytes")
  return {
    protocolName := protoName
    protocolLevel := level
    cleanSession := flags.cleanSession
    keepAlive, clientID, will, username, password }

/-- One entry of a SUBSCRIBE packet. -/
def decodeSubscription : ReadM SubscribeEntry := do
  let topic ← readUTF8String
  liftExcept (validateTopicFilter topic)
  let qos ← readByte
  failIf (qos > 2) (.new "invalid QoS level")
  return { topic, qos }

def decodeSubscribe : ReadM SubscribePacket := do
  let packetID ← readUint16
  failIf (packetID = 0) (.new "invalid packet identifier")
  let subscriptions ← remaining >>= readAll decodeSubscription
  failIf (subscriptions = []) (.new "subscribe must contain at least one topic")
  return { packetID, subscriptions }

/-- The packet identifier of a PUBLISH: it is there iff the QoS is above 0. -/
def publishPacketID (qos : UInt8) : ReadM UInt16 :=
  if qos > 0 then do
    let packetID ← readUint16
    failIf (packetID = 0) (.new "invalid packet identifier")
    return packetID
  else return 0

def decodePublish (qos : UInt8) (dup retain : Bool) : ReadM PublishPacket := do
  let topic ← readUTF8String
  liftExcept (validateTopicName topic)
  let packetID ← publishPacketID qos
  let n ← remaining
  let payload ← readFull n
  return { topic, payload, retain, dup, qos, packetID }

/-- The packet identifier comes from the stream itself: the length was checked. -/
def decodePubAck (remainingLength : Nat) : ReadM PubAckPacket := do
  failIf (remainingLength ≠ 2) (.new "invalid PUBACK packet")
  let packetID ← readUint16
  failIf (packetID = 0) (.new "invalid packet identifier")
  return { packetID }

/-- One topic filter of an UNSUBSCRIBE packet. -/
def decodeFilter : ReadM Bytes := do
  let topic ← readUTF8String
  liftExcept (validateTopicFilter topic)
  return topic

def decodeUnsubscribe : ReadM UnsubscribePacket := do
  let packetID ← readUint16
  failIf (packetID = 0) (.new "invalid packet identifier")
  let topics ← remaining >>= readAll decodeFilter
  failIf (topics = []) (.new "unsubscribe must contain at least one topic")
  return { packetID, topics }

/-- The loop of `decodeRemainingLength`: `k` more bytes may be read, `i` were. -/
def remainingLengthLoop : (k i multiplier value : Nat) → ReadM (Nat × Nat)
  | 0, _, _, _ => throw .unexpectedEOF
  | k + 1, i, multiplier, value => do
    let encodedByte ← readByte
    let digit := encodedByte.toNat
    let value := value + (digit &&& 127) * multiplier
    if digit &&& 128 = 0 then return (value, i + 1)
    else remainingLengthLoop k (i + 1) (multiplier * 128) value

/-- The remaining length and the number of its bytes, at most four. -/
def decodeRemainingLength : ReadM (Nat × Nat) := remainingLengthLoop 4 0 1 0

/-- The `switch` of `DecodeWithLimit` over the packet type. -/
def decodeBody (packetType flags : UInt8) (remainingLength : Nat) : ReadM Packet :=
  if packetType = PacketType.connect then do
    failIf (flags ≠ 0) (.new "invalid CONNECT flags")
    return .connect (← limited remainingLength decodeConnect)
  else if packetType = PacketType.pingReq then do
    failIf (flags ≠ 0 ∨ remainingLength ≠ 0) (.new "invalid PINGREQ packet")
    return .pingReq
  else if packetType = PacketType.publish then do
    let qos := (flags >>> 1) &&& 0x03
    failIf (qos = 0x03) (.new "invalid QoS level")
    let dup := flags &&& 0x08 != 0
    failIf (qos = 0 ∧ dup = true) (.new "invalid DUP flag for QoS 0")
    let retain := flags &&& 0x01 != 0
    return .publish (← limited remainingLength (decodePublish qos dup retain))
  else if packetType = PacketType.pubAck then do
    failIf (flags ≠ 0) (.new "invalid PUBACK flags")
    return .pubAck (← decodePubAck remainingLength)
  else if packetType = PacketType.subscribe then do
    failIf (flags ≠ 0x02) (.new "invalid SUBSCRIBE flags")
    return .subscribe (← limited remainingLength decodeSubscribe)
  else if packetType = PacketType.unsubscribe then do
    failIf (flags ≠ 0x02) (.new "invalid UNSUBSCRIBE flags")
    return .unsubscribe (← limited remainingLength decodeUnsubscribe)
  else if packetType = PacketType.disconnect then do
    failIf (flags ≠ 0 ∨ remainingLength ≠ 0) (.new "invalid DISCONNECT packet")
    return .disconnect
  else throw (.new "unsupported packet type")

/-- `DecodeWithLimit`: a packet larger than `limit`, its fixed header included, is refused before
its body is read. -/
def decodeWithLimit (limit : Int) : ReadM Packet := do
  failIf (limit ≤ 0 ∨ limit > maxPacketSize) (.new "invalid maximum packet size")
  let b1 ← readByte
  let packetType := b1 >>> 4
  let flags := b1 &&& 0x0F
  let (remainingLength, lengthBytes) ← decodeRemainingLength
  failIf ((1 + lengthBytes + remainingLength : Nat) > limit) errPacketTooLarge
  decodeBody packetType flags remainingLength

def decode : ReadM Packet := decodeWithLimit maxPacketSize

/-- A CONNECT with a Will and credentials, as in the decoder's tests. -/
example : decode ⟨[0x10, 23, 0, 4, 77, 81, 84, 84, 4, 0xC6, 0, 60, 0, 1, 99, 0, 1, 116, 0, 0, 0, 1, 117,
    0, 0], none⟩ = .ok (.connect ⟨protocolName, 4, true, 60, [99], some ⟨[116], [], 0, false⟩,
      some [117], some []⟩) ⟨[], none⟩ := rfl

end OrbMQ
