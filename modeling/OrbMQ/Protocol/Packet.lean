import OrbMQ.Lib.Io

/-!
# The packets of `internal/protocol/packet.go`

A Go `*string` or `*WillMessage` is an `Option`; a nil and an empty byte slice are the same list.
-/

namespace OrbMQ

export Go (Bytes Err)

/-- `PacketType`: the high four bits of a packet's first byte. -/
abbrev PacketType := UInt8

namespace PacketType

def connect : PacketType := 1
def connAck : PacketType := 2
def publish : PacketType := 3
def pubAck : PacketType := 4
def subscribe : PacketType := 8
def subAck : PacketType := 9
def unsubscribe : PacketType := 10
def unsubAck : PacketType := 11
def pingReq : PacketType := 12
def pingResp : PacketType := 13
def disconnect : PacketType := 14

end PacketType

/-- The Last Will declared in a CONNECT packet. -/
structure WillMessage where
  topic : Bytes
  payload : Bytes
  qos : UInt8
  retain : Bool
  deriving DecidableEq, Repr

structure ConnectPacket where
  protocolName : Bytes
  protocolLevel : UInt8
  cleanSession : Bool
  keepAlive : UInt16
  clientID : Bytes
  will : Option WillMessage
  username : Option Bytes
  password : Option Bytes
  deriving DecidableEq, Repr

/-- The return codes of a CONNACK that the server sends. -/
inductive ConnAckReturnCode where
  | accepted
  | serverUnavailable
  | badCredentials
  | notAuthorized
  deriving DecidableEq, Repr

/-- The byte of a return code. -/
def ConnAckReturnCode.byte : ConnAckReturnCode → UInt8
  | .accepted => 0x00
  | .serverUnavailable => 0x03
  | .badCredentials => 0x04
  | .notAuthorized => 0x05

structure ConnAckPacket where
  sessionPresent : Bool
  returnCode : ConnAckReturnCode
  deriving DecidableEq, Repr

structure PublishPacket where
  topic : Bytes
  payload : Bytes
  retain : Bool
  dup : Bool
  qos : UInt8
  packetID : UInt16
  deriving DecidableEq, Repr

structure PubAckPacket where
  packetID : UInt16
  deriving DecidableEq, Repr

/-- An entry of a SUBSCRIBE packet. -/
structure SubscribeEntry where
  topic : Bytes
  qos : UInt8
  deriving DecidableEq, Repr

structure SubscribePacket where
  packetID : UInt16
  subscriptions : List SubscribeEntry
  deriving DecidableEq, Repr

structure SubAckPacket where
  packetID : UInt16
  returnCodes : Bytes
  deriving DecidableEq, Repr

structure UnsubscribePacket where
  packetID : UInt16
  topics : List Bytes
  deriving DecidableEq, Repr

structure UnsubAckPacket where
  packetID : UInt16
  deriving DecidableEq, Repr

/-- The `Packet` interface: one constructor for each packet type. -/
inductive Packet where
  | connect (p : ConnectPacket)
  | connAck (p : ConnAckPacket)
  | publish (p : PublishPacket)
  | pubAck (p : PubAckPacket)
  | subscribe (p : SubscribePacket)
  | subAck (p : SubAckPacket)
  | unsubscribe (p : UnsubscribePacket)
  | unsubAck (p : UnsubAckPacket)
  | pingReq
  | pingResp
  | disconnect
  deriving DecidableEq, Repr

end OrbMQ
