import MatrixTransposer.Lib.WordCodec

/-!
# `ClientServerMessage`

The messages on the socket. The type arrives as raw bytes, so it can have a value that the
enumeration does not name.
-/

namespace MatrixTransposer

inductive MessageType where
  | subscribe
  | unsubscribe
  | subscribeResponse
  | unknown (value : UInt32)
  deriving DecidableEq

/-- The value of the enumerator. -/
def MessageType.value : MessageType → UInt32
  | .subscribe => 0
  | .unsubscribe => 1
  | .subscribeResponse => 2
  | .unknown value => value

def MessageType.ofValue (value : UInt32) : MessageType :=
  if value = 0 then .subscribe
  else if value = 1 then .unsubscribe
  else if value = 2 then .subscribeResponse
  else .unknown value

structure ClientServerMessage where
  type : MessageType
  senderId : UInt32
  param1 : UInt32
  param2 : UInt32
  param3 : UInt32
  deriving DecidableEq

namespace ClientServerMessage

def processSubscribeMessage (message : ClientServerMessage) :
    Option (UInt32 × UInt32 × UInt32 × UInt32) :=
  if message.type ≠ .subscribe then none
  else some (message.senderId, message.param1, message.param2, message.param3)

def processUnsubscribeMessage (message : ClientServerMessage) : Option UInt32 :=
  if message.type ≠ .unsubscribe then none else some message.senderId

def generateSubscribeMessage (clientId m n k : UInt32) : ClientServerMessage :=
  { type := .subscribe, senderId := clientId, param1 := m, param2 := n, param3 := k }

/-- The parameters stay what they are in the message that is filled in. -/
def generateUnsubscribeMessage (message : ClientServerMessage) (clientId : UInt32) :
    ClientServerMessage :=
  { message with type := .unsubscribe, senderId := clientId }

def generateSubscribeResponseMessage
    (serverId serverSideClientId serverCapacity serverClientCount : UInt32) :
    ClientServerMessage :=
  { type := .subscribeResponse, senderId := serverId, param1 := serverSideClientId,
    param2 := serverCapacity, param3 := serverClientCount }

def processSubscribeResponseMessage (message : ClientServerMessage) :
    Option (UInt32 × UInt32 × UInt32 × UInt32) :=
  if message.type ≠ .subscribeResponse then none
  else some (message.senderId, message.param1, message.param2, message.param3)

/-! ## On the wire -/

/-- `sizeof(ClientServerMessage)`: the structure is packed. -/
def sizeInBytes : Nat := 20

/-- The bytes that `send` is given. -/
def encode (message : ClientServerMessage) : List UInt8 :=
  Lib.recordBytes
    [message.type.value, message.senderId, message.param1, message.param2, message.param3]

/-- What the handler finds in the assembly buffer. -/
def decode (bytes : List UInt8) : Option ClientServerMessage :=
  match Lib.recordOfBytes bytes with
  | [type, senderId, param1, param2, param3] =>
      some { type := .ofValue type, senderId := senderId, param1 := param1, param2 := param2,
             param3 := param3 }
  | _ => none

/-- The type is one that bytes can have. -/
def Proper (message : ClientServerMessage) : Prop :=
  MessageType.ofValue message.type.value = message.type

end ClientServerMessage

end MatrixTransposer
