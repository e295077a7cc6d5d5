import NarrowLink.Hex
import NarrowLink.Wire.Header

/-!
# What can go wrong

`Error` lists the causes for which a call is refused or a packet is dropped. Each has one text
(`Error.message`) and one class (`Error.classification`), which decides who deals with it: malformed
and corrupt input and packets that do not fit the state of a connection are dropped where they are
noticed, while full queues and a missing link are reported to the caller, who may try again
(`Error.isRetryable`).
-/

namespace NarrowLink

open Wire (Flags Header)

/-- Failures of a byte stream. Those that change what is done next have constructors of their own. -/
inductive IoFault where
  | interrupted
  | brokenPipe
  | connectionReset
  | connectionAborted
  | notConnected
  | unexpectedEof
  | other (name : String)
deriving DecidableEq

/-- The name of the failure. -/
def IoFault.name : IoFault → String
  | .interrupted => "Interrupted"
  | .brokenPipe => "BrokenPipe"
  | .connectionReset => "ConnectionReset"
  | .connectionAborted => "ConnectionAborted"
  | .notConnected => "NotConnected"
  | .unexpectedEof => "UnexpectedEof"
  | .other name => name

/-- The failure with a given name. -/
def IoFault.ofName : String → IoFault
  | "Interrupted" => .interrupted
  | "BrokenPipe" => .brokenPipe
  | "ConnectionReset" => .connectionReset
  | "ConnectionAborted" => .connectionAborted
  | "NotConnected" => .notConnected
  | "UnexpectedEof" => .unexpectedEof
  | name => .other name

theorem IoFault.name_ofName (name : String) : (IoFault.ofName name).name = name := by
  unfold IoFault.ofName
  split <;> rfl

/-- Why a link did not take a frame. -/
inductive LinkError where
  /-- The link is down; the frame may be offered again later. -/
  | unavailable
  | frameTooLarge (length : Nat)
  | io (fault : IoFault)
deriving DecidableEq

/-- The text of a link error. -/
def LinkError.message : LinkError → String
  | .unavailable => "link is down"
  | .frameTooLarge n => "frame of " ++ toString n ++ " bytes exceeds the link's frame size"
  | .io f => "IO error on link: " ++ f.name

/-- Why bytes are not a packet, a header or a length record. -/
inductive Malformation where
  | shortHeader (length : Nat)
  | unsupportedKind (code : Nat)
  | reservedSourceBit (byte : UInt8)
  | unsupportedFlags (byte : UInt8)
  | shortFrame (length : Nat)
  | lengthMismatch (declared actual : Nat)
  | shortLengthRecord (length : Nat)
  | described (text : String)
deriving DecidableEq

/-- The text of a malformation. -/
def Malformation.message : Malformation → String
  | .shortHeader n => "header needs 12 bytes, got " ++ toString n
  | .unsupportedKind c => "unsupported message type " ++ toString c
  | .reservedSourceBit b => "reserved bit set in source port " ++ Hex.digits b.toNat
  | .unsupportedFlags b => "unsupported flags " ++ Hex.digits b.toNat
  | .shortFrame n => "frame of " ++ toString n ++ " bytes is shorter than a packet header"
  | .lengthMismatch d a =>
    "declared PDU length " ++ toString d ++ " does not match the " ++ toString a ++ " bytes received"
  | .shortLengthRecord n => "length record needs 20 bytes, got " ++ toString n
  | .described t => t

/-- Why a well-formed packet does not fit the state of its connection. -/
inductive Inconsistency where
  | emptySack
  | sackLength (ranges bytes : Nat)
  | alreadyOpen
  | notWelcoming (flags : Flags)
  | wrongWelcome (ack next : UInt8)
  | otherOpening
  | notConfirming (header : Header)
  | unexpectedSyn (header : Header)
  | partingWithoutClosing
  | closingOutOfOrder (relSeq expected : UInt8)
  | outsideWindow (relSeq expected : UInt8)
  | described (text : String)
deriving DecidableEq

/-- The text of an inconsistency. -/
def Inconsistency.message : Inconsistency → String
  | .emptySack => "empty SACK payload"
  | .sackLength n b =>
    "SACK announces " ++ toString n ++ " ranges, but has " ++ toString b ++ " bytes of range data"
  | .alreadyOpen => "SYN for a connection that is already open"
  | .notWelcoming f => "expected SYN+ACK, got " ++ f.text
  | .wrongWelcome a n =>
    "SYN+ACK acknowledges " ++ toString a ++ ", but next sequence number is " ++ toString n
  | .otherOpening => "SYN with a different initial sequence number"
  | .notConfirming h => "expected an ACK for SYN+ACK, got " ++ h.text
  | .unexpectedSyn h => "unexpected SYN on open connection: " ++ h.text
  | .partingWithoutClosing => "FIN+ACK without a preceding FIN"
  | .closingOutOfOrder r e =>
    "FIN with sequence number " ++ toString r ++ " while expecting " ++ toString e
  | .outsideWindow r e =>
    "sequence number " ++ toString r ++ " is outside the receive window starting at " ++ toString e
  | .described t => t

/-- Who deals with an error. -/
inductive ErrorClass where
  | structural
  | integrity
  | protocolState
  | resourceExhaustion
  | connectivity
deriving DecidableEq

/-- The reasons for which a call is refused or a packet is dropped. -/
inductive Error where
  | malformed (why : Malformation)
  | crcMismatch (received calculated : UInt16)
  | corruptLength
  | inconsistent (why : Inconsistency)
  | notConnected (port : UInt8)
  | queueFull
  | portBusy (port : UInt8)
  | portNotOpen (port : UInt8)
  | portNotBound (port : UInt8)
  | alreadyClosing (port : UInt8)
  | invalidPort (port : UInt8)
  | messageTooLarge (length limit : Nat)
  | linkUnavailable
  | link (cause : LinkError)
  | io (fault : IoFault)
  | stopped
deriving DecidableEq

namespace Error

/-- The text of an error. -/
def message : Error → String
  | .malformed w => "malformed packet: " ++ w.message
  | .crcMismatch r c =>
    "CRC mismatch: packet carries " ++ Hex.padded 4 r.toNat ++ ", calculated " ++ Hex.padded 4 c.toNat
  | .corruptLength => "redundant length record has no majority"
  | .inconsistent w => "packet inconsistent with connection state: " ++ w.message
  | .notConnected p => "port " ++ toString p ++ " is not connected"
  | .queueFull => "queue is full"
  | .portBusy p => "port " ++ toString p ++ " is busy"
  | .portNotOpen p => "port " ++ toString p ++ " has no open connection"
  | .portNotBound p => "port " ++ toString p ++ " has no bound application"
  | .alreadyClosing p => "connection on port " ++ toString p ++ " is already closing"
  | .invalidPort p => "port " ++ toString p ++ " is outside the 7 bit port space"
  | .messageTooLarge n m =>
    "message of " ++ toString n ++ " bytes exceeds the maximum of " ++ toString m ++ " bytes"
  | .linkUnavailable => "link is unavailable"
  | .link e => "link error: " ++ e.message
  | .io f => "IO error: " ++ f.name
  | .stopped => "protocol engine is stopped"

/-- The class of an error. -/
def classification : Error → ErrorClass
  | .malformed _ | .invalidPort _ | .messageTooLarge _ _ => .structural
  | .crcMismatch _ _ | .corruptLength => .integrity
  | .inconsistent _ | .notConnected _ | .portBusy _ | .portNotOpen _ | .portNotBound _
  | .alreadyClosing _ => .protocolState
  | .queueFull => .resourceExhaustion
  | .linkUnavailable | .link _ | .io _ | .stopped => .connectivity

/-- The same call may succeed later. -/
def isRetryable : Error → Bool
  | .queueFull | .linkUnavailable => true
  | _ => false

end Error

end NarrowLink
