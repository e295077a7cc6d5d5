import NarrowLink.Wire.Header

/-!
# Configuration

`Config` holds the limits that both ends of a link agree on: the size of a frame, the bounds of the
queues, the number of fragments of a message, the transmission window and the times of
retransmission. `Config.validate` names the first limit that makes no sense. All times are in
milliseconds.
-/

namespace NarrowLink

open Wire (Header)

/-- The limits of an engine. -/
structure Config where
  /-- The greatest length of a frame, header and payload together. -/
  mtu : Nat := 1024
  /-- The bytes that the transmit queue holds, and those that the reassembly queue holds. -/
  queueCapacity : Nat := 1048576
  /-- The bytes that each of the two queues of a connection holds. -/
  connectionQueueCapacity : Nat := 65536
  /-- The greatest number of fragments of a message. -/
  maxFragments : Nat := 128
  /-- The number of packets that a connection has in flight without an acknowledgement. -/
  window : Nat := 64
  /-- The time after which a packet is sent again for the first time. -/
  timeout : Nat := 2000
  /-- The upper bound of the time between retransmissions. -/
  maxTimeout : Nat := 30000
  /-- The number of retransmissions of a packet before its connection is reset. -/
  maxRetransmissions : Nat := 5
  /-- The time between two looks at the timers. -/
  checkInterval : Nat := 100
  /-- The time that a send waits for room in its connection, if it waits at all. -/
  sendTimeout : Option Nat := some 5000
deriving DecidableEq

/-- Limits that make no sense. -/
inductive ConfigError where
  | noRoomForPayload (mtu : Nat)
  | payloadTooLong (mtu : Nat)
  | windowOutOfRange (window : Nat)
  | fragmentsOutOfRange (count : Nat)
  | queueBelowPacket (mtu : Nat)
  | timeoutAboveBound
deriving DecidableEq

/-- The text of a configuration error. -/
def ConfigError.message : ConfigError → String
  | .noRoomForPayload m =>
    "MTU of " ++ toString m ++ " does not leave room for a PDU after the 12 byte header"
  | .payloadTooLong m =>
    "MTU of " ++ toString m ++ " exceeds the maximum PDU length of 16383 bytes"
  | .windowOutOfRange w => "transmission window must be between 1 and 128, was " ++ toString w
  | .fragmentsOutOfRange n =>
    "max fragments per message must be between 1 and 128, was " ++ toString n
  | .queueBelowPacket m =>
    "queue capacities must hold at least one packet of " ++ toString m ++ " bytes"
  | .timeoutAboveBound => "retransmission timeout exceeds its own upper bound"

namespace Config

/-- The greatest length of a payload. -/
def maxPayload (c : Config) : Nat := c.mtu - Header.size

/-- The greatest length of a message. -/
def maxMessage (c : Config) : Nat := c.maxPayload * c.maxFragments

/-- Names the first limit that makes no sense. -/
def validate (c : Config) : Except ConfigError Unit :=
  if c.mtu ≤ Header.size then .error (.noRoomForPayload c.mtu)
  else if Header.maxPayload < c.maxPayload then .error (.payloadTooLong c.mtu)
  else if c.window = 0 ∨ 128 < c.window then .error (.windowOutOfRange c.window)
  else if c.maxFragments = 0 ∨ 128 < c.maxFragments then .error (.fragmentsOutOfRange c.maxFragments)
  else if c.queueCapacity < c.mtu ∨ c.connectionQueueCapacity < c.mtu then
    .error (.queueBelowPacket c.mtu)
  else if c.maxTimeout < c.timeout then .error .timeoutAboveBound
  else .ok ()

/-- All limits make sense. -/
structure Valid (c : Config) : Prop where
  mtu_gt : Header.size < c.mtu
  maxPayload_le : c.maxPayload ≤ Header.maxPayload
  window_pos : 0 < c.window
  window_le : c.window ≤ 128
  maxFragments_pos : 0 < c.maxFragments
  maxFragments_le : c.maxFragments ≤ 128
  mtu_le_queueCapacity : c.mtu ≤ c.queueCapacity
  mtu_le_connectionQueueCapacity : c.mtu ≤ c.connectionQueueCapacity
  timeout_le : c.timeout ≤ c.maxTimeout

theorem validate_eq_ok_iff (c : Config) : c.validate = .ok () ↔ c.Valid := by
  unfold validate
  constructor
  · intro h
    split at h
    · cases h
    split at h
    · cases h
    split at h
    · cases h
    split at h
    · cases h
    split at h
    · cases h
    split at h
    · cases h
    constructor <;> omega
  · rintro ⟨h₁, h₂, h₃, h₄, h₅, h₆, h₇, h₈, h₉⟩
    rw [if_neg (by omega), if_neg (by omega), if_neg (by omega), if_neg (by omega),
      if_neg (by omega), if_neg (by omega)]

end Config

end NarrowLink
