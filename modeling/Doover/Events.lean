import Doover.JsonValue

/-! # Channel events

An event is its name, its channel and the payload as parsed; the accessors read
the fields that subscribers use.
-/

namespace Doover
open Json

/-! ## Unsigned integers in payloads -/

/-- Unicode `White_Space`, what `str::trim` takes off both ends. -/
def isWhitespace (c : Char) : Bool :=
  let n := c.toNat
  (0x9 ≤ n && n ≤ 0xD) || n == 0x20 || n == 0x85 || n == 0xA0 || n == 0x1680 ||
    (0x2000 ≤ n && n ≤ 0x200A) || n == 0x2028 || n == 0x2029 || n == 0x202F || n == 0x205F ||
    n == 0x3000

/-- `str::trim`. -/
def trim (s : List Char) : List Char :=
  ((s.dropWhile isWhitespace).reverse.dropWhile isWhitespace).reverse

/-- The value of decimal digits, or `none` at any other character. -/
def parseDigits (acc : ℕ) : List Char → Option ℕ
  | [] => some acc
  | c :: cs => if c.isDigit then parseDigits (acc * 10 + (c.toNat - 48)) cs else none

/-- `str::parse::<u64>`: an optional `+`, then at least one digit, the value in range. -/
def parseU64 (s : List Char) : Option ℕ :=
  let digits := match s with
    | '+' :: rest => rest
    | _ => s
  if digits.isEmpty then none
  else (parseDigits 0 digits).filter fun n => n < 2 ^ 64

def asU64 : Json → Option ℕ
  | .number n => n.asU64
  | .string s => parseU64 (trim s.toList)
  | _ => none

/-! ## Which kinds a subscriber wants -/

/-- A set of event kinds, one bit each. -/
structure EventSubscription where
  bits : BitVec 8
deriving DecidableEq

namespace EventSubscription

def NONE : EventSubscription := ⟨0⟩
def MESSAGE_CREATE : EventSubscription := ⟨1 <<< 0⟩
def MESSAGE_UPDATE : EventSubscription := ⟨1 <<< 1⟩
def AGGREGATE_UPDATE : EventSubscription := ⟨1 <<< 2⟩
def ONESHOT_MESSAGE : EventSubscription := ⟨1 <<< 3⟩
def CHANNEL_SYNC : EventSubscription := ⟨1 <<< 4⟩
def ALL : EventSubscription := ⟨0b11111⟩

def contains (self other : EventSubscription) : Bool := self.bits &&& other.bits == other.bits

def intersects (self other : EventSubscription) : Bool := self.bits &&& other.bits != 0

def bitor (self rhs : EventSubscription) : EventSubscription := ⟨self.bits ||| rhs.bits⟩

end EventSubscription

/-! ## Events -/

structure Event where
  eventName : String
  channel : String
  payload : Json

namespace Event

def AGGREGATE_UPDATE : String := "AggregateUpdate"
def MESSAGE_CREATE : String := "MessageCreate"
def MESSAGE_UPDATE : String := "MessageUpdate"
def ONE_SHOT_MESSAGE : String := "OneShotMessage"
def CHANNEL_SYNC : String := "ChannelSync"

/-- The event a subscription synthesizes from the aggregate it fetched first, so that
the boot state arrives the way later changes do. -/
def channelSync (channel : String) (aggregateData : Json) : Event :=
  ⟨CHANNEL_SYNC, channel,
    Json.ofList [("aggregate", Json.ofList [("data", aggregateData)])]⟩

def isAggregateUpdate (ev : Event) : Bool := ev.eventName == AGGREGATE_UPDATE
def isMessageCreate (ev : Event) : Bool := ev.eventName == MESSAGE_CREATE
def isMessageUpdate (ev : Event) : Bool := ev.eventName == MESSAGE_UPDATE
def isOneShot (ev : Event) : Bool := ev.eventName == ONE_SHOT_MESSAGE
def isChannelSync (ev : Event) : Bool := ev.eventName == CHANNEL_SYNC

/-- The kind of an event; an unknown name has none. -/
def subscriptionFlag (ev : Event) : EventSubscription :=
  if ev.eventName = MESSAGE_CREATE then .MESSAGE_CREATE
  else if ev.eventName = MESSAGE_UPDATE then .MESSAGE_UPDATE
  else if ev.eventName = AGGREGATE_UPDATE then .AGGREGATE_UPDATE
  else if ev.eventName = ONE_SHOT_MESSAGE then .ONESHOT_MESSAGE
  else if ev.eventName = CHANNEL_SYNC then .CHANNEL_SYNC
  else .NONE

/-- The whole aggregate an update or a sync carries. -/
def aggregateData (ev : Event) : Option Json := do
  (← ev.payload.get? "aggregate").get? "data"

/-- The diff that triggered an update. -/
def aggregateDiff (ev : Event) : Option Json := do
  (← ev.payload.get? "request_data").get? "data"

/-- The body of a message event. -/
def messageData (ev : Event) : Option Json := ev.payload.get? "data"

def messageId (ev : Event) : Option ℕ := do asU64 (← ev.payload.get? "id")

def authorId (ev : Event) : Option ℕ := do asU64 (← ev.payload.get? "author_id")

end Event
end Doover
