import Mathlib.Data.Option.Basic
import Doover.Doubles
import Doover.Events
import Doover.Snowflake

/-! # RPC commands

A command is a message on a channel: its `method`, its `request`, and guards that
say when it must not be acted upon any more.  It may carry a lifetime, counted from
the time in its snowflake id, and its issuer withdraws it by patching its status to
an `error` with a marker.

`acceptRequest` is the filter of `RpcManager`: which handler an event runs, if any.
-/

namespace Doover
open Json

/-! ## Expiry -/

/-- The absolute expiry of a command in unix milliseconds; `i64` addition wraps. -/
def commandExpiresAt (messageId : ℕ) (data : Json) : Option ℤ := do
  let expiresAfter ← (← data.get? "expires_after").asF64
  some (Int.bmod (unixMillisFromSnowflake messageId + f64AsI64 expiresAfter) (2 ^ 64))

/-- Whether the expiry has passed at `now`; without one a command never expires. -/
def commandIsExpired (messageId : ℕ) (data : Json) (now : ℤ) : Bool :=
  (commandExpiresAt messageId data).any fun expiresAt => now ≥ expiresAt

/-! ## Cancellation -/

def isCancelledText (s : String) : Bool :=
  let s := (trim s.toList).map Char.toLower
  s == "command cancelled".toList || s == "command canceled".toList

/-- Whether a `status` block marks the command as cancelled: an `error` whose message
says so, as text or by a marker field. -/
def statusIsCancelled (status : Json) : Bool :=
  if (status.get? "code").bind asStr ≠ some "error" then false
  else
    match status.get? "message" with
    | some (.string text) => isCancelledText text
    | some (.object message) =>
      if message.containsKey "cancelled_at" || message.containsKey "cancelled_by" then true
      else ((message.get? "info").bind asStr).any isCancelledText
    | _ => false

/-- Whether the command was withdrawn before it arrived. -/
def commandIsCancelled (data : Json) : Bool := (data.get? "status").any statusIsCancelled

/-! ## Filters

A filter is a chain of lookups and guards; it passes when each of them does. -/

theorem isSome_bind_iff {α β : Type} {x : Option α} {f : α → Option β} :
    (x >>= f).isSome = true ↔ ∃ a, x = some a ∧ (f a).isSome = true := by
  cases x with
  | none => exact iff_of_false Bool.false_ne_true fun ⟨_, h, _⟩ => nomatch h
  | some a => simp

/-! ## Requests -/

/-- A command that is going to run. -/
structure RpcRequest (H : Type) where
  method : String
  channel : String
  payload : Json
  handler : H
  /-- `none` for a one-shot, which cannot be responded to. -/
  messageId : Option ℕ
  /-- Set for one-shots too. -/
  requestMessageId : Option ℕ
  data : Json

/-- The part of the manager that decides about requests. -/
structure RpcManager (H : Type) where
  /-- Requests for another app are rejected. -/
  appKey : Option String
  /-- Handlers by channel and method; a `none` channel matches any. -/
  handlers : IndexMap (Option String × String) H

namespace RpcManager
variable {H : Type} (m : RpcManager H)

def getHandler (channel method : String) : Option H :=
  (m.handlers.get? (some channel, method)).or (m.handlers.get? (none, method))

/-- The request an event carries, if it passes the filter: a handler runs on it. -/
def acceptRequest (now : ℤ) (ev : Event) : Option (RpcRequest H) := do
  let data ← ev.messageData
  guard ((data.get? "type").bind asStr = some "rpc")
  let method ← (data.get? "method").bind asStr
  -- a request stamped for another app is not ours
  guard (((data.get? "app_key").bind asStr).all fun target => m.appKey = some target)
  let payload ← data.get? "request"
  guard (!(ev.messageId.any fun id => commandIsExpired id data now))
  guard (!commandIsCancelled data)
  let handler ← m.getHandler ev.channel method
  some
    { method, channel := ev.channel, payload, handler
      messageId := if ev.isOneShot then none else ev.messageId
      requestMessageId := ev.messageId, data }

/-- What `handle_event` runs a handler on. -/
def runs (now : ℤ) (ev : Event) : Option (RpcRequest H) :=
  if ev.isMessageCreate || ev.isOneShot then m.acceptRequest now ev else none

end RpcManager
end Doover
