import XmipNet.Http2.Agreement

/-!
# Credit between two ends

What the connection's window lets a side send, what it has sent that has not come
yet, and what was given back that has not come yet: together they are the window
both sides start with, wherever two ends that talk to each other have come.
-/

namespace XmipNet
namespace Http2

open Event (Unbreached total)

namespace Frame

/-- The octets a frame takes from the connection's window. -/
def drawn (frame : Frame) : Nat :=
  if frame.kind = .data then frame.payload.length else 0

/-- The octets a frame gives back to the connection's window. -/
def returned (frame : Frame) : Nat :=
  if frame.kind = .windowUpdate ∧ frame.stream = 0 then
    frame.increment
  else
    0

end Frame

/-- What frames weigh together. -/
def weight (weigh : Frame → Nat) (frames : List Frame) : Nat :=
  (frames.map weigh).sum

/-- What one side said that has not come to the other. -/
def flying (speaker listener : List Event) : List Frame :=
  Duplex.inFlight Event.frame Event.arrival speaker listener

section Totals

variable {weigh : Frame → Nat} {events : List Event}

theorem total_of_sent
    {count : Event → Nat}
    (emitted : ∀ frame, count (.emitted frame) = weigh frame)
    (other : ∀ event, event.frame = none → count event = 0) :
    total count events = weight weigh (Event.sent events) := by
  induction events with
  | nil => rfl
  | cons event rest inductionHypothesis =>
      rw [total, List.map_cons, List.sum_cons, ← total, inductionHypothesis,
        weight, weight, Event.sent, Event.sent, List.filterMap_cons]
      cases event with
      | emitted frame => rw [emitted]; rfl
      | received | passedOver | breached => rw [other _ rfl, Nat.zero_add]; rfl

theorem total_of_arrivals
    {count : Event → Nat}
    (received : ∀ frame, count (.received frame) = weigh frame)
    (other : ∀ event, event.arrival = none → count event = 0) :
    total count events = weight weigh (Event.arrivals events) := by
  induction events with
  | nil => rfl
  | cons event rest inductionHypothesis =>
      rw [total, List.map_cons, List.sum_cons, ← total, inductionHypothesis,
        weight, weight, Event.arrivals, Event.arrivals, List.filterMap_cons]
      cases event with
      | received frame => rw [received]; rfl
      | emitted | passedOver | breached => rw [other _ rfl, Nat.zero_add]; rfl

/-- What was said weighs what has come of it and what is in flight. -/
theorem weight_of_heard
    {speaker listener : List Event}
    (heard : Event.arrivals listener <+: Event.sent speaker) :
    weight weigh (Event.sent speaker) =
      weight weigh (Event.arrivals listener) +
        weight weigh (flying speaker listener) := by
  have whole : listener.filterMap Event.arrival ++
      Duplex.inFlight Event.frame Event.arrival speaker listener =
        speaker.filterMap Event.frame := Duplex.heard_append_inFlight heard
  rw [Event.sent, ← whole, weight, weight, weight, List.map_append,
    List.sum_append]
  rfl

end Totals

end Http2
end XmipNet
