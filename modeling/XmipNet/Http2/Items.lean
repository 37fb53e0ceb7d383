import XmipNet.Http2.Core

/-!
# Frames read into what they say

The frames of every stream come on one connection, and the header blocks of all
of them are decoded with one table. Read in the order they came, the frames give
items, each on its stream: some of a body, or a whole header block. What a
stream holds is a fold over its own items.
-/

namespace XmipNet
namespace Http2

open Hpack (Field)

/-- What came on a stream: some of a body, or a whole header block. -/
inductive Item
  | data (content : List UInt8) (ends : Bool)
  | block (fields : List Field) (ends : Bool)
  deriving DecidableEq

/-- What reading frames into items goes by: the table of the header blocks, and
the block that waits for its continuation. -/
structure Reader where
  decoder : Hpack.Decoder
  continuing : Option Continuing

namespace Reader

/-- A reader that has read nothing. -/
def initial : Reader where
  decoder := .new Settings.ours.headerTableSize
  continuing := none

/-- The header block a frame begins or goes on with: its stream, its octets and
whether it ends the stream. -/
def assembled (reader : Reader) (frame : Frame) :
    Option (Nat × List UInt8 × Bool) :=
  match frame.kind with
  | .headers =>
      match frame.content with
      | .ok octets => some (frame.stream, octets, frame.has endStream)
      | .error _ => none
  | .continuation =>
      reader.continuing.map fun waiting =>
        (waiting.stream, waiting.block ++ frame.payload, waiting.ends)
  | _ => none

/-- One frame read: the item it gives, if it gives one, and its stream. -/
def read (reader : Reader) (frame : Frame) : Reader × Option (Nat × Item) :=
  if frame.kind = .data then
    match frame.content with
    | .ok content =>
        (reader, some (frame.stream, .data content (frame.has endStream)))
    | .error _ => (reader, none)
  else
    match reader.assembled frame with
    | none => (reader, none)
    | some (id, octets, ends) =>
        if frame.has endHeaders then
          match reader.decoder.decode octets with
          | (.ok fields, decoder) =>
              ({ decoder, continuing := none }, some (id, .block fields ends))
          | (.error _, decoder) => ({ decoder, continuing := none }, none)
        else
          ({ reader with
            continuing := some { stream := id, block := octets, ends } }, none)

/-- The item a frame gives on `id`, if it gives one there. -/
def gives (reader : Reader) (frame : Frame) (id : Nat) : Option Item :=
  (reader.read frame).2.bind fun entry =>
    if entry.1 = id then some entry.2 else none

/-- Frames read one after another. -/
def readAll (reader : Reader) : List Frame → Reader × List (Nat × Item)
  | [] => (reader, [])
  | frame :: rest =>
      let (after, item) := reader.read frame
      let (last, items) := after.readAll rest
      (last, item.toList ++ items)

theorem readAll_append
    (reader : Reader)
    (frames later : List Frame) :
    reader.readAll (frames ++ later) =
      (((reader.readAll frames).1.readAll later).1,
        (reader.readAll frames).2 ++
          ((reader.readAll frames).1.readAll later).2) := by
  induction frames generalizing reader with
  | nil => rfl
  | cons frame rest inductionHypothesis =>
      simp only [List.cons_append, readAll, inductionHypothesis,
        List.append_assoc]

theorem readAll_singleton
    (reader : Reader)
    (frame : Frame) :
    reader.readAll [frame] =
      ((reader.read frame).1, (reader.read frame).2.toList) := by
  simp only [readAll, List.append_nil]

/-- A frame of another kind gives nothing and leaves the reader. -/
theorem read_of_other
    (reader : Reader)
    {frame : Frame}
    (data : frame.kind ≠ .data)
    (headers : frame.kind ≠ .headers)
    (continuation : frame.kind ≠ .continuation) :
    reader.read frame = (reader, none) := by
  have none : reader.assembled frame = none := by
    rw [assembled]
    split
    next kind => exact absurd kind headers
    next kind => exact absurd kind continuation
    · rfl
  rw [read, if_neg data, none]

theorem gives_of_other
    (reader : Reader)
    {frame : Frame}
    (data : frame.kind ≠ .data)
    (headers : frame.kind ≠ .headers)
    (continuation : frame.kind ≠ .continuation)
    (id : Nat) :
    reader.gives frame id = none := by
  rw [gives, reader.read_of_other data headers continuation]
  rfl

theorem read_of_data
    (reader : Reader)
    {frame : Frame}
    (kind : frame.kind = .data) :
    (reader.read frame).1 = reader ∧
      ∀ id, (frame.stream ≠ id → reader.gives frame id = none) ∧
        (frame.stream = id → ∀ content, frame.content = .ok content →
          reader.gives frame id =
            some (.data content (frame.has endStream))) := by
  cases holds : frame.content with
  | error violation =>
      have reads : reader.read frame = (reader, none) := by
        rw [read, if_pos kind, holds]
      refine ⟨by rw [reads], fun id => ⟨fun _ => ?_, fun _ _ same => ?_⟩⟩
      · rw [gives, reads]
        rfl
      · cases same
  | ok content =>
      have reads : reader.read frame = (reader,
          some (frame.stream, .data content (frame.has endStream))) := by
        rw [read, if_pos kind, holds]
      refine ⟨by rw [reads], fun id => ⟨fun other => ?_, fun own _ same => ?_⟩⟩
      · rw [gives, reads]
        exact if_neg other
      · cases same
        rw [gives, reads]
        exact if_pos own

theorem read_of_waiting
    {reader : Reader}
    {frame : Frame}
    (kind : frame.kind ≠ .data)
    {id : Nat}
    {octets : List UInt8}
    {ends : Bool}
    (assembles : reader.assembled frame = some (id, octets, ends))
    (onward : frame.has endHeaders = false) :
    reader.read frame =
      ({ reader with
        continuing := some { stream := id, block := octets, ends } }, none) := by
  rw [read, if_neg kind, assembles]
  simp only [onward, Bool.false_eq_true, if_false]

theorem read_of_decoded
    {reader : Reader}
    {frame : Frame}
    (kind : frame.kind ≠ .data)
    {id : Nat}
    {octets : List UInt8}
    {ends : Bool}
    (assembles : reader.assembled frame = some (id, octets, ends))
    (whole : frame.has endHeaders = true)
    {fields : List Field}
    {decoder : Hpack.Decoder}
    (decodes : reader.decoder.decode octets = (.ok fields, decoder)) :
    reader.read frame =
      ({ decoder, continuing := none }, some (id, .block fields ends)) := by
  rw [read, if_neg kind, assembles]
  simp only [whole, if_true, decodes]

end Reader

namespace Event

/-- The frame that was read, where one was. -/
def arrival : Event → Option Frame
  | received frame => some frame
  | emitted _ | passedOver _ | breached _ => none

/-- The frames read, in order. -/
def arrivals (events : List Event) : List Frame :=
  events.filterMap arrival

/-- The items that came, each on its stream. -/
def items (events : List Event) : List (Nat × Item) :=
  (Reader.initial.readAll (arrivals events)).2

/-- The items that came on `id`. -/
def came (events : List Event) (id : Nat) : List Item :=
  (items events).filterMap fun entry =>
    if entry.1 = id then some entry.2 else none

theorem arrivals_append
    (events later : List Event) :
    arrivals (events ++ later) = arrivals events ++ arrivals later :=
  List.filterMap_append

/-- An event that reads no frame. -/
theorem arrivals_log
    {events : List Event}
    {event : Event}
    (none : event.arrival = none) :
    arrivals (events ++ [event]) = arrivals events := by
  have empty : arrivals [event] = [] := by
    simp only [arrivals, List.filterMap_cons, none, List.filterMap_nil]
  rw [arrivals_append, empty, List.append_nil]

/-- Events that read no frame leave what came. -/
theorem came_of_arrivals
    {events later : List Event}
    (same : arrivals later = arrivals events)
    (id : Nat) :
    came later id = came events id := by
  rw [came, came, items, items, same]

/-- One more frame and the item it gives. -/
theorem came_of_received
    {events later : List Event}
    {frame : Frame}
    (one : arrivals later = arrivals events ++ [frame])
    {reader : Reader}
    (reads : (Reader.initial.readAll (arrivals events)).1 = reader)
    (id : Nat) :
    came later id = came events id ++ (reader.gives frame id).toList := by
  rw [came, came, items, items, one, Reader.readAll_append,
    Reader.readAll_singleton, List.filterMap_append, reads, Reader.gives]
  cases (reader.read frame).2 with
  | none => rfl
  | some entry =>
      by_cases own : entry.1 = id
      · simp [own]
      · simp [own]

end Event

/-- What a stream holds of the items that came on it. -/
structure Held where
  head : Option (List Field)
  body : List UInt8
  trailers : List Field
  ended : Bool

namespace Held

/-- A stream on which nothing has come. -/
def nothing : Held where
  head := none
  body := []
  trailers := []
  ended := false

/-- One more item: a body grows; of the blocks that are not informational the
first is the head and the next the trailers. -/
def take (held : Held) : Item → Held
  | .data content ends =>
      { held with body := held.body ++ content, ended := held.ended || ends }
  | .block fields ends =>
      if Stream.informational fields then
        { held with ended := held.ended || ends }
      else if held.head.isNone then
        { held with head := some fields, ended := held.ended || ends }
      else
        { held with trailers := fields, ended := held.ended || ends }

/-- What a stream holds of `items`. -/
def of (items : List Item) : Held :=
  items.foldl take nothing

theorem of_append_singleton
    (items : List Item)
    (item : Item) :
    of (items ++ [item]) = (of items).take item := by
  rw [of, List.foldl_append]
  rfl

/-- What a stream that holds `held` can take: anything until it has ended, but
after the head only a block that is informational or ends it. -/
def Fits (held : Held) (item : Item) : Prop :=
  held.ended = false ∧ ∀ fields ends, item = .block fields ends →
    Stream.informational fields = true ∨ held.head = none ∨ ends = true

/-- Items each of which fits what the ones before it give. -/
inductive Orderly : List Item → Prop
  | nothing : Orderly []
  | more {items : List Item} {item : Item}
      (orderly : Orderly items)
      (fits : (of items).Fits item) :
      Orderly (items ++ [item])

end Held

namespace Item

/-- The octets of a body. -/
def contents : List Item → List UInt8
  | [] => []
  | .data content _ :: rest => content ++ contents rest
  | .block _ _ :: rest => contents rest

/-- The header blocks that are not informational, each with whether it ends the
stream. -/
def finals : List Item → List (List Field × Bool)
  | [] => []
  | .data _ _ :: rest => finals rest
  | .block fields ends :: rest =>
      if Stream.informational fields then
        finals rest
      else
        (fields, ends) :: finals rest

theorem contents_append
    (items later : List Item) :
    contents (items ++ later) = contents items ++ contents later := by
  induction items with
  | nil => rfl
  | cons item rest inductionHypothesis =>
      cases item with
      | data content ends =>
          rw [List.cons_append, contents, contents, inductionHypothesis,
            List.append_assoc]
      | block fields ends =>
          rw [List.cons_append, contents, contents, inductionHypothesis]

theorem finals_append
    (items later : List Item) :
    finals (items ++ later) = finals items ++ finals later := by
  induction items with
  | nil => rfl
  | cons item rest inductionHypothesis =>
      cases item with
      | data content ends =>
          rw [List.cons_append, finals, finals, inductionHypothesis]
      | block fields ends =>
          rw [List.cons_append, finals, finals, inductionHypothesis]
          split
          · rfl
          · rfl

end Item

namespace Held

/-- What orderly items give: the octets of the body in the order they came, the
first block that is not informational as the head, and a second, which ends the
stream, as the trailers. -/
structure Shape (items : List Item) : Prop where
  body : (of items).body = Item.contents items
  head : (of items).head = (Item.finals items)[0]?.map Prod.fst
  trailers : (of items).trailers =
    ((Item.finals items)[1]?.map Prod.fst).getD []
  few : (Item.finals items).length ≤ 1 ∨
    (of items).ended = true ∧
      ∃ first fields, Item.finals items = [first, (fields, true)]

theorem Orderly.shape
    {items : List Item}
    (orderly : Orderly items) :
    Shape items := by
  induction orderly with
  | nothing => exact ⟨rfl, rfl, rfl, Or.inl (Nat.zero_le 1)⟩
  | @more items item orderly fits shape =>
      obtain ⟨open_, allowed⟩ := fits
      have one : (Item.finals items).length ≤ 1 := by
        rcases shape.few with few | ⟨ended, _⟩
        · exact few
        · cases ended.symm.trans open_
      have body := shape.body
      have head := shape.head
      have trailers := shape.trailers
      cases item with
      | data content ends =>
          refine ⟨?_, ?_, ?_, Or.inl ?_⟩
          · rw [of_append_singleton, Item.contents_append, ← body]
            simp only [take, Item.contents, List.append_nil]
          · rw [of_append_singleton, Item.finals_append]
            simpa only [take, Item.finals, List.append_nil] using head
          · rw [of_append_singleton, Item.finals_append]
            simpa only [take, Item.finals, List.append_nil] using trailers
          · rw [Item.finals_append]
            simpa only [Item.finals, List.append_nil] using one
      | block fields ends =>
          have unbodied : Item.contents (items ++ [.block fields ends]) =
              Item.contents items := by
            rw [Item.contents_append]
            exact List.append_nil _
          by_cases replaced : Stream.informational fields = true
          · have same : Item.finals (items ++ [.block fields ends]) =
                Item.finals items := by
              rw [Item.finals_append, Item.finals, if_pos replaced]
              exact List.append_nil _
            refine ⟨?_, ?_, ?_, Or.inl (same ▸ one)⟩ <;>
              rw [of_append_singleton, take, if_pos replaced]
            · rw [unbodied, ← body]
            · rw [same, ← head]
            · rw [same, ← trailers]
          · have more : Item.finals (items ++ [.block fields ends]) =
                Item.finals items ++ [(fields, ends)] := by
              rw [Item.finals_append, Item.finals, if_neg replaced]
              rfl
            cases first : Item.finals items with
            | nil =>
                rw [first] at head trailers more
                have missing : (of items).head.isNone = true := by
                  rw [head]
                  rfl
                refine ⟨?_, ?_, ?_, Or.inl (by rw [more]; rfl)⟩ <;>
                  rw [of_append_singleton, take, if_neg replaced,
                    if_pos missing]
                · rw [unbodied, ← body]
                · rw [more]
                  rfl
                · rw [more, trailers]
                  rfl
            | cons final rest =>
                rw [first, List.length_cons] at one
                have none : rest = [] :=
                  List.length_eq_zero_iff.mp (by omega)
                rw [none] at first
                rw [first] at head trailers more
                have there : ¬(of items).head.isNone = true := by
                  rw [head]
                  exact Bool.false_ne_true
                have ended : ends = true := by
                  rcases allowed fields ends rfl with given | missing | given
                  · exact absurd given replaced
                  · rw [missing] at there
                    exact absurd rfl there
                  · exact given
                refine ⟨?_, ?_, ?_, Or.inr ⟨?_, final, fields, ?_⟩⟩
                · rw [of_append_singleton, take, if_neg replaced, if_neg there,
                    unbodied, ← body]
                · rw [of_append_singleton, take, if_neg replaced, if_neg there,
                    more]
                  exact head
                · rw [of_append_singleton, take, if_neg replaced, if_neg there,
                    more]
                  rfl
                · rw [of_append_singleton, take, if_neg replaced, if_neg there,
                    ended]
                  exact Bool.or_true _
                · rw [more, ended]
                  rfl

end Held

end Http2
end XmipNet
