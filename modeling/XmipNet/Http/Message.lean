import XmipNet.Http.Body

/-!
# One HTTP/1.1 message as it is written

The first line, the headers, the framing its body needs, the body and, where it
has one, the trailer. What is written is a head of lines and the octets of the
body it frames.
-/

namespace XmipNet
namespace Http

open Head (fieldLine lineOctets writeFields)

/-- One message as it is written: whether the connection is said to close after
it where its headers name no `Connection`, and whether it is an answer that
carries no body and states no length. -/
structure Message where
  first : String
  headers : List Pair
  body : List UInt8
  trailers : List Pair
  close : Bool
  bodiless : Bool

namespace Message

/-- The line that says the connection closes. -/
def closing (message : Message) : String :=
  if message.close ∧ find message.headers "connection" = none then
    "Connection: close\r\n"
  else
    ""

/-- What is written before the body and after it. -/
def parts (message : Message) : String × String :=
  let first := message.first
  let fields := writeFields "" message.headers
  let close := message.closing
  let length := message.body.length
  if message.bodiless then
    (first ++ "\r\n" ++ fields ++ close ++ "\r\n", "")
  else if message.trailers = [] then
    (first ++ "\r\n" ++ fields ++ "Content-Length: " ++ toString length ++
      "\r\n" ++ close ++ "\r\n", "")
  else
    let chunk :=
      if message.body = [] then "" else Text.toHex length ++ "\r\n"
    let ending := if message.body = [] then "" else "\r\n"
    (first ++ "\r\n" ++ fields ++ "Transfer-Encoding: chunked\r\n" ++ close ++
        "\r\n" ++ chunk,
      ending ++ "0\r\n" ++ writeFields "" message.trailers ++ "\r\n")

/-- Write all of `bytes`. -/
def put (bytes : List UInt8) : Fallible Wire IoError Unit :=
  fun wire => wire.writeAll bytes

/-- Flush what was written. -/
def flush : Fallible Wire IoError Unit :=
  fun wire => wire.flush

/-- Write a message, flushed; `what` says what is written. -/
def write (message : Message) (what : String) :
    Fallible Wire NetError Unit :=
  Fallible.mapError (.fromIo s!"writing {what}") do
    let (head, tail) := message.parts
    let body := if message.bodiless then [] else message.body
    put (Text.octets head)
    put body
    put (Text.octets tail)
    flush

/-! ## The octets of a message -/

/-- The field that says the connection closes. -/
def closeFields (message : Message) : List Pair :=
  if message.close ∧ find message.headers "connection" = none then
    [("Connection", "close")]
  else
    []

/-- The fields the writer adds. -/
def framing (message : Message) : List Pair :=
  (if message.bodiless then
    []
  else if message.trailers = [] then
    [("Content-Length", toString message.body.length)]
  else
    [("Transfer-Encoding", "chunked")]) ++ message.closeFields

/-- The lines of a message's head. -/
def lines (message : Message) : List String :=
  message.first :: (message.headers ++ message.framing).map fieldLine

/-- What follows a message's head. -/
def content (message : Message) : List UInt8 :=
  if message.bodiless then
    []
  else if message.trailers = [] then
    message.body
  else
    Body.oneChunk message.body ++ (lineOctets "0" ++
      ((message.trailers.map fieldLine).flatMap lineOctets ++ [13, 10]))

/-- The octets of a whole message. -/
def octets (message : Message) : List UInt8 :=
  message.lines.flatMap lineOctets ++ ([13, 10] ++ message.content)

theorem octets_closing (message : Message) :
    Text.octets message.closing =
      (message.closeFields.map fieldLine).flatMap lineOctets := by
  rw [closing, closeFields]
  split <;> rfl

theorem octets_crlf : Text.octets "\r\n" = [13, 10] := rfl

theorem octets_parts (message : Message) :
    Text.octets message.parts.1 ++
        ((if message.bodiless then [] else message.body) ++
          Text.octets message.parts.2) =
      message.octets := by
  have fields := Head.writeFields_eq "" message.headers
  have trailer := Head.writeFields_eq "" message.trailers
  have nothing : Text.octets "" = [] := rfl
  have coded : Text.octets "Transfer-Encoding: chunked\r\n" =
      lineOctets (fieldLine ("Transfer-Encoding", "chunked")) := rfl
  have last : Text.octets "0\r\n" = lineOctets "0" := rfl
  have stated : Text.octets "Content-Length: " = Text.octets "Content-Length" ++
      Text.octets ": " := rfl
  rw [nothing, List.nil_append] at fields trailer
  rw [octets, lines, parts, content, framing]
  simp only [List.map_append, List.flatMap_append, List.flatMap_cons]
  by_cases bodiless : message.bodiless = true
  · simp only [if_pos bodiless, Text.octets_append, octets_closing, fields,
      octets_crlf, nothing, lineOctets, List.append_assoc, List.map_nil,
      List.flatMap_nil, List.nil_append, List.append_nil]
  · simp only [if_neg bodiless]
    by_cases plain : message.trailers = []
    · simp only [if_pos plain, Text.octets_append, octets_closing, fields,
        octets_crlf, nothing, stated, lineOctets, Head.octets_fieldLine,
        List.append_assoc, List.map_nil, List.map_cons, List.flatMap_nil,
        List.flatMap_cons, List.append_nil]
    · simp only [if_neg plain]
      by_cases empty : message.body = []
      · simp only [if_pos empty, Text.octets_append, octets_closing, fields,
          trailer, octets_crlf, nothing, coded, last, Body.oneChunk, lineOctets,
          Head.octets_fieldLine, List.append_assoc, List.map_nil, List.map_cons,
          List.flatMap_nil, List.flatMap_cons, List.nil_append, List.append_nil]
        rw [empty, List.nil_append]
      · simp only [if_neg empty, Text.octets_append, octets_closing, fields,
          trailer, octets_crlf, coded, last, Body.oneChunk, lineOctets,
          Head.octets_fieldLine, List.append_assoc, List.map_nil, List.map_cons,
          List.flatMap_nil, List.flatMap_cons, List.append_nil]

open Fallible (Ensures)

theorem ensures_put (bytes : List UInt8) (wire : Wire) :
    Ensures (put bytes) wire
      (fun _ after => after.written = wire.written ++ bytes ∧
        after.incoming = wire.incoming)
      fun _ _ => True := by
  rw [Ensures, put, Wire.writeAll]
  split
  next accepts =>
    split at accepts
    · cases accepts
      exact ⟨rfl, rfl⟩
    · cases accepts
      exact ⟨rfl, rfl⟩
    · cases accepts
  · trivial

theorem write_eq (message : Message) (what : String) :
    message.write what = Fallible.mapError (.fromIo s!"writing {what}") (do
      put (Text.octets message.parts.1)
      put (if message.bodiless then [] else message.body)
      put (Text.octets message.parts.2)
      flush) :=
  rfl

/-- A message that was written put its octets on the connection. -/
theorem written_of_write
    {message : Message}
    {what : String}
    {wire after : Wire}
    (writes : message.write what wire = (.ok (), after)) :
    after.written = wire.written ++ message.octets ∧
      after.incoming = wire.incoming := by
  have ensures : Ensures (message.write what) wire
      (fun _ after => after.written = wire.written ++ message.octets ∧
        after.incoming = wire.incoming)
      fun _ _ => True := by
    rw [write_eq, Fallible.ensures_mapError]
    simp only [Fallible.ensures_bind]
    refine (ensures_put _ wire).mono ?_ fun _ _ _ => trivial
    rintro _ first ⟨headWritten, sameFirst⟩
    refine (ensures_put _ first).mono ?_ fun _ _ _ => trivial
    rintro _ second ⟨bodyWritten, sameSecond⟩
    refine (ensures_put _ second).mono ?_ fun _ _ _ => trivial
    rintro _ third ⟨tailWritten, sameThird⟩
    refine (ensures_put [] third).mono ?_ fun _ _ _ => trivial
    rintro _ last ⟨flushed, sameLast⟩
    constructor
    · rw [flushed, tailWritten, bodyWritten, headWritten, ← octets_parts,
        List.append_nil, List.append_assoc, List.append_assoc]
    · rw [sameLast, sameThird, sameSecond, sameFirst]
  rwa [Ensures, writes] at ensures

end Message
end Http
end XmipNet
