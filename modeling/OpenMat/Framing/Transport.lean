import OpenMat.Bytes.Reader
import OpenMat.Fallible.Basic
import OpenMat.Text.Unicode

/-!
This module contains the framing of messages with a header for their length. The reader does not fail, it only
ends.
-/

namespace OpenMat
namespace Framing

open Bytes Text

def maxMessageBytes : Nat := 16 * 1024 * 1024

def maxHeaderLineBytes : Nat := 8 * 1024

inductive FramingError where
  | headerTooLarge
  | invalidHeader (header : List Char)
  | missingContentLength
  | duplicateContentLength
  | invalidContentLength (value : List Char)
  | messageTooLarge (length maximum : Nat)
  | unexpectedHeaderEof
  | unexpectedBodyEof (expected received : Nat)
  deriving DecidableEq, Repr

/-! Texts of headers. -/

/-- The characters with the property White_Space. -/
def isWhitespace (c : Char) : Bool :=
  (0x9 ≤ c.toNat && c.toNat ≤ 0xd) || (0x2000 ≤ c.toNat && c.toNat ≤ 0x200a) ||
    [0x20, 0x85, 0xa0, 0x1680, 0x2028, 0x2029, 0x202f, 0x205f, 0x3000].contains c.toNat

def trim (text : List Char) : List Char :=
  ((text.dropWhile isWhitespace).reverse.dropWhile isWhitespace).reverse

/-- The parts before and after the first separator. -/
def splitOnce (separator : Char) : List Char → Option (List Char × List Char)
  | [] => none
  | c :: rest =>
    if c = separator then
      some ([], rest)
    else
      (splitOnce separator rest).map fun parts => (c :: parts.1, parts.2)

def eqIgnoreAsciiCase (a b : List Char) : Bool := a.map Char.toLower = b.map Char.toLower

def parseDigits (value : Nat) : List Char → Option Nat
  | [] => some value
  | c :: rest => do
    if c.isDigit then
      let value ← checkedMul 64 value 10
      let value ← checkedAdd 64 value (c.toNat - 48)
      parseDigits value rest
    else
      none

/-- A sign may precede the digits, of which there is one at least. -/
def parseUsize : List Char → Option Nat
  | [] => none
  | ['+'] => none
  | ['-'] => none
  | '+' :: digits => parseDigits 0 digits
  | digits => parseDigits 0 digits

/-! Reading a message. -/

def newline : UInt8 := 0x0a

def carriageReturn : UInt8 := 0x0d

def popIf (byte : UInt8) (line : List UInt8) : List UInt8 :=
  if line.getLast? = some byte then line.dropLast else line

def parseContentLength (value : List Char) : Except FramingError Nat := do
  let value := trim value
  let length ← okOr (parseUsize value) (.invalidContentLength value)
  ensure (length ≤ maxMessageBytes) (.messageTooLarge length maxMessageBytes)
  .ok length

/-- The length after a header line. -/
def parseHeader (contentLength : Option Nat) (line : List UInt8) : Except FramingError (Option Nat) := do
  let header ← okOr (fromUtf8 line) (.invalidHeader "non-UTF-8 header".toList)
  let (name, value) ← okOr (splitOnce ':' header) (.invalidHeader header)
  if eqIgnoreAsciiCase (trim name) "content-length".toList then
    ensure (contentLength = none) .duplicateContentLength
    let length ← parseContentLength value
    .ok (some length)
  else
    .ok contentLength

theorem readUntil_lt {reader : Reader} (h : (reader.readUntil newline).1 ≠ [])
    : (reader.readUntil newline).2.bytes.length < reader.bytes.length := by
  obtain ⟨hline, hrest⟩ := reader.readUntil_eq newline
  have hlength := congrArg List.length (upTo_append reader.bytes newline)
  rw [List.length_append, ← hline, ← hrest] at hlength
  have hpos := List.length_pos_iff.mpr h
  omega

/-- The lines up to the empty one. The end of the stream before the first line is no failure. -/
def readHeaders (contentLength : Option Nat) (readAnyHeaderBytes : Bool) (reader : Reader)
    : Except FramingError (Option (Option Nat)) × Reader :=
  let line := (reader.readUntil newline).1
  if _h : line = [] then
    (if readAnyHeaderBytes then .error .unexpectedHeaderEof else .ok none, (reader.readUntil newline).2)
  else if maxHeaderLineBytes < line.length then
    (.error .headerTooLarge, (reader.readUntil newline).2)
  else
    let line := popIf carriageReturn (popIf newline line)
    if line = [] then
      (.ok (some contentLength), (reader.readUntil newline).2)
    else
      match parseHeader contentLength line with
      | .error e => (.error e, (reader.readUntil newline).2)
      | .ok contentLength => readHeaders contentLength true (reader.readUntil newline).2
termination_by reader.bytes.length
decreasing_by exact readUntil_lt ‹_›

def readBody (length : Nat) (received : List UInt8) (reader : Reader)
    : Except FramingError (List UInt8) × Reader :=
  if _h : received.length < length then
    let part := (reader.read (length - received.length)).1
    if _hpart : part = [] then
      (.error (.unexpectedBodyEof length received.length), (reader.read (length - received.length)).2)
    else
      readBody length (received ++ part) (reader.read (length - received.length)).2
  else
    (.ok received, reader)
termination_by length - received.length
decreasing_by
  have hpos : 0 < (reader.read (length - received.length)).1.length := List.length_pos_iff.mpr _hpart
  rw [List.length_append]
  omega

/-- A message, or none at the end of the stream. -/
def readMessage (reader : Reader) : Except FramingError (Option (List UInt8)) × Reader :=
  match readHeaders none false reader with
  | (.error e, reader) => (.error e, reader)
  | (.ok none, reader) => (.ok none, reader)
  | (.ok (some none), reader) => (.error .missingContentLength, reader)
  | (.ok (some (some length)), reader) =>
    match readBody length [] reader with
    | (.error e, reader) => (.error e, reader)
    | (.ok body, reader) => (.ok (some body), reader)

/-! Writing a message. -/

/-- The bytes of a message with its header. -/
def writeMessage (body : List UInt8) : List UInt8 :=
  utf8 ("Content-Length: ".toList ++ Nat.toDigits 10 body.length ++ "\r\n\r\n".toList) ++ body

/-- What a number of calls return, one after the other. -/
def readMessages : Nat → Reader → List (Except FramingError (Option (List UInt8)))
  | 0, _ => []
  | count + 1, reader => (readMessage reader).1 :: readMessages count (readMessage reader).2

end Framing
end OpenMat
