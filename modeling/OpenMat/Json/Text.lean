import Mathlib.Data.List.Basic

/-!
This module contains JSON values, the compact text that is written for them, and its length in bytes.
-/

namespace OpenMat

inductive Json where
  | null
  | bool (value : Bool)
  /-- A number, by its text. -/
  | number (text : String)
  | string (value : String)
  | array (items : List Json)
  | object (members : List (String × Json))
  deriving Repr

namespace Json

def nat (n : Nat) : Json := .number (toString n)

def hexDigit (n : Nat) : String := (Nat.digitChar n).toString

/-- The two characters that every JSON string must escape, the control characters that have a short
escape, and the other control characters. -/
def escapeChar (c : Char) : String :=
  match c with
  | '"' => "\\\""
  | '\\' => "\\\\"
  | '\x08' => "\\b"
  | '\t' => "\\t"
  | '\n' => "\\n"
  | '\x0c' => "\\f"
  | '\r' => "\\r"
  | c =>
    if c.toNat < 0x20 then
      "\\u00" ++ hexDigit (c.toNat / 16) ++ hexDigit (c.toNat % 16)
    else
      c.toString

def escapeChars : List Char → String
  | [] => ""
  | c :: cs => escapeChar c ++ escapeChars cs

def quote (s : String) : String := "\"" ++ escapeChars s.toList ++ "\""

mutual

def compact : Json → String
  | .null => "null"
  | .bool true => "true"
  | .bool false => "false"
  | .number text => text
  | .string value => quote value
  | .array items => "[" ++ compactItems items ++ "]"
  | .object members => "\x7b" ++ compactMembers members ++ "\x7d"

def compactItems : List Json → String
  | [] => ""
  | [item] => item.compact
  | item :: items => item.compact ++ "," ++ compactItems items

def compactMembers : List (String × Json) → String
  | [] => ""
  | [(name, value)] => quote name ++ ":" ++ value.compact
  | (name, value) :: members =>
    quote name ++ ":" ++ value.compact ++ "," ++ compactMembers members

end

example : (object [("a", .array [.nat 1, .bool true]), ("b", .string "x\n\"")]).compact
    = "\x7b\"a\":[1,true],\"b\":\"x\\n\\\"\"\x7d" := by
  decide +kernel

end Json
end OpenMat
