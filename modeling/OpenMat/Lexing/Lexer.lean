import OpenMat.Fallible.Basic
import OpenMat.Text.Unicode

/-!
This module contains the lexer. A text is a list of characters, the ranges of tokens are offsets of bytes.
-/

namespace OpenMat
namespace Lexing

open Text (utf8Length)

inductive TokenKind where
  | whitespace
  | newline
  | comment
  | identifier
  | number
  | charLiteral
  | stringLiteral
  | kwBreak
  | kwCase
  | kwCatch
  | kwClassdef
  | kwContinue
  | kwElse
  | kwElseif
  | kwEnd
  | kwEnumeration
  | kwEvents
  | kwFor
  | kwFunction
  | kwGlobal
  | kwIf
  | kwMethods
  | kwOtherwise
  | kwParfor
  | kwPersistent
  | kwProperties
  | kwReturn
  | kwSpmd
  | kwSwitch
  | kwTry
  | kwWhile
  | plus
  | minus
  | star
  | slash
  | backslash
  | caret
  | dotStar
  | dotSlash
  | dotBackslash
  | dotCaret
  | equal
  | equalEqual
  | notEqual
  | less
  | lessEqual
  | greater
  | greaterEqual
  | and
  | andAnd
  | or
  | orOr
  | tilde
  | colon
  | conjugateTranspose
  | dotTranspose
  | dot
  | at
  | lParen
  | rParen
  | lBracket
  | rBracket
  | lBrace
  | rBrace
  | comma
  | semicolon
  | ellipsis
  | error
  | eof
  deriving DecidableEq, Repr

namespace TokenKind

def isTrivia (kind : TokenKind) : Bool :=
  [whitespace, newline, comment, ellipsis].contains kind

def canEndExpression (kind : TokenKind) : Bool :=
  [identifier, number, charLiteral, stringLiteral, kwEnd, rParen, rBracket, rBrace, conjugateTranspose,
    dotTranspose].contains kind

end TokenKind

structure TextRange where
  start : Nat
  stop : Nat
  deriving DecidableEq, Repr

namespace TextRange

def empty (offset : Nat) : TextRange where
  start := offset
  stop := offset

end TextRange

structure Token where
  kind : TokenKind
  text : List Char
  range : TextRange
  deriving DecidableEq, Repr

structure Diagnostic where
  sourceId : Nat
  range : TextRange
  code : String
  message : String
  deriving DecidableEq, Repr

/-- The letters and the numbers of Unicode. Only those of ASCII are told. -/
structure CharClasses where
  isAlphabetic : Char → Bool
  isNumeric : Char → Bool
  ascii : ∀ c, c.toNat < 128 → isAlphabetic c = c.isAlpha ∧ isNumeric c = c.isDigit

namespace CharClasses

def isAlphanumeric (classes : CharClasses) (c : Char) : Bool :=
  classes.isAlphabetic c || classes.isNumeric c

end CharClasses

/-- The characters with the property `White_Space`. -/
def isWhitespace (c : Char) : Bool :=
  (9 ≤ c.toNat && c.toNat ≤ 13) || (0x2000 ≤ c.toNat && c.toNat ≤ 0x200a) ||
    [0x20, 0x85, 0xa0, 0x1680, 0x2028, 0x2029, 0x202f, 0x205f, 0x3000].contains c.toNat

def isLineEnd (c : Char) : Bool := c = '\r' || c = '\n'

/-- What the meaning of an apostrophe and of a line end depends on. -/
structure Context where
  previousSignificant : Option TokenKind
  matrixDepth : Nat
  horizontalTriviaSinceSignificant : Bool
  lineContinuationPending : Bool
  deriving DecidableEq, Repr

namespace Context

def new : Context where
  previousSignificant := none
  matrixDepth := 0
  horizontalTriviaSinceSignificant := false
  lineContinuationPending := false

def depthAfter (depth : Nat) (kind : TokenKind) : Nat :=
  match kind with
  | .lBracket => depth + 1
  | .lBrace => depth + 1
  | .rBracket => depth - 1
  | .rBrace => depth - 1
  | _ => depth

def push (context : Context) (kind : TokenKind) (text : List Char) : Context :=
  if !kind.isTrivia then
    {
      previousSignificant := some kind
      matrixDepth := depthAfter context.matrixDepth kind
      horizontalTriviaSinceSignificant := false
      lineContinuationPending := false
    }
  else if kind = .comment && text.any isLineEnd then
    { context with
      previousSignificant := none
      horizontalTriviaSinceSignificant := false
      lineContinuationPending := false
    }
  else
    context

end Context

/-- The kind of the next token, the number of its characters, and whether its end was found. -/
structure Scanned where
  kind : TokenKind
  width : Nat
  terminated : Bool
  deriving DecidableEq, Repr

section Scanning

/-- The number of characters before the first one that does not meet the predicate. -/
def widthWhile (p : Char → Bool) (text : List Char) : Nat := (text.takeWhile p).length

def lineWidth (text : List Char) : Nat := widthWhile (fun c => !isLineEnd c) text

/-- The number of characters before the end of a block comment. -/
def findBlockEnd : List Char → Option Nat
  | [] => none
  | c :: text => if c = '%' ∧ text.head? = some '}' then some 0 else (findBlockEnd text).map (· + 1)

def scanBlockComment (text : List Char) : Scanned :=
  match findBlockEnd (text.drop 2) with
  | some relativeEnd => ⟨.comment, 2 + relativeEnd + 2, true⟩
  | none => ⟨.comment, text.length, false⟩

def digitsEnd (text : List Char) (cursor : Nat) : Nat :=
  cursor + widthWhile Char.isDigit (text.drop cursor)

/-- A dot before these belongs to an operator. -/
def isDotOperator (c : Char) : Bool := ['*', '/', '\\', '^', '\''].contains c

def fractionEnd (text : List Char) (cursor : Nat) : Nat :=
  if text[cursor]? = some '.' ∧ text[cursor + 1]?.any isDotOperator = false then
    digitsEnd text (cursor + 1)
  else
    cursor

/-- The digits of an exponent begin after its sign. -/
def exponentStart (text : List Char) (cursor : Nat) : Nat :=
  if text[cursor + 1]?.any (fun c => c = '+' || c = '-') then cursor + 2 else cursor + 1

def exponentEnd (text : List Char) (cursor : Nat) : Nat :=
  if text[cursor]?.any (fun c => c = 'e' || c = 'E') then
    if digitsEnd text (exponentStart text cursor) = exponentStart text cursor then
      cursor
    else
      digitsEnd text (exponentStart text cursor)
  else
    cursor

def suffixEnd (text : List Char) (cursor : Nat) : Nat :=
  if text[cursor]?.any (fun c => c = 'i' || c = 'j') then cursor + 1 else cursor

def numberWidth (text : List Char) : Nat :=
  let cursor := if text.head? = some '.' then 1 else 0
  suffixEnd text (exponentEnd text (fractionEnd text (digitsEnd text cursor)))

/-- The number of characters up to the closing quote and whether there is one. A doubled quote stands for a quote. -/
def quotedRest (quote : Char) : List Char → Nat × Bool
  | [] => (0, false)
  | c :: text =>
    if isLineEnd c then
      (0, false)
    else if c = quote then
      match text with
      | [] => (1, true)
      | c' :: text =>
        if c' = quote then ((quotedRest quote text).1 + 2, (quotedRest quote text).2) else (1, true)
    else
      ((quotedRest quote text).1 + 1, (quotedRest quote text).2)

def scanQuoted (quote : Char) (kind : TokenKind) (text : List Char) : Scanned :=
  ⟨kind, 1 + (quotedRest quote text.tail).1, (quotedRest quote text.tail).2⟩

def doubleOperators : List ((Char × Char) × TokenKind) :=
  [(('.', '*'), .dotStar), (('.', '/'), .dotSlash), (('.', '\\'), .dotBackslash), (('.', '^'), .dotCaret),
    (('.', '\''), .dotTranspose), (('=', '='), .equalEqual), (('~', '='), .notEqual), (('<', '='), .lessEqual),
    (('>', '='), .greaterEqual), (('&', '&'), .andAnd), (('|', '|'), .orOr)]

def singleOperators : List (Char × TokenKind) :=
  [('+', .plus), ('-', .minus), ('*', .star), ('/', .slash), ('\\', .backslash), ('^', .caret), ('=', .equal),
    ('<', .less), ('>', .greater), ('&', .and), ('|', .or), ('~', .tilde), (':', .colon), ('.', .dot), ('@', .at),
    ('(', .lParen), (')', .rParen), ('[', .lBracket), (']', .rBracket), ('{', .lBrace), ('}', .rBrace),
    (',', .comma), (';', .semicolon)]

def doubleOperator (first : Char) (second : Option Char) : Option TokenKind :=
  second.bind fun second => doubleOperators.lookup (first, second)

def scanOperatorOrError (first : Char) (second : Option Char) : Scanned :=
  match doubleOperator first second with
  | some kind => ⟨kind, 2, true⟩
  | none => ⟨(singleOperators.lookup first).getD .error, 1, true⟩

def keywords : List (String × TokenKind) :=
  [("break", .kwBreak), ("case", .kwCase), ("catch", .kwCatch), ("classdef", .kwClassdef), ("continue", .kwContinue),
    ("else", .kwElse), ("elseif", .kwElseif), ("end", .kwEnd), ("enumeration", .kwEnumeration), ("for", .kwFor),
    ("function", .kwFunction), ("global", .kwGlobal), ("if", .kwIf), ("methods", .kwMethods),
    ("otherwise", .kwOtherwise), ("parfor", .kwParfor), ("persistent", .kwPersistent), ("properties", .kwProperties),
    ("return", .kwReturn), ("spmd", .kwSpmd), ("switch", .kwSwitch), ("try", .kwTry), ("while", .kwWhile)]

def keywordKind (text : List Char) : TokenKind :=
  (keywords.lookup (String.ofList text)).getD .identifier

def identifierWidth (classes : CharClasses) (text : List Char) : Nat :=
  widthWhile (fun c => c = '_' || classes.isAlphanumeric c) text

/-- An apostrophe after an expression transposes it, unless it begins the next element of a matrix. -/
def transposes (context : Context) : Bool :=
  !(context.matrixDepth > 0 && context.horizontalTriviaSinceSignificant) &&
    context.previousSignificant.any TokenKind.canEndExpression

/-- The token at the beginning of a text: the branches of `lex_one`. -/
def scan (classes : CharClasses) (context : Context) (first : Char) (text : List Char) : Scanned :=
  if isLineEnd first then
    ⟨.newline, if first = '\r' ∧ text[1]? = some '\n' then 2 else 1, true⟩
  else if isWhitespace first then
    ⟨.whitespace, widthWhile (fun c => isWhitespace c && !isLineEnd c) text, true⟩
  else if first = '%' ∧ text[1]? = some '{' then
    scanBlockComment text
  else if first = '%' then
    ⟨.comment, lineWidth text, true⟩
  else if first = '.' ∧ text[1]? = some '.' ∧ text[2]? = some '.' then
    ⟨.ellipsis, widthWhile (· = '.') text, true⟩
  else if first.isDigit ∨ (first = '.' ∧ text[1]?.any Char.isDigit) then
    ⟨.number, numberWidth text, true⟩
  else if first = '_' ∨ classes.isAlphabetic first then
    ⟨keywordKind (text.take (identifierWidth classes text)), identifierWidth classes text, true⟩
  else if first = '\'' then
    if transposes context then ⟨.conjugateTranspose, 1, true⟩ else scanQuoted '\'' .charLiteral text
  else if first = '"' then
    scanQuoted '"' .stringLiteral text
  else
    scanOperatorOrError first text[1]?

end Scanning

structure Lexer where
  sourceId : Nat
  offset : Nat
  remaining : List Char
  context : Context
  tokens : List Token
  diagnostics : List Diagnostic
  deriving Repr

structure LexResult where
  tokens : List Token
  diagnostics : List Diagnostic
  deriving DecidableEq, Repr

namespace Lexer

variable (classes : CharClasses)

def range (start stop : Nat) : TextRange :=
  if start ≤ stop ∧ stop ≤ u32Max then ⟨start, stop⟩ else .empty u32Max

def new (sourceId : Nat) (source : List Char) : Lexer where
  sourceId := sourceId
  offset := 0
  remaining := source
  context := .new
  tokens := []
  diagnostics := []

/-- Consume the characters of a token. -/
def push (s : Lexer) (kind : TokenKind) (width : Nat) : Lexer :=
  let text := s.remaining.take width
  let stop := s.offset + utf8Length text
  { s with
    offset := stop
    remaining := s.remaining.drop width
    context := s.context.push kind text
    tokens := s.tokens ++ [⟨kind, text, range s.offset stop⟩]
  }

/-- Report the characters from an offset to the current one. -/
def report (s : Lexer) (start : Nat) (code message : String) : Lexer :=
  { s with diagnostics := s.diagnostics ++ [⟨s.sourceId, range start s.offset, code, message⟩] }

/-- The rest of a line is a comment unless it is empty. -/
def commentLine (s : Lexer) : Lexer :=
  if 0 < lineWidth s.remaining then s.push .comment (lineWidth s.remaining) else s

def setPending (s : Lexer) (pending : Bool) : Lexer :=
  { s with context := { s.context with lineContinuationPending := pending } }

/-- An ellipsis continues a line if there is another one. -/
def continueLine (s : Lexer) (start : Nat) : Lexer :=
  if s.commentLine.remaining.isEmpty then
    (s.commentLine.setPending false).report start "OML0005"
      "line continuation is not followed by another physical line"
  else
    s.commentLine.setPending true

/-- The end of a line ends a statement that is not continued. -/
def endLine (s : Lexer) (continued : Bool) : Lexer :=
  { s with
    context := { s.context with
      previousSignificant := if continued then s.context.previousSignificant else none
      horizontalTriviaSinceSignificant := false
      lineContinuationPending := false
    }
  }

/-- Consume a token, and what each kind of token asks for then. -/
def lexToken (s : Lexer) (first : Char) (found : Scanned) : Lexer :=
  let next := s.push found.kind found.width
  match found.kind with
  | .newline => next.endLine s.context.lineContinuationPending
  | .whitespace => { next with context := { next.context with horizontalTriviaSinceSignificant := true } }
  | .ellipsis => next.continueLine s.offset
  | .comment => if found.terminated then next else next.report s.offset "OML0003" "unterminated block comment"
  | .charLiteral => if found.terminated then next else next.report s.offset "OML0004" "unterminated quoted literal"
  | .stringLiteral => if found.terminated then next else next.report s.offset "OML0004" "unterminated quoted literal"
  | .error => next.report s.offset "OML0002" ("unrecognized character `" ++ String.singleton first ++ "`")
  | _ => next

def lexOne (s : Lexer) : Lexer :=
  match s.remaining with
  | [] => s
  | first :: _ => s.lexToken first (scan classes s.context first s.remaining)

/-- A step consumes a character at least, so that there are not more steps than characters. -/
def lexAll : Nat → Lexer → Lexer
  | 0, s => s
  | steps + 1, s => if s.remaining.isEmpty then s else lexAll steps (s.lexOne classes)

/-- The offset of the end of the source. -/
def stop (s : Lexer) : Nat := s.offset + utf8Length s.remaining

def checkLength (s : Lexer) : Lexer :=
  if s.stop ≤ u32Max then
    s
  else
    { s with diagnostics := s.diagnostics ++
      [⟨s.sourceId, .empty u32Max, "OML0001", "source exceeds the 32-bit byte-range limit"⟩] }

def run (s : Lexer) : LexResult :=
  let done := lexAll classes s.remaining.length s.checkLength
  {
    tokens := done.tokens ++ [⟨.eof, [], .empty (min s.stop u32Max)⟩]
    diagnostics := done.diagnostics
  }

end Lexer

def lex (classes : CharClasses) (sourceId : Nat) (source : List Char) : LexResult :=
  (Lexer.new sourceId source).run classes

end Lexing
end OpenMat
