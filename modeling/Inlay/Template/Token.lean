import Inlay.Text.Position
import Inlay.Real.Text
import Inlay.Error

/-!
# `Inlay.Template.Token` — tokens of template code

The words and symbols of the small language inside template tags, the tokens that carry them, and the ways in
which template code can fail to be read (`SyntaxCause`), whether as tokens or as a program.
-/

namespace Inlay

/-- The reserved words. -/
inductive Keyword where
  | ifWord | elseWord | forWord | whileWord | breakWord | continueWord | trueWord | falseWord
deriving DecidableEq, Repr

namespace Keyword

/-- All reserved words. -/
def all : List Keyword :=
  [ifWord, elseWord, forWord, whileWord, breakWord, continueWord, trueWord, falseWord]

/-- The spelling of a reserved word. -/
def text : Keyword → String
  | ifWord => "if"
  | elseWord => "else"
  | forWord => "for"
  | whileWord => "while"
  | breakWord => "break"
  | continueWord => "continue"
  | trueWord => "true"
  | falseWord => "false"

/-- The name of a reserved word in messages. -/
def name : Keyword → String
  | ifWord => "If"
  | elseWord => "Else"
  | forWord => "For"
  | whileWord => "While"
  | breakWord => "Break"
  | continueWord => "Continue"
  | trueWord => "True"
  | falseWord => "False"

/-- The reserved word with a given spelling. -/
def ofText? (word : String) : Option Keyword :=
  all.find? fun k => k.text == word

end Keyword

/-- Operators and delimiters. -/
inductive Symbol where
  | plus | minus | star | slash | percent | plusPlus | minusMinus
  | eq | notEq | lt | gt | ltEq | gtEq
  | shl | shr | amp | pipe | caret | tilde
  | and | or | not
  | assign | plusAssign | minusAssign | starAssign | slashAssign | percentAssign
  | question | colon
  | leftParen | rightParen | leftBrace | rightBrace | comma | semicolon
deriving DecidableEq, Repr

namespace Symbol

/-- The characters of a symbol. -/
def text : Symbol → String
  | plus => "+"
  | minus => "-"
  | star => "*"
  | slash => "/"
  | percent => "%"
  | plusPlus => "++"
  | minusMinus => "--"
  | eq => "=="
  | notEq => "!="
  | lt => "<"
  | gt => ">"
  | ltEq => "<="
  | gtEq => ">="
  | shl => "<<"
  | shr => ">>"
  | amp => "&"
  | pipe => "|"
  | caret => "^"
  | tilde => "~"
  | and => "&&"
  | or => "||"
  | not => "!"
  | assign => "="
  | plusAssign => "+="
  | minusAssign => "-="
  | starAssign => "*="
  | slashAssign => "/="
  | percentAssign => "%="
  | question => "?"
  | colon => ":"
  | leftParen => "("
  | rightParen => ")"
  | leftBrace => "\x7b"
  | rightBrace => "\x7d"
  | comma => ","
  | semicolon => ";"

/-- The name of a symbol in messages. -/
def name : Symbol → String
  | plus => "Plus"
  | minus => "Minus"
  | star => "Star"
  | slash => "Slash"
  | percent => "Percent"
  | plusPlus => "PlusPlus"
  | minusMinus => "MinusMinus"
  | eq => "Eq"
  | notEq => "NotEq"
  | lt => "Lt"
  | gt => "Gt"
  | ltEq => "LtEq"
  | gtEq => "GtEq"
  | shl => "Shl"
  | shr => "Shr"
  | amp => "Amp"
  | pipe => "Pipe"
  | caret => "Caret"
  | tilde => "Tilde"
  | and => "And"
  | or => "Or"
  | not => "Not"
  | assign => "Assign"
  | plusAssign => "PlusAssign"
  | minusAssign => "MinusAssign"
  | starAssign => "StarAssign"
  | slashAssign => "SlashAssign"
  | percentAssign => "PercentAssign"
  | question => "Question"
  | colon => "Colon"
  | leftParen => "LeftParen"
  | rightParen => "RightParen"
  | leftBrace => "LeftBrace"
  | rightBrace => "RightBrace"
  | comma => "Comma"
  | semicolon => "Semicolon"

end Symbol

/-- What a token is. -/
inductive TokenKind where
  /-- A whole number. -/
  | integer (n : Int64)
  /-- A number with a point or an exponent. -/
  | float (x : Float)
  /-- A text, with its escapes resolved. -/
  | string (s : String)
  /-- A name. -/
  | identifier (name : String)
  /-- A reserved word. -/
  | keyword (word : Keyword)
  /-- An operator or delimiter. -/
  | symbol (s : Symbol)
  /-- The end of the source. -/
  | eof
deriving Inhabited

namespace TokenKind

/-- A kind of token in messages: a literal or name as it is, all else by its name. -/
def text : TokenKind → String
  | integer n => toString n.toInt
  | float x => floatText x
  | string s => "\"" ++ s ++ "\""
  | identifier name => name
  | keyword word => word.name
  | symbol s => s.name
  | eof => "end of input"

/-- Whether a kind is the symbol `s`. -/
def isSymbol (s : Symbol) : TokenKind → Bool
  | symbol t => t == s
  | _ => false

/-- Whether a kind is the reserved word `w`. -/
def isKeyword (w : Keyword) : TokenKind → Bool
  | keyword v => v == w
  | _ => false

/-- Whether a kind is the end of the source. -/
def isEof : TokenKind → Bool
  | eof => true
  | _ => false

end TokenKind

/-- A token, with the characters that it was read from and their place. -/
structure Token where
  kind : TokenKind
  lexeme : String
  position : Position
deriving Inhabited

/-- Why template code cannot be read. -/
inductive SyntaxCause where
  /-- A character that starts no token. -/
  | unexpectedCharacter (c : Char)
  /-- A string without its closing quote on the same line. -/
  | unterminatedString
  /-- A backslash in front of a character that it does not escape. -/
  | invalidEscape (c : Char)
  /-- Hexadecimal digits that are none or too many. -/
  | invalidHex (digits : String)
  /-- Decimal digits that stand for a number out of range. -/
  | invalidInteger (digits : String)
  /-- An exponent without digits. -/
  | invalidFloat (text : String)
  /-- Another token in place of the expected one. -/
  | expected (what : String) (got : TokenKind)
  /-- A token that starts no expression. -/
  | unexpectedToken (kind : TokenKind)
  /-- A block that is still open at the end. -/
  | unclosedBrace
  /-- An assignment to something that is not a variable. -/
  | assignmentTarget
  /-- An increment of something that is not a variable. -/
  | incrementTarget
  /-- A tag that is still open at the end. -/
  | unterminatedTag
  /-- Tokens that stop without an end of source. -/
  | missingEnd

/-- The wording of each cause. -/
def SyntaxCause.message : SyntaxCause → String
  | unexpectedCharacter c => s!"Unexpected character '{c}'"
  | unterminatedString => "Unterminated string"
  | invalidEscape c => s!"Invalid escape sequence \\{c}"
  | invalidHex digits => s!"Invalid hex literal 0x{digits}"
  | invalidInteger digits => s!"Invalid integer: {digits}"
  | invalidFloat text => s!"Invalid float: {text}"
  | expected what got => s!"Expected {what}, got {got.text}"
  | unexpectedToken kind =>
    s!"Unexpected {kind.text} in expression; expected a number, string, variable, call or '('"
  | unclosedBrace => "Unclosed '\x7b': expected '\x7d' before end of template"
  | assignmentTarget => "Left side of assignment must be a variable"
  | incrementTarget => "Increment target must be a variable"
  | unterminatedTag => "Unterminated '[[' tag: expected ']]'"
  | missingEnd => "Tokens end without an end of input"

/-- A cause with the place where it shows. -/
structure SyntaxFault where
  position : Position
  cause : SyntaxCause

/-- The error that reports a fault, with a listing of the text that its place is in. -/
def SyntaxFault.toError (fault : SyntaxFault) (listing : String) : Error :=
  .templateSyntax fault.position.line fault.position.column fault.cause.message listing

end Inlay
