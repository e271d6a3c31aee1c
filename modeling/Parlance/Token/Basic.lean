import Parlance.Text.Bytes

/-!
# Tokens of an expression

* `LexError`    why a stretch of text is no token;
* `Keyword`, `Symbol`, `TokenKind`   what a token can be;
* `Token`       a kind, the text that the token stands for and the byte where that text starts;
* `Token.span`, `Token.display`      the place of a token and its printed form.

The text of a string or character token is what stands between its quotation marks, with its
escapes as they were written.
-/

namespace Parlance

/-- why a stretch of text is no token -/
inductive LexError where
  | unexpectedCharacter
  | unterminatedString
  | unterminatedChar
  | exponentInBase
  | decimalAfterExponent
  | fractionInBase
deriving DecidableEq

def LexError.message : LexError → String
  | unexpectedCharacter => "unexpected character"
  | unterminatedString => "unterminated double quote string"
  | unterminatedChar => "unterminated character literal"
  | exponentInBase =>
    "exponential form is supported with neither hexadecimal nor binary literals"
  | decimalAfterExponent =>
    "invalid floating point literal; decimal point cannot occur after the exponent ('e' or 'E')"
  | fractionInBase => "invalid floating point literal; only valid in base 10"

/-- words set aside by the language -/
inductive Keyword where
  | fnWord
  | ifWord
  | letWord
  | elseWord
  | whileWord
  | returnWord
  | forWord
deriving DecidableEq

def Keyword.spelling : Keyword → String
  | fnWord => "fn"
  | ifWord => "if"
  | letWord => "let"
  | elseWord => "else"
  | whileWord => "while"
  | returnWord => "return"
  | forWord => "for"

def Keyword.all : List Keyword :=
  [fnWord, ifWord, letWord, elseWord, whileWord, returnWord, forWord]

/-- operators and marks, which are spelled with one to three characters -/
inductive Symbol where
  | semicolon | dollar | colon | pipe | ampersand | dot | star | caret | bang | plus | comma
  | minus | slash | leftParen | rightParen | leftSquare | rightSquare | leftBrace | rightBrace
  | less | greater | equal | percent | tilde | question
  | andAnd | orOr | equalEqual | bangEqual | lessEqual | greaterEqual | shiftLeft | shiftRight
  | starStar | pipeline | rightArrow
  | plusEqual | minusEqual | starEqual | slashEqual | percentEqual | caretEqual | ampersandEqual
  | pipeEqual | shiftLeftEqual | shiftRightEqual | starStarEqual
deriving DecidableEq

namespace Symbol

def chars : Symbol → List Char
  | semicolon => [';']
  | dollar => ['$']
  | colon => [':']
  | pipe => ['|']
  | ampersand => ['&']
  | dot => ['.']
  | star => ['*']
  | caret => ['^']
  | bang => ['!']
  | plus => ['+']
  | comma => [',']
  | minus => ['-']
  | slash => ['/']
  | leftParen => ['(']
  | rightParen => [')']
  | leftSquare => ['[']
  | rightSquare => [']']
  | leftBrace => ['\x7b']
  | rightBrace => ['\x7d']
  | less => ['<']
  | greater => ['>']
  | equal => ['=']
  | percent => ['%']
  | tilde => ['~']
  | question => ['?']
  | andAnd => ['&', '&']
  | orOr => ['|', '|']
  | equalEqual => ['=', '=']
  | bangEqual => ['!', '=']
  | lessEqual => ['<', '=']
  | greaterEqual => ['>', '=']
  | shiftLeft => ['<', '<']
  | shiftRight => ['>', '>']
  | starStar => ['*', '*']
  | pipeline => ['|', '>']
  | rightArrow => ['-', '>']
  | plusEqual => ['+', '=']
  | minusEqual => ['-', '=']
  | starEqual => ['*', '=']
  | slashEqual => ['/', '=']
  | percentEqual => ['%', '=']
  | caretEqual => ['^', '=']
  | ampersandEqual => ['&', '=']
  | pipeEqual => ['|', '=']
  | shiftLeftEqual => ['<', '<', '=']
  | shiftRightEqual => ['>', '>', '=']
  | starStarEqual => ['*', '*', '=']

/-- all symbols, a longer one before each symbol that it starts with -/
def longestFirst : List Symbol :=
  [starStarEqual, shiftLeftEqual, shiftRightEqual,
   andAnd, orOr, equalEqual, bangEqual, lessEqual, greaterEqual, shiftLeft, shiftRight, starStar,
   pipeline, plusEqual, minusEqual, starEqual, slashEqual, percentEqual, caretEqual,
   ampersandEqual, pipeEqual, rightArrow,
   semicolon, dollar, colon, pipe, ampersand, dot, star, caret, bang, plus, comma, minus, slash,
   leftParen, rightParen, leftSquare, rightSquare, leftBrace, rightBrace, less, greater, equal,
   percent, tilde, question]

/-- the symbol that a text starts with: of several the longest -/
def leading? (cs : List Char) : Option Symbol :=
  longestFirst.find? fun s => s.chars.isPrefixOf cs

/-- the name of a symbol in printed tokens -/
def name : Symbol → String
  | semicolon => "SEMICOLON"
  | dollar => "DOLLAR"
  | colon => "COLON"
  | pipe => "PIPE"
  | ampersand => "AMPERSAND"
  | dot => "DOT"
  | star => "STAR"
  | caret => "CARET"
  | bang => "BANG"
  | plus => "PLUS"
  | comma => "COMMA"
  | minus => "MINUS"
  | slash => "SLASH"
  | leftParen => "LEFT_PAREN"
  | rightParen => "RIGHT_PAREN"
  | leftSquare => "LEFT_SQUARE"
  | rightSquare => "RIGHT_SQUARE"
  | leftBrace => "LEFT_BRACE"
  | rightBrace => "RIGHT_BRACE"
  | less => "LESS"
  | greater => "GREATER"
  | equal => "EQUAL"
  | percent => "PERCENT"
  | tilde => "TILDE"
  | question => "QUESTION"
  | andAnd => "AND_AND"
  | orOr => "OR_OR"
  | equalEqual => "EQUAL_EQUAL"
  | bangEqual => "BANG_EQUAL"
  | lessEqual => "LESS_EQUAL"
  | greaterEqual => "GREATER_EQUAL"
  | shiftLeft => "SHIFT_LEFT"
  | shiftRight => "SHIFT_RIGHT"
  | starStar => "STAR_STAR"
  | pipeline => "PIPELINE"
  | rightArrow => "RIGHT_ARROW"
  | plusEqual => "PLUS_EQUAL"
  | minusEqual => "MINUS_EQUAL"
  | starEqual => "STAR_EQUAL"
  | slashEqual => "SLASH_EQUAL"
  | percentEqual => "PERCENT_EQUAL"
  | caretEqual => "CARET_EQUAL"
  | ampersandEqual => "AMPERSAND_EQUAL"
  | pipeEqual => "PIPE_EQUAL"
  | shiftLeftEqual => "SHIFT_LEFT_EQUAL"
  | shiftRightEqual => "SHIFT_RIGHT_EQUAL"
  | starStarEqual => "STAR_STAR_EQUAL"

theorem chars_ne_nil (s : Symbol) : s.chars ≠ [] := by cases s <;> simp [chars]

/-- the symbol found is spelled by the start of the text -/
theorem chars_isPrefix_of_leading? {cs : List Char} {s : Symbol} (h : leading? cs = some s) :
    s.chars <+: cs := by
  have := List.find?_some h
  simpa using this

end Symbol

/-- what a token is -/
inductive TokenKind where
  | invalid (cause : LexError)
  | endOfText
  | keyword (k : Keyword)
  | symbol (s : Symbol)
  | string
  | char
  | number
  | bool
  | ident
deriving DecidableEq

def TokenKind.name : TokenKind → String
  | invalid _ => "INVALID"
  | endOfText => "EOF"
  | keyword .fnWord => "FN"
  | keyword .ifWord => "IF"
  | keyword .letWord => "LET"
  | keyword .elseWord => "ELSE"
  | keyword .whileWord => "WHILE"
  | keyword .returnWord => "RETURN"
  | keyword .forWord => "FOR"
  | symbol s => s.name
  | string => "STRING"
  | char => "CHAR"
  | number => "NUMBER"
  | bool => "BOOL"
  | ident => "IDENTIFIER"

/-- a token of a text -/
structure Token where
  kind : TokenKind
  literal : String
  offset : Nat
deriving DecidableEq

namespace Token

/-- the token that closes every token list, at the byte where the text ends -/
def atEnd (offset : Nat) : Token := ⟨.endOfText, "", offset⟩

/-- the first byte of a token's text, and its number of bytes -/
def span (t : Token) : Nat × Nat := (t.offset, t.literal.utf8ByteSize)

/-- the printed form of a token -/
def display (t : Token) : String :=
  match t.kind with
  | .string => "STRING \"" ++ t.literal ++ "\""
  | .char => "CHAR '" ++ t.literal ++ "'"
  | .invalid cause => "INVALID " ++ t.literal ++ " (" ++ cause.message ++ ")"
  | .endOfText => "EOF"
  | kind => kind.name ++ " " ++ t.literal

end Token

end Parlance
