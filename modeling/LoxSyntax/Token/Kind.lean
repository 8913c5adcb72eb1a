import LoxSyntax.Text.Quoted

/-!
# Kinds of tokens

A token is an operator or bracket, a literal, a reserved word, an identifier, or the end of the input.  Every kind has
a name and a symbol, and no two kinds share either; the symbol of a reserved word is the word.

* `mem_all`: the table of kinds is complete.
* `ofName?_name`, `ofSymbol?_symbol`: name and symbol each determine the kind.
-/

namespace LoxSyntax

/-- What a token is. -/
inductive Kind where
  | leftParen
  | rightParen
  | leftBrace
  | rightBrace
  | comma
  | dot
  | minus
  | plus
  | semicolon
  | slash
  | star
  | question
  | colon
  | bang
  | bangEqual
  | equal
  | equalEqual
  | greater
  | greaterEqual
  | less
  | lessEqual
  | and
  | or
  | identifier
  | string
  | number
  | elseWord
  | falseWord
  | forWord
  | funWord
  | ifWord
  | nullWord
  | printWord
  | returnWord
  | superWord
  | thisWord
  | trueWord
  | varWord
  | whileWord
  | endOfInput
  deriving DecidableEq, Repr

namespace Kind

/-- The reserved words that are kinds of their own. -/
def words : List Kind :=
  [elseWord, falseWord, forWord, funWord, ifWord, nullWord, printWord, returnWord, superWord, thisWord, trueWord,
    varWord, whileWord]

/-- The kinds of one character. -/
def singles : List Kind :=
  [leftParen, rightParen, leftBrace, rightBrace, comma, dot, minus, plus, semicolon, slash, star, question, colon]

/-- All kinds, in their order. -/
def all : List Kind :=
  singles ++ [bang, bangEqual, equal, equalEqual, greater, greaterEqual, less, lessEqual, and, or]
    ++ [identifier, string, number] ++ words ++ [endOfInput]

/-- The name of a kind. -/
def name : Kind → String
  | leftParen => "LEFT_PAREN"
  | rightParen => "RIGHT_PAREN"
  | leftBrace => "LEFT_BRACE"
  | rightBrace => "RIGHT_BRACE"
  | comma => "COMMA"
  | dot => "DOT"
  | minus => "MINUS"
  | plus => "PLUS"
  | semicolon => "SEMICOLON"
  | slash => "SLASH"
  | star => "STAR"
  | question => "QUESTION"
  | colon => "COLON"
  | bang => "BANG"
  | bangEqual => "BANG_EQUAL"
  | equal => "EQUAL"
  | equalEqual => "EQUAL_EQUAL"
  | greater => "GREATER"
  | greaterEqual => "GREATER_EQUAL"
  | less => "LESS"
  | lessEqual => "LESS_EQUAL"
  | and => "AND"
  | or => "OR"
  | identifier => "IDENTIFIER"
  | string => "STRING"
  | number => "NUMBER"
  | elseWord => "ELSE"
  | falseWord => "FALSE"
  | forWord => "FOR"
  | funWord => "FUN"
  | ifWord => "IF"
  | nullWord => "NULL"
  | printWord => "PRINT"
  | returnWord => "RETURN"
  | superWord => "SUPER"
  | thisWord => "THIS"
  | trueWord => "TRUE"
  | varWord => "VAR"
  | whileWord => "WHILE"
  | endOfInput => "EOF"

/-- The symbol of a kind: the text of an operator, bracket or reserved word, and otherwise a name. -/
def symbol : Kind → String
  | leftParen => "("
  | rightParen => ")"
  | leftBrace => "\x7b"
  | rightBrace => "\x7d"
  | comma => ","
  | dot => "."
  | minus => "-"
  | plus => "+"
  | semicolon => ";"
  | slash => "/"
  | star => "*"
  | question => "?"
  | colon => ":"
  | bang => "!"
  | bangEqual => "!="
  | equal => "="
  | equalEqual => "=="
  | greater => ">"
  | greaterEqual => ">="
  | less => "<"
  | lessEqual => "<="
  | and => "&&"
  | or => "||"
  | identifier => "IDENTIFIER"
  | string => "STRING"
  | number => "NUMBER"
  | elseWord => "else"
  | falseWord => "false"
  | forWord => "for"
  | funWord => "fun"
  | ifWord => "if"
  | nullWord => "null"
  | printWord => "print"
  | returnWord => "return"
  | superWord => "super"
  | thisWord => "this"
  | trueWord => "true"
  | varWord => "var"
  | whileWord => "while"
  | endOfInput => "EOF"

/-- The kind of a name. -/
def ofName? (s : String) : Option Kind := all.find? (·.name == s)

/-- The kind of a symbol. -/
def ofSymbol? (s : String) : Option Kind := all.find? (·.symbol == s)

/-- The kind of a reserved word; the word `or` is another spelling of `||`. -/
def reserved? (word : String) : Option Kind :=
  if word = "or" then some or else words.find? (·.symbol == word)

/-- A kind as a message names it. -/
def describe : Kind → String
  | identifier => "identifier"
  | string => "string"
  | number => "number"
  | endOfInput => "end of input"
  | k => Text.quote k.symbol

/-- A kind with its name and symbol. -/
def inspect (k : Kind) : String :=
  "<Type." ++ k.name ++ ": " ++ Text.quote k.symbol ++ ">"

theorem mem_all (k : Kind) : k ∈ all := by
  cases k <;> decide

theorem ofName?_name (k : Kind) : ofName? k.name = some k := by
  cases k <;> rfl

theorem ofSymbol?_symbol (k : Kind) : ofSymbol? k.symbol = some k := by
  cases k <;> rfl

end Kind

end LoxSyntax
