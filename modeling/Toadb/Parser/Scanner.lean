/-
Toadb.Parser.Scanner — the tokens of a command (`scanner.l`).

The rules stand in the order of the source. A keyword may be written in
capitals or not, as the scanner is `case-insensitive`. White space and
comments have no token.

The text of a command is a C string, so its bytes are not 0.
-/
import Toadb.Lib.Scanner
import Toadb.Plan.Query

namespace Toadb

open RegularExpression (char)
open Scanner (oneOf word plus optional Rule)

/-! ## Tokens -/

/-- The keywords. -/
inductive Keyword where
  | select | from | create | table | update | set | insert | into | values | delete | drop
  | where | and | or
  | not | order | group | by | limit | offset | as | begin | end | rollback | commit
  | savepoint
  deriving DecidableEq, Repr

/-- The tokens of the scanner. The value of a floating point number is `atof` of its text. -/
inductive Token where
  | keyword (keyword : Keyword)
  | string (sval : CString)
  | intNumber (ival : BitVec 32)
  | floatNumber (text : List UInt8)
  | ident (sval : CString)
  | self (c : UInt8)
  | lessEq
  | greaterEq
  | notEq
  deriving DecidableEq

/-! ## Bytes -/

/-- The bytes that are not listed. -/
def noneOf (cs : List UInt8) : List UInt8 :=
  ((List.range 256).map UInt8.ofNat).filter fun c => !cs.contains c

/-- `[0-9]`. -/
def digits : List UInt8 := (List.range 10).map fun i => UInt8.ofNat (48 + i)

/-- `[a-zA-Z]`. -/
def letters : List UInt8 :=
  (List.range 26).map (fun i => UInt8.ofNat (65 + i)) ++ (List.range 26).map fun i =>
    UInt8.ofNat (97 + i)

/-- A letter and the other way to write it. -/
def eitherCase (c : UInt8) : List UInt8 := [c, c + 32]

/-! ## Patterns -/

/-- A keyword, given in capitals. -/
def keywordPattern : List UInt8 → RegularExpression UInt8
  | [] => 1
  | c :: cs => oneOf (eitherCase c) * keywordPattern cs

/-- `{string}` between two of the same quotation mark. -/
def quotedPattern (quote : UInt8) : RegularExpression UInt8 :=
  char quote *
    ((word [92] * oneOf (noneOf [10]) + word [quote, quote] +
      oneOf (noneOf [quote, 10])).star *
    char quote)

/-- `{string}`. -/
def stringPattern : RegularExpression UInt8 := quotedPattern 39 + quotedPattern 34

/-- `-?`. -/
def sign : RegularExpression UInt8 := optional (char 45)

/-- `{intnumber}`. -/
def intNumberPattern : RegularExpression UInt8 := sign * plus (oneOf digits)

/-- `E[-+]?[0-9]+`. -/
def exponent : RegularExpression UInt8 :=
  oneOf [69, 101] * (optional (oneOf [45, 43]) * plus (oneOf digits))

/-- `{floatnumber}`. -/
def floatNumberPattern : RegularExpression UInt8 :=
  sign * (plus (oneOf digits) * (char 46 * (oneOf digits).star)) +
    sign * (char 46 * plus (oneOf digits)) +
    sign * (plus (oneOf digits) * (char 46 * ((oneOf digits).star * exponent))) +
    sign * (plus (oneOf digits) * exponent) +
    sign * ((oneOf digits).star * (char 46 * (plus (oneOf digits) * exponent)))

/-- `{identify}`. -/
def identifyPattern : RegularExpression UInt8 :=
  oneOf letters * (oneOf (letters ++ digits ++ [95])).star

/-- `{self}`. -/
def selfPattern : RegularExpression UInt8 := oneOf (ascii ",()[].;:+-*/%^<>=")

/-- `{space}`. -/
def spaces : List UInt8 := [32, 9, 10, 13, 12]

/-- `{whitespace}`: spaces, or a comment. -/
def whitespacePattern : RegularExpression UInt8 :=
  plus (oneOf spaces) + word [45, 45] * (oneOf (noneOf [10, 13])).star

/-! ## Actions -/

/-- The value of a string: `strdup(yytext+1)` without its last byte. -/
def stringValue (yytext : List UInt8) : CString :=
  ⟨(cString (yytext.drop 1)).val.dropLast,
    fun h => (cString (yytext.drop 1)).property (List.mem_of_mem_dropLast h)⟩

/-- The number that digits in front of a text stand for. -/
def digitsValue (text : List UInt8) : Nat :=
  (text.takeWhile fun c => digits.contains c).foldl (fun n c => 10 * n + (c.toNat - 48)) 0

/-- `atoi`: a `long` that stops at its bounds, as an `int`. -/
def atoi (text : List UInt8) : BitVec 32 :=
  let value : Int := if text.head? = some 45 then -digitsValue text.tail else digitsValue text
  BitVec.ofInt 32 (max (-2 ^ 63) (min (2 ^ 63 - 1) value))

/-! ## Rules -/

/-- A keyword in capitals. -/
def Keyword.text : Keyword → String
  | .select => "SELECT"
  | .from => "FROM"
  | .create => "CREATE"
  | .table => "TABLE"
  | .update => "UPDATE"
  | .set => "SET"
  | .insert => "INSERT"
  | .into => "INTO"
  | .values => "VALUES"
  | .delete => "DELETE"
  | .drop => "DROP"
  | .where => "WHERE"
  | .and => "AND"
  | .or => "OR"
  | .not => "NOT"
  | .order => "ORDER"
  | .group => "GROUP"
  | .by => "BY"
  | .limit => "LIMIT"
  | .offset => "OFFSET"
  | .as => "AS"
  | .begin => "BEGIN"
  | .end => "END"
  | .rollback => "ROLLBACK"
  | .commit => "COMMIT"
  | .savepoint => "SAVEPOINT"

/-- The keywords in the order of their rules. -/
def keywords : List Keyword :=
  [.select, .from, .create, .table, .update, .set, .insert, .into, .values, .delete,
    .drop, .where, .and, .or,
    .not, .order, .group, .by, .limit, .offset, .as, .begin, .end, .rollback,
      .commit, .savepoint]

/-- A keyword's rule. -/
def keywordRule (keyword : Keyword) : Rule UInt8 (Option Token) :=
  ⟨keywordPattern (ascii keyword.text), fun _ => some (.keyword keyword)⟩

/-- The rules of the keywords. -/
def keywordRules : List (Rule UInt8 (Option Token)) := keywords.map keywordRule

/-- The rule of the strings. -/
def stringRule : Rule UInt8 (Option Token) :=
  ⟨stringPattern, fun yytext => some (.string (stringValue yytext))⟩

/-- The rules behind that of the strings. -/
def symbolRules : List (Rule UInt8 (Option Token)) :=
  [⟨intNumberPattern, fun yytext => some (.intNumber (atoi yytext))⟩,
    ⟨floatNumberPattern, fun yytext => some (.floatNumber yytext)⟩,
    ⟨identifyPattern, fun yytext => some (.ident (cString yytext))⟩,
    ⟨selfPattern, fun yytext => some (.self (yytext.headD 0))⟩,
    ⟨whitespacePattern, fun _ => none⟩,
    ⟨word (ascii "<="), fun _ => some .lessEq⟩,
    ⟨word (ascii ">="), fun _ => some .greaterEq⟩,
    ⟨word (ascii "<>"), fun _ => some .notEq⟩]

/-- The rules of the scanner. -/
def scannerRules : List (Rule UInt8 (Option Token)) :=
  keywordRules ++ stringRule :: symbolRules

/-- The next match: its token, if it has one, and the rest of the text. What no rule matches
is dropped, byte by byte. -/
def scanNext (text : List UInt8) : Option Token × List UInt8 :=
  match Scanner.next scannerRules text with
  | some found => found
  | none => (none, text.tail)

/-- `yylex`, again and again: the tokens of a text. Each match takes a byte at least. -/
def scanTokens : Nat → List UInt8 → List Token
  | 0, _ => []
  | _ + 1, [] => []
  | fuel + 1, text =>
    let (token, rest) := scanNext text
    token.toList ++ scanTokens fuel rest

/-- All tokens of a text. -/
def scan (text : List UInt8) : List Token := scanTokens text.length text

end Toadb
