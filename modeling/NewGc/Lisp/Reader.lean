import NewGc.Lisp.Eval

/-!
# Reader — the S-expression reader

The reader walks over the bytes of a source text with one byte of lookahead.  What is left of the
text is the reader's state; the offsets in its messages are counted from the start of the text.
-/

namespace NewGc.Lisp

/-- How a read fails. -/
inductive ReadError
  | text (msg : String)
  | utf8
  | outOfFuel
  deriving DecidableEq

namespace Reader

abbrev byte (c : Char) : UInt8 := c.toUInt8

/-- `is_ascii_whitespace`. -/
def isAsciiWhitespace (b : UInt8) : Bool :=
  b = byte ' ' || b = byte '\t' || b = byte '\n' || b = byte '\x0c' ||
    b = byte '\r'

/-- `is_ascii_digit`. -/
def isAsciiDigit (b : UInt8) : Bool := byte '0' ≤ b && b ≤ byte '9'

/-- The bytes that end an atom. -/
def isDelimiter (b : UInt8) : Bool :=
  isAsciiWhitespace b || b = byte '(' || b = byte ')' || b = byte ';'

/-! ## Scanning -/

/-- The loop of `skip_ws_and_comments`, inside a comment or not. -/
def skipFrom : Bool → List UInt8 → List UInt8
  | _, [] => []
  | true, b :: rest => skipFrom (b ≠ byte '\n') rest
  | false, b :: rest =>
      if isAsciiWhitespace b then skipFrom false rest
      else if b = byte ';' then skipFrom true rest
      else b :: rest

/-- `skip_ws_and_comments`. -/
def skipWsAndComments (rest : List UInt8) : List UInt8 := skipFrom false rest

/-- `read_atom_bytes`. -/
def readAtomBytes (rest : List UInt8) : List UInt8 × List UInt8 :=
  rest.span fun b => !isDelimiter b

/-- `from_utf8`. -/
def fromUtf8 (bytes : List UInt8) : Except ReadError String :=
  match String.fromUTF8? ⟨bytes.toArray⟩ with
  | some text => .ok text
  | none => .error .utf8

/-! ## Integers -/

/-- The value of a run of decimal digits. -/
def parseDigits : Nat → List Char → Option Nat
  | n, [] => some n
  | n, c :: cs => if c.isDigit then parseDigits (10 * n + (c.toNat - 48)) cs else none

/-- The value of a nonempty run of decimal digits. -/
def parseNat (digits : List Char) : Option Nat :=
  if digits.isEmpty then none else parseDigits 0 digits

/-- `parse::<i64>`: an optional sign and decimal digits, in range. -/
def parseI64 (text : String) : Option Int64 :=
  match text.toList with
  | '-' :: digits =>
      (parseNat digits).bind fun n => if n ≤ 2 ^ 63 then some (Int64.ofInt (-n)) else none
  | '+' :: digits =>
      (parseNat digits).bind fun n => if n < 2 ^ 63 then some (Int64.ofInt n) else none
  | digits => (parseNat digits).bind fun n => if n < 2 ^ 63 then some (Int64.ofInt n) else none

/-! ## Atoms -/

/-- `read_number_or_symbol`. -/
def readNumberOrSymbol (rest : List UInt8) : Except ReadError (Sexp × List UInt8) := do
  let (bytes, rest) := readAtomBytes rest
  let text ← fromUtf8 bytes
  match parseI64 text with
  | some n => return (.number n, rest)
  | none => return (.symbol text, rest)

/-- The offset in a text of `len` bytes of which `rest` is left. -/
def offset (len : Nat) (rest : List UInt8) : String := toString (len - rest.length)

/-- `read_symbol`. -/
def readSymbol (len : Nat) (rest : List UInt8) : Except ReadError (Sexp × List UInt8) := do
  let (bytes, rest) := readAtomBytes rest
  if bytes.isEmpty then throw (.text ("empty token at offset " ++ offset len rest))
  else
    let text ← fromUtf8 bytes
    return (if text = "nil" then .nil else .symbol text, rest)

/-- What an escaped byte stands for. -/
def unescape (b : UInt8) : UInt8 :=
  if b = byte 'n' then byte '\n' else if b = byte 't' then byte '\t' else b

/-- The loop of `read_string`, behind the opening quote. -/
def readString (buf : List UInt8) : List UInt8 → Except ReadError (Sexp × List UInt8)
  | [] => throw (.text "unterminated string")
  | b :: rest =>
      if b = byte '"' then do
        let text ← fromUtf8 buf
        return (.string text, rest)
      else if b = byte '\\' then
        match rest with
        | [] => throw (.text "unterminated string escape")
        | c :: rest => readString (buf ++ [unescape c]) rest
      else readString (buf ++ [b]) rest

/-- `read_hash`, behind the `#`. -/
def readHash : List UInt8 → Except ReadError (Sexp × List UInt8)
  | [] => throw (.text "unterminated # syntax")
  | b :: rest =>
      if b = byte 't' then return (.bool true, rest)
      else if b = byte 'f' then return (.bool false, rest)
      else throw (.text ("unknown # syntax: #" ++ String.singleton (Char.ofNat b.toNat)))

/-! ## Expressions -/

mutual

/-- `read_expr`. -/
def readExpr (len : Nat) : Nat → List UInt8 → Except ReadError (Sexp × List UInt8)
  | 0, _ => throw .outOfFuel
  | fuel + 1, rest =>
      match skipWsAndComments rest with
      | [] => throw (.text "unexpected EOF")
      | b :: rest =>
          if b = byte '(' then readList len fuel [] rest
          else if b = byte ')' then
            throw (.text ("unexpected `)` at offset " ++ offset len (b :: rest)))
          else if b = byte '"' then readString [] rest
          else if b = byte '\'' then do
            let (inner, rest) ← readExpr len fuel rest
            return (.list [.symbol "quote", inner], rest)
          else if b = byte '#' then readHash rest
          else if b = byte '-' || isAsciiDigit b then readNumberOrSymbol (b :: rest)
          else readSymbol len (b :: rest)

/-- The loop of `read_list`, behind the opening parenthesis. -/
def readList (len : Nat) :
    Nat → List Sexp → List UInt8 → Except ReadError (Sexp × List UInt8)
  | 0, _, _ => throw .outOfFuel
  | fuel + 1, items, rest =>
      match skipWsAndComments rest with
      | [] => throw (.text "unterminated list")
      | b :: rest =>
          if b = byte ')' then return (if items.isEmpty then .nil else .list items, rest)
          else do
            let (item, rest) ← readExpr len fuel (b :: rest)
            readList len fuel (items ++ [item]) rest

end

/-- `read_one`. -/
def readOne (len fuel : Nat) (rest : List UInt8) :
    Except ReadError (Option Sexp × List UInt8) :=
  match skipWsAndComments rest with
  | [] => return (none, [])
  | b :: rest => do
      let (form, rest) ← readExpr len fuel (b :: rest)
      return (some form, rest)

/-- The loop of `read_all`. -/
def readForms (len : Nat) : Nat → List Sexp → List UInt8 → Except ReadError (List Sexp)
  | 0, _, _ => throw .outOfFuel
  | fuel + 1, out, rest => do
      match ← readOne len fuel rest with
      | (none, _) => return out
      | (some form, rest) => readForms len fuel (out ++ [form]) rest

/-- The bytes of a text. -/
def bytesOf (src : String) : List UInt8 := src.toUTF8.data.toList

/-- `read_all`; a read takes at most two steps a byte. -/
def readAll (src : String) : Except ReadError (List Sexp) :=
  let bytes := bytesOf src
  readForms bytes.length (2 * bytes.length + 2) [] bytes

end Reader

end NewGc.Lisp
