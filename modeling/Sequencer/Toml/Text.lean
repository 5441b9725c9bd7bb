/-! The characters of TOML documents: blanks, line ends, comments and quoted strings. Every reader
takes the characters that are left and answers what it read with those that remain. -/

namespace Sequencer.Toml

abbrev Reader (α : Type) := List Char → Option (α × List Char)

def isDigit (c : Char) : Bool := '0' ≤ c && c ≤ '9'

def isSpace (c : Char) : Bool := c = ' ' || c = '\t'

/-- Characters that may stand in a comment, and in a string unless they mean something there. -/
def isPlain (c : Char) : Bool := c = '\t' || (decide (0x20 ≤ c.toNat) && c.toNat != 0x7f)

def skipSpace (cs : List Char) : List Char := cs.dropWhile isSpace

def lineEnd? : List Char → Option (List Char)
  | '\n' :: r => some r
  | '\r' :: '\n' :: r => some r
  | _ => none

/-- Skips a comment up to the end of its line. -/
def skipComment : List Char → List Char
  | '#' :: r => r.dropWhile isPlain
  | cs => cs

/-- The end of a line after blanks and a comment; the end of the document will do. -/
def finishLine? (cs : List Char) : Option (List Char) :=
  match skipComment (skipSpace cs) with
  | [] => some []
  | cs => lineEnd? cs

def skipTrivia (inComment : Bool) : List Char → List Char
  | [] => []
  | '\n' :: r => skipTrivia false r
  | '\r' :: '\n' :: r => skipTrivia false r
  | c :: r =>
    if inComment then (if isPlain c then skipTrivia true r else c :: r)
    else if isSpace c then skipTrivia false r
    else if c = '#' then skipTrivia true r
    else c :: r

/-! ### Strings -/

structure Quoting where
  mark : Char
  escapes : Bool
  /-- Whether the string is closed by three marks and may span lines. -/
  multiline : Bool

/-- What the characters before the current one call for. -/
inductive Pending where
  | plain
  | marks (count : Nat)
  | escape
  | hex (left value : Nat)
  | carriage
  /-- Blanks after a backslash at the end of a line are skipped. -/
  | join (lineEnded : Bool)
  | joinCarriage

def hexValue? (c : Char) : Option Nat :=
  if '0' ≤ c ∧ c ≤ '9' then some (c.toNat - '0'.toNat)
  else if 'a' ≤ c ∧ c ≤ 'f' then some (c.toNat - 'a'.toNat + 10)
  else if 'A' ≤ c ∧ c ≤ 'F' then some (c.toNat - 'A'.toNat + 10)
  else none

def ofDigits (base : Nat) (ds : List Char) : Nat :=
  ds.foldl (fun n c => n * base + (hexValue? c).getD 0) 0

def scalar? (n : Nat) : Option Char :=
  if n < 0xd800 ∨ (0xdfff < n ∧ n ≤ 0x10ffff) then some (Char.ofNat n) else none

def escaped? (c : Char) : Option Char :=
  if c = 'b' then some (Char.ofNat 0x8)
  else if c = 't' then some '\t'
  else if c = 'n' then some '\n'
  else if c = 'f' then some (Char.ofNat 0xc)
  else if c = 'r' then some '\r'
  else if c = '"' then some '"'
  else if c = '\\' then some '\\'
  else none

/-- A character with nothing pending: what is pending after it, and the text so far, latest
first. -/
def plainChar? (q : Quoting) (text : List Char) (c : Char) : Option (Pending × List Char) :=
  if q.multiline && c == q.mark then some (.marks 1, text)
  else if q.escapes && c == '\\' then some (.escape, text)
  else if q.multiline && c == '\n' then some (.plain, c :: text)
  else if q.multiline && c == '\r' then some (.carriage, text)
  else if isPlain c then some (.plain, c :: text)
  else none

def nextChar? (q : Quoting) (text : List Char) (c : Char) : Pending → Option (Pending × List Char)
  | .plain => plainChar? q text c
  | .marks k =>
    if c = q.mark then some (.marks (k + 1), text)
    else plainChar? q (List.replicate k q.mark ++ text) c
  | .escape =>
    match escaped? c with
    | some e => some (.plain, e :: text)
    | none =>
      if c = 'u' then some (.hex 4 0, text)
      else if c = 'U' then some (.hex 8 0, text)
      else if q.multiline && isSpace c then some (.join false, text)
      else if q.multiline && c == '\n' then some (.join true, text)
      else if q.multiline && c == '\r' then some (.joinCarriage, text)
      else none
  | .hex left value =>
    match hexValue? c with
    | none => none
    | some d =>
      if left ≤ 1 then (scalar? (value * 16 + d)).map fun e => (.plain, e :: text)
      else some (.hex (left - 1) (value * 16 + d), text)
  | .carriage => if c = '\n' then some (.plain, '\n' :: text) else none
  | .join lineEnded =>
    if isSpace c then some (.join lineEnded, text)
    else if c = '\n' then some (.join true, text)
    else if c = '\r' then some (.joinCarriage, text)
    else if lineEnded then plainChar? q text c
    else none
  | .joinCarriage => if c = '\n' then some (.join true, text) else none

/-- The text of a string up to its closing mark. Up to two marks before the three that close a
string of several lines belong to it. -/
def stringBody (q : Quoting) (pending : Pending) (text : List Char) : Reader String
  | [] =>
    match pending with
    | .marks k => if 3 ≤ k ∧ k ≤ 5 then close k [] else none
    | _ => none
  | c :: r =>
    match pending with
    | .plain =>
      if !q.multiline && c == q.mark then some (String.ofList text.reverse, r)
      else continueWith c r
    | .marks k => if 3 ≤ k ∧ (k = 5 ∨ c ≠ q.mark) then close k (c :: r) else continueWith c r
    | _ => continueWith c r
where
  close (k : Nat) (rest : List Char) : Option (String × List Char) :=
    some (String.ofList (List.replicate (k - 3) q.mark ++ text).reverse, rest)
  continueWith (c : Char) (r : List Char) : Option (String × List Char) :=
    match nextChar? q text c pending with
    | some (pending, text) => stringBody q pending text r
    | none => none

def lineString? : Reader String
  | '"' :: r => stringBody ⟨'"', true, false⟩ .plain [] r
  | c :: r => if c.toNat = 0x27 then stringBody ⟨c, false, false⟩ .plain [] r else none
  | [] => none

/-- A quoted string; a line end just after three opening marks is not part of it. -/
def string? : Reader String
  | a :: b :: c :: r =>
    if a = b ∧ b = c ∧ (a = '"' ∨ a.toNat = 0x27) then
      stringBody ⟨a, a == '"', true⟩ .plain [] ((lineEnd? r).getD r)
    else lineString? (a :: b :: c :: r)
  | cs => lineString? cs

end Sequencer.Toml
