/-!
# Places in a YAML text

The characters that matter to the layout of a text, and `Cursor`, a place in it:
what is still to be read, the column, and whether a key may begin there.

Line breaks are made uniform before anything is read: a line ends with a line
feed, or with one of the separators of lines and paragraphs.
-/

namespace Mediation.Yaml

/-! ### Characters -/

def isBreak (c : Char) : Bool := c = '\n' || c = '\u2028' || c = '\u2029'

def isSpace (c : Char) : Bool := c = ' ' || c = '\t'

/-- Whether a word ends here: at a space, a tab, a line break or the end. -/
def endsWord : List Char → Bool
  | [] => true
  | c :: _ => isSpace c || isBreak c

def isReadable (c : Char) : Bool :=
  let n := c.toNat
  c = '\t' || c = '\n' || c = '\r' || (0x20 ≤ n && n ≤ 0x7E) || n = 0x85
    || (0xA0 ≤ n && n ≤ 0xFFFD) || 0x10000 ≤ n

def isByteOrderMark (c : Char) : Bool := c.toNat = 0xFEFF

/-- The text with a line feed in place of every carriage return, alone or before
a line feed, and of every next-line character. -/
def uniformBreaks : List Char → List Char
  | [] => []
  | '\r' :: '\n' :: r => '\n' :: uniformBreaks r
  | c :: r => (if c = '\r' || c.toNat = 0x85 then '\n' else c) :: uniformBreaks r

/-! ### Places -/

/-- A place in a text; `fresh` tells that a key may begin there. -/
structure Cursor where
  rest : List Char
  column : Nat
  fresh : Bool
  deriving DecidableEq

def Cursor.start (cs : List Char) : Cursor := ⟨cs, 0, true⟩

def Cursor.skip (c : Cursor) (n : Nat) : Cursor :=
  { c with rest := c.rest.drop n, column := c.column + n }

def beginsWith (mark cs : List Char) : Bool := mark.isPrefixOf cs && endsWord (cs.drop mark.length)

def documentStartMark : List Char := ['-', '-', '-']

def documentEndMark : List Char := ['.', '.', '.']

def isMark (column : Nat) (cs : List Char) : Bool :=
  column = 0 && (beginsWith documentStartMark cs || beginsWith documentEndMark cs)

/-- Skips spaces, comments and line breaks, and a byte order mark at the beginning
of a line. In blocks a key may begin after a line break, and where a key may
begin no tab is skipped. -/
def skipGap (flow : Bool) : Bool → Bool → Nat → List Char → Cursor
  | fresh, _, column, [] => ⟨[], column, fresh⟩
  | fresh, inComment, column, c :: r =>
    if isBreak c then skipGap flow (fresh || !flow) false 0 r
    else if inComment then skipGap flow fresh true (column + 1) r
    else if column = 0 && isByteOrderMark c then skipGap flow fresh false 1 r
    else if c = ' ' || (c = '\t' && (flow || !fresh)) then skipGap flow fresh false (column + 1) r
    else if c = '#' then skipGap flow fresh true (column + 1) r
    else ⟨c :: r, column, fresh⟩

def Cursor.next (c : Cursor) (flow : Bool) : Cursor := skipGap flow c.fresh false c.column c.rest

def Cursor.upTo (c : Cursor) (rest : List Char) : Cursor :=
  { c with rest := rest, column := c.column + (c.rest.length - rest.length) }

def byteCount (cs : List Char) : Nat := cs.foldl (fun n c => n + c.utf8Size) 0

def maxKeyLength : Nat := 1024

/-- Whether what stands between two places may be a key: it is short and within
a line. The places are given by what follows them. -/
def mayBeKey (start behind : List Char) : Bool :=
  let key := start.take (start.length - behind.length)
  key.all (!isBreak ·) && byteCount key ≤ maxKeyLength

/-! ### White space inside a scalar -/

/-- The white space since the last character of a scalar: within a line, or with
its first line break and those after it. -/
inductive Pending where
  | spaces (cs : List Char)
  | breaks (first more : List Char)

def Pending.none : Pending := .spaces []

/-- A space or tab follows; around line breaks they do not count. -/
def Pending.space (c : Char) : Pending → Pending
  | .spaces cs => .spaces (cs ++ [c])
  | .breaks first more => .breaks first more

def Pending.lineBreak (c : Char) : Pending → Pending
  | .spaces _ => .breaks [c] []
  | .breaks first more => .breaks first (more ++ [c])

/-- What white space comes to: a single line feed is a space, and of several the
first does not count. -/
def Pending.fold : Pending → List Char
  | .spaces cs => cs
  | .breaks first more =>
    if first = ['\n'] then (if more = [] then [' '] else more) else first ++ more

def Pending.hasBreak : Pending → Bool
  | .spaces _ => false
  | .breaks _ _ => true

/-- A scalar that was read: its characters, and the place behind it. -/
structure Scanned where
  chars : List Char
  after : Cursor

def Scanned.prepend (cs : List Char) (s : Scanned) : Scanned := { s with chars := cs ++ s.chars }

end Mediation.Yaml
