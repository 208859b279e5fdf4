import Mediation.Yaml.Cursor

/-!
# Plain scalars

A scalar without quotes ends at a colon in front of white space, at a comment,
and in blocks at a line that is not indented far enough. Inside brackets it ends
at a comma or a bracket too.
-/

namespace Mediation.Yaml

def isFlowMark (c : Char) : Bool := c = ',' || c = '[' || c = ']' || c = '{' || c = '}'

def isReserved (c : Char) : Bool :=
  isFlowMark c || c = '#' || c = '&' || c = '*' || c = '!' || c = '|' || c = '>' || c = '\''
    || c = '"' || c = '%' || c = '@' || c = '\u0060'

/-! ### Reading -/

def startsPlain (flow : Bool) : List Char → Bool
  | [] => false
  | c :: r =>
    if isSpace c || isBreak c || isReserved c then false
    else if c = '-' then !endsWord r
    else if c = '?' || c = ':' then !flow && !endsWord r
    else true

/-- Whether a colon inside brackets stands where none may stand. -/
def isStrayColon (c : Char) (r : List Char) : Bool :=
  c = ':' && r.head?.any fun d => isFlowMark d || d = '?'

def endsPlain (flow : Bool) (c : Char) (r : List Char) : Bool :=
  (c = ':' && endsWord r) || (flow && isFlowMark c)

def Pending.leaves (p : Pending) (flow : Bool) (margin column : Nat) (cs : List Char) : Bool :=
  match p with
  | .spaces [] => false
  | .spaces _ => cs.head? = some '#'
  | .breaks _ _ => cs.head? = some '#' || isMark column cs || (!flow && column < margin)

def readPlain (flow : Bool) (margin : Nat) : Pending → Nat → List Char → Option Scanned
  | p, column, [] => some ⟨[], ⟨[], column, p.hasBreak⟩⟩
  | p, column, c :: r =>
    if isSpace c then
      if p.hasBreak && column < margin && c = '\t' then none
      else readPlain flow margin (p.space c) (column + 1) r
    else if isBreak c then readPlain flow margin (p.lineBreak c) 0 r
    else if p.leaves flow margin column (c :: r) then some ⟨[], ⟨c :: r, column, p.hasBreak⟩⟩
    else if flow && isStrayColon c r then none
    else if endsPlain flow c r then some ⟨[], ⟨c :: r, column, p.hasBreak⟩⟩
    else (readPlain flow margin .none (column + 1) r).map (.prepend (p.fold ++ [c]))

/-! ### Writing -/

def mayBeginPlain : List Char → Bool
  | [] => true
  | c :: r =>
    !(isReserved c) && c ≠ ' ' && !((c = '-' || c = '?' || c = ':') && endsWord r)
      && !documentStartMark.isPrefixOf (c :: r) && !documentEndMark.isPrefixOf (c :: r)

/-- Whether no character behind the first ends a plain scalar; the first argument
is the character in front. -/
def mayContinuePlain : Char → List Char → Bool
  | b, [] => b ≠ ' '
  | b, c :: r =>
    !isBreak c && !(c = ':' && endsWord r) && !(c = '#' && b = ' ') && mayContinuePlain c r

def mayBePlain (cs : List Char) : Bool :=
  mayBeginPlain cs &&
    match cs with
    | [] => true
    | c :: r => !isBreak c && mayContinuePlain c r

end Mediation.Yaml
