import Mathlib

/-!
# Regular expressions with leftmost-first matching

Regular expressions over characters as a backtracking matcher reads them:
`ends` lists the ways a pattern can match from a position, in the order a
backtracking search tries them, each with the position it ends at and the
spans of the groups it has captured.  An alternation tries its left side
first, a repetition tries one more turn before it stops, and a turn of a
repetition must consume a character.  The first way from the leftmost start
is the match; this is the leftmost-first semantics of Go's `regexp`.

Counted repetitions and optional parts are written with `repeat` and `opt`;
`^` and `$` take a flag for the multi-line mode, where they also match at the
ends of lines.
-/

namespace Regex

inductive Pattern
  | empty
  | char (p : Char → Bool)
  | seq (r s : Pattern)
  | alt (r s : Pattern)
  | star (r : Pattern)
  | group (i : ℕ) (r : Pattern)
  | lineStart (multiline : Bool)
  | lineEnd (multiline : Bool)

/-- A way a pattern matches: where it ends, and the span of each group
captured, the latest first. -/
structure Match where
  pos : ℕ
  caps : List (ℕ × ℕ × ℕ)
  deriving DecidableEq, Repr

/-- `r?`, preferring `r`. -/
def Pattern.opt (r : Pattern) : Pattern := .alt r .empty

/-- `rs`: the patterns one after the other. -/
def Pattern.seqs : List Pattern → Pattern
  | [] => .empty
  | [r] => r
  | r :: rs => .seq r (Pattern.seqs rs)

/-- `r{0,n}`, preferring more. -/
def Pattern.upTo (r : Pattern) : ℕ → Pattern
  | 0 => .empty
  | n + 1 => Pattern.opt (.seq r (r.upTo n))

/-- `r{m,m+n}`. -/
def Pattern.repeat (r : Pattern) (m n : ℕ) : Pattern :=
  .seq (Pattern.seqs (List.replicate m r)) (r.upTo n)

/-- `r+`. -/
def Pattern.plus (r : Pattern) : Pattern := .seq r (.star r)

def Pattern.lit (s : String) : Pattern := Pattern.seqs (s.toList.map fun c => .char (· == c))

/-- `\s` of Go's `regexp`: `[\t\n\f\r ]`. -/
def isSpace (c : Char) : Bool :=
  c == '\t' || c == '\n' || c.toNat == 12 || c == '\r' || c == ' '

/-- `\w`: `[0-9A-Za-z_]`. -/
def isWord (c : Char) : Bool := c.isAlphanum || c == '_'

/-- The turns of a repetition from `m`, most turns first; each turn must end
past where it started. -/
def starEnds (step : Match → List Match) : ℕ → Match → List Match
  | 0, m => [m]
  | fuel + 1, m =>
      (step m).flatMap (fun m' => if m.pos < m'.pos then starEnds step fuel m' else []) ++ [m]

/-- The ways `r` matches the text from `m`, in the order of a backtracking
search. -/
def ends (text : List Char) : Pattern → Match → List Match
  | .empty, m => [m]
  | .char p, m =>
      match text[m.pos]? with
      | some c => if p c then [{ m with pos := m.pos + 1 }] else []
      | none => []
  | .seq r s, m => (ends text r m).flatMap (ends text s)
  | .alt r s, m => ends text r m ++ ends text s m
  | .star r, m => starEnds (ends text r) (text.length + 1) m
  | .group i r, m =>
      (ends text r m).map fun m' => { m' with caps := (i, m.pos, m'.pos) :: m'.caps }
  | .lineStart multiline, m =>
      if m.pos = 0 ∨ (multiline ∧ text[m.pos - 1]? = some '\n') then [m] else []
  | .lineEnd multiline, m =>
      if m.pos = text.length ∨ (multiline ∧ text[m.pos]? = some '\n') then [m] else []

/-- The leftmost-first match starting at `from` or later: its start and the
way it matches. -/
def findFrom (text : List Char) (r : Pattern) (start : ℕ) : Option (ℕ × Match) :=
  ((List.range (text.length + 1 - start)).map (· + start)).findSome? fun a =>
    (ends text r ⟨a, []⟩).head?.map (a, ·)

/-- The text of group `i` of a match, empty when the group took no part. -/
def Match.group (text : List Char) (m : Match) (i : ℕ) : List Char :=
  match m.caps.find? (·.1 = i) with
  | some (_, a, b) => (text.drop a).take (b - a)
  | none => []

/-- `FindSubmatch`'s group `i` of the leftmost-first match, `none` when
nothing matches. -/
def findSubmatch (text : List Char) (r : Pattern) (i : ℕ) : Option (List Char) :=
  (findFrom text r 0).map fun (_, m) => m.group text i

/-- The loop of `ReplaceAll`: copy the text between matches and the
replacement for each match, except for an empty match right after one. -/
def replaceAllLoop (text : List Char) (r : Pattern) (repl : List Char) :
    ℕ → ℕ → ℕ → List Char → List Char
  | 0, _, lastEnd, acc => acc ++ text.drop lastEnd
  | fuel + 1, searchPos, lastEnd, acc =>
      if searchPos > text.length then acc ++ text.drop lastEnd
      else
        match findFrom text r searchPos with
        | none => acc ++ text.drop lastEnd
        | some (a, m) =>
            let acc := acc ++ (text.drop lastEnd).take (a - lastEnd)
            let acc := if m.pos > lastEnd ∨ a = 0 then acc ++ repl else acc
            -- move past the match, and at least one character on
            replaceAllLoop text r repl fuel (if searchPos + 1 > m.pos then searchPos + 1 else m.pos)
              m.pos acc

/-- `ReplaceAll`: every non-overlapping match, from the left, replaced. -/
def replaceAll (text : List Char) (r : Pattern) (repl : List Char) : List Char :=
  replaceAllLoop text r repl (text.length + 2) 0 0 []

example : replaceAll "a1b22c".toList (.plus (.char Char.isDigit)) "#".toList = "a#b#c".toList := by
  decide

end Regex
