import Mathlib

/-!
# Patterns

Regular expressions whose repetitions are of single characters, with the texts they match, what is
left of a text behind a match at its beginning, the search for a match anywhere, which may be refused
behind some characters, and the substitution of the matches, which are greedy.
-/

namespace LilTweak.Lib

inductive Pattern where
  | run (p : Char → Bool) (low : ℕ) (high : Option ℕ)
  | seq (a b : Pattern)
  | alt (a b : Pattern)

namespace Pattern

/-- The empty text. -/
def empty : Pattern := run (fun _ => false) 0 none

/-- One character. -/
def one (p : Char → Bool) : Pattern := run p 1 (some 1)

/-- `(?:…)?`. -/
def optional (a : Pattern) : Pattern := alt a empty

/-- One pattern after the other. -/
def all : List Pattern → Pattern
  | [] => empty
  | [a] => a
  | a :: rest => seq a (all rest)

/-- One of some patterns. -/
def any (first : Pattern) : List Pattern → Pattern
  | [] => first
  | a :: rest => alt first (any a rest)

/-- The texts a pattern matches. -/
def Matches : Pattern → List Char → Prop
  | run p low high, m => (∀ c ∈ m, p c = true) ∧ low ≤ m.length ∧ ∀ n ∈ high, m.length ≤ n
  | seq a b, m => ∃ u v, m = u ++ v ∧ Matches a u ∧ Matches b v
  | alt a b, m => Matches a m ∨ Matches b m

/-- What is left behind a run of at least `low` characters. -/
def runRests (p : Char → Bool) : ℕ → List Char → List (List Char)
  | low, [] => bif low.beq 0 then [[]] else []
  | low, c :: rest =>
    (bif low.beq 0 then [c :: rest] else []) ++ bif p c then runRests p low.pred rest else []

/-- What is left behind a run of `low` to `high` characters. -/
def boundedRests (p : Char → Bool) : ℕ → ℕ → List Char → List (List Char)
  | low, 0, s => bif low.beq 0 then [s] else []
  | low, _ + 1, [] => bif low.beq 0 then [[]] else []
  | low, high + 1, c :: rest =>
    (bif low.beq 0 then [c :: rest] else []) ++ bif p c then boundedRests p low.pred high rest else []

/-- What is left behind a match at the beginning. -/
def rests : Pattern → List Char → List (List Char)
  | run p low none, s => runRests p low s
  | run p low (some high), s => boundedRests p low high s
  | seq a b, s => (rests a s).flatMap (rests b)
  | alt a b, s => rests a s ++ rests b s

/-- A pattern that is not looked for behind some characters. -/
structure Guarded where
  behind : Char → Bool
  pattern : Pattern

/-- A pattern that is looked for everywhere. -/
def Guarded.free (pattern : Pattern) : Guarded := ⟨fun _ => false, pattern⟩

/-- There is a match right here, behind this character. -/
def Guarded.here (g : Guarded) (before : Option Char) (s : List Char) : Bool :=
  before.all (fun c => !g.behind c) && !(rests g.pattern s).isEmpty

/-- `re.search`: one of the patterns has a match somewhere. -/
def search (patterns : List Guarded) (before : Option Char) : List Char → Bool
  | [] => patterns.any fun g => g.here before []
  | c :: rest => (patterns.any fun g => g.here before (c :: rest)) || search patterns (some c) rest

/-- What is left behind the matches at the beginning, the one the matcher prefers first. -/
def ends : Pattern → List Char → List (List Char)
  | run p low none, s => (runRests p low s).reverse
  | run p low (some high), s => (boundedRests p low high s).reverse
  | seq a b, s => (ends a s).flatMap (ends b)
  | alt a b, s => ends a s ++ ends b s

/-- What is left behind the group and behind the whole of the preferred match of a group and a tail. -/
def firstMatch (group tail : Pattern) (s : List Char) : Option (List Char × List Char) :=
  ((ends group s).flatMap fun r => (ends tail r).map fun r' => (r, r')).head?

/-- The text with every match replaced by its group and a mark; `n` bounds the steps. -/
def substituteFrom (group tail : Pattern) (mark : List Char) : ℕ → List Char → List Char
  | 0, s => s
  | _ + 1, [] => []
  | n + 1, c :: rest =>
    match firstMatch group tail (c :: rest) with
    | some (r, r') => (c :: rest).take (rest.length + 1 - r.length) ++ mark ++ substituteFrom group tail mark n r'
    | none => c :: substituteFrom group tail mark n rest

/-- `re.sub`, for a pattern that matches no empty text. -/
def substitute (group tail : Pattern) (mark s : List Char) : List Char := substituteFrom group tail mark s.length s

end Pattern

end LilTweak.Lib
