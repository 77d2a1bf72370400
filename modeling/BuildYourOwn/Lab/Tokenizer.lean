import Mathlib.Data.List.Sort
import BuildYourOwn.Lib.Folds

/-!
# The playground's shell tokenizer

Model of `site/src/lib/lab/tokenizer.ts`: `tokenize`, with `matchOperator`, `readExpansion` and `buildPipeline`.

A string is its UTF-16 code units (`Units`), as `input[i]` and `length` see it. `tokenize` is `none` where its
loops would not have ended by the time they have gone round once for each unit.
-/

namespace BuildYourOwn.Lab

open Lib

abbrev Units := List UInt16

/-- One code unit, of a character below `U+10000`. -/
def unit (c : Char) : UInt16 := UInt16.ofNat c.toNat

def units (s : String) : Units := s.toList.map unit

/-- `s.slice(start, stop)`. -/
def slice {α : Type} (s : List α) (start stop : Nat) : List α := (s.drop start).take (stop - start)

inductive SpanKind where
  | plain
  | single
  | double
  | escape
  | expansion
  | operator
  | space
  | comment
  | unterminated
deriving DecidableEq

structure Span where
  start : Nat
  stop : Nat
  kind : SpanKind
  /-- Index into the tokens, none for `-1`. -/
  token : Option Nat
deriving DecidableEq

inductive TokenKind where
  | word
  | operator
deriving DecidableEq

structure Token where
  index : Nat
  raw : Units
  value : Units
  kind : TokenKind
  quoted : Bool
  start : Nat
  stop : Nat
  expansions : List Units
deriving DecidableEq

structure Redirect where
  op : Units
  fd : Option Nat
  target : Units
  description : String
deriving DecidableEq

structure Command where
  argv : List Units
  redirects : List Redirect
deriving DecidableEq

inductive Unterminated where
  | single
  | double
  | escape
deriving DecidableEq

structure TokenizeResult where
  spans : List Span
  tokens : List Token
  pipeline : List Command
  separators : List Units
  warnings : List String
  unterminated : Option Unterminated
deriving DecidableEq

/-! ## Operators and expansions -/

def operators : List Units :=
  [">>", "<<", "&&", "||", "2>>", "2>", "1>>", "1>", "&>", ">", "<", "|", ";", "&"].map units

/-- `matchOperator`: the longest first. -/
def matchOperator (src : Units) (i : Nat) : Option Units :=
  (operators.insertionSort fun a b => b.length ≤ a.length).find? fun op => op.isPrefixOf (src.drop i)

/-- `/[A-Za-z_]/`. -/
def nameStart (c : UInt16) : Bool :=
  (unit 'A' ≤ c && c ≤ unit 'Z') || (unit 'a' ≤ c && c ≤ unit 'z') || c == unit '_'

/-- `/[A-Za-z0-9_]/`. -/
def nameUnit (c : UInt16) : Bool := nameStart c || (unit '0' ≤ c && c ≤ unit '9')

structure Expansion where
  name : Units
  stop : Nat

def readExpansion (src : Units) (i : Nat) : Option Expansion :=
  if src[i]? ≠ some (unit '$') then none
  else
    match src[i + 1]? with
    | none => none
    | some next =>
      if next = unit '{' then
        match (src.drop (i + 2)).idxOf? (unit '}') with
        | none => none
        | some n => some ⟨slice src (i + 2) (i + 2 + n), i + 2 + n + 1⟩
      else if next ∈ units "?$#!" then some ⟨[next], i + 2⟩
      else if nameStart next then
        let j := i + 1 + ((src.drop (i + 1)).takeWhile nameUnit).length
        some ⟨slice src (i + 1) j, j⟩
      else none

/-- `‹name›`. -/
def shown (name : Units) : Units := 0x2039 :: name ++ [0x203a]

/-! ## The scan -/

/-- `push`: a span that goes on with the last one is part of it. -/
def push (spans : List Span) (start stop : Nat) (kind : SpanKind) : List Span :=
  if stop ≤ start then spans
  else
    match spans.getLast? with
    | none => spans ++ [⟨start, stop, kind, none⟩]
    | some prev =>
      if prev.kind = kind ∧ prev.stop = start then spans.dropLast ++ [{ prev with stop := stop }]
      else spans ++ [⟨start, stop, kind, none⟩]

/-- The variables of `tokenize`. -/
structure Scan where
  i : Nat := 0
  spans : List Span := []
  tokens : List Token := []
  warnings : List String := []
  unterminated : Option Unterminated := none
  word : Units := []
  raw : Units := []
  wordStart : Option Nat := none
  quoted : Bool := false
  expansions : List Units := []

namespace Scan

def flush (s : Scan) (stop : Nat) : Scan :=
  match s.wordStart with
  | none => s
  | some start =>
    { s with
      tokens := s.tokens ++ [⟨s.tokens.length, s.raw, s.word, .word, s.quoted, start, stop, s.expansions⟩]
      word := []
      raw := []
      wordStart := none
      quoted := false
      expansions := [] }

end Scan

def blank (c : UInt16) : Bool := c == unit ' ' || c == unit '\t'

/-- Where the run of blanks from `i` ends. -/
def blankEnd (input : Units) (i : Nat) : Nat := i + ((input.drop i).takeWhile blank).length

/-- Where the single quotes that open at `i` end, and whether they are closed. -/
def singleEnd (input : Units) (i : Nat) : Nat × Bool :=
  match (input.drop (i + 1)).idxOf? (unit '\'') with
  | some n => (i + 1 + n + 1, true)
  | none => (input.length, false)

structure Quoted where
  i : Nat
  segStart : Nat
  spans : List Span
  word : Units
  expansions : List Units
  closed : Bool := false

def quotedEscape (input : Units) (i : Nat) : Option UInt16 :=
  if input[i]? = some (unit '\\') then (input[i + 1]?).filter (· ∈ units "\"\\$`\n") else none

def Quoted.round (input : Units) (q : Quoted) : Option Quoted :=
  let c := input.getD q.i 0
  if c = unit '"' then some { q with closed := true, i := q.i + 1 }
  else
    match quotedEscape input q.i with
    | some escaped =>
      some { q with
        spans := push (push q.spans q.segStart q.i .double) q.i (q.i + 2) .escape
        word := q.word ++ [escaped]
        i := q.i + 2
        segStart := q.i + 2 }
    | none =>
      match if q.i + 1 < input.length then readExpansion input q.i else none with
      | some exp =>
        some { q with
          spans := push (push q.spans q.segStart q.i .double) q.i exp.stop .expansion
          expansions := q.expansions ++ [exp.name]
          word := q.word ++ shown exp.name
          i := exp.stop
          segStart := exp.stop }
      | none => some { q with word := q.word ++ [c], i := q.i + 1 }

def Quoted.goesOn (input : Units) (q : Quoted) : Bool := !q.closed && decide (q.i < input.length)

namespace Scan

variable (input : Units) (s : Scan)

def blanks : Scan :=
  let s := s.flush s.i
  let i := blankEnd input s.i
  { s with i := i, spans := push s.spans s.i i .space }

def comment : Scan :=
  let s := s.flush s.i
  { s with i := input.length, spans := push s.spans s.i input.length .comment }

def operator (op : Units) : Scan :=
  let s := s.flush s.i
  { s with
    tokens := s.tokens ++ [⟨s.tokens.length, op, op, .operator, false, s.i, s.i + op.length, []⟩]
    spans := push s.spans s.i (s.i + op.length) .operator
    i := s.i + op.length }

def backslash : Scan :=
  match input[s.i + 1]? with
  | none =>
    { s with
      spans := push s.spans s.i (s.i + 1) .unterminated
      unterminated := some .escape
      warnings := s.warnings ++
        ["Line ends with a backslash — a real shell would ask for a continuation line."]
      raw := s.raw ++ [unit '\\']
      i := s.i + 1 }
  | some c =>
    { s with
      spans := push s.spans s.i (s.i + 2) .escape
      word := s.word ++ [c]
      raw := s.raw ++ slice input s.i (s.i + 2)
      quoted := true
      i := s.i + 2 }

def singleQuotes : Scan :=
  let (i, closed) := singleEnd input s.i
  let s' :=
    { s with
      word := s.word ++ slice input (s.i + 1) (if closed then i - 1 else i)
      raw := s.raw ++ slice input s.i i
      quoted := true
      i := i }
  if closed then { s' with spans := push s.spans s.i i .single }
  else
    { s' with
      spans := push s.spans s.i i .unterminated
      unterminated := some .single
      warnings := s.warnings ++
        ["Unterminated single quote — every byte after it is literal, including newlines."] }

def doubleQuotes : Option Scan := do
  let q ← whileLoop (Quoted.goesOn input) (Quoted.round input) input.length
    ⟨s.i + 1, s.i, s.spans, s.word, s.expansions, false⟩
  let s' :=
    { s with
      i := q.i
      word := q.word
      expansions := q.expansions
      raw := s.raw ++ slice input s.i q.i
      quoted := true }
  if q.closed then some { s' with spans := push q.spans q.segStart q.i .double }
  else
    some { s' with
      spans := push q.spans q.segStart q.i .unterminated
      unterminated := some .double
      warnings := s.warnings ++
        ["Unterminated double quote — the shell prints a `> ` continuation prompt (stage 57)."] }

def expansion (exp : Expansion) : Scan :=
  { s with
    spans := push s.spans s.i exp.stop .expansion
    expansions := s.expansions ++ [exp.name]
    word := s.word ++ shown exp.name
    raw := s.raw ++ slice input s.i exp.stop
    i := exp.stop }

/-- The branch for any other unit. -/
def plain (c : UInt16) : Scan :=
  { s with
    spans := push s.spans s.i (s.i + 1) .plain
    word := s.word ++ [c]
    raw := s.raw ++ [c]
    i := s.i + 1 }

def piece (c : UInt16) : Option Scan :=
  let s := { s with wordStart := some (s.wordStart.getD s.i) }
  if c = unit '\\' then some (s.backslash input)
  else if c = unit '\'' then some (s.singleQuotes input)
  else if c = unit '"' then s.doubleQuotes input
  else
    match readExpansion input s.i with
    | some exp => some (s.expansion input exp)
    | none => some (s.plain c)

/-- The loop body of `tokenize`. -/
def round : Option Scan :=
  let c := input.getD s.i 0
  if blank c then some (s.blanks input)
  else if c = unit '#' ∧ s.wordStart = none then some (s.comment input)
  else
    match matchOperator input s.i with
    | some op => some (s.operator op)
    | none => s.piece input c

end Scan

/-! ## The pipeline -/

/-- `REDIRECT_HELP`, and what there is for any other operator. -/
def redirectHelp (op : Units) : String :=
  (([(">", "truncate and write stdout"),
     ("1>", "truncate and write stdout (explicit fd 1)"),
     (">>", "append stdout"),
     ("1>>", "append stdout (explicit fd 1)"),
     ("2>", "truncate and write stderr"),
     ("2>>", "append stderr"),
     ("<", "read stdin from the file"),
     ("&>", "open once, dup onto both stdout and stderr")].find? fun e => units e.1 == op).map Prod.snd).getD "redirect"

/-- The variables of `buildPipeline`. -/
structure Building where
  pipeline : List Command := []
  separators : List Units := []
  current : Command := ⟨[], []⟩
  pendingRedirect : Option Units := none

def Building.take (b : Building) (t : Token) : Building :=
  match t.kind with
  | .operator =>
    if t.value ∈ [">", ">>", "<", "2>", "2>>", "1>", "1>>", "&>"].map units then
      { b with pendingRedirect := some t.value }
    else if t.value ∈ ["|", ";", "&&", "||", "&"].map units then
      { b with
        pipeline := b.pipeline ++ [b.current]
        separators := b.separators ++ [t.value]
        current := ⟨[], []⟩ }
    else b
  | .word =>
    match b.pendingRedirect with
    | some op =>
      let fd :=
        if (units "2").isPrefixOf op then some 2
        else if (units "1").isPrefixOf op then some 1
        else if op = units "<" then some 0
        else if op = units "&>" then none
        else some 1
      { b with
        current := { b.current with redirects := b.current.redirects ++ [⟨op, fd, t.value, redirectHelp op⟩] }
        pendingRedirect := none }
    | none => { b with current := { b.current with argv := b.current.argv ++ [t.value] } }

def buildPipeline (tokens : List Token) : List Command × List Units :=
  let b := tokens.foldl Building.take {}
  (b.pipeline ++ [b.current], b.separators)

/-! ## The tokens of a line -/

def attach (tokens : List Token) (x : Span) : Span :=
  if x.kind = .space ∨ x.kind = .comment then x
  else { x with token := (tokens.find? fun t => t.start ≤ x.start ∧ x.start < t.stop).map Token.index }

/-- The loop of `tokenize`. -/
def scan (input : Units) : Option Scan :=
  whileLoop (fun s => decide (s.i < input.length)) (Scan.round input) input.length {}

def tokenize (input : Units) : Option TokenizeResult := do
  let s ← scan input
  let s := s.flush input.length
  let (pipeline, separators) := buildPipeline s.tokens
  some ⟨s.spans.map (attach s.tokens), s.tokens, pipeline, separators, s.warnings, s.unterminated⟩

end BuildYourOwn.Lab
