import BuildYourOwn.Lib.Run

/-!
# JSON values, as the topics build and read them

`serde_json::Value`, as `disttest/examples/reference_algorithms.rs` and the topics under
`disttest/examples/alg/` use it: every answer is one JSON object, built by `json!`, and some
arguments are JSON arrays.

* An integer is `num`; `serde_json` keeps any `u64` or `i64`, so `asI64` checks the range.
* A number that is not an integer is `float` with its printed form: no topic computes with one.
* An object is the list of its fields. `json!` writes each key once and `get` reads by key.
-/

namespace BuildYourOwn.Topic

/-- `i64::MIN`. -/
def i64Min : Int := -9223372036854775808

/-- `i64::MAX`. -/
def i64Max : Int := 9223372036854775807

/-- Is `n` an `i64`? -/
def inI64 (n : Int) : Bool := decide (i64Min ≤ n) && decide (n ≤ i64Max)

inductive Value
  | null
  | bool (b : Bool)
  | num (n : Int)
  | float (text : String)
  | str (s : String)
  | arr (items : List Value)
  | obj (fields : List (String × Value))

namespace Value

/-- `Value::get(key)`. -/
def get : Value → String → Option Value
  | obj fields, key => fields.lookup key
  | _, _ => none

def asBool : Value → Option Bool
  | bool b => some b
  | _ => none

def asI64 : Value → Option Int
  | num n => if inI64 n then some n else none
  | _ => none

def asStr : Value → Option String
  | str s => some s
  | _ => none

def asArray : Value → Option (List Value)
  | arr items => some items
  | _ => none

/-- `map.insert(key, value)` on an object, and nothing on any other value: the topics guard it
with `as_object_mut`. -/
def insert : Value → String → Value → Value
  | obj fields, key, v => obj (fields.filter (fun f => f.1 != key) ++ [(key, v)])
  | v, _, _ => v

/-- `json!` of an `Option`: `null` when there is none. -/
def ofOption {α : Type} (f : α → Value) : Option α → Value
  | some a => f a
  | none => null

/-- The boolean an answer carries under `key`. -/
def flagAt (v : Value) (key : String) : Option Bool := (v.get key).bind asBool

/-- The text an answer carries under `key`. -/
def textAt (v : Value) (key : String) : Option String := (v.get key).bind asStr

/-- The whole number an answer carries under `key`. -/
def numAt (v : Value) (key : String) : Option Int :=
  match v.get key with
  | some (num n) => some n
  | _ => none

end Value

end BuildYourOwn.Topic

/-!
## Commands and their arguments

Model of the argument readers of `disttest/examples/reference_algorithms.rs` (`int`, `uint`,
`word`, `json_arg`, `int_list`, `word_list`, `flag`) and of `Topic::step`, the one function every
topic implements: the words of a command line in, one JSON object out.

* A topic's `step` returns `none` when the process panics, which in these topics only an `i64`
  that overflows makes it do (`addI64`); otherwise the state after the command and the answer.
* What is not in the repository is a parameter, `Host`: `serde_json::from_str`, the text
  `serde_json` prints for a value, and the table of non-ASCII characters that Rust's `{:?}`
  escapes. No theorem assumes anything about it.
* `arg` is the `arg!` macro: a bad argument is answered with its error and nothing moves.
-/

namespace BuildYourOwn.Topic

open Lib

/-- What the topics take from `serde_json` and from Rust's formatter. -/
class Host where
  /-- `serde_json::from_str`, with the text of its error. -/
  fromStr : String → Except String Value
  /-- `serde_json`'s `Display` for a value. -/
  display : Value → String
  /-- The characters past ASCII that `{:?}` writes as `\u`. -/
  escapes : Char → Bool

/-- A host for evaluation: the JSON texts of `table`, and no others. -/
@[reducible] def hostOf (table : List (String × Value)) : Host where
  fromStr raw :=
    match table.lookup raw with
    | some v => .ok v
    | none => .error "expected value at line 1 column 1"
  display _ := ""
  escapes _ := false

/-! ## Formatting -/

/-- `char::escape_debug`, with the double quote escaped and the single quote left alone. -/
def escapeDebug [Host] (c : Char) : String :=
  match c with
  | '\x00' => "\\0"
  | '\t' => "\\t"
  | '\r' => "\\r"
  | '\n' => "\\n"
  | '\\' => "\\\\"
  | '"' => "\\\""
  | c =>
    if c.toNat < 0x20 ∨ c.toNat = 0x7f ∨ (0x7f < c.toNat ∧ Host.escapes c = true) then
      "\\u\x7b" ++ String.ofList (Nat.toDigits 16 c.toNat) ++ "\x7d"
    else String.singleton c

/-- `format!("{:?}", s)`. -/
def debugStr [Host] (s : String) : String := "\"" ++ String.join (s.toList.map escapeDebug) ++ "\""

theorem toString_injective {i j : Nat} (h : toString i = toString j) : i = j := by
  rw [Nat.toString_eq_ofList_toDigits, Nat.toString_eq_ofList_toDigits] at h
  have hdigits := congrArg (Nat.ofDigitChars 10 · 0) (String.ofList_injective h)
  simpa only [Nat.ofDigitChars_ten_toDigits] using hdigits

/-- `err(message)`: the one shape of an error. -/
def err (message : String) : Value := .obj [("ok", .bool false), ("error", .str message)]

/-! ## Numbers -/

def parseDigits (cs : List Char) : Option Nat :=
  if cs ≠ [] ∧ cs.all Char.isDigit = true then
    some (cs.foldl (fun n c => n * 10 + (c.toNat - 48)) 0)
  else none

/-- `str::parse::<i64>`: an optional sign, then digits, within the range. -/
def parseI64 (w : String) : Option Int :=
  let n : Option Int := match w.toList with
    | '+' :: ds => (parseDigits ds).map Int.ofNat
    | '-' :: ds => (parseDigits ds).map fun n => -(n : Int)
    | ds => (parseDigits ds).map Int.ofNat
  n.filter inI64

/-- `str::parse::<usize>` on a 64-bit target: an optional `+`, then digits, within the range. -/
def parseUsize (w : String) : Option Nat :=
  let n := match w.toList with
    | '+' :: ds => parseDigits ds
    | ds => parseDigits ds
  n.filter fun n => decide (n < UInt64.size)

/-- An `i64`: `none` is the overflow panic. -/
def checkI64 (n : Int) : Option Int := if inI64 n then some n else none

theorem checkI64_eq_some {n m : Int} : checkI64 n = some m ↔ inI64 n = true ∧ m = n := by
  unfold checkI64
  split
  · rename_i h
    simp [h, eq_comm]
  · rename_i h
    simp [h]

/-- `a + b` on `i64`: `none` is the overflow panic. -/
def addI64 (a b : Int) : Option Int := if inI64 (a + b) then some (a + b) else none

theorem addI64_eq_some {a b c : Int} : addI64 a b = some c ↔ inI64 (a + b) = true ∧ c = a + b := by
  unfold addI64
  split
  · rename_i h
    simp [h, eq_comm]
  · rename_i h
    simp [h]

/-! ## Arguments -/

/-- `int(args, i)`. -/
def int (args : List String) (i : Nat) : Except Value Int :=
  match args[i]? with
  | none => .error (err ("argument " ++ toString i ++ " is missing"))
  | some w =>
    match parseI64 w with
    | some n => .ok n
    | none => .error (err ("argument " ++ toString i ++ " is not a whole number"))

/-- `uint(args, i)`. -/
def uint (args : List String) (i : Nat) : Except Value Nat :=
  match int args i with
  | .error e => .error e
  | .ok n =>
    if 0 ≤ n then .ok n.toNat
    else .error (err ("argument " ++ toString i ++ " must not be negative"))

/-- `word(args, i)`. -/
def word (args : List String) (i : Nat) : Except Value String :=
  match args[i]? with
  | none => .error (err ("argument " ++ toString i ++ " is missing"))
  | some w => .ok w

variable {args : List String} {i : Nat}

theorem word_eq_ok {w : String} : word args i = .ok w ↔ args[i]? = some w := by
  unfold word
  cases args[i]? with
  | none => simp
  | some w' => simp

variable {v : Value}

theorem int_error (h : int args i = .error v) : ∃ message, v = err message := by
  unfold int at h
  split at h
  · exact ⟨_, (Except.error.inj h).symm⟩
  · split at h
    · cases h
    · exact ⟨_, (Except.error.inj h).symm⟩

theorem uint_error (h : uint args i = .error v) : ∃ message, v = err message := by
  unfold uint at h
  split at h
  · rename_i hint
    obtain rfl := Except.error.inj h
    exact int_error hint
  · split at h
    · cases h
    · exact ⟨_, (Except.error.inj h).symm⟩

theorem word_error (h : word args i = .error v) : ∃ message, v = err message := by
  unfold word at h
  split at h
  · exact ⟨_, (Except.error.inj h).symm⟩
  · cases h

theorem flagAt_err (message key : String) : (err message).flagAt key ≠ some true := by
  have hget : (err message).flagAt key =
      ((([("ok", .bool false), ("error", .str message)] : List (String × Value)).lookup key).bind
        Value.asBool) := rfl
  rw [hget, List.lookup_cons, List.lookup_cons, List.lookup_nil]
  cases key == "ok" with
  | true => exact fun h => nomatch Option.some.inj h
  | false =>
    cases key == "error" with
    | true => exact fun h => absurd h (by simp [Value.asBool])
    | false => exact nofun

/-- `json_arg(args, i)`. -/
def jsonArg [Host] (args : List String) (i : Nat) : Except Value Value :=
  match word args i with
  | .error e => .error e
  | .ok raw =>
    match Host.fromStr raw with
    | .ok v => .ok v
    | .error e => .error (err ("argument " ++ toString i ++ " is not JSON: " ++ e))

theorem jsonArg_error [Host] (h : jsonArg args i = .error v) : ∃ message, v = err message := by
  unfold jsonArg at h
  split at h
  · rename_i hword
    obtain rfl := Except.error.inj h
    exact word_error hword
  · split at h
    · cases h
    · exact ⟨_, (Except.error.inj h).symm⟩

/-- The shared body of `int_list` and `word_list`: a JSON array, each item read by `read`. -/
def listArg [Host] {α : Type} (read : Value → Option α) (kind : String) (args : List String)
    (i : Nat) : Except Value (List α) :=
  match jsonArg args i with
  | .error e => .error e
  | .ok v =>
    match v.asArray with
    | none => .error (err ("argument " ++ toString i ++ " is not an array"))
    | some items =>
      items.mapM fun x =>
        match read x with
        | some a => .ok a
        | none =>
          .error (err ("argument " ++ toString i ++ " holds " ++ Host.display x ++ ", not " ++ kind))

/-- `int_list(args, i)`. -/
def intList [Host] (args : List String) (i : Nat) : Except Value (List Int) :=
  listArg Value.asI64 "a whole number" args i

/-- `word_list(args, i)`. -/
def wordList [Host] (args : List String) (i : Nat) : Except Value (List String) :=
  listArg Value.asStr "a string" args i

/-- `flag(args, i, truthy, falsy)`. -/
def flag [Host] (args : List String) (i : Nat) (truthy falsy : String) : Except Value Bool :=
  match word args i with
  | .error e => .error e
  | .ok w =>
    if w = truthy then .ok true
    else if w = falsy then .ok false
    else .error (err ("argument " ++ toString i ++ " must be " ++ debugStr truthy ++ " or " ++
      debugStr falsy ++ ", got " ++ debugStr w))

/-! ## Steps -/

variable {σ α : Type}

/-- What a command leaves: the state after it and the answer, `none` for a panic. -/
abbrev Handled (σ : Type) := Option (σ × Value)

/-- `arg!(e)`: the argument, or its error as the answer with the state as it is. -/
def arg (s : σ) (e : Except Value α) (k : α → Handled σ) : Handled σ :=
  match e with
  | .ok a => k a
  | .error v => some (s, v)

@[simp] theorem arg_ok (s : σ) (a : α) (k : α → Handled σ) : arg s (.ok a) k = k a := rfl

@[simp] theorem arg_error (s : σ) (v : Value) (k : α → Handled σ) : arg s (.error v) k = some (s, v) := rfl

variable {e : Except Value α} {k : α → Handled σ}

theorem state_eq {s s' : σ} {v v' : Value} (h : some (s, v) = some (s', v')) : s' = s := by
  cases h
  rfl

/-- **Inversion of `arg`**: the argument was bad and nothing moved, or the rest of the command
ran on it. -/
theorem arg_eq_some {s s' : σ} :
    arg s e k = some (s', v) ↔ (e = .error v ∧ s' = s) ∨ ∃ a, e = .ok a ∧ k a = some (s', v) := by
  cases e with
  | ok a => simp
  | error w =>
    rw [arg_error, Option.some.injEq, Prod.mk.injEq]
    constructor
    · rintro ⟨rfl, rfl⟩
      exact .inl ⟨rfl, rfl⟩
    · rintro (⟨h, rfl⟩ | ⟨a, h, -⟩)
      · exact ⟨rfl, Except.error.inj h⟩
      · cases h

theorem arg_keeps {P : σ → Prop} {s s' : σ} (h : P s)
    (hs : arg s e k = some (s', v)) (hrest : ∀ a, e = .ok a → k a = some (s', v) → P s') : P s' := by
  rcases arg_eq_some.mp hs with ⟨-, rfl⟩ | ⟨a, ha, hs⟩
  · exact h
  · exact hrest a ha hs

theorem arg_total (h : ∀ a, ∃ s' v, k a = some (s', v)) (s : σ) : ∃ s' v, arg s e k = some (s', v) := by
  cases e with
  | ok a => exact h a
  | error v => exact ⟨s, v, rfl⟩

structure Line where
  command : String
  args : List String

/-- A topic's `step` as the step function of a machine over command lines. -/
def onLine (step : σ → String → List String → Handled σ) (s : σ) (l : Line) : Handled σ :=
  step s l.command l.args

end BuildYourOwn.Topic
