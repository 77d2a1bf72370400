import BuildYourOwn.Topic.Command
import BuildYourOwn.Topic.Map
import Mathlib.Tactic.Tauto

/-!
# Failure-detector classes

Model of the `detector` machine (`disttest/examples/alg/broadcast.rs`): who suspects whom is recomputed, after every
command that may change it, from the class, the stability flag and who is alive.

**`detector_classes`**: in every state of a run `properties` reports the completeness and the accuracy that the class
promises. Weak accuracy names a live process, so it takes one.
-/

namespace BuildYourOwn.Group

open Lib Topic

/-- The class of a detector, with the empty name that it has before `init`. -/
inductive DetectorClass where
  | unset
  | perfect
  | eventuallyPerfect
  | eventuallyStrong
deriving DecidableEq

def DetectorClass.name : DetectorClass → String
  | .unset => ""
  | .perfect => "P"
  | .eventuallyPerfect => "eventually-perfect"
  | .eventuallyStrong => "eventually-strong"

structure Detector where
  n : Nat
  crashed : List Bool
  suspects : List IndexSet
  kind : DetectorClass
  /-- Whether the detector has stabilised. -/
  stable : Bool

namespace Detector

/-- `Detector::default`. -/
def default : Detector := ⟨0, [], [], .unset, false⟩

variable (s : Detector)

def isCrashed (i : Nat) : Bool := s.crashed.getD i false

def crashedOnes : List Nat := (List.range s.n).filter fun i => s.isCrashed i

def alive : List Nat := (List.range s.n).filter fun i => !s.isCrashed i

def suspectsOf (i : Nat) : IndexSet := s.suspects.getD i ∅

/-- The body of the loop of `refresh`. -/
def suspicion (i : Nat) : IndexSet :=
  let set := Std.ExtTreeSet.ofList (s.crashedOnes.filter fun c => c ≠ i)
  match s.kind with
  | .unset | .perfect => set
  | .eventuallyPerfect =>
    if s.stable then set
    else
      match s.alive.find? fun a => a ≠ i with
      | some first => set.insert first
      | none => set
  | .eventuallyStrong =>
    let trusted := s.alive.head?
    let set := s.alive.foldl (fun set a => if some a ≠ trusted ∧ a ≠ i then set.insert a else set) set
    if s.stable then set
    else
      match trusted with
      | some t => if t ≠ i then set.insert t else set
      | none => set

def refresh : Detector := { s with suspects := (List.range s.n).map s.suspicion }

def indexes (is : List Nat) : Value := .arr (is.map fun i => .num i)

def properties : Value :=
  let complete := s.alive.all fun i => s.crashedOnes.all fun c => c ∈ s.suspectsOf i
  let strongAccuracy := s.alive.all fun i => s.alive.all fun a => a = i ∨ a ∉ s.suspectsOf i
  let weakAccuracy := s.alive.any fun a => s.alive.all fun i => i = a ∨ a ∉ s.suspectsOf i
  .obj [("ok", .bool true), ("class", .str s.kind.name), ("stable", .bool s.stable),
    ("strong_completeness", .bool complete), ("strong_accuracy", .bool strongAccuracy),
    ("weak_accuracy", .bool weakAccuracy)]

def ofKind (kind : DetectorClass) : Handled Detector :=
  let s := refresh { s with kind, stable := kind = .perfect }
  some (s, .obj [("ok", .bool true), ("class", .str kind.name), ("stable", .bool s.stable)])

def noProcess (i : Nat) : Value := err s!"no process {i}"

def step [Host] (s : Detector) (command : String) (args : List String) : Handled Detector :=
  match command with
  | "init" => arg s (uint args 0) fun n =>
    if n = 0 then some (s, err "a group needs at least one process")
    else
      some (refresh ⟨n, List.replicate n false, List.replicate n ∅, .perfect, true⟩,
        .obj [("ok", .bool true), ("processes", .num n), ("class", .str "P")])
  | "class" => arg s (word args 0) fun w =>
    match w with
    | "P" => s.ofKind .perfect
    | "eventually-perfect" => s.ofKind .eventuallyPerfect
    | "eventually-strong" => s.ofKind .eventuallyStrong
    | other => some (s, err ("unknown class " ++ debugStr other))
  | "crash" => arg s (uint args 0) fun i =>
    if s.n ≤ i then some (s, noProcess i)
    else some (refresh { s with crashed := s.crashed.set i true }, .obj [("ok", .bool true), ("crashed", .num i)])
  | "stabilise" =>
    some (refresh { s with stable := true }, .obj [("ok", .bool true), ("stable", .bool true)])
  | "suspects" => arg s (uint args 0) fun i =>
    if s.n ≤ i then some (s, noProcess i)
    else some (s, .obj [("ok", .bool true), ("process", .num i), ("suspects", indexes (s.suspectsOf i).toList)])
  | "properties" => some (s, s.properties)
  | "state" =>
    some (s, .obj [("ok", .bool true), ("class", .str s.kind.name), ("stable", .bool s.stable),
      ("crashed", indexes s.crashedOnes), ("suspects", .arr (s.suspects.map fun set => indexes set.toList))])
  | other => some (s, err ("unknown command " ++ debugStr other))

variable {s : Detector} {i a c : Nat}

theorem mem_alive : a ∈ s.alive ↔ a < s.n ∧ s.isCrashed a = false := by simp [alive]

theorem mem_crashedOnes : c ∈ s.crashedOnes ↔ c < s.n ∧ s.isCrashed c = true := by simp [crashedOnes]

/-- The suspicions are those of the class. -/
def Fresh (s : Detector) : Prop := ∀ i < s.n, s.suspectsOf i = s.suspicion i

theorem fresh_refresh (s : Detector) : s.refresh.Fresh := fun i (hi : i < s.n) => by
  simp [suspectsOf, refresh, hi]
  rfl

theorem fresh_step [Host] {s s' : Detector} {l : Line} {v : Value} (h : s.Fresh)
    (hs : onLine step s l = some (s', v)) : s'.Fresh := by
  obtain ⟨command, args⟩ := l
  have hfresh {t : Detector} {w : Value} (hs : some (refresh t, w) = some (s', v)) : s'.Fresh :=
    state_eq hs ▸ fresh_refresh t
  have hsame {w : Value} (hs : some (s, w) = some (s', v)) : s'.Fresh := state_eq hs ▸ h
  unfold onLine step at hs
  dsimp only at hs
  split at hs
  case h_1 =>
    refine arg_keeps h hs fun n _ hs => ?_
    split at hs
    · exact hsame hs
    · exact hfresh hs
  case h_2 =>
    refine arg_keeps h hs fun w _ hs => ?_
    split at hs
    case h_4 => exact hsame hs
    all_goals exact hfresh hs
  case h_3 =>
    refine arg_keeps h hs fun i _ hs => ?_
    split at hs
    · exact hsame hs
    · exact hfresh hs
  case h_4 => exact hfresh hs
  case h_5 =>
    refine arg_keeps h hs fun i _ hs => ?_
    split at hs <;> exact hsame hs
  all_goals exact hsame hs

/-! ## What the classes promise -/

/-- Which live processes the class lets a process suspect. -/
def Adds (s : Detector) (i a : Nat) : Prop :=
  match s.kind with
  | .unset | .perfect => False
  | .eventuallyPerfect => s.stable = false ∧ s.alive.find? (fun a => a ≠ i) = some a
  | .eventuallyStrong => a ∈ s.alive ∧ a ≠ i ∧ (s.stable = true → some a ≠ s.alive.head?)

theorem mem_foldl_insert {p : Nat → Prop} [DecidablePred p] (l : List Nat) (set : IndexSet) :
    a ∈ l.foldl (fun set a => if p a then set.insert a else set) set ↔ a ∈ set ∨ a ∈ l ∧ p a := by
  induction l generalizing set with
  | nil => simp
  | cons b l ih =>
    rw [List.foldl_cons, ih]
    by_cases hb : p b
    · rw [if_pos hb, IndexSet.mem_insert, List.mem_cons]
      by_cases hab : a = b
      · simp [hab, hb]
      · simp [hab]
    · rw [if_neg hb, List.mem_cons]
      by_cases hab : a = b
      · simp [hab, hb]
      · simp [hab]

theorem mem_suspicion : a ∈ s.suspicion i ↔ (a ∈ s.crashedOnes ∧ a ≠ i) ∨ s.Adds i a := by
  have hbase : a ∈ (Std.ExtTreeSet.ofList (s.crashedOnes.filter fun c => c ≠ i) : IndexSet) ↔
      a ∈ s.crashedOnes ∧ a ≠ i := by simp
  unfold suspicion Adds
  cases s.kind with
  | unset | perfect => simp
  | eventuallyPerfect =>
    by_cases hstable : s.stable = true
    · simp [hstable]
    · dsimp only
      rw [if_neg hstable]
      cases hfirst : s.alive.find? fun a => a ≠ i with
      | none => simp
      | some first =>
        dsimp only
        rw [IndexSet.mem_insert, hbase, or_comm, Option.some.injEq, eq_comm (a := a),
          and_iff_right (Bool.eq_false_iff.mpr hstable)]
  | eventuallyStrong =>
    have hset := mem_foldl_insert (p := fun a => some a ≠ s.alive.head? ∧ a ≠ i) (a := a) s.alive
      (Std.ExtTreeSet.ofList (s.crashedOnes.filter fun c => c ≠ i))
    rw [hbase] at hset
    dsimp only
    by_cases hstable : s.stable = true
    · rw [if_pos hstable, hset]
      tauto
    · rw [if_neg hstable]
      cases htrusted : s.alive.head? with
      | none =>
        rw [htrusted] at hset
        have : s.alive = [] := List.head?_eq_none_iff.mp htrusted
        simp_all
      | some t =>
        have ht : t ∈ s.alive := List.mem_of_head? htrusted
        rw [htrusted] at hset
        dsimp only
        by_cases hat : a = t
        · split <;> simp_all
        · have hta : t ≠ a := Ne.symm hat
          split <;> simp_all

/-- **The promises**, as `properties` reports them. -/
theorem detector_classes [Host] {es : List (Event Detector Line Value)} (hrun : Run (onLine step) default es s)
    (args : List String) :
    ∃ v complete strong weak, onLine step s ⟨"properties", args⟩ = some (s, v) ∧
      v.flagAt "strong_completeness" = some complete ∧ v.flagAt "strong_accuracy" = some strong ∧
      v.flagAt "weak_accuracy" = some weak ∧ complete = true ∧
      (s.kind = .perfect ∨ s.kind = .eventuallyPerfect ∧ s.stable = true → strong = true) ∧
      (s.alive ≠ [] → (s.stable = true → weak = true) ∧ (strong = true → weak = true)) := by
  have hfresh : s.Fresh := hrun.invariant (P := Fresh) (G := fun _ _ => True)
    (fun i hi => absurd hi (Nat.not_lt_zero i)) (fun _ _ _ _ h _ hs => fresh_step h hs) fun _ _ => trivial
  have hlive {i : Nat} (hi : i ∈ s.alive) (a : Nat) :
      a ∈ s.suspectsOf i ↔ (a ∈ s.crashedOnes ∧ a ≠ i) ∨ s.Adds i a := by
    rw [hfresh i (mem_alive.mp hi).1, mem_suspicion]
  have hapart {a : Nat} (ha : a ∈ s.alive) : a ∉ s.crashedOnes := fun hc =>
    absurd ((mem_alive.mp ha).2.symm.trans (mem_crashedOnes.mp hc).2) (by simp)
  refine ⟨_, _, _, _, rfl, rfl, rfl, rfl, ?_, fun hkind => ?_, fun hsome => ⟨fun hstable => ?_, fun hstrong => ?_⟩⟩
  · refine List.all_eq_true.mpr fun i hi => List.all_eq_true.mpr fun c hc => decide_eq_true ?_
    exact (hlive hi c).mpr (.inl ⟨hc, fun heq => hapart hi (heq ▸ hc)⟩)
  · refine List.all_eq_true.mpr fun i hi => List.all_eq_true.mpr fun a ha => decide_eq_true (.inr fun hmem => ?_)
    rcases (hlive hi a).mp hmem with ⟨hc, -⟩ | hadds
    · exact hapart ha hc
    · rcases hkind with hkind | ⟨hkind, hstable⟩ <;> simp_all [Adds]
  · -- nobody suspects the first live process
    obtain ⟨t, ht⟩ : ∃ t, s.alive.head? = some t := by
      cases halive : s.alive with
      | nil => exact absurd halive hsome
      | cons t rest => exact ⟨t, rfl⟩
    refine List.any_eq_true.mpr ⟨t, List.mem_of_head? ht, List.all_eq_true.mpr fun i hi => ?_⟩
    refine decide_eq_true (.inr fun hmem => ?_)
    rcases (hlive hi t).mp hmem with ⟨hc, -⟩ | hadds
    · exact hapart (List.mem_of_head? ht) hc
    · unfold Adds at hadds
      split at hadds <;> simp_all
  · obtain ⟨a, ha⟩ := List.exists_mem_of_ne_nil _ hsome
    refine List.any_eq_true.mpr ⟨a, ha, List.all_eq_true.mpr fun i hi => ?_⟩
    have hpair := List.all_eq_true.mp (List.all_eq_true.mp hstrong i hi) a ha
    exact decide_eq_true ((of_decide_eq_true hpair).imp_left Eq.symm)

theorem detector_classes_two : ∃ s v, s.kind = .eventuallyStrong ∧ s.alive = [1] ∧
    onLine (@step (hostOf [])) s ⟨"properties", []⟩ = some (s, v) ∧ v.flagAt "strong_completeness" = some true := by
  let _ : Host := hostOf []
  obtain ⟨es, s, hrun, hkind, halive⟩ : ∃ es s, Run (onLine step) default es s ∧ s.kind = .eventuallyStrong ∧
      s.alive = [1] :=
    ⟨_, _, run_of_exec [⟨"init", ["2"]⟩, ⟨"class", ["eventually-strong"]⟩, ⟨"crash", ["0"]⟩] rfl, rfl, rfl⟩
  obtain ⟨v, complete, strong, weak, hs, hcomplete, -, -, rfl, -⟩ := detector_classes hrun []
  exact ⟨s, v, hkind, halive, hs, hcomplete⟩

/-- **With nobody left** strong accuracy is reported, and weak accuracy is not. -/
theorem detector_alone : ∃ es s v, Run (onLine (@step (hostOf []))) default es s ∧
    es.map Event.input = [⟨"init", ["1"]⟩, ⟨"crash", ["0"]⟩] ∧ s.stable = true ∧
    onLine (@step (hostOf [])) s ⟨"properties", []⟩ = some (s, v) ∧ v.flagAt "strong_accuracy" = some true ∧
    v.flagAt "weak_accuracy" = some false := by
  let _ : Host := hostOf []
  exact ⟨[_, _], _, _, run_of_exec [⟨"init", ["1"]⟩, ⟨"crash", ["0"]⟩] rfl, rfl, rfl, rfl, rfl, rfl⟩

end Detector

end BuildYourOwn.Group
