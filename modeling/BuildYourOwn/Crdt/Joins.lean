import BuildYourOwn.Crdt.Counting
import BuildYourOwn.Crdt.LastWrite
import BuildYourOwn.Crdt.ObservedRemove

/-!
# State-based merges are joins

The counters, the register and the set together. The register is one only when no write loses against its start: a
new register holds timestamp 0 and the empty name, which beats every write with a negative timestamp.
-/

namespace BuildYourOwn.Crdt

open Lib Topic

/-- **State-based merges are joins**, for the counters and the set in every exchange of states, and for the register
exactly when each write is greater than the start of a register or is made where such a write is known. -/
theorem state_merges_are_joins [Host] {P : Type} [DecidableEq P] {signed : Bool}
    {origin origin' origin'' : Nat → Nat} {counters : History P Counter} {sets : History P OrSet}
    {registers : History P Lww}
    (hcounters : Exchanged Counter.step (Counter.new signed) Counter.update (fun u => some u.replica)
      origin counters)
    (hsets : Exchanged OrSet.step OrSet.default OrSet.update OrSet.Op.replica? origin' sets)
    (hregisters : Exchanged Lww.step Lww.default Lww.update (fun w => some w.replica) origin''
      registers) :
    Counter.Joins origin counters signed ∧ OrSet.Joins origin' sets ∧
      (Lww.Joins origin'' registers ↔ Lww.AllGreater origin'' registers) := by
  obtain ⟨⟨_, hrun⟩, hgenuine, _, hown⟩ := hcounters
  obtain ⟨⟨_, hrun'⟩, hgenuine', _, hown'⟩ := hsets
  obtain ⟨⟨_, hrun''⟩, hgenuine'', _, hown''⟩ := hregisters
  exact ⟨Counter.joins hrun hgenuine hown, OrSet.joins hrun' hgenuine' hown',
    Lww.joins_iff hrun'' hgenuine'' hown''⟩

/-! A register that is written once, with a negative timestamp. -/

@[reducible] def noState : Host := hostOf []

def negativeTimestamp : List (Bool × Line) := [(false, ⟨"set", ["a", "red", "-5"]⟩)]

def twoNames (p : Bool) : String := if p then "b" else "a"

theorem twoNames_injective : Function.Injective twoNames := by
  intro p q
  cases p <;> cases q <;> decide

theorem negative_timestamp_lost : ∃ es : History Bool Lww,
    es.map Event.input = negativeTimestamp ∧
    @Exchanged Bool Lww Lww.Write noState _ (@Lww.step noState) Lww.default Lww.update
      (fun w => some w.replica) id es ∧
    es.map Event.output = [.obj [("ts", .num 0), ("value", .null)]] ∧
    ¬ @Lww.Joins noState Bool id es := by
  let _ : Host := noState
  obtain ⟨e, sys, hrun, hinputs, hwrite, hstart, hout, hmerged⟩ :
      ∃ (e : Event (Bool → Lww) (Bool × Line) Value) (sys : Bool → Lww),
      Run (each (onLine Lww.step)) (fun _ => Lww.default) [e] sys ∧
      [e].map Event.input = negativeTimestamp ∧
      updateAt Lww.update e = some ⟨"a", "red", -5⟩ ∧ e.after false = Lww.default ∧
      [e].map Event.output = [.obj [("ts", .num 0), ("value", .null)]] ∧ mergedIn e.input.2 = none :=
    ⟨_, _, run_of_exec negativeTimestamp rfl, rfl, rfl, rfl, rfl, rfl⟩
  have hfirst : e.input = (false, ⟨"set", ["a", "red", "-5"]⟩) := List.head_eq_of_cons_eq hinputs
  have hgenuine : Genuine id [e] := fun n e' v he hv => by
    obtain rfl := List.mem_singleton.mp (List.mem_of_getElem? he)
    cases hmerged.symm.trans hv
  have hown : OwnNames Lww.update (fun w => some w.replica) twoNames [e] := by
    refine ⟨twoNames_injective, fun n e' w r he hw hr => ?_⟩
    obtain rfl := List.mem_singleton.mp (List.mem_of_getElem? he)
    obtain rfl := Option.mem_unique hwrite hw
    rw [hfirst, ← Option.some.inj hr]
    rfl
  refine ⟨[e], hinputs, ⟨⟨sys, hrun⟩, hgenuine, _, hown⟩, hout, fun h => ?_⟩
  have hact : actAt Lww.update id [e] 0 = some (.update false) := by
    rw [actAt_event (show [e][0]? = some e from rfl), hwrite, hfirst]
  have hknown := absorbed_update hgenuine.acts_earlier hact
  obtain ⟨_, _, w, _, hheld, -⟩ := h.greatest 1 false ⟨0, by
    rw [Lww.known, hknown]
    exact Finset.mem_insert_self _ _⟩
  exact absurd (congrArg Lww.value (hstart.symm.trans hheld)) (by simp [Lww.default, Lww.Write.held])

/-! Two processes count, one of them in a state that the other takes over. -/

@[reducible] def countedState : Host :=
  hostOf [("\x7b\"p\":\x7b\"a\":2\x7d\x7d", .obj [("p", .obj [("a", .num 2)])])]

def twoCounters : List (Bool × Line) :=
  [(false, ⟨"inc", ["a", "2"]⟩), (false, ⟨"state", ["a"]⟩),
    (true, ⟨"merge", ["b", "\x7b\"p\":\x7b\"a\":2\x7d\x7d"]⟩), (true, ⟨"inc", ["b", "1"]⟩)]

def oneSet : List (Bool × Line) := [(false, ⟨"add", ["a", "x"]⟩)]

def oneWrite : List (Bool × Line) := [(true, ⟨"set", ["b", "red", "7"]⟩)]

theorem state_merges_are_joins_two_counters :
    ∃ (counters : History Bool Counter) (sets : History Bool OrSet) (registers : History Bool Lww),
    counters.map Event.input = twoCounters ∧ sets.map Event.input = oneSet ∧
    registers.map Event.input = oneWrite ∧
    (replica (Counter.new false) counters 4 true).value = some 3 ∧
    @Counter.Joins countedState Bool (fun _ => 1) counters false ∧
    @OrSet.Joins countedState Bool id sets ∧
    (@Lww.Joins countedState Bool id registers ↔ @Lww.AllGreater countedState Bool id registers) := by
  let _ : Host := countedState
  obtain ⟨c₁, c₂, c₃, c₄, csys, hcrun, hcinputs, hvalue, hmerged, hshared, hcounts⟩ :
      ∃ (c₁ c₂ c₃ c₄ : Event (Bool → Counter) (Bool × Line) Value) (csys : Bool → Counter),
      Run (each (onLine Counter.step)) (fun _ => Counter.new false) [c₁, c₂, c₃, c₄] csys ∧
      [c₁, c₂, c₃, c₄].map Event.input = twoCounters ∧
      (replica (Counter.new false) [c₁, c₂, c₃, c₄] 4 true).value = some 3 ∧
      [c₁, c₂, c₃, c₄].map (fun e => mergedIn e.input.2) =
        [none, none, some (.obj [("p", .obj [("a", .num 2)])]), none] ∧
      sharedAt c₂ = some (.obj [("p", .obj [("a", .num 2)])]) ∧
      [c₁, c₂, c₃, c₄].map (fun e => (updateAt Counter.update e).map Counter.Count.replica) =
        [some "a", none, none, some "b"] :=
    ⟨_, _, _, _, _, run_of_exec twoCounters rfl, rfl, rfl, rfl, rfl, rfl⟩
  obtain ⟨e, ssys, hsrun, hsinputs, hadd, hsmerged⟩ :
      ∃ (e : Event (Bool → OrSet) (Bool × Line) Value) (ssys : Bool → OrSet),
      Run (each (onLine OrSet.step)) (fun _ => OrSet.default) [e] ssys ∧
      [e].map Event.input = oneSet ∧ updateAt OrSet.update e = some (.add "a" "x") ∧
      mergedIn e.input.2 = none := ⟨_, _, run_of_exec oneSet rfl, rfl, rfl, rfl⟩
  obtain ⟨f, rsys, hrrun, hrinputs, hset, hrmerged⟩ :
      ∃ (f : Event (Bool → Lww) (Bool × Line) Value) (rsys : Bool → Lww),
      Run (each (onLine Lww.step)) (fun _ => Lww.default) [f] rsys ∧
      [f].map Event.input = oneWrite ∧ updateAt Lww.update f = some ⟨"b", "red", 7⟩ ∧
      mergedIn f.input.2 = none := ⟨_, _, run_of_exec oneWrite rfl, rfl, rfl, rfl⟩
  simp only [List.map_cons, List.map_nil, List.cons.injEq, and_true] at hmerged hcounts
  have hcgenuine : Genuine (fun _ => 1) [c₁, c₂, c₃, c₄] := by
    intro n e v he hv
    rcases n with _ | _ | _ | _ | n <;> simp at he <;> subst he <;> simp [hmerged] at hv
    subst hv
    exact ⟨by decide, c₂, rfl, hshared⟩
  have hcown : OwnNames Counter.update (fun u => some u.replica) twoNames [c₁, c₂, c₃, c₄] := by
    refine ⟨twoNames_injective, fun n e u r he hu hr => ?_⟩
    cases hr
    simp only [twoCounters, List.map_cons, List.map_nil, List.cons.injEq, and_true] at hcinputs
    rcases n with _ | _ | _ | _ | n <;> simp at he <;> subst he <;> simp [hu] at hcounts
    · rw [hcounts.1, hcinputs.1]
      rfl
    · rw [hcounts.2.2.2, hcinputs.2.2.2]
      rfl
  have hsown : OwnNames OrSet.update OrSet.Op.replica? twoNames [e] := by
    refine ⟨twoNames_injective, fun n e' op r he hop hr => ?_⟩
    obtain rfl := List.mem_singleton.mp (List.mem_of_getElem? he)
    obtain rfl := Option.mem_unique hadd hop
    rw [show e'.input = (false, ⟨"add", ["a", "x"]⟩) from List.head_eq_of_cons_eq hsinputs,
      ← Option.some.inj hr]
    rfl
  have hrown : OwnNames Lww.update (fun w => some w.replica) twoNames [f] := by
    refine ⟨twoNames_injective, fun n e' w r he hw hr => ?_⟩
    obtain rfl := List.mem_singleton.mp (List.mem_of_getElem? he)
    obtain rfl := Option.mem_unique hset hw
    rw [show e'.input = (true, ⟨"set", ["b", "red", "7"]⟩) from List.head_eq_of_cons_eq hrinputs,
      ← Option.some.inj hr]
    rfl
  refine ⟨_, _, _, hcinputs, hsinputs, hrinputs, hvalue, state_merges_are_joins
    ⟨⟨csys, hcrun⟩, hcgenuine, _, hcown⟩ ⟨⟨ssys, hsrun⟩, fun n e' v he hv => ?_, _, hsown⟩
    ⟨⟨rsys, hrrun⟩, fun n e' v he hv => ?_, _, hrown⟩⟩
  · obtain rfl := List.mem_singleton.mp (List.mem_of_getElem? he)
    cases hsmerged.symm.trans hv
  · obtain rfl := List.mem_singleton.mp (List.mem_of_getElem? he)
    cases hrmerged.symm.trans hv

end BuildYourOwn.Crdt
