import BuildYourOwn.Cluster.Proxy

/-!
# A link that is cut

When a connection starts no write while its link is cut (`cut_silent_iff`): exactly if its requests make
none of the steps that write without a look at the table (`Pump.Leaks`). The answers make none, as they
are never framed (`answers_plain`). `held_crosses` has two connections that do write.
-/

namespace BuildYourOwn.Cluster

open Lib

/-- The loop over the messages writes: a message is complete, and not the last one and held, or what is pending is
passed through. -/
def Pump.Frames (p : Pump) (fault : LinkFault) (hold : Bool) : Prop :=
  match httpMessageLen p.pending with
  | none => unframeable p.pending = true
  | some len => p.held.isSome ∨ (fault.reorder && hold) = false ∨
      (httpMessageLen (p.pending.drop len)).isSome ∨ unframeable (p.pending.drop len) = true

/-- The steps that write although the link may be cut: the hold timer fires, the stream ends or the chunk before its
end is not written while a message is held or bytes are pending, or a write ends that is not the last one of
its batch. -/
def Pump.Leaks (p : Pump) (i : Input) : Prop :=
  match p.place, i with
  | .selecting, .timer => p.held.isSome
  | .selecting, .ended | .writing .chunk, .written false _ _ => p.held.isSome ∨ p.pending ≠ []
  | .writing .earlier, .written true _ _ | .writing (.overtaking ..), .written true _ _ => True
  | .writing (.overtaken fault), .written true hold _ | .writing (.message _ fault), .written true hold _ =>
    p.Frames fault hold
  | .writing .lastHeld, .written .. => p.pending ≠ []
  | _, _ => False

section

variable {p p' : Pump} {now fault : LinkFault} {i : Input} {o : Output} {hold : Bool}

theorem top_cut (hcut : now.cut = true) : (p.top now).2.write = none := by
  simp [Pump.top, hcut, Pump.stop]

theorem finishPending_silent : p.finishPending.2.write = none ↔ p.pending = [] := by
  unfold Pump.finishPending
  split <;> simp_all [Pump.write]

theorem finish_silent : p.finish.2.write = none ↔ ¬(p.held.isSome ∨ p.pending ≠ []) := by
  unfold Pump.finish
  split
  · simp_all [Pump.write]
  · rw [finishPending_silent]
    simp_all

theorem frame_silent (hcut : now.cut = true) : (p.frame now fault hold 2).2.write = none ↔ ¬p.Frames fault hold := by
  unfold Pump.Frames
  cases hlen : httpMessageLen p.pending with
  | none =>
    rw [Pump.frame, hlen]
    by_cases hun : unframeable p.pending = true
    · cases hheld : p.held <;> simp [hun, Pump.write]
    · simp [hun, top_cut hcut]
  | some len =>
    rw [Pump.frame, hlen]
    cases hheld : p.held with
    | some earlier => simp [Pump.write]
    | none =>
      by_cases hhold : (fault.reorder && hold) = true
      · simp only [hhold, Pump.frame]
        cases hnext : httpMessageLen (p.pending.drop len) with
        | none =>
          by_cases hun : unframeable (p.pending.drop len) = true <;> simp [hun, Pump.write, top_cut hcut]
        | some n => simp [Pump.write]
      · simp [hhold, Pump.write]

theorem wrote_silent {after : After} {duplicate : Bool} (hcut : now.cut = true) (hplace : p.place = .writing after) :
    (p.wrote now hold duplicate after).2.write = none ↔ ¬p.Leaks (.written true hold duplicate) := by
  cases after with
  | chunk | late | rest => simp [Pump.wrote, Pump.Leaks, hplace, top_cut hcut]
  | earlier | overtaking => simp [Pump.wrote, Pump.Leaks, hplace, Pump.write]
  | overtaken | message =>
    simp only [Pump.wrote, Pump.Leaks, hplace]
    exact frame_silent hcut
  | lastHeld => simp [Pump.wrote, Pump.Leaks, hplace, finishPending_silent]
  | lastPending => simp [Pump.wrote, Pump.Leaks, hplace]

theorem failed_silent {after : After} {duplicate : Bool} (hplace : p.place = .writing after) :
    (p.failed after).2.write = none ↔ ¬p.Leaks (.written false hold duplicate) := by
  cases after with
  | chunk =>
    simp only [Pump.failed, Pump.Leaks, hplace]
    exact finish_silent
  | lastHeld => simp [Pump.failed, Pump.Leaks, hplace, finishPending_silent]
  | lastPending => simp [Pump.failed, Pump.Leaks, hplace]
  | late | earlier | rest | overtaking | overtaken | message =>
    simp [Pump.failed, Pump.Leaks, hplace, Pump.stop]

theorem step_silent (hcut : now.cut = true) (hs : p.step now i = some (p', o)) : o.write = none ↔ ¬p.Leaks i := by
  have hquiet (ho : o.write = none) (hleak : p.Leaks i = False) : o.write = none ↔ ¬p.Leaks i := by
    rw [hleak]
    exact iff_of_true ho not_false
  cases i with
  | begin | changed =>
    rw [Pump.step] at hs
    split at hs
    · rename_i hplace
      obtain ⟨rfl, rfl⟩ := Prod.mk.inj (Option.some.inj hs)
      exact hquiet (top_cut hcut) (by simp [Pump.Leaks, hplace])
    · cases hs
  | flushed =>
    rw [Pump.step] at hs
    split at hs
    · rename_i hplace
      cases hs
      exact hquiet rfl (by simp [Pump.Leaks, hplace])
    · cases hs
  | read chunk hold =>
    rw [Pump.step] at hs
    split at hs
    · rename_i hplace
      cases hs
      exact hquiet rfl (by simp [Pump.Leaks, hplace.1])
    · cases hs
  | slept hold =>
    rw [Pump.step] at hs
    split at hs
    · rename_i chunk fault hplace
      rw [if_pos hcut] at hs
      cases hs
      exact hquiet rfl (by simp [Pump.Leaks, hplace])
    · cases hs
  | ended =>
    rw [Pump.step] at hs
    split at hs
    · rename_i hplace
      obtain ⟨rfl, rfl⟩ := Prod.mk.inj (Option.some.inj hs)
      simp only [Pump.Leaks, hplace]
      exact finish_silent
    · cases hs
  | timer =>
    rw [Pump.step] at hs
    split at hs
    · rename_i hplace hheld
      cases hs
      simp [Pump.Leaks, hplace, hheld]
    · cases hs
  | written ok hold duplicate =>
    rw [Pump.step] at hs
    split at hs
    · rename_i after hplace
      cases ok with
      | true =>
        obtain ⟨rfl, rfl⟩ := Prod.mk.inj (Option.some.inj hs)
        exact wrote_silent hcut hplace
      | false =>
        obtain ⟨rfl, rfl⟩ := Prod.mk.inj (Option.some.inj hs)
        exact failed_silent hplace
    · cases hs

/-! ## The answers -/

structure Pump.Plain (p : Pump) : Prop where
  framed : p.framed = false
  pending : p.pending = []
  held : p.held = none
  place : ∀ after, p.place = .writing after → after = .chunk

theorem Pump.Plain.leaks (h : p.Plain) : ¬p.Leaks i := by
  unfold Pump.Leaks
  cases hplace : p.place with
  | writing after =>
    obtain rfl := h.place after hplace
    cases i with
    | written ok => cases ok <;> simp [h.held, h.pending]
    | begin | read | ended | changed | timer | slept | flushed => exact not_false
  | start | selecting | delayed | flushing | done => cases i <;> simp [h.held, h.pending]

theorem Pump.Plain.moved {place : Place} (h : p.Plain) (hplace : ∀ after, place = .writing after → after = .chunk) :
    Pump.Plain { p with place := place } :=
  ⟨h.framed, h.pending, h.held, hplace⟩

theorem Pump.Plain.top (h : p.Plain) : (p.top now).1.Plain := by
  unfold Pump.top
  split
  · exact h.moved nofun
  · exact h.moved nofun

theorem Pump.Plain.finish (h : p.Plain) : p.finish.1.Plain := by
  rw [Pump.finish, h.held]
  unfold Pump.finishPending
  rw [if_pos h.pending]
  exact h.moved nofun

theorem Pump.Plain.forward {chunk : Bytes} (h : p.Plain) : (p.forward now fault chunk hold).1.Plain := by
  rw [Pump.forward, h.framed]
  exact h.moved fun after ha => by cases ha; rfl

theorem Pump.Plain.step (h : p.Plain) (hs : p.step now i = some (p', o)) : p'.Plain := by
  have hend {r : Pump.Stepped} (hr : r.1.Plain) (he : some r = some (p', o)) : p'.Plain := by
    cases he
    exact hr
  cases i with
  | begin | changed =>
    rw [Pump.step] at hs
    split at hs
    · exact hend h.top hs
    · cases hs
  | read =>
    rw [Pump.step] at hs
    split at hs
    · refine hend ?_ hs
      split
      · exact h.moved nofun
      split
      · exact h.moved nofun
      · exact h.forward
    · cases hs
  | ended =>
    rw [Pump.step] at hs
    split at hs
    · exact hend h.finish hs
    · cases hs
  | timer =>
    rw [Pump.step] at hs
    split at hs
    · rename_i hheld
      rw [h.held] at hheld
      cases hheld
    · cases hs
  | slept =>
    rw [Pump.step] at hs
    split at hs
    · refine hend ?_ hs
      split
      · exact h.moved nofun
      · exact h.forward
    · cases hs
  | written ok =>
    rw [Pump.step] at hs
    split at hs
    · rename_i after hplace
      obtain rfl := h.place after hplace
      refine hend ?_ hs
      split
      · exact h.top
      · exact h.finish
    · cases hs
  | flushed =>
    rw [Pump.step] at hs
    split at hs
    · exact @hend p.stop (h.moved nofun) hs
    · cases hs

end

/-! ## Runs of a connection -/

variable {fault link : LinkFault} {es : List (Event Conn Action Output)} {c : Conn}

/-- **The answers** are never framed. -/
theorem answers_plain (h : Run Conn.step (.accepted fault link) es c) : c.answers.Plain := by
  refine h.invariant (P := fun c => c.answers.Plain) (G := fun _ _ => True) ⟨rfl, rfl, rfl, nofun⟩ ?_ fun _ _ => trivial
  intro c a c' o hc _ hs
  cases a with
  | set => cases hs; exact hc
  | requests i =>
    obtain ⟨r, -, hr⟩ := Option.map_eq_some_iff.mp hs
    cases hr
    exact hc
  | answers i =>
    obtain ⟨r, hstep, hr⟩ := Option.map_eq_some_iff.mp hs
    cases hr
    exact hc.step hstep
  | abort =>
    rw [Conn.step] at hs
    split at hs
    · cases hs
      exact hc.moved nofun
    · cases hs

def Conn.Leaks (c : Conn) : Action → Prop
  | .requests i => c.requests.Leaks i
  | .set _ | .answers _ | .abort => False

theorem conn_silent {c c' : Conn} {a : Action} {o : Output} (hplain : c.answers.Plain) (hcut : c.link.cut = true)
    (hs : c.step a = some (c', o)) : o.write = none ↔ ¬c.Leaks a := by
  cases a with
  | set => cases hs; simp [Conn.Leaks]
  | requests i =>
    obtain ⟨r, hstep, hr⟩ := Option.map_eq_some_iff.mp hs
    cases hr
    exact step_silent hcut hstep
  | answers i =>
    obtain ⟨r, hstep, hr⟩ := Option.map_eq_some_iff.mp hs
    cases hr
    exact (step_silent hcut hstep).trans (iff_of_true hplain.leaks not_false)
  | abort =>
    rw [Conn.step] at hs
    split at hs
    · cases hs
      simp [Conn.Leaks]
    · cases hs

/-- **A cut link** carries nothing exactly if the requests make no step that leaks while it is cut. -/
theorem cut_silent_iff (h : Run Conn.step (.accepted fault link) es c) :
    (∀ e ∈ es, e.before.link.cut = true → e.output.write = none) ↔
      ∀ e ∈ es, e.before.link.cut = true → ¬e.before.Leaks e.input := by
  refine forall₂_congr fun e he => imp_congr_right fun hcut => ?_
  obtain ⟨es₁, es₂, hsplit⟩ := List.append_of_mem he
  exact conn_silent (answers_plain (h.split hsplit)) hcut (h.step_of_mem he)

theorem cut_silent_dropped : ∃ es c, Run Conn.step (.accepted {} {}) es c ∧
    es.map Event.output = [{}, { write := some [1] }, {}, {}, {}] ∧
    ∀ e ∈ es, e.before.link.cut = true → e.output.write = none := by
  have hrun : Run Conn.step (.accepted {} {}) _ _ := run_of_exec [.requests .begin, .requests (.read [1] false),
    .set { cut := true }, .answers .begin, .requests (.written true false false)] rfl
  refine ⟨_, _, hrun, rfl, (cut_silent_iff hrun).mpr ?_⟩
  intro e he hcut
  simp only [List.nil_append, List.cons_append, List.mem_cons, List.not_mem_nil, or_false] at he
  rcases he with rfl | rfl | rfl | rfl | rfl <;> exact id

def getRoot : Bytes := [71, 69, 84, 32, 47, 13, 10, 13, 10]

/-- **A held message crosses** a link that is cut: the hold timer writes it. So do two messages of one chunk, the
second of them behind the cut. -/
theorem held_crosses :
    (∃ es c, Run Conn.step (.accepted { reorder := true } { reorder := true }) es c ∧
      ∃ e ∈ es, e.before.link.cut = true ∧ e.input = .requests .timer ∧ e.output.write = some getRoot) ∧
    ∃ es c, Run Conn.step (.accepted { duplicate := true } { duplicate := true }) es c ∧
      ∃ e ∈ es, e.before.link.cut = true ∧ e.output.write = some getRoot := by
  have hheld : Run Conn.step (.accepted { reorder := true } { reorder := true }) _ _ := run_of_exec
    [.requests .begin, .requests (.read getRoot true), .set { cut := true }, .requests .timer] rfl
  have htwo : Run Conn.step (.accepted { duplicate := true } { duplicate := true }) _ _ := run_of_exec
    [.requests .begin, .requests (.read (getRoot ++ getRoot) false), .set { cut := true },
      .requests (.written true false false)] rfl
  exact ⟨⟨_, _, hheld, _, List.mem_append_right _ List.mem_cons_self, rfl, rfl, rfl⟩,
    _, _, htwo, _, List.mem_append_right _ List.mem_cons_self, rfl, rfl⟩

end BuildYourOwn.Cluster
