import BuildYourOwn.Lab.Spans

/-!
# Spans and the tokens they belong to

`tokenize` gives each span the token that covers its start, as the comment on that loop says: the token that produced
its characters. A span that two operators have produced together belongs to the first of them only.

* `Owned`: the invariant of the loop. Outside operators a span lies in one token, and two operators that stand one behind
  the other share a span.
-/

namespace BuildYourOwn.Lab

open Lib

variable {input : Units} {s s' : Scan}

/-! ## Spans in tokens -/

theorem Lined.last {l : List Span} {stop : Nat} (h : Lined l stop) {x : Span} (hx : x ∈ l) (hstop : x.stop = stop) :
    ∃ init, l = init ++ [x] := by
  rcases List.eq_nil_or_concat' l with rfl | ⟨init, prev, rfl⟩
  · cases hx
  · obtain ⟨hinit, hpos, hprev⟩ := h.of_snoc
    rcases List.mem_append.mp hx with hx | hx
    · have := hinit.stop_le hx
      omega
    · obtain rfl := List.mem_singleton.mp hx
      exact ⟨init, rfl⟩

theorem push_merges {l : List Span} {start stop : Nat} (h : Lined l start) (hlt : start < stop) {x : Span} (hx : x ∈ l)
    (hstop : x.stop = start) : { x with stop := stop } ∈ push l start stop x.kind := by
  obtain ⟨init, rfl⟩ := h.last hx hstop
  rcases push_cases (init ++ [x]) x.kind hlt with ⟨-, hnone⟩ | ⟨init', prev, hl, -, -, hpush⟩
  · exact absurd hstop (hnone init x rfl rfl)
  · obtain ⟨-, hsame⟩ := List.append_inj' hl rfl
    obtain rfl : x = prev := List.head_eq_of_cons_eq hsame
    rw [hpush]
    exact List.mem_concat_self

def Grows (l l' : List Span) : Prop := ∀ x ∈ l, ∃ y ∈ l', y.kind = x.kind ∧ y.start = x.start ∧ x.stop ≤ y.stop

theorem Grows.push {l : List Span} {start stop : Nat} (kind : SpanKind) : Grows l (push l start stop kind) := by
  intro x hx
  by_cases hlt : start < stop
  · rcases push_cases l kind hlt with ⟨hpush, -⟩ | ⟨init, prev, rfl, -, hprev, hpush⟩
    · exact ⟨x, hpush ▸ List.mem_append_left _ hx, rfl, rfl, le_rfl⟩
    · rw [hpush]
      rcases List.mem_append.mp hx with hx | hx
      · exact ⟨x, List.mem_append_left _ hx, rfl, rfl, le_rfl⟩
      · obtain rfl := List.mem_singleton.mp hx
        exact ⟨_, List.mem_concat_self, rfl, rfl, hprev.le.trans hlt.le⟩
  · unfold Lab.push
    rw [if_pos (by omega)]
    exact ⟨x, hx, rfl, rfl, le_rfl⟩

theorem Grows.pushed {l l' : List Span} {start stop : Nat} (h : Pushed l start l' stop) : Grows l l' := by
  induction h with
  | refl => exact fun x hx => ⟨x, hx, rfl, rfl, le_rfl⟩
  | push _ _ _ ih =>
    intro x hx
    obtain ⟨y, hy, hkind, hstart, hstop⟩ := ih x hx
    obtain ⟨z, hz, hkind', hstart', hstop'⟩ := Grows.push _ y hy
    exact ⟨z, hz, hkind'.trans hkind, hstart'.trans hstart, hstop.trans hstop'⟩

theorem pushed_in_word {l l' : List Span} {start stop front : Nat} (h : Pushed l start l' stop) (hlined : Lined l start)
    (hfront : front ≤ start) (hlast : ∀ x ∈ l, x.kind.ofWord = true → x.stop = start → front ≤ x.start) :
    start ≤ stop ∧ ∀ x ∈ l', x ∈ l ∨ x.kind.ofWord = true ∧ front ≤ x.start := by
  induction h with
  | refl => exact ⟨le_rfl, fun x hx => .inl hx⟩
  | @push b i stop kind h hle hkind ih =>
    obtain ⟨hi, ih⟩ := ih
    refine ⟨hi.trans hle, fun x hx => ?_⟩
    rcases mem_push hx with hx | ⟨rfl, -, hstart | ⟨prev, hprev, hsame, hstop, hstart⟩⟩
    · exact ih x hx
    · exact .inr ⟨hkind, by omega⟩
    · rcases ih prev hprev with hold | ⟨-, hin⟩
      · have hend := hlined.stop_le hold
        have := hlast prev hold (hsame ▸ hkind) (by omega)
        exact .inr ⟨hkind, by omega⟩
      · exact .inr ⟨hkind, by omega⟩

/-- Two operators, one directly behind the other. -/
def Adjacent (t u : Token) : Prop := t.kind = .operator ∧ u.kind = .operator ∧ t.stop = u.start

structure Owned (s : Scan) : Prop where
  gap : ∀ x ∈ s.spans, x.kind = .space ∨ x.kind = .comment →
    x.stop ≤ s.front ∧ ∀ t ∈ s.tokens, t.stop ≤ x.start ∨ x.stop ≤ t.start
  word : ∀ x ∈ s.spans, x.kind.ofWord = true →
    s.front ≤ x.start ∨ ∃ t ∈ s.tokens, t.start ≤ x.start ∧ x.stop ≤ t.stop
  operator : ∀ x ∈ s.spans, x.kind = .operator →
    (∃ t ∈ s.tokens, t.kind = .operator ∧ t.start = x.start ∧ t.stop = x.stop) ∨
      ∃ t ∈ s.tokens, ∃ u ∈ s.tokens, Adjacent t u
  back : ∀ t ∈ s.tokens, t.kind = .operator →
    ∃ x ∈ s.spans, x.kind = .operator ∧ x.start ≤ t.start ∧ t.stop ≤ x.stop
  joined : ∀ t ∈ s.tokens, ∀ u ∈ s.tokens, Adjacent t u →
    ∃ x ∈ s.spans, x.kind = .operator ∧ x.start ≤ t.start ∧ u.stop ≤ x.stop

theorem Owned.start : Owned {} where
  gap _ hx := absurd hx List.not_mem_nil
  word _ hx := absurd hx List.not_mem_nil
  operator _ hx := absurd hx List.not_mem_nil
  back _ ht := absurd ht List.not_mem_nil
  joined _ ht := absurd ht List.not_mem_nil

theorem flush_cases (s : Scan) : (s.wordStart = none ∧ s.flush s.i = s) ∨
      ∃ t : Token, t.kind = .word ∧ t.start = s.front ∧ t.stop = s.i ∧ (s.flush s.i).tokens = s.tokens ++ [t] := by
  cases hstart : s.wordStart with
  | none => exact .inl ⟨rfl, by rw [Scan.flush, hstart]⟩
  | some start =>
    have hfront : s.front = start := by rw [Scan.front, hstart, Option.getD_some]
    exact .inr ⟨⟨s.tokens.length, s.raw, s.word, .word, s.quoted, start, s.i, s.expansions⟩, rfl, hfront.symm, rfl,
      by rw [Scan.flush, hstart]⟩

theorem mem_snoc_word {tokens : List Token} {t u : Token} (ht : t.kind = .word) (hu : u ∈ tokens ++ [t])
    (hkind : u.kind = .operator) : u ∈ tokens := by
  rcases List.mem_append.mp hu with hu | hu
  · exact hu
  · rw [List.mem_singleton.mp hu, ht] at hkind
    exact nomatch hkind

theorem Owned.flush (h : Owned s) (hfits : Fits input s) : Owned (s.flush s.i) := by
  rcases flush_cases s with ⟨-, hsame⟩ | ⟨t, hkind, hstart, hstop, htokens⟩
  · rwa [hsame]
  · have hfront := hfits.front_le
    constructor
    all_goals simp only [Scan.flush_spans, htokens, s.front_flush]
    · intro x hx hgap
      obtain ⟨hle, hapart⟩ := h.gap x hx hgap
      refine ⟨hle.trans hfront, fun u hu => ?_⟩
      rcases List.mem_append.mp hu with hu | hu
      · exact hapart u hu
      · exact .inr (hle.trans_eq (List.mem_singleton.mp hu ▸ hstart.symm))
    · intro x hx hword
      rcases h.word x hx hword with hle | ⟨u, hu, hin⟩
      · exact .inr ⟨t, List.mem_concat_self, hstart.trans_le hle,
          (hfits.lined.stop_le hx).trans_eq hstop.symm⟩
      · exact .inr ⟨u, List.mem_append_left _ hu, hin⟩
    · intro x hx hop
      rcases h.operator x hx hop with ⟨u, hu, hsame⟩ | ⟨u, hu, v, hv, hadj⟩
      · exact .inl ⟨u, List.mem_append_left _ hu, hsame⟩
      · exact .inr ⟨u, List.mem_append_left _ hu, v, List.mem_append_left _ hv, hadj⟩
    · exact fun u hu hop => h.back u (mem_snoc_word hkind hu hop) hop
    · exact fun u hu v hv hadj => h.joined u (mem_snoc_word hkind hu hadj.1) v (mem_snoc_word hkind hv hadj.2.1) hadj

/-- With no word under way, no piece of a word comes last. -/
def Settled (s : Scan) : Prop := s.wordStart = none → ∀ x ∈ s.spans, x.stop = s.i → x.kind.ofWord = false

theorem Owned.gap_step (h : Owned s) (hfits : Fits input s) {kind : SpanKind} {stop : Nat} (hlt : s.i < stop)
    (hkind : kind = .space ∨ kind = .comment) :
    Owned { s.flush s.i with i := stop, spans := push s.spans s.i stop kind } := by
  have hflush := h.flush hfits
  have hspans := s.flush_spans s.i
  have hstops : ∀ t ∈ (s.flush s.i).tokens, t.stop ≤ s.i := fun t ht =>
    ((hfits.flush.tokens t ht).2.1).trans_eq s.front_flush
  have hnew : ∀ x ∈ push s.spans s.i stop kind, x ∈ s.spans ∨ x.kind = kind ∧ x.stop = stop ∧
      ∀ t ∈ (s.flush s.i).tokens, t.stop ≤ x.start := by
    intro x hx
    rcases mem_push hx with hx | ⟨hsame, hstop, hstart | ⟨prev, hprev, hprevkind, hprevstop, hstart⟩⟩
    · exact .inl hx
    · exact .inr ⟨hsame, hstop, fun t ht => hstart ▸ hstops t ht⟩
    · refine .inr ⟨hsame, hstop, fun t ht => ?_⟩
      rcases (hflush.gap prev (hspans ▸ hprev) (hprevkind ▸ hkind)).2 t ht with hle | hle
      · exact hle.trans_eq hstart
      · have := (hfits.flush.tokens t ht).1
        have := hstops t ht
        omega
  have hgrows : Grows s.spans (push s.spans s.i stop kind) := Grows.push kind
  constructor
  all_goals simp only [Scan.front, Scan.flush_wordStart, Option.getD_none]
  · intro x hx hgap
    rcases hnew x hx with hx | ⟨-, hstop, hapart⟩
    · obtain ⟨hle, hapart⟩ := hflush.gap x (hspans ▸ hx) hgap
      rw [s.front_flush] at hle
      exact ⟨hle.trans hlt.le, hapart⟩
    · exact ⟨hstop.le, fun t ht => .inl (hapart t ht)⟩
  · intro x hx hword
    rcases hnew x hx with hx | ⟨rfl, -⟩
    · rcases hflush.word x (hspans ▸ hx) hword with hle | hin
      · have := hfits.lined.stop_le hx
        have := hfits.lined.positive x hx
        rw [s.front_flush] at hle
        omega
      · exact .inr hin
    · rcases hkind with hkind | hkind <;> exact absurd hword (by rw [hkind]; decide)
  · intro x hx hop
    rcases hnew x hx with hx | ⟨rfl, -⟩
    · exact hflush.operator x (hspans ▸ hx) hop
    · rcases hkind with hkind | hkind <;> exact absurd (hkind.symm.trans hop) (by decide)
  · intro t ht hop
    obtain ⟨x, hx, hxop, hstart, hstop⟩ := hflush.back t ht hop
    obtain ⟨y, hy, hykind, hystart, hystop⟩ := hgrows x (hspans ▸ hx)
    exact ⟨y, hy, hykind.trans hxop, hystart.trans_le hstart, hstop.trans hystop⟩
  · intro t ht u hu hadj
    obtain ⟨x, hx, hxop, hstart, hstop⟩ := hflush.joined t ht u hu hadj
    obtain ⟨y, hy, hykind, hystart, hystop⟩ := hgrows x (hspans ▸ hx)
    exact ⟨y, hy, hykind.trans hxop, hystart.trans_le hstart, hstop.trans hystop⟩

theorem operator_token (s : Scan) (op : Units) :
    ∃ t : Token, t.kind = .operator ∧ t.start = s.i ∧ t.stop = s.i + op.length ∧
      (s.operator op).tokens = (s.flush s.i).tokens ++ [t] := by
  unfold Scan.operator
  simp only [Scan.flush_i]
  exact ⟨_, rfl, rfl, rfl, rfl⟩

theorem operator_spans (s : Scan) (op : Units) :
    (s.operator op).spans = push s.spans s.i (s.i + op.length) .operator := by
  simp only [Scan.operator, Scan.flush_i, Scan.flush_spans]

theorem operator_front (s : Scan) (op : Units) : (s.operator op).front = s.i + op.length := by
  simp only [Scan.operator, Scan.front, Scan.flush_i, Scan.flush_wordStart, Option.getD_none]

theorem Owned.operator_step (h : Owned s) (hfits : Fits input s) {op : Units}
    (hop : matchOperator input s.i = some op) : Owned (s.operator op) := by
  have hflush := h.flush hfits
  have hspans := s.flush_spans s.i
  have hpos := operator_pos hop
  have hlt : s.i < s.i + op.length := Nat.lt_add_of_pos_right hpos
  have hstops : ∀ t ∈ (s.flush s.i).tokens, t.stop ≤ s.i := fun t ht =>
    ((hfits.flush.tokens t ht).2.1).trans_eq s.front_flush
  have hgrows : Grows s.spans (push s.spans s.i (s.i + op.length) .operator) := Grows.push _
  obtain ⟨t, hkind, hstart, hstop, htokens⟩ := operator_token s op
  have ht : t ∈ (s.flush s.i).tokens ++ [t] := List.mem_concat_self
  constructor
  all_goals simp only [operator_spans, htokens, operator_front]
  · intro x hx hgap
    rcases mem_push hx with hx | ⟨hxkind, -⟩
    · obtain ⟨hle, hapart⟩ := hflush.gap x (hspans ▸ hx) hgap
      rw [s.front_flush] at hle
      refine ⟨hle.trans hlt.le, fun u hu => ?_⟩
      rcases List.mem_append.mp hu with hu | hu
      · exact hapart u hu
      · exact .inr (hle.trans_eq (List.mem_singleton.mp hu ▸ hstart.symm))
    · rw [hxkind] at hgap
      rcases hgap with hgap | hgap <;> exact nomatch hgap
  · intro x hx hword
    rcases mem_push hx with hx | ⟨hxkind, -⟩
    · rcases hflush.word x (hspans ▸ hx) hword with hle | ⟨u, hu, hin⟩
      · have := hfits.lined.stop_le hx
        have := hfits.lined.positive x hx
        rw [s.front_flush] at hle
        omega
      · exact .inr ⟨u, List.mem_append_left _ hu, hin⟩
    · rw [hxkind] at hword
      exact nomatch hword
  · intro x hx hxkind
    rcases mem_push hx with hx | ⟨-, hxstop, hxstart | ⟨prev, hprev, hprevkind, hprevstop, -⟩⟩
    · rcases hflush.operator x (hspans ▸ hx) hxkind with ⟨u, hu, hsame⟩ | ⟨u, hu, v, hv, hadj⟩
      · exact .inl ⟨u, List.mem_append_left _ hu, hsame⟩
      · exact .inr ⟨u, List.mem_append_left _ hu, v, List.mem_append_left _ hv, hadj⟩
    · exact .inl ⟨t, ht, hkind, hstart.trans hxstart.symm, hstop.trans hxstop.symm⟩
    · rcases hflush.operator prev (hspans ▸ hprev) hprevkind with ⟨u, hu, hukind, -, hustop⟩ | ⟨u, hu, v, hv, hadj⟩
      · exact .inr ⟨u, List.mem_append_left _ hu, t, ht, hukind, hkind, (hustop.trans hprevstop).trans hstart.symm⟩
      · exact .inr ⟨u, List.mem_append_left _ hu, v, List.mem_append_left _ hv, hadj⟩
  · intro u hu hukind
    rcases List.mem_append.mp hu with hu | hu
    · obtain ⟨x, hx, hxop, hxstart, hxstop⟩ := hflush.back u hu hukind
      obtain ⟨y, hy, hykind, hystart, hystop⟩ := hgrows x (hspans ▸ hx)
      exact ⟨y, hy, hykind.trans hxop, hystart.trans_le hxstart, hxstop.trans hystop⟩
    · obtain rfl := List.mem_singleton.mp hu
      obtain ⟨x, hx, hxkind, hxstop, hxstart | ⟨prev, hprev, -, hprevstop, hprevstart⟩⟩ :=
        exists_pushed s.spans .operator hlt
      · exact ⟨x, hx, hxkind, (hxstart.trans hstart.symm).le, (hstop.trans hxstop.symm).le⟩
      · have := hfits.lined.positive prev hprev
        exact ⟨x, hx, hxkind, by omega, (hstop.trans hxstop.symm).le⟩
  · intro u hu v hv hadj
    obtain ⟨hukind, hvkind, hnext⟩ := hadj
    rcases List.mem_append.mp hu with hold | hnew
    · rcases List.mem_append.mp hv with hv | hv
      · obtain ⟨x, hx, hxop, hxstart, hxstop⟩ := hflush.joined u hold v hv ⟨hukind, hvkind, hnext⟩
        obtain ⟨y, hy, hykind, hystart, hystop⟩ := hgrows x (hspans ▸ hx)
        exact ⟨y, hy, hykind.trans hxop, hystart.trans_le hxstart, hxstop.trans hystop⟩
      · -- the span of the operator before is the last one
        obtain rfl := List.mem_singleton.mp hv
        obtain ⟨x, hx, hxop, hxstart, hxstop⟩ := hflush.back u hold hukind
        rw [hspans] at hx
        have hend := hfits.lined.stop_le hx
        have hmerged := push_merges hfits.lined hlt hx (by omega)
        rw [hxop] at hmerged
        exact ⟨_, hmerged, rfl, hxstart, hstop.le⟩
    · obtain rfl := List.mem_singleton.mp hnew
      rcases List.mem_append.mp hv with hv | hv
      · have := hstops v hv
        have := (hfits.flush.tokens v hv).1
        omega
      · rw [List.mem_singleton.mp hv] at hnext
        omega

theorem Owned.piece_step (h : Owned s) (hfits : Fits input s) (hsettled : Settled s)
    (hspans : Pushed s.spans s.i s'.spans s'.i) (htokens : s'.tokens = s.tokens) (hword : s'.wordStart = some s.front) :
    Owned s' := by
  have hfront : s'.front = s.front := by rw [Scan.front, hword, Option.getD_some]
  have hgrows := Grows.pushed hspans
  have hlast : ∀ x ∈ s.spans, x.kind.ofWord = true → x.stop = s.i → s.front ≤ x.start := by
    intro x hx hkind hstop
    cases hstart : s.wordStart with
    | none => exact absurd hkind (by rw [hsettled hstart x hx hstop]; decide)
    | some start =>
      rcases h.word x hx hkind with hle | ⟨t, ht, -, hle⟩
      · exact hle
      · have hunder := hfits.underway start hstart
        have := (hfits.tokens t ht).2.1
        rw [Scan.front, hstart, Option.getD_some] at this
        omega
  obtain ⟨-, hnew⟩ := pushed_in_word hspans hfits.lined hfits.front_le hlast
  constructor
  all_goals rw [htokens]
  · intro x hx hgap
    rw [hfront]
    rcases hnew x hx with hx | ⟨hkind, -⟩
    · exact h.gap x hx hgap
    · rcases hgap with hgap | hgap <;> exact absurd hkind (by rw [hgap]; decide)
  · intro x hx hxword
    rw [hfront]
    rcases hnew x hx with hx | ⟨-, hle⟩
    · exact h.word x hx hxword
    · exact .inl hle
  · intro x hx hop
    rcases hnew x hx with hx | ⟨hkind, -⟩
    · exact h.operator x hx hop
    · exact absurd hkind (by rw [hop]; decide)
  · intro t ht hop
    obtain ⟨x, hx, hxop, hstart, hstop⟩ := h.back t ht hop
    obtain ⟨y, hy, hykind, hystart, hystop⟩ := hgrows x hx
    exact ⟨y, hy, hykind.trans hxop, hystart.trans_le hstart, hstop.trans hystop⟩
  · intro t ht u hu hadj
    obtain ⟨x, hx, hxop, hstart, hstop⟩ := h.joined t ht u hu hadj
    obtain ⟨y, hy, hykind, hystart, hystop⟩ := hgrows x hx
    exact ⟨y, hy, hykind.trans hxop, hystart.trans_le hstart, hstop.trans hystop⟩

/-- **The step.** -/
theorem Owned.went (h : Owned s) (hfits : Fits input s) (hsettled : Settled s) (hwent : Went input s s') :
    Owned s' ∧ Settled s' := by
  cases hwent with
  | @gap kind stop hlt hle hkind =>
    have hgap : kind = .space ∨ kind = .comment := hkind.imp And.left And.left
    refine ⟨h.gap_step hfits hlt hgap, fun _ x hx hstop => ?_⟩
    rcases mem_push hx with hx | ⟨rfl, -⟩
    · have := hfits.lined.stop_le hx
      dsimp only at hstop
      omega
    · rcases hgap with hgap | hgap <;> rw [hgap] <;> rfl
  | @operator op hop =>
    refine ⟨h.operator_step hfits hop, fun _ x hx hstop => ?_⟩
    have hpos := operator_pos hop
    rw [operator_spans] at hx
    simp only [Scan.operator, Scan.flush_i] at hstop
    rcases mem_push hx with hx | ⟨hkind, -⟩
    · have := hfits.lined.stop_le hx
      omega
    · rw [hkind]
      rfl
  | piece hlt hle hspans htokens hword hraw =>
    exact ⟨h.piece_step hfits hsettled hspans htokens hword, fun hnone => absurd (hword.symm.trans hnone) (by simp)⟩

/-! ## Where operators stand -/

/-- Where the loop between double quotes goes from `p.1`, and whether they are closed there. -/
def quotedHop (input : Units) (p : Nat × Bool) : Nat × Bool :=
  if input.getD p.1 0 = unit '"' then (p.1 + 1, true)
  else
    match quotedEscape input p.1 with
    | some _ => (p.1 + 2, false)
    | none =>
      match if p.1 + 1 < input.length then readExpansion input p.1 else none with
      | some exp => (exp.stop, false)
      | none => (p.1 + 1, false)

/-- Where the double quotes that open at `i` end. -/
def doubleEnd (input : Units) (i : Nat) : Option Nat :=
  (whileLoop (fun p => !p.2 && decide (p.1 < input.length)) (fun p => some (quotedHop input p)) input.length
    (i + 1, false)).map Prod.fst

/-- Where the piece of a word that begins at `i` ends. -/
def pieceEnd (input : Units) (i : Nat) : Nat :=
  let c := input.getD i 0
  if c = unit '\\' then min (i + 2) input.length
  else if c = unit '\'' then (singleEnd input i).1
  else if c = unit '"' then (doubleEnd input i).getD input.length
  else
    match readExpansion input i with
    | some exp => exp.stop
    | none => i + 1

/-- The end of the piece of the line at `p.1`, and whether a word is under way there. -/
def hop (input : Units) (p : Nat × Bool) : Nat × Bool :=
  if input.length ≤ p.1 then p
  else if blank (input.getD p.1 0) then (blankEnd input p.1, false)
  else if input.getD p.1 0 = unit '#' ∧ p.2 = false then (input.length, p.2)
  else
    match matchOperator input p.1 with
    | some op => (p.1 + op.length, false)
    | none => (pieceEnd input p.1, true)

/-- Where the `n`th piece of the line begins. -/
def mark (input : Units) (n : Nat) : Nat := ((hop input)^[n] (0, false)).1

/-- No operator stands directly behind another, outside quotes, escapes and the comment. -/
def OperatorsApart (input : Units) : Prop :=
  ∀ n op, matchOperator input (mark input n) = some op → matchOperator input (mark input n + op.length) = none

theorem quotedHop_round {q : Quoted} (hclosed : q.closed = false) :
    some (quotedHop input (q.i, q.closed)) = (q.round input).map fun q => (q.i, q.closed) := by
  unfold Quoted.round quotedHop
  by_cases hquote : input.getD q.i 0 = unit '"'
  · simp only [hquote, if_true, Option.map_some]
  · simp only [hquote, if_false]
    cases quotedEscape input q.i with
    | some c => simp only [Option.map_some, hclosed]
    | none =>
      cases if q.i + 1 < input.length then readExpansion input q.i else none with
      | some exp => simp only [Option.map_some, hclosed]
      | none => simp only [Option.map_some, hclosed]

theorem doubleEnd_eq (s : Scan) :
    doubleEnd input s.i = (whileLoop (Quoted.goesOn input) (Quoted.round input) input.length
      ⟨s.i + 1, s.i, s.spans, s.word, s.expansions, false⟩).map Quoted.i := by
  have hmap : whileLoop (fun p : Nat × Bool => !p.2 && decide (p.1 < input.length))
      (fun p => some (quotedHop input p)) input.length (s.i + 1, false) =
      (whileLoop (Quoted.goesOn input) (Quoted.round input) input.length
        ⟨s.i + 1, s.i, s.spans, s.word, s.expansions, false⟩).map fun q => (q.i, q.closed) := by
    refine whileLoop_map (g := fun q : Quoted => (q.i, q.closed)) (s := ⟨s.i + 1, s.i, s.spans, s.word, s.expansions, false⟩)
      (fun q => rfl) (fun q hgoes => ?_) _
    have hopen : q.closed = false := by
      have := (Bool.and_eq_true_iff.mp hgoes).1
      simpa using this
    exact quotedHop_round hopen
  rw [doubleEnd, hmap, Option.map_map]
  rfl

theorem flush_place (s : Scan) (stop : Nat) : (s.flush stop).wordStart.isSome = false := by
  rw [Scan.flush_wordStart, Option.isSome_none]

theorem piece_place {c : UInt16} (hlt : s.i < input.length) (hc : c = input.getD s.i 0) (h : s.piece input c = some s') :
    (s'.i, s'.wordStart.isSome) = (pieceEnd input s.i, true) := by
  subst hc
  unfold Scan.piece at h
  unfold pieceEnd
  dsimp only at h ⊢
  split at h
  · rename_i hc
    rw [if_pos hc]
    cases h
    unfold Scan.backslash
    cases hnext : input[s.i + 1]? with
    | none =>
      have hend := List.getElem?_eq_none_iff.mp hnext
      dsimp only
      rw [Option.isSome_some, Nat.min_eq_right (by omega)]
      exact congrArg (·, true) (by omega)
    | some c =>
      have hmore := (List.getElem?_eq_some_iff.mp hnext).1
      rw [Option.isSome_some, Nat.min_eq_left hmore]
  · rename_i hc
    rw [if_neg hc]
    split at h
    · rename_i hc
      rw [if_pos hc]
      cases h
      unfold Scan.singleQuotes
      dsimp only
      split <;> rfl
    · rename_i hc
      rw [if_neg hc]
      split at h
      · rename_i hc
        rw [if_pos hc]
        obtain ⟨q, hq, h⟩ := Option.bind_eq_some_iff.mp h
        have hend := @doubleEnd_eq input { s with wordStart := some (s.wordStart.getD s.i) }
        rw [hq] at hend
        rw [show doubleEnd input s.i = some q.i from hend, Option.getD_some]
        split at h <;> cases h <;> rfl
      · rename_i hc
        rw [if_neg hc]
        cases hexp : readExpansion input s.i with
        | some exp =>
          rw [hexp] at h
          cases h
          rfl
        | none =>
          rw [hexp] at h
          cases h
          rfl

theorem round_place (hlt : s.i < input.length) (h : s.round input = some s') :
    (s'.i, s'.wordStart.isSome) = hop input (s.i, s.wordStart.isSome) := by
  rw [hop, if_neg (Nat.not_le.mpr hlt)]
  unfold Scan.round at h
  by_cases hblank : blank (input.getD s.i 0) = true
  · rw [if_pos hblank] at h
    rw [if_pos hblank]
    cases h
    simp only [Scan.blanks, Scan.flush_i, flush_place]
  · rw [if_neg hblank] at h
    rw [if_neg hblank]
    by_cases hcomment : input.getD s.i 0 = unit '#' ∧ s.wordStart = none
    · rw [if_pos hcomment] at h
      rw [if_pos ⟨hcomment.1, by rw [hcomment.2]; rfl⟩]
      cases h
      simp only [Scan.comment, flush_place, hcomment.2, Option.isSome_none]
    · rw [if_neg hcomment] at h
      rw [if_neg fun hc => hcomment ⟨hc.1, Option.not_isSome_iff_eq_none.mp (Bool.eq_false_iff.mp hc.2)⟩]
      cases hop : matchOperator input s.i with
      | some op =>
        rw [hop] at h
        cases h
        simp only [Scan.operator, Scan.flush_i, flush_place]
      | none =>
        rw [hop] at h
        exact piece_place hlt rfl h

theorem operator_unit {i : Nat} {op : Units} (h : matchOperator input i = some op) :
    blank (input.getD i 0) = false ∧ input.getD i 0 ≠ unit '#' := by
  have hheads : ∀ op ∈ operators, blank (op.getD 0 0) = false ∧ op.getD 0 0 ≠ unit '#' := by decide
  obtain ⟨rest, hrest⟩ := operator_starts h
  have hpos := operator_pos h
  have hget : input.getD i 0 = op.getD 0 0 := by
    have hdrop : (input.drop i)[0]? = op[0]? := by
      rw [← hrest, List.getElem?_append_left hpos]
    rw [List.getElem?_drop, Nat.add_zero] at hdrop
    rw [List.getD_eq_getElem?_getD, List.getD_eq_getElem?_getD, hdrop]
  rw [hget]
  exact hheads op (mem_operators h)

theorem round_operator {op : Units} (h : matchOperator input s.i = some op) : s.round input = some (s.operator op) := by
  obtain ⟨hblank, hhash⟩ := operator_unit h
  unfold Scan.round
  rw [if_neg (by rw [hblank]; decide), if_neg fun hc => hhash hc.1, h]

/-- An operator token from `a` to `b`. -/
def HasOperator (tokens : List Token) (a b : Nat) : Prop := ∃ t ∈ tokens, t.kind = .operator ∧ t.start = a ∧ t.stop = b

theorem flush_operators (s : Scan) (a b : Nat) : HasOperator (s.flush s.i).tokens a b ↔ HasOperator s.tokens a b := by
  rcases flush_cases s with ⟨-, hsame⟩ | ⟨t, hkind, -, -, htokens⟩
  · rw [hsame]
  · rw [htokens]
    constructor
    · rintro ⟨u, hu, hop, hends⟩
      exact ⟨u, mem_snoc_word hkind hu hop, hop, hends⟩
    · rintro ⟨u, hu, hends⟩
      exact ⟨u, List.mem_append_left _ hu, hends⟩

theorem operator_operators (s : Scan) (op : Units) (a b : Nat) :
    HasOperator (s.operator op).tokens a b ↔ HasOperator s.tokens a b ∨ (a = s.i ∧ b = s.i + op.length) := by
  obtain ⟨t, hkind, hstart, hstop, htokens⟩ := operator_token s op
  rw [htokens, ← flush_operators]
  constructor
  · rintro ⟨u, hu, hop, rfl, rfl⟩
    rcases List.mem_append.mp hu with hu | hu
    · exact .inl ⟨u, hu, hop, rfl, rfl⟩
    · rw [List.mem_singleton.mp hu]
      exact .inr ⟨hstart, hstop⟩
  · rintro (⟨u, hu, hends⟩ | ⟨rfl, rfl⟩)
    · exact ⟨u, List.mem_append_left _ hu, hends⟩
    · exact ⟨t, List.mem_concat_self, hkind, hstart, hstop⟩

theorem went_operators (hwent : Went input s s') (hnone : matchOperator input s.i = none) (a b : Nat) :
    HasOperator s'.tokens a b ↔ HasOperator s.tokens a b := by
  cases hwent with
  | gap => exact flush_operators s a b
  | operator hop => exact nomatch hnone.symm.trans hop
  | piece _ _ _ htokens => rw [htokens]

/-- The loop has gone to the `n`th mark and has an operator token for each operator at a mark before it. -/
structure Marked (input : Units) (n : Nat) (s : Scan) : Prop where
  place : (s.i, s.wordStart.isSome) = (hop input)^[n] (0, false)
  operators : ∀ a b, HasOperator s.tokens a b ↔
    ∃ m < n, ∃ op, matchOperator input (mark input m) = some op ∧ a = mark input m ∧ b = mark input m + op.length

theorem Marked.start (input : Units) : Marked input 0 {} where
  place := rfl
  operators a b := by
    constructor
    · rintro ⟨t, ht, -⟩
      cases ht
    · rintro ⟨m, hm, -⟩
      exact absurd hm (Nat.not_lt_zero m)

theorem Marked.mark_eq {n : Nat} (h : Marked input n s) : mark input n = s.i := by
  rw [mark, ← h.place]

/-- **The step.** -/
theorem Marked.round {n : Nat} (h : Marked input n s) (hlt : s.i < input.length) (hround : s.round input = some s')
    (hwent : Went input s s') : Marked input (n + 1) s' := by
  refine ⟨?_, fun a b => ?_⟩
  · rw [Function.iterate_succ_apply', ← h.place]
    exact round_place hlt hround
  · have hmark := h.mark_eq
    cases hop : matchOperator input s.i with
    | some op =>
      obtain rfl : s.operator op = s' := Option.some.inj ((round_operator hop).symm.trans hround)
      rw [operator_operators, h.operators]
      constructor
      · rintro (⟨m, hm, hin⟩ | ⟨rfl, rfl⟩)
        · exact ⟨m, Nat.lt_succ_of_lt hm, hin⟩
        · exact ⟨n, Nat.lt_succ_self n, op, by rw [hmark]; exact ⟨hop, rfl, rfl⟩⟩
      · rintro ⟨m, hm, op', hin⟩
        rcases Nat.lt_succ_iff_lt_or_eq.mp hm with hm | rfl
        · exact .inl ⟨m, hm, op', hin⟩
        · rw [hmark, hop, Option.some.injEq] at hin
          obtain ⟨rfl, ha, hb⟩ := hin
          exact .inr ⟨ha, hb⟩
    | none =>
      rw [went_operators hwent hop, h.operators]
      constructor
      · rintro ⟨m, hm, hin⟩
        exact ⟨m, Nat.lt_succ_of_lt hm, hin⟩
      · rintro ⟨m, hm, op', hin⟩
        rcases Nat.lt_succ_iff_lt_or_eq.mp hm with hm | rfl
        · exact ⟨m, hm, op', hin⟩
        · rw [hmark, hop] at hin
          exact nomatch hin.1

theorem matchOperator_end {i : Nat} (h : input.length ≤ i) : matchOperator input i = none := by
  cases hop : matchOperator input i with
  | none => rfl
  | some op =>
    have := operator_le hop
    have := operator_pos hop
    omega

theorem hop_end {p : Nat × Bool} (h : input.length ≤ p.1) : hop input p = p := by
  rw [hop, if_pos h]

theorem hop_operator {p : Nat × Bool} {op : Units} (h : matchOperator input p.1 = some op) :
    hop input p = (p.1 + op.length, false) := by
  obtain ⟨hblank, hhash⟩ := operator_unit h
  have hpos := operator_pos h
  have hle := operator_le h
  rw [hop, if_neg (by omega), if_neg (by rw [hblank]; decide), if_neg fun hc => hhash hc.1, h]

theorem mark_succ {n : Nat} {op : Units} (h : matchOperator input (mark input n) = some op) :
    mark input (n + 1) = mark input n + op.length := by
  rw [mark, Function.iterate_succ_apply', hop_operator h]
  rfl

theorem Marked.mark_end {n m : Nat} (h : Marked input n s) (hend : s.i = input.length) (hm : n ≤ m) :
    mark input m = input.length := by
  obtain ⟨k, rfl⟩ := Nat.exists_eq_add_of_le' hm
  have hfix : (hop input)^[k] (s.i, s.wordStart.isSome) = (s.i, s.wordStart.isSome) :=
    Function.iterate_fixed (hop_end hend.ge) k
  rw [mark, Function.iterate_add_apply, ← h.place, hfix, hend]

theorem scan_owned (input : Units) :
    ∃ s n, scan input = some s ∧ Fits input s ∧ Owned s ∧ Marked input n s ∧ s.i = input.length := by
  obtain ⟨s, hs, ⟨hfits, howned, -, n, hmarked⟩, hend⟩ := whileLoop_spec (μ := fun s : Scan => input.length - s.i)
    (n := input.length)
    (fun s (hs : Fits input s ∧ Owned s ∧ Settled s ∧ ∃ n, Marked input n s)
        (hgoes : decide (s.i < input.length) = true) => by
      obtain ⟨hfits, howned, hsettled, n, hmarked⟩ := hs
      have hlt := of_decide_eq_true hgoes
      obtain ⟨s', hs', hwent⟩ := round_went hlt
      obtain ⟨howned', hsettled'⟩ := howned.went hfits hsettled hwent
      have := hwent.lt
      exact ⟨s', hs', ⟨hfits.went hwent, howned', hsettled', n + 1, hmarked.round hlt hs' hwent⟩, by omega⟩)
    ⟨Fits.start input, Owned.start, fun _ _ hx => absurd hx List.not_mem_nil, 0, Marked.start input⟩ (Nat.sub_le _ _)
  have hend := of_decide_eq_false hend
  have hle := hfits.inside
  exact ⟨s, n, hs, hfits, howned, hmarked, by omega⟩

theorem adjacent_iff {n : Nat} (h : Marked input n s) (hend : s.i = input.length) :
    (∃ t ∈ (s.flush s.i).tokens, ∃ u ∈ (s.flush s.i).tokens, Adjacent t u) ↔ ¬OperatorsApart input := by
  constructor
  · rintro ⟨t, ht, u, hu, htkind, hukind, hnext⟩ hapart
    obtain ⟨m, -, op, hop, hstart, hstop⟩ :=
      (h.operators _ _).mp ((flush_operators s _ _).mp ⟨t, ht, htkind, rfl, rfl⟩)
    obtain ⟨m', -, op', hop', hstart', -⟩ :=
      (h.operators _ _).mp ((flush_operators s _ _).mp ⟨u, hu, hukind, rfl, rfl⟩)
    have hnone := hapart m op hop
    rw [← hstop, hnext, hstart', hop'] at hnone
    exact nomatch hnone
  · intro hadj
    unfold OperatorsApart at hadj
    push Not at hadj
    obtain ⟨m, op, hop, hnext⟩ := hadj
    obtain ⟨op', hop'⟩ := Option.ne_none_iff_exists'.mp hnext
    have hbefore : ∀ k op, matchOperator input (mark input k) = some op → k < n := by
      intro k op hop
      by_contra hk
      rw [matchOperator_end (h.mark_end hend (by omega)).ge] at hop
      exact nomatch hop
    have hsucc := mark_succ hop
    have hop'' : matchOperator input (mark input (m + 1)) = some op' := hsucc ▸ hop'
    obtain ⟨t, ht, htkind, -, htstop⟩ := (flush_operators s _ _).mpr
      ((h.operators _ _).mpr ⟨m, hbefore m op hop, op, hop, rfl, rfl⟩)
    obtain ⟨u, hu, hukind, hustart, -⟩ := (flush_operators s _ _).mpr
      ((h.operators _ _).mpr ⟨m + 1, hbefore (m + 1) op' hop'', op', hop'', rfl, rfl⟩)
    exact ⟨t, ht, u, hu, htkind, hukind, htstop.trans (hsucc.symm.trans hustart.symm)⟩

/-! ## Belonging -/

structure Belong (r : TokenizeResult) : Prop where
  spans : ∀ x ∈ r.spans, x.kind ≠ .space → x.kind ≠ .comment →
    ∃ t, (t ∈ r.tokens ∧ t.start ≤ x.start ∧ x.stop ≤ t.stop) ∧ x.token = some t.index ∧
      ∀ u, u ∈ r.tokens ∧ u.start ≤ x.start ∧ x.stop ≤ u.stop → u = t
  tokens : ∀ t ∈ r.tokens, ∀ k, t.covers k → ∃ x ∈ r.spans, x.start ≤ k ∧ k < x.stop ∧ x.token = some t.index

theorem covers_unique {tokens : List Token} (h : tokens.Pairwise fun t u => t.stop ≤ u.start) {k : Nat} :
    ∀ t ∈ tokens, ∀ u ∈ tokens, t.covers k → u.covers k → t = u := by
  unfold Token.covers
  refine List.Pairwise.forall_of_forall_of_flip (fun t _ _ _ => rfl) (h.imp ?_) (h.imp ?_)
  · intro t u hle ht hu
    omega
  · intro t u hle ht hu
    omega

/-- The end of `tokenize`. -/
theorem tokenize_eq (h : scan input = some s) :
    tokenize input = some ⟨s.spans.map (attach (s.flush input.length).tokens), (s.flush input.length).tokens,
      (buildPipeline (s.flush input.length).tokens).1, (buildPipeline (s.flush input.length).tokens).2,
      (s.flush input.length).warnings, (s.flush input.length).unterminated⟩ := by
  rw [tokenize, h, Option.bind_eq_bind, Option.bind_some]
  simp only [Scan.flush_spans]

theorem attach_token {tokens : List Token} (hapart : tokens.Pairwise fun t u => t.stop ≤ u.start) {x : Span} {t : Token}
    (ht : t ∈ tokens) (hcovers : t.covers x.start) (hspace : x.kind ≠ .space) (hcomment : x.kind ≠ .comment) :
    (attach tokens x).token = some t.index := by
  rw [attach, if_neg fun h => h.elim hspace hcomment]
  have hsome : (tokens.find? fun t => t.start ≤ x.start ∧ x.start < t.stop).isSome = true :=
    List.find?_isSome.mpr ⟨t, ht, decide_eq_true hcovers⟩
  obtain ⟨u, hu⟩ := Option.isSome_iff_exists.mp hsome
  have hfound := List.find?_some hu
  have hucovers : u.start ≤ x.start ∧ x.start < u.stop := of_decide_eq_true hfound
  obtain rfl := covers_unique hapart t ht u (List.mem_of_find?_eq_some hu) hcovers hucovers
  rw [hu]
  rfl

theorem belong_of_apart {tokens : List Token} {spans : List Span} {stop : Nat} {r : TokenizeResult}
    (hspans : r.spans = spans.map (attach tokens)) (htokens : r.tokens = tokens) (hlined : Lined spans stop)
    (hapart : tokens.Pairwise fun t u => t.stop ≤ u.start) (hends : ∀ t ∈ tokens, t.stop ≤ stop)
    (hgap : ∀ x ∈ spans, x.kind = .space ∨ x.kind = .comment → ∀ t ∈ tokens, t.stop ≤ x.start ∨ x.stop ≤ t.start)
    (hin : ∀ x ∈ spans, x.kind ≠ .space → x.kind ≠ .comment → ∃ t ∈ tokens, t.start ≤ x.start ∧ x.stop ≤ t.stop) :
    Belong r := by
  constructor
  · intro y hy hspace hcomment
    rw [hspans] at hy
    obtain ⟨x, hx, rfl⟩ := List.mem_map.mp hy
    rw [attach_kind] at hspace hcomment
    rw [attach_start, attach_stop, htokens]
    have hpos := hlined.positive x hx
    obtain ⟨t, ht, hstart, hstop⟩ := hin x hx hspace hcomment
    have hcovers : t.covers x.start := ⟨hstart, hpos.trans_le hstop⟩
    refine ⟨t, ⟨ht, hstart, hstop⟩, attach_token hapart ht hcovers hspace hcomment, ?_⟩
    rintro u ⟨hu, hustart, hustop⟩
    exact covers_unique hapart u hu t ht ⟨hustart, hpos.trans_le hustop⟩ hcovers
  · intro t ht k hk
    rw [htokens] at ht
    obtain ⟨x, hx, hstart, hstop⟩ := hlined.tiles.exists_mem (Nat.zero_le k) (hk.2.trans_le (hends t ht))
    have hpos := hlined.positive x hx
    unfold Span.length at hstop
    have hgap' : ¬(x.kind = .space ∨ x.kind = .comment) := by
      intro hkind
      have hdisjoint := hgap x hx hkind t ht
      have := hk.1
      have := hk.2
      omega
    rw [not_or] at hgap'
    obtain ⟨u, hu, hustart, hustop⟩ := hin x hx hgap'.1 hgap'.2
    obtain rfl := covers_unique hapart u hu t ht ⟨hustart.trans hstart, by omega⟩ hk
    refine ⟨attach tokens x, hspans ▸ List.mem_map_of_mem hx, ?_⟩
    rw [attach_start, attach_stop]
    exact ⟨hstart, by omega, attach_token hapart hu ⟨hustart, hpos.trans_le hustop⟩ hgap'.1 hgap'.2⟩

theorem not_belong_of_adjacent {tokens : List Token} {spans : List Span} {r : TokenizeResult}
    (hspans : r.spans = spans.map (attach tokens)) (htokens : r.tokens = tokens)
    (hapart : tokens.Pairwise fun t u => t.stop ≤ u.start) (hpos : ∀ t ∈ tokens, t.start < t.stop) {t u : Token}
    (ht : t ∈ tokens) (hu : u ∈ tokens) (hadj : Adjacent t u) {x : Span} (hx : x ∈ spans) (hkind : x.kind = .operator)
    (hstart : x.start ≤ t.start) (hstop : u.stop ≤ x.stop) : ¬Belong r := by
  intro h
  obtain ⟨v, ⟨hv, hvstart, hvstop⟩, -⟩ := h.spans (attach tokens x) (hspans ▸ List.mem_map_of_mem hx)
    (by rw [attach_kind, hkind]; decide) (by rw [attach_kind, hkind]; decide)
  rw [attach_start] at hvstart
  rw [attach_stop] at hvstop
  rw [htokens] at hv
  have htpos := hpos t ht
  have hupos := hpos u hu
  have hnext := hadj.2.2
  -- the token of the span is both of the operators
  obtain rfl := covers_unique hapart t ht v hv ⟨le_rfl, htpos⟩ ⟨by omega, by omega⟩
  omega

/-- **Every span belongs to its token** exactly when no operator stands directly behind another. -/
theorem spans_belong_iff (input : Units) : ∃ r, tokenize input = some r ∧ (Belong r ↔ OperatorsApart input) := by
  obtain ⟨s, n, hs, hfits, howned, hmarked, hend⟩ := scan_owned input
  have hflush := hfits.flush
  have hown := howned.flush hfits
  have hadj := adjacent_iff hmarked hend
  have hfront := s.front_flush
  have htokenize := tokenize_eq hs
  rw [← hend] at htokenize
  refine ⟨_, htokenize, ?_, ?_⟩
  · intro hbelong
    by_contra hnot
    obtain ⟨t, ht, u, hu, htu⟩ := hadj.mpr hnot
    obtain ⟨x, hx, hkind, hstart, hstop⟩ := hown.joined t ht u hu htu
    rw [Scan.flush_spans] at hx
    exact not_belong_of_adjacent rfl rfl hflush.apart (fun t ht => (hflush.tokens t ht).1) ht hu htu hx hkind hstart hstop
      hbelong
  · intro hapart
    refine belong_of_apart rfl rfl hfits.lined hflush.apart (fun t ht => ((hflush.tokens t ht).2.1).trans_eq hfront) ?_ ?_
    · intro x hx hgap
      exact (hown.gap x (by rwa [Scan.flush_spans]) hgap).2
    · intro x hx hspace hcomment
      have hx' : x ∈ (s.flush s.i).spans := by rwa [Scan.flush_spans]
      cases hword : x.kind.ofWord with
      | true =>
        rcases hown.word x hx' hword with hle | hin
        · have := hfits.lined.stop_le hx
          have := hfits.lined.positive x hx
          rw [hfront] at hle
          omega
        · exact hin
      | false =>
        have hop : x.kind = .operator := by
          cases hkind : x.kind <;> simp_all [SpanKind.ofWord]
        rcases hown.operator x hx' hop with ⟨t, ht, -, hstart, hstop⟩ | hadjacent
        · exact ⟨t, ht, hstart.le, hstop.ge⟩
        · exact absurd hapart (hadj.mp hadjacent)

/-- The span of `||` and `|` belongs to `||`. -/
theorem operators_share_span : ¬∀ input, ∃ r, tokenize input = some r ∧ Belong r := by
  intro h
  obtain ⟨r, hr, hbelong⟩ := h (units "a|||b")
  have hspan : (tokenize (units "a|||b")).map (fun r => (r.spans, r.tokens.map fun t => (t.start, t.stop))) =
      some ([⟨0, 1, .plain, some 0⟩, ⟨1, 4, .operator, some 1⟩, ⟨4, 5, .plain, some 3⟩],
        [(0, 1), (1, 3), (3, 4), (4, 5)]) := by decide +kernel
  rw [hr, Option.map_some, Option.some.injEq, Prod.mk.injEq] at hspan
  obtain ⟨hspans, htokens⟩ := hspan
  obtain ⟨t, ⟨ht, hstart, hstop⟩, -⟩ := hbelong.spans ⟨1, 4, .operator, some 1⟩ (by rw [hspans]; decide) (by decide)
    (by decide)
  have hmem := List.mem_map_of_mem (f := fun t : Token => (t.start, t.stop)) ht
  rw [htokens] at hmem
  simp only [List.mem_cons, Prod.mk.injEq, List.not_mem_nil, or_false] at hmem
  dsimp only at hstart hstop
  omega

end BuildYourOwn.Lab
