import Mathlib.Data.List.TakeWhile
import BuildYourOwn.Lib.Tiling
import BuildYourOwn.Lab.Tokenizer

/-!
# Spans and tokens of a line
-/

namespace BuildYourOwn.Lab

open Lib

variable {input : Units} {s s' : Scan}

/-! ## Slices -/

theorem slice_append {α : Type} (l : List α) {a b c : Nat} (hab : a ≤ b) (hbc : b ≤ c) :
    slice l a b ++ slice l b c = slice l a c := by
  have hsplit : c - a = (b - a) + (c - b) := by omega
  rw [slice, slice, slice, hsplit, List.take_add, List.drop_drop, Nat.add_sub_cancel' hab]

theorem slice_self {α : Type} (l : List α) (a : Nat) : slice l a a = [] := by
  rw [slice, Nat.sub_self, List.take_zero]

theorem slice_one {α : Type} {l : List α} {i : Nat} (h : i < l.length) : slice l i (i + 1) = [l[i]] := by
  rw [slice, Nat.add_sub_cancel_left, List.drop_eq_getElem_cons h, List.take_succ_cons, List.take_zero]

theorem getD_of_lt {i : Nat} (h : i < input.length) : input.getD i 0 = input[i] := by
  rw [List.getD_eq_getElem?_getD, List.getElem?_eq_getElem h, Option.getD_some]

/-! ## Where the pieces end -/

theorem mem_operators {i : Nat} {op : Units} (h : matchOperator input i = some op) : op ∈ operators :=
  (List.mem_insertionSort _).mp (List.mem_of_find?_eq_some h)

theorem operator_starts {i : Nat} {op : Units} (h : matchOperator input i = some op) : op <+: input.drop i := by
  unfold matchOperator at h
  have hfound := List.find?_some h
  exact List.isPrefixOf_iff_prefix.mp hfound

theorem operator_pos {i : Nat} {op : Units} (h : matchOperator input i = some op) : 0 < op.length :=
  (show ∀ op ∈ operators, 0 < op.length by decide) op (mem_operators h)

theorem operator_le {i : Nat} {op : Units} (h : matchOperator input i = some op) : i + op.length ≤ input.length := by
  have hlen := (operator_starts h).length_le
  have hpos := operator_pos h
  rw [List.length_drop] at hlen
  omega

theorem operator_slice {i : Nat} {op : Units} (h : matchOperator input i = some op) :
    op = slice input i (i + op.length) := by
  rw [slice, Nat.add_sub_cancel_left]
  exact List.prefix_iff_eq_take.mp (operator_starts h)

theorem expansion_bounds {i : Nat} {exp : Expansion} (h : readExpansion input i = some exp) :
    i < exp.stop ∧ exp.stop ≤ input.length := by
  unfold readExpansion at h
  split at h
  · exact nomatch h
  · split at h
    · exact nomatch h
    · rename_i next hnext
      have hlt : i + 1 < input.length := (List.getElem?_eq_some_iff.mp hnext).1
      split at h
      · split at h
        · exact nomatch h
        · rename_i n hn
          have hlen := (List.idxOf?_eq_some_iff.mp hn).1
          rw [List.length_drop] at hlen
          cases h
          exact ⟨by dsimp only; omega, by dsimp only; omega⟩
      · split at h
        · cases h
          exact ⟨by dsimp only; omega, hlt⟩
        · split at h
          · have hlen := (List.takeWhile_prefix nameUnit (l := input.drop (i + 1))).length_le
            rw [List.length_drop] at hlen
            cases h
            exact ⟨by dsimp only; omega, by dsimp only; omega⟩
          · exact nomatch h

theorem singleEnd_bounds {i : Nat} (h : i < input.length) :
    i < (singleEnd input i).1 ∧ (singleEnd input i).1 ≤ input.length := by
  unfold singleEnd
  split
  · rename_i n hn
    have hlen := (List.idxOf?_eq_some_iff.mp hn).1
    rw [List.length_drop] at hlen
    exact ⟨by dsimp only; omega, by dsimp only; omega⟩
  · exact ⟨h, le_rfl⟩

theorem blankEnd_le {i : Nat} (h : i < input.length) : blankEnd input i ≤ input.length := by
  have hlen := (List.takeWhile_prefix blank (l := input.drop i)).length_le
  rw [List.length_drop] at hlen
  unfold blankEnd
  omega

theorem lt_blankEnd {i : Nat} (h : i < input.length) (hblank : blank (input.getD i 0) = true) :
    i < blankEnd input i := by
  rw [getD_of_lt h] at hblank
  rw [blankEnd, List.drop_eq_getElem_cons h, List.takeWhile_cons_of_pos hblank, List.length_cons]
  omega

theorem blank_of_lt_blankEnd {i k : Nat} (hi : i ≤ k) (hk : k < blankEnd input i) (hle : k < input.length) :
    blank input[k] = true := by
  have hlt : k - i < ((input.drop i).takeWhile blank).length := by
    unfold blankEnd at hk
    omega
  have hmem := List.mem_takeWhile_imp (List.getElem_mem hlt)
  rw [(List.takeWhile_prefix blank).getElem hlt] at hmem
  simpa only [List.getElem_drop, Nat.add_sub_cancel' hi] using hmem

/-! ## One round -/

def SpanKind.ofWord : SpanKind → Bool
  | .operator | .space | .comment => false
  | _ => true

/-- `b` is what pushing spans of pieces of a word from `start` to `stop` makes of `a`. -/
inductive Pushed (a : List Span) (start : Nat) : List Span → Nat → Prop
  | refl : Pushed a start a start
  | push {b : List Span} {i stop : Nat} {kind : SpanKind} (h : Pushed a start b i) (hle : i ≤ stop)
      (hkind : kind.ofWord = true) : Pushed a start (push b i stop kind) stop

theorem Pushed.one {a : List Span} {start stop : Nat} {kind : SpanKind} (hle : start ≤ stop)
    (hkind : kind.ofWord = true) : Pushed a start (Lab.push a start stop kind) stop :=
  .push .refl hle hkind

theorem quotedEscape_lt {i : Nat} {c : UInt16} (h : quotedEscape input i = some c) : i + 1 < input.length := by
  unfold quotedEscape at h
  split at h
  · obtain ⟨hc, -⟩ := Option.filter_eq_some_iff.mp h
    exact (List.getElem?_eq_some_iff.mp hc).1
  · exact nomatch h

/-- The invariant of the loop between double quotes, which open at `start`. -/
structure Quoted.Fits (input : Units) (spans : List Span) (start : Nat) (q : Quoted) : Prop where
  after : start < q.i
  inside : q.i ≤ input.length
  seg : q.segStart ≤ q.i
  pushed : Pushed spans start q.spans q.segStart

theorem Quoted.round_fits {spans : List Span} {start : Nat} {q : Quoted} (h : q.Fits input spans start)
    (hlt : q.i < input.length) : ∃ q', q.round input = some q' ∧ q'.Fits input spans start ∧ q.i < q'.i := by
  unfold Quoted.round
  dsimp only
  split
  · exact ⟨_, rfl, ⟨Nat.lt_succ_of_lt h.after, hlt, Nat.le_succ_of_le h.seg, h.pushed⟩, Nat.lt_succ_self _⟩
  · have hseg : Pushed spans start (push q.spans q.segStart q.i .double) q.i := .push h.pushed h.seg rfl
    split
    · rename_i c hc
      have hnext := quotedEscape_lt hc
      exact ⟨_, rfl, ⟨by have := h.after; dsimp only; omega, hnext, le_rfl, .push hseg (Nat.le_add_right _ 2) rfl⟩,
        Nat.lt_add_of_pos_right Nat.two_pos⟩
    · split
      · rename_i exp hexp
        obtain ⟨hstart, hstop⟩ : q.i < exp.stop ∧ exp.stop ≤ input.length := by
          split at hexp
          · exact expansion_bounds hexp
          · exact nomatch hexp
        exact ⟨_, rfl, ⟨h.after.trans hstart, hstop, le_rfl, .push hseg hstart.le rfl⟩, hstart⟩
      · exact ⟨_, rfl, ⟨Nat.lt_succ_of_lt h.after, hlt, Nat.le_succ_of_le h.seg, h.pushed⟩, Nat.lt_succ_self _⟩

theorem quoted_loop (s : Scan) (h : s.i < input.length) :
    ∃ q, whileLoop (Quoted.goesOn input) (Quoted.round input) input.length
        ⟨s.i + 1, s.i, s.spans, s.word, s.expansions, false⟩ = some q ∧ q.Fits input s.spans s.i := by
  obtain ⟨q, hq, hfits, -⟩ := whileLoop_spec (μ := fun q : Quoted => input.length - q.i) (n := input.length)
    (fun q (hq : q.Fits input s.spans s.i) (hgoes : Quoted.goesOn input q = true) => by
      have hlt : q.i < input.length := of_decide_eq_true (Bool.and_eq_true_iff.mp hgoes).2
      obtain ⟨q', hq', hfits, hless⟩ := Quoted.round_fits hq hlt
      exact ⟨q', hq', hfits, by omega⟩)
    (⟨Nat.lt_succ_self _, h, Nat.le_succ _, .refl⟩ :
      (⟨s.i + 1, s.i, s.spans, s.word, s.expansions, false⟩ : Quoted).Fits input s.spans s.i) (Nat.sub_le _ _)
  exact ⟨q, hq, hfits⟩

/-- Where the word under way begins, or would. -/
def Scan.front (s : Scan) : Nat := s.wordStart.getD s.i

/-- What one round does. -/
inductive Went (input : Units) (s : Scan) : Scan → Prop
  | gap {kind : SpanKind} {stop : Nat} (hlt : s.i < stop) (hle : stop ≤ input.length)
      (hkind : (kind = .space ∧ ∀ k < stop, s.i ≤ k → blank (input.getD k 0) = true) ∨
        (kind = .comment ∧ stop = input.length ∧ input[s.i]? = some (unit '#'))) :
      Went input s { s.flush s.i with i := stop, spans := push s.spans s.i stop kind }
  | operator {op : Units} (hop : matchOperator input s.i = some op) : Went input s (s.operator op)
  | piece {s' : Scan} (hlt : s.i < s'.i) (hle : s'.i ≤ input.length) (hspans : Pushed s.spans s.i s'.spans s'.i)
      (htokens : s'.tokens = s.tokens) (hword : s'.wordStart = some s.front)
      (hraw : s'.raw = s.raw ++ slice input s.i s'.i) : Went input s s'

@[simp] theorem Scan.flush_i (s : Scan) (stop : Nat) : (s.flush stop).i = s.i := by
  unfold Scan.flush
  split <;> rfl

@[simp] theorem Scan.flush_spans (s : Scan) (stop : Nat) : (s.flush stop).spans = s.spans := by
  unfold Scan.flush
  split <;> rfl

theorem piece_went (h : s.i < input.length) : ∃ s', s.piece input (input.getD s.i 0) = some s' ∧ Went input s s' := by
  have hfront : s.wordStart.getD s.i = s.front := rfl
  have hget := getD_of_lt h
  unfold Scan.piece
  dsimp only
  rw [hfront]
  split
  · rename_i hc
    refine ⟨_, rfl, ?_⟩
    unfold Scan.backslash
    split
    · exact .piece (Nat.lt_succ_self _) h (.one (Nat.le_succ _) rfl) rfl rfl (by
        rw [slice_one h, ← hget, hc])
    · rename_i c hnext
      exact .piece (Nat.lt_add_of_pos_right Nat.two_pos) (List.getElem?_eq_some_iff.mp hnext).1
        (.one (Nat.le_add_right _ 2) rfl) rfl rfl rfl
  · split
    · refine ⟨_, rfl, ?_⟩
      obtain ⟨hlt, hle⟩ := singleEnd_bounds h
      unfold Scan.singleQuotes
      dsimp only
      split
      · exact .piece hlt hle (.one hlt.le rfl) rfl rfl rfl
      · exact .piece hlt hle (.one hlt.le rfl) rfl rfl rfl
    · split
      · obtain ⟨q, hq, hfits⟩ := quoted_loop { s with wordStart := some s.front } h
        unfold Scan.doubleQuotes
        rw [hq]
        simp only [Option.bind_eq_bind, Option.bind_some]
        split
        · exact ⟨_, rfl, .piece hfits.after hfits.inside (.push hfits.pushed hfits.seg rfl) rfl rfl rfl⟩
        · exact ⟨_, rfl, .piece hfits.after hfits.inside (.push hfits.pushed hfits.seg rfl) rfl rfl rfl⟩
      · split
        · rename_i exp hexp
          obtain ⟨hlt, hle⟩ := expansion_bounds hexp
          exact ⟨_, rfl, .piece hlt hle (.one hlt.le rfl) rfl rfl rfl⟩
        · exact ⟨_, rfl, .piece (Nat.lt_succ_self _) h (.one (Nat.le_succ _) rfl) rfl rfl (by
            rw [Scan.plain, slice_one h, hget])⟩

/-- **One round** passes a run of blanks, a comment, an operator or a piece of a word. -/
theorem round_went (h : s.i < input.length) : ∃ s', s.round input = some s' ∧ Went input s s' := by
  unfold Scan.round
  dsimp only
  split
  · rename_i hblank
    refine ⟨_, rfl, ?_⟩
    unfold Scan.blanks
    dsimp only
    rw [Scan.flush_i, Scan.flush_spans]
    refine .gap (lt_blankEnd h hblank) (blankEnd_le h) (.inl ⟨rfl, fun k hk hi => ?_⟩)
    have hlt := hk.trans_le (blankEnd_le h)
    rw [getD_of_lt hlt]
    exact blank_of_lt_blankEnd hi hk hlt
  · split
    · rename_i hc
      refine ⟨_, rfl, ?_⟩
      unfold Scan.comment
      dsimp only
      rw [Scan.flush_i, Scan.flush_spans]
      exact .gap h le_rfl (.inr ⟨rfl, rfl, by rw [List.getElem?_eq_getElem h, ← getD_of_lt h, hc.1]⟩)
    · split
      · rename_i op hop
        exact ⟨_, rfl, .operator hop⟩
      · exact piece_went h

/-! ## Pushing a span -/

def Span.length (x : Span) : Nat := x.stop - x.start

theorem push_cases (l : List Span) {start stop : Nat} (kind : SpanKind) (h : start < stop) :
    (push l start stop kind = l ++ [⟨start, stop, kind, none⟩] ∧
      ∀ init prev, l = init ++ [prev] → prev.kind = kind → prev.stop ≠ start) ∨
    ∃ init prev, l = init ++ [prev] ∧ prev.kind = kind ∧ prev.stop = start ∧
      push l start stop kind = init ++ [{ prev with stop := stop }] := by
  unfold push
  rw [if_neg (by omega)]
  rcases List.eq_nil_or_concat' l with rfl | ⟨init, prev, rfl⟩
  · exact .inl ⟨rfl, fun init prev hl => absurd hl (by simp)⟩
  · rw [List.getLast?_append_of_ne_nil _ (List.cons_ne_nil _ _), List.getLast?_singleton, List.dropLast_concat]
    by_cases hprev : prev.kind = kind ∧ prev.stop = start
    · exact .inr ⟨init, prev, rfl, hprev.1, hprev.2, if_pos hprev⟩
    · refine .inl ⟨if_neg hprev, fun init' prev' hl hkind hstop => ?_⟩
      obtain ⟨-, hsame⟩ := List.append_inj' hl rfl
      obtain rfl : prev = prev' := List.head_eq_of_cons_eq hsame
      exact hprev ⟨hkind, hstop⟩

theorem exists_pushed (l : List Span) {start stop : Nat} (kind : SpanKind) (h : start < stop) :
    ∃ x ∈ push l start stop kind, x.kind = kind ∧ x.stop = stop ∧
      (x.start = start ∨ ∃ prev ∈ l, prev.kind = kind ∧ prev.stop = start ∧ prev.start = x.start) := by
  rcases push_cases l kind h with ⟨hpush, -⟩ | ⟨init, prev, rfl, hkind, hstop, hpush⟩
  · exact ⟨⟨start, stop, kind, none⟩, hpush ▸ List.mem_concat_self, rfl, rfl, .inl rfl⟩
  · exact ⟨{ prev with stop := stop }, hpush ▸ List.mem_concat_self, hkind, rfl,
      .inr ⟨prev, List.mem_concat_self, hkind, hstop, rfl⟩⟩

theorem mem_push {l : List Span} {start stop : Nat} {kind : SpanKind} {x : Span} (hx : x ∈ push l start stop kind) :
    x ∈ l ∨ x.kind = kind ∧ x.stop = stop ∧
      (x.start = start ∨ ∃ prev ∈ l, prev.kind = kind ∧ prev.stop = start ∧ prev.start = x.start) := by
  by_cases h : start < stop
  · rcases push_cases l kind h with ⟨hpush, -⟩ | ⟨init, prev, rfl, hkind, hstop, hpush⟩
    · rw [hpush, List.mem_append, List.mem_singleton] at hx
      rcases hx with hx | rfl
      · exact .inl hx
      · exact .inr ⟨rfl, rfl, .inl rfl⟩
    · rw [hpush, List.mem_append, List.mem_singleton] at hx
      rcases hx with hx | rfl
      · exact .inl (List.mem_append_left _ hx)
      · exact .inr ⟨hkind, rfl, .inr ⟨prev, List.mem_concat_self, hkind, hstop, rfl⟩⟩
  · unfold push at hx
    rw [if_pos (by omega)] at hx
    exact .inl hx

theorem mem_pushed {l l' : List Span} {start stop : Nat} {x : Span} (hpushed : Pushed l start l' stop) (hx : x ∈ l') :
    x ∈ l ∨ x.kind.ofWord = true := by
  induction hpushed with
  | refl => exact .inl hx
  | push _ _ hkind ih =>
    rcases mem_push hx with hx | ⟨rfl, -⟩
    · exact ih hx
    · exact .inr hkind

/-- The spans lie one after another from the start of the line to `stop`, none of them empty. -/
structure Lined (l : List Span) (stop : Nat) : Prop where
  tiles : Tiles Span.start Span.length 0 l stop
  positive : ∀ x ∈ l, x.start < x.stop

theorem Lined.nil : Lined [] 0 := ⟨.nil 0, List.forall_mem_nil _⟩

theorem Lined.of_snoc {init : List Span} {x : Span} {stop : Nat} (h : Lined (init ++ [x]) stop) :
    Lined init x.start ∧ x.start < x.stop ∧ x.stop = stop := by
  obtain ⟨htiles, hend⟩ := h.tiles.of_snoc
  have hpos := h.positive x List.mem_concat_self
  unfold Span.length at hend
  exact ⟨⟨htiles, fun y hy => h.positive y (List.mem_append_left _ hy)⟩, hpos, by omega⟩

theorem Lined.snoc {l : List Span} {x : Span} (h : Lined l x.start) (hpos : x.start < x.stop) :
    Lined (l ++ [x]) x.stop := by
  have hlength : x.start + x.length = x.stop := by
    unfold Span.length
    omega
  refine ⟨h.tiles.snoc rfl hlength, fun y hy => ?_⟩
  rcases List.mem_append.mp hy with hy | hy
  · exact h.positive y hy
  · exact List.mem_singleton.mp hy ▸ hpos

theorem Lined.stop_le {l : List Span} {stop : Nat} (h : Lined l stop) {x : Span} (hx : x ∈ l) : x.stop ≤ stop := by
  have hend := (h.tiles.within hx).2
  unfold Span.length at hend
  omega

theorem Lined.push {l : List Span} {start stop : Nat} {kind : SpanKind} (h : Lined l start) (hle : start ≤ stop) :
    Lined (push l start stop kind) stop := by
  rcases hle.lt_or_eq with hlt | rfl
  · rcases push_cases l kind hlt with ⟨hpush, -⟩ | ⟨init, prev, rfl, -, hprev, hpush⟩
    · rw [hpush]
      exact h.snoc (x := ⟨start, stop, kind, none⟩) hlt
    · rw [hpush]
      obtain ⟨hinit, hpos, -⟩ := h.of_snoc
      exact hinit.snoc (x := { prev with stop := stop }) (by dsimp only; omega)
  · unfold Lab.push
    rw [if_pos le_rfl]
    exact h

theorem Lined.pushed {l l' : List Span} {start stop : Nat} (h : Lined l start) (hpushed : Pushed l start l' stop) :
    Lined l' stop := by
  induction hpushed with
  | refl => exact h
  | push _ hle _ ih => exact ih.push hle

/-! ## The line -/

/-- The unit at `k` is one of the token's. -/
def Token.covers (t : Token) (k : Nat) : Prop := t.start ≤ k ∧ k < t.stop

/-- The unit at `k` is blank, or part of a comment that goes to the end of the line. -/
def Loose (input : Units) (spans : List Span) (k : Nat) : Prop :=
  blank (input.getD k 0) = true ∨
    ∃ x ∈ spans, x.kind = .comment ∧ x.stop = input.length ∧ x.start ≤ k ∧ input[x.start]? = some (unit '#')

/-- The invariant of the loop. -/
structure Fits (input : Units) (s : Scan) : Prop where
  inside : s.i ≤ input.length
  lined : Lined s.spans s.i
  comments : ∀ x ∈ s.spans, x.kind = .comment → x.stop = input.length
  underway : ∀ start, s.wordStart = some start → start < s.i
  raw : s.raw = slice input s.front s.i
  apart : s.tokens.Pairwise fun t u => t.stop ≤ u.start
  tokens : ∀ t ∈ s.tokens, t.start < t.stop ∧ t.stop ≤ s.front ∧ t.raw = slice input t.start t.stop
  between : ∀ k < s.front, (∃ t ∈ s.tokens, t.covers k) ∨ Loose input s.spans k

theorem Fits.start (input : Units) : Fits input {} where
  inside := Nat.zero_le _
  lined := .nil
  comments _ hx := absurd hx List.not_mem_nil
  underway _ h := nomatch h
  raw := (slice_self input 0).symm
  apart := .nil
  tokens _ ht := absurd ht List.not_mem_nil
  between _ hk := absurd hk (Nat.not_lt_zero _)

theorem Fits.front_le (h : Fits input s) : s.front ≤ s.i := by
  unfold Scan.front
  cases hstart : s.wordStart with
  | none => exact le_rfl
  | some start => exact (h.underway start hstart).le

theorem tokens_snoc {tokens : List Token} {t : Token}
    (hapart : tokens.Pairwise fun t u => t.stop ≤ u.start) (hle : ∀ u ∈ tokens, u.stop ≤ t.start) :
    (tokens ++ [t]).Pairwise fun t u => t.stop ≤ u.start :=
  List.pairwise_append.mpr ⟨hapart, List.pairwise_singleton _ _, fun u hu _ hv => List.mem_singleton.mp hv ▸ hle u hu⟩

theorem Scan.front_flush (s : Scan) : (s.flush s.i).front = s.i := by
  unfold Scan.flush
  split
  · rename_i h
    rw [Scan.front, h, Option.getD_none]
  · rfl

theorem Fits.flush (h : Fits input s) : Fits input (s.flush s.i) := by
  have hfront := h.front_le
  cases hstart : s.wordStart with
  | none =>
    have hsame : s.flush s.i = s := by rw [Scan.flush, hstart]
    rwa [hsame]
  | some start =>
    have hstart' : s.front = start := by rw [Scan.front, hstart, Option.getD_some]
    have hlt := h.underway start hstart
    have hflush : s.flush s.i =
        { s with
          tokens := s.tokens ++ [⟨s.tokens.length, s.raw, s.word, .word, s.quoted, start, s.i, s.expansions⟩]
          word := [], raw := [], wordStart := none, quoted := false, expansions := [] } := by
      rw [Scan.flush, hstart]
    rw [hflush]
    refine ⟨h.inside, h.lined, h.comments, (fun _ hnone => nomatch hnone), (slice_self input s.i).symm, ?_, ?_, ?_⟩
    · exact tokens_snoc h.apart fun u hu => (h.tokens u hu).2.1.trans_eq hstart'
    · intro t ht
      rcases List.mem_append.mp ht with ht | ht
      · obtain ⟨hpos, hle, hraw⟩ := h.tokens t ht
        exact ⟨hpos, hle.trans hfront, hraw⟩
      · obtain rfl := List.mem_singleton.mp ht
        exact ⟨hlt, le_rfl, hstart' ▸ h.raw⟩
    · intro k hk
      by_cases hin : k < s.front
      · rcases h.between k hin with ⟨t, ht, hcovers⟩ | hloose
        · exact .inl ⟨t, List.mem_append_left _ ht, hcovers⟩
        · exact .inr hloose
      · exact .inl ⟨_, List.mem_concat_self, by
          unfold Token.covers
          exact ⟨by dsimp only; omega, hk⟩⟩

@[simp] theorem Scan.flush_wordStart (s : Scan) (stop : Nat) : (s.flush stop).wordStart = none := by
  unfold Scan.flush
  split
  · assumption
  · rfl

theorem Fits.flush_raw (h : Fits input s) : (s.flush s.i).raw = [] := by
  have hraw := h.flush.raw
  rwa [Scan.front_flush, Scan.flush_i, slice_self] at hraw

theorem Fits.no_comment (h : Fits input s) (hlt : s.i < input.length) {x : Span} (hx : x ∈ s.spans) :
    x.kind ≠ .comment := by
  intro hkind
  have hstop := h.comments x hx hkind
  have := h.lined.stop_le hx
  omega

theorem Fits.blank_of_loose (h : Fits input s) (hlt : s.i < input.length) {k : Nat} (hloose : Loose input s.spans k) :
    blank (input.getD k 0) = true := by
  rcases hloose with hblank | ⟨x, hx, hkind, -⟩
  · exact hblank
  · exact absurd hkind (h.no_comment hlt hx)

theorem Fits.gap (h : Fits input s) {kind : SpanKind} {stop : Nat} (hlt : s.i < stop) (hle : stop ≤ input.length)
    (hkind : (kind = .space ∧ ∀ k < stop, s.i ≤ k → blank (input.getD k 0) = true) ∨
      (kind = .comment ∧ stop = input.length ∧ input[s.i]? = some (unit '#'))) :
    Fits input { s.flush s.i with i := stop, spans := push s.spans s.i stop kind } := by
  have hflush := h.flush
  have hmore := hlt.trans_le hle
  have hpushed : Lined (push s.spans s.i stop kind) stop := h.lined.push hlt.le
  refine ⟨hle, hpushed, fun x hx hcomment => ?_, fun start hstart => ?_, ?_, hflush.apart, fun t ht => ?_, fun k hk => ?_⟩
  · rcases mem_push hx with hx | ⟨rfl, hstop, -⟩
    · exact absurd hcomment (h.no_comment hmore hx)
    · rcases hkind with ⟨hspace, -⟩ | ⟨-, rfl, -⟩
      · exact nomatch hcomment.symm.trans hspace
      · exact hstop
  · simp at hstart
  · simp only [Scan.front, Scan.flush_wordStart, Option.getD_none, h.flush_raw, slice_self]
  · obtain ⟨hpos, hstop, hraw⟩ := hflush.tokens t ht
    rw [Scan.front_flush] at hstop
    simp only [Scan.front, Scan.flush_wordStart, Option.getD_none]
    exact ⟨hpos, hstop.trans hlt.le, hraw⟩
  · simp only [Scan.front, Scan.flush_wordStart, Option.getD_none] at hk
    by_cases hin : k < s.i
    · rcases hflush.between k (by rwa [Scan.front_flush]) with htoken | hloose
      · exact .inl htoken
      · rw [Scan.flush_spans] at hloose
        exact .inr (.inl (h.blank_of_loose hmore hloose))
    · rcases hkind with ⟨-, hblank⟩ | ⟨rfl, rfl, hhash⟩
      · exact .inr (.inl (hblank k hk (by omega)))
      · obtain ⟨x, hx, hcomment, hstop, hstart | ⟨prev, hprev, hkind, -⟩⟩ := exists_pushed s.spans .comment hlt
        · exact .inr (.inr ⟨x, hx, hcomment, hstop, by omega, hstart ▸ hhash⟩)
        · exact absurd hkind (h.no_comment hmore hprev)

theorem Fits.operator (h : Fits input s) {op : Units} (hop : matchOperator input s.i = some op) :
    Fits input (s.operator op) := by
  have hflush := h.flush
  have hpos := operator_pos hop
  have hle := operator_le hop
  have hmore : s.i < input.length := by omega
  have hstops : ∀ t ∈ (s.flush s.i).tokens, t.stop ≤ s.i := fun t ht =>
    ((hflush.tokens t ht).2.1).trans_eq s.front_flush
  unfold Scan.operator
  simp only [Scan.flush_i, Scan.flush_spans]
  refine ⟨hle, h.lined.push (Nat.le_add_right _ _), fun x hx hcomment => ?_, fun start hstart => ?_, ?_,
    tokens_snoc hflush.apart hstops, fun t ht => ?_, fun k hk => ?_⟩
  · rcases mem_push hx with hx | ⟨hkind, -⟩
    · exact absurd hcomment (h.no_comment hmore hx)
    · exact nomatch hkind.symm.trans hcomment
  · simp at hstart
  · simp only [Scan.front, Scan.flush_wordStart, Option.getD_none, h.flush_raw, slice_self]
  · simp only [Scan.front, Scan.flush_wordStart, Option.getD_none]
    rcases List.mem_append.mp ht with ht | ht
    · obtain ⟨hlt, -, hraw⟩ := hflush.tokens t ht
      exact ⟨hlt, (hstops t ht).trans (Nat.le_add_right _ _), hraw⟩
    · obtain rfl := List.mem_singleton.mp ht
      exact ⟨Nat.lt_add_of_pos_right hpos, le_rfl, operator_slice hop⟩
  · simp only [Scan.front, Scan.flush_wordStart, Option.getD_none] at hk
    by_cases hin : k < s.i
    · rcases hflush.between k (by rwa [Scan.front_flush]) with ⟨t, ht, hcovers⟩ | hloose
      · exact .inl ⟨t, List.mem_append_left _ ht, hcovers⟩
      · rw [Scan.flush_spans] at hloose
        exact .inr (.inl (h.blank_of_loose hmore hloose))
    · exact .inl ⟨_, List.mem_concat_self, by
        unfold Token.covers
        exact ⟨by dsimp only; omega, hk⟩⟩

/-- **The step.** -/
theorem Fits.went (h : Fits input s) (hwent : Went input s s') : Fits input s' := by
  cases hwent with
  | gap hlt hle hkind => exact h.gap hlt hle hkind
  | operator hop => exact h.operator hop
  | piece hlt hle hspans htokens hword hraw =>
    have hfront : s'.front = s.front := by rw [Scan.front, hword, Option.getD_some]
    have hbefore := h.front_le
    have hmore := hlt.trans_le hle
    refine ⟨hle, h.lined.pushed hspans, fun x hx hcomment => ?_, fun start hstart => ?_, ?_, htokens ▸ h.apart,
      fun t ht => ?_, fun k hk => ?_⟩
    · rcases mem_pushed hspans hx with hx | hkind
      · exact absurd hcomment (h.no_comment hmore hx)
      · rw [hcomment] at hkind
        exact nomatch hkind
    · rw [hword, Option.some.injEq] at hstart
      omega
    · rw [hraw, h.raw, hfront, slice_append input hbefore hlt.le]
    · rw [htokens] at ht
      rw [hfront]
      exact h.tokens t ht
    · rw [hfront] at hk
      rcases h.between k hk with ⟨t, ht, hcovers⟩ | hloose
      · exact .inl ⟨t, htokens ▸ ht, hcovers⟩
      · exact .inr (.inl (h.blank_of_loose hmore hloose))

theorem Went.lt (h : Went input s s') : s.i < s'.i := by
  cases h with
  | gap hlt => exact hlt
  | operator hop =>
    simp only [Scan.operator, Scan.flush_i]
    exact Nat.lt_add_of_pos_right (operator_pos hop)
  | piece hlt => exact hlt

/-- **The loop ends**, at the end of the line. -/
theorem scan_fits (input : Units) : ∃ s, scan input = some s ∧ Fits input s ∧ s.i = input.length := by
  obtain ⟨s, hs, hfits, hend⟩ := whileLoop_spec (μ := fun s : Scan => input.length - s.i) (n := input.length)
    (fun s (hs : Fits input s) (hgoes : decide (s.i < input.length) = true) => by
      have hlt := of_decide_eq_true hgoes
      obtain ⟨s', hs', hwent⟩ := round_went hlt
      have := hwent.lt
      exact ⟨s', hs', hs.went hwent, by omega⟩)
    (Fits.start input) (Nat.sub_le _ _)
  have hend := of_decide_eq_false hend
  have hle := hfits.inside
  exact ⟨s, hs, hfits, by omega⟩

@[simp] theorem attach_start (tokens : List Token) (x : Span) : (attach tokens x).start = x.start := by
  unfold attach
  split <;> rfl

@[simp] theorem attach_stop (tokens : List Token) (x : Span) : (attach tokens x).stop = x.stop := by
  unfold attach
  split <;> rfl

@[simp] theorem attach_kind (tokens : List Token) (x : Span) : (attach tokens x).kind = x.kind := by
  unfold attach
  split <;> rfl

theorem Lined.attach {l : List Span} {stop : Nat} (h : Lined l stop) (tokens : List Token) :
    Lined (l.map (attach tokens)) stop := by
  refine ⟨h.tiles.map (attach_start tokens) fun x => ?_, fun x hx => ?_⟩
  · rw [Span.length, Span.length, attach_start, attach_stop]
  · obtain ⟨y, hy, rfl⟩ := List.mem_map.mp hx
    rw [attach_start, attach_stop]
    exact h.positive y hy

/-- **The spans tile the line** and its tokens are slices of it, with blanks and a comment between them. -/
theorem spans_tile_line (input : Units) :
    ∃ r, tokenize input = some r ∧
      Tiles Span.start Span.length 0 r.spans input.length ∧ (∀ x ∈ r.spans, x.start < x.stop) ∧
      (r.tokens.Pairwise fun t u => t.stop ≤ u.start) ∧
      (∀ t ∈ r.tokens, t.start < t.stop ∧ t.stop ≤ input.length ∧ t.raw = slice input t.start t.stop) ∧
      ∀ k < input.length, (∃ t ∈ r.tokens, t.covers k) ∨ Loose input r.spans k := by
  obtain ⟨s, hs, hfits, hend⟩ := scan_fits input
  have hflush := hfits.flush
  have hlined := (hflush.lined).attach (s.flush s.i).tokens
  have hfront := s.front_flush
  rw [hend] at hflush hlined hfront
  rw [Scan.flush_i, hend] at hlined
  refine ⟨_, by rw [tokenize, hs]; rfl, hlined.tiles, hlined.positive, hflush.apart, fun t ht => ?_, fun k hk => ?_⟩
  · obtain ⟨hpos, hle, hraw⟩ := hflush.tokens t ht
    exact ⟨hpos, hle.trans_eq hfront, hraw⟩
  · rcases hflush.between k (hk.trans_eq hfront.symm) with htoken | hblank | ⟨x, hx, hkind, hstop, hstart, hhash⟩
    · exact .inl htoken
    · exact .inr (.inl hblank)
    · refine .inr (.inr ⟨_, List.mem_map_of_mem hx, ?_⟩)
      rw [attach_kind, attach_start, attach_stop]
      exact ⟨hkind, hstop, hstart, hhash⟩

end BuildYourOwn.Lab
