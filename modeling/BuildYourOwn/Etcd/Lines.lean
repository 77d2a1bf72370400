import Mathlib.Data.List.TakeDrop
import BuildYourOwn.Etcd.Stream

/-!
# The lines of a framed body

What a run hands out of a framed body (`framed_lines`): the first of its lines, and all of them when the
stream is over, if the last one ends and no timeout fires in the middle of a size line or of a chunk
(`Harmless`). The invariant `Inv` splits the body in what has become lines or is pending and what is
still framed, in the reader or on its way. `lines_lost` has the two ways in which a line is lost.
-/

namespace BuildYourOwn.Etcd

open Lib
open Link.Archive (trim whiteSpace)

/-! ## Lines -/

theorem cutLines_append (front a b : Bytes) : cutLines front (a ++ b) =
    ((cutLines front a).1 ++ (cutLines (cutLines front a).2 b).1, (cutLines (cutLines front a).2 b).2) := by
  induction a generalizing front with
  | nil => rfl
  | cons c a ih =>
    simp only [List.cons_append, cutLines]
    split
    · rw [ih]
      rfl
    · exact ih _

theorem cutLines_of_not_mem {a : Bytes} (h : 10 ∉ a) (front : Bytes) : cutLines front a = ([], front ++ a) := by
  induction a generalizing front with
  | nil => rw [List.append_nil]; rfl
  | cons c a ih =>
    rw [List.mem_cons, not_or] at h
    rw [cutLines, if_neg (Ne.symm h.1), ih h.2, List.append_assoc]
    rfl

theorem takeLine_of_not_mem {a : Bytes} (h : 10 ∉ a) (front : Bytes) : takeLine front a = (none, front ++ a) := by
  induction a generalizing front with
  | nil => rw [List.append_nil]; rfl
  | cons c a ih =>
    rw [List.mem_cons, not_or] at h
    rw [takeLine, if_neg (Ne.symm h.1), ih h.2, List.append_assoc]
    rfl

theorem not_mem_cutLines {front : Bytes} (h : 10 ∉ front) (a : Bytes) : 10 ∉ (cutLines front a).2 := by
  induction a generalizing front with
  | nil => exact h
  | cons c a ih =>
    rw [cutLines]
    split
    · exact ih List.not_mem_nil
    · rename_i hc
      exact ih (by simp [h, Ne.symm hc])

theorem said_append (a b : List Bytes) : said (a ++ b) = said a ++ said b := by
  simp [said]

theorem said_cons (line : Bytes) (lines : List Bytes) :
    said (line :: lines) = if text line = "" then said lines else text line :: said lines := by
  by_cases h : text line = "" <;> simp [said, h]

/-- **`take_line`** takes the first line that is not blank. -/
theorem takeLine_some {front bytes rest : Bytes} {line : String} (h : takeLine front bytes = (some line, rest)) :
    said (cutLines front bytes).1 = line :: said (cutLines [] rest).1 ∧
      (cutLines front bytes).2 = (cutLines [] rest).2 := by
  induction bytes generalizing front with
  | nil => cases h
  | cons b bytes ih =>
    rw [takeLine] at h
    rw [cutLines]
    by_cases hb : b = 10
    · rw [if_pos hb] at h ⊢
      rw [said_cons]
      by_cases ht : text (front ++ [b]) = ""
      · rw [if_pos ht] at h ⊢
        exact ih h
      · rw [if_neg ht] at h ⊢
        obtain ⟨hline, rfl⟩ := Prod.mk.inj h
        rw [Option.some.inj hline]
        exact ⟨rfl, rfl⟩
    · rw [if_neg hb] at h ⊢
      exact ih h

theorem takeLine_none {front bytes rest : Bytes} (h : takeLine front bytes = (none, rest)) :
    said (cutLines front bytes).1 = [] ∧ (cutLines front bytes).2 = rest := by
  induction bytes generalizing front with
  | nil =>
    cases h
    exact ⟨rfl, rfl⟩
  | cons b bytes ih =>
    rw [takeLine] at h
    rw [cutLines]
    by_cases hb : b = 10
    · rw [if_pos hb] at h ⊢
      rw [said_cons]
      by_cases ht : text (front ++ [b]) = ""
      · rw [if_pos ht] at h ⊢
        exact ih h
      · rw [if_neg ht] at h
        exact absurd (congrArg Prod.fst h) (Option.some_ne_none _)
    · rw [if_neg hb] at h ⊢
      exact ih h

/-! ## Size lines -/

theorem newline_of_mem {c : Char} (h : 10 ∈ String.utf8EncodeChar c) : c = '\n' := by
  have hvalid : c.val.toNat < 0xd800 ∨ 0xdfff < c.val.toNat ∧ c.val.toNat < 0x110000 := c.valid
  have hten {k : Nat} (he : 10 = UInt8.ofNat k) : k % 256 = 10 := by
    rw [← UInt8.toNat_ofNat', ← he]
    rfl
  have hnat : c.val.toNat = 10 := by
    unfold String.utf8EncodeChar at h
    dsimp only at h
    split at h
    · have := hten (List.mem_singleton.mp h)
      omega
    split at h
    · simp only [List.mem_cons, List.not_mem_nil, or_false] at h
      rcases h with h | h <;> have := hten h <;> omega
    split at h
    · simp only [List.mem_cons, List.not_mem_nil, or_false] at h
      rcases h with h | h | h <;> have := hten h <;> omega
    · simp only [List.mem_cons, List.not_mem_nil, or_false] at h
      rcases h with h | h | h | h <;> have := hten h <;> omega
  exact Char.ext (UInt32.toNat_inj.mp hnat)

theorem rdropWhile_append {p : Char → Bool} {l m : List Char} {c : Char} (hc : p c = false) :
    (l ++ c :: m).rdropWhile p = l ++ c :: m.rdropWhile p := by
  have h : (c :: l.reverse).dropWhile p = c :: l.reverse := List.dropWhile_cons_of_neg (by simp [hc])
  rw [List.rdropWhile, List.rdropWhile, List.reverse_append, List.reverse_cons, List.append_assoc,
    List.singleton_append, List.dropWhile_append, h]
  split
  · rename_i hnil
    rw [List.isEmpty_iff.mp hnil]
    simp
  · simp

theorem plain_of_hexDigit {c : Char} (h : (hexDigit c).isSome) :
    whiteSpace c = false ∧ c ≠ ';' ∧ c ≠ '+' ∧ c ≠ '\n' := by
  have hrange : 48 ≤ c.toNat ∧ c.toNat ≤ 57 ∨ 65 ≤ c.toNat ∧ c.toNat ≤ 70 ∨ 97 ≤ c.toNat ∧ c.toNat ≤ 102 := by
    unfold hexDigit at h
    by_cases h₁ : '0' ≤ c ∧ c ≤ '9'
    · exact .inl h₁
    by_cases h₂ : 'a' ≤ c ∧ c ≤ 'f'
    · exact .inr (.inr h₂)
    by_cases h₃ : 'A' ≤ c ∧ c ≤ 'F'
    · exact .inr (.inl h₃)
    · rw [if_neg h₁, if_neg h₂, if_neg h₃] at h
      cases h
  refine ⟨?_, ?_, ?_, ?_⟩
  · simp [whiteSpace]
    omega
  all_goals
    rintro rfl
    revert hrange
    decide

theorem SizeLine.reads {line : Bytes} {n : Nat} (h : SizeLine line n) :
    ∃ (init : Bytes) (text : String), line = init ++ [10] ∧ 10 ∉ init ∧
      String.fromUTF8? ⟨line.toArray⟩ = some text ∧ parseSize text = some n := by
  obtain @⟨digits, ext, n, hne, hdigits, hvalue, hext, hline⟩ := h
  refine ⟨(digits ++ ext ++ ['\r']).flatMap String.utf8EncodeChar, _, ?_, ?_, fromUTF8_asBytes _, ?_⟩
  · rw [asBytes_eq, String.toList_ofList, show ['\r', '\n'] = ['\r'] ++ ['\n'] from rfl, ← List.append_assoc,
      List.flatMap_append]
    rfl
  · intro h
    obtain ⟨c, hc, hten⟩ := List.mem_flatMap.mp h
    obtain rfl := newline_of_mem hten
    rcases List.mem_append.mp hc with hc | hc
    · rcases List.mem_append.mp hc with hc | hc
      · exact (plain_of_hexDigit (hdigits _ hc)).2.2.2 rfl
      · exact hline hc
    · exact absurd hc (by decide)
  · have htrim : ∃ more, (more = [] ∨ more.head? = some ';') ∧
        (trim (String.ofList (digits ++ ext ++ ['\r', '\n']))).toList = digits ++ more := by
      unfold trim
      rw [String.toList_ofList, String.toList_ofList]
      have hdrop : (digits ++ ext ++ ['\r', '\n']).dropWhile whiteSpace = digits ++ ext ++ ['\r', '\n'] := by
        cases digits with
        | nil => exact absurd rfl hne
        | cons d ds => exact List.dropWhile_cons_of_neg (by simp [(plain_of_hexDigit (hdigits d List.mem_cons_self)).1])
      rw [hdrop, List.append_assoc]
      rcases hext with rfl | hext
      · obtain ⟨ds, d, rfl⟩ := List.eq_nil_or_concat digits |>.resolve_left hne
        rw [List.concat_eq_append] at hdigits ⊢
        refine ⟨[], .inl rfl, ?_⟩
        have hd := (plain_of_hexDigit (hdigits d (by simp))).1
        rw [List.append_assoc, List.singleton_append, rdropWhile_append hd]
        simp [show ['\r', '\n'].rdropWhile whiteSpace = [] by decide]
      · obtain ⟨e, rfl⟩ := List.head?_eq_some_iff.mp hext
        refine ⟨_, .inr rfl, rdropWhile_append (by decide)⟩
    obtain ⟨more, hmore, htrim⟩ := htrim
    have htake : (digits ++ more).takeWhile (· ≠ ';') = digits := by
      have hall : ∀ c ∈ digits, decide (c ≠ ';') = true := fun c hc =>
        decide_eq_true (plain_of_hexDigit (hdigits c hc)).2.1
      rw [List.takeWhile_append_of_pos hall]
      rcases hmore with rfl | hmore
      · simp
      · obtain ⟨e, rfl⟩ := List.head?_eq_some_iff.mp hmore
        simp
    rw [parseSize, htrim, htake]
    cases digits with
    | nil => exact absurd rfl hne
    | cons d ds =>
      rw [fromStrRadix, hvalue]
      · exact List.cons_ne_nil d ds
      · exact fun _ he => (plain_of_hexDigit (hdigits d List.mem_cons_self)).2.2.1 (List.head_eq_of_cons_eq he)

/-! ## The invariant -/

structure Follows (body : Bytes) (lines : List String) (pending taken left : Bytes) : Prop where
  whole : body = taken ++ left
  lines : lines ++ said (cutLines [] pending).1 = said (cutLines [] taken).1
  tail : (cutLines [] pending).2 = (cutLines [] taken).2

def Stream.Holds (s : Stream) (left : Bytes) : Prop :=
  match s.phase with
  | .idle | .looking => Framed s.chunked (s.inbuf ++ s.coming) left
  | .line read => s.chunked = true ∧ 10 ∉ read ∧ Framed true (read ++ (s.inbuf ++ s.coming)) left
  | .chunk size read => s.chunked = true ∧ read.length < size + 2 ∧ ∃ data wire later,
      data.length = size ∧ read ++ (s.inbuf ++ s.coming) = data ++ ([13, 10] ++ wire) ∧
      Framed true wire later ∧ left = data ++ later
  | .body => s.chunked = false ∧ Framed false (s.inbuf ++ s.coming) left

/-- The lines that have been handed out are those of what was taken, and no line is pending while `fill` reads
or when the stream is over. -/
def Inv (body : Bytes) (lines : List String) (s : Stream) : Prop :=
  ∃ taken left, Follows body lines s.pending taken left ∧ (s.closed = true → s.coming = []) ∧
    (s.done = true ∨ s.phase ≠ .idle ∧ s.phase ≠ .looking → 10 ∉ s.pending) ∧
    if s.done then left = [] ∧ (s.phase = .idle ∨ s.phase = .looking) else s.Holds left

def Harmless (s : Stream) : Input → Prop
  | .timeout => s.phase = .line [] ∨ s.phase = .body
  | _ => True

section

variable {body pending left taken : Bytes} {lines : List String} {s s' : Stream} {o : Option Answer}

theorem Stream.Holds.congr (h : s.Holds left) (hphase : s'.phase = s.phase) (hchunked : s'.chunked = s.chunked)
    (hunread : s'.inbuf ++ s'.coming = s.inbuf ++ s.coming) : s'.Holds left := by
  unfold Stream.Holds at h ⊢
  rwa [hphase, hchunked, hunread]

theorem Follows.push {data : Bytes} (h : Follows body lines pending taken (data ++ left)) :
    Follows body lines (pending ++ data) (taken ++ data) left where
  whole := by rw [h.whole, List.append_assoc]
  lines := by
    rw [cutLines_append, cutLines_append, said_append, said_append, ← List.append_assoc, h.lines, h.tail]
  tail := by rw [cutLines_append, cutLines_append, h.tail]

theorem Follows.look (h : Follows body lines pending taken left) :
    Follows body (lines ++ (takeLine [] pending).1.toList) (takeLine [] pending).2 taken left := by
  generalize ht : takeLine [] pending = r
  obtain ⟨line, rest⟩ := r
  cases line with
  | some line =>
    refine ⟨h.whole, ?_, (takeLine_some ht).2.symm.trans h.tail⟩
    rw [← h.lines, (takeLine_some ht).1, List.append_assoc]
    rfl
  | none =>
    have hrest : cutLines [] rest = ([], rest) := by
      rw [← (takeLine_none ht).2]
      exact cutLines_of_not_mem (not_mem_cutLines List.not_mem_nil _) []
    refine ⟨h.whole, ?_, ?_⟩
    · rw [hrest, ← h.lines, (takeLine_none ht).1]
      simp [said]
    · rw [hrest, ← h.tail, (takeLine_none ht).2]

def Kept (body : Bytes) (lines : List String) (o : Option Answer) (s' : Stream) : Prop :=
  (∀ e, o ≠ some (.error e)) ∧ Inv body (lines ++ (lineOf o).toList) s'

theorem ended_inv (h : Follows body lines s.pending taken []) (hclosed : s.closed = true → s.coming = [])
    (hpending : 10 ∉ s.pending) (hs : s.ended = some (s', o)) : Kept body lines o s' := by
  have ht := takeLine_of_not_mem hpending []
  have hlook := h.look
  rw [Stream.ended, ht] at hs
  rw [ht] at hlook
  cases hs
  exact ⟨nofun, taken, [], hlook, hclosed, fun _ => hpending, rfl, .inl rfl⟩

theorem newline_unique {a a' b b' : Bytes} (ha : 10 ∉ a) (ha' : 10 ∉ a') (h : a ++ 10 :: b = a' ++ 10 :: b') :
    a = a' ∧ b = b' := by
  have hcut {a b : Bytes} (ha : 10 ∉ a) : (a ++ 10 :: b).takeWhile (· ≠ 10) = a := by
    have hall : ∀ c ∈ a, decide (c ≠ 10) = true := fun c hc => decide_eq_true fun he => ha (by rwa [he] at hc)
    rw [List.takeWhile_append_of_pos hall]
    simp
  obtain rfl : a = a' := by rw [← hcut (b := b) ha, h, hcut ha']
  exact ⟨rfl, (List.cons.inj (List.append_cancel_left h)).2⟩

/-- **A size line** begins the next chunk or ends the body. -/
theorem sized_inv {init : Bytes} (h : Follows body lines s.pending taken left)
    (hclosed : s.closed = true → s.coming = []) (hpending : 10 ∉ s.pending) (hdone : s.done = false)
    (hchunked : s.chunked = true) (hinit : 10 ∉ init) (hframed : Framed true (init ++ 10 :: (s.inbuf ++ s.coming)) left)
    (hs : Stream.sized (init ++ [10]) s = some (s', o)) : Kept body lines o s' := by
  unfold Stream.sized at hs
  rw [if_neg (by simp)] at hs
  generalize hwire : init ++ 10 :: (s.inbuf ++ s.coming) = wire at hframed
  cases hframed with
  | last hline trailer =>
    obtain ⟨init', text, rfl, hinit', htext, hparse⟩ := hline.reads
    rw [List.append_assoc] at hwire
    obtain ⟨rfl, -⟩ := newline_unique hinit hinit' hwire
    simp only [htext, hparse] at hs
    exact ended_inv h hclosed hpending hs
  | @chunk _ data wire later hline hne hsize hframed =>
    obtain ⟨init', text, rfl, hinit', htext, hparse⟩ := hline.reads
    rw [List.append_assoc] at hwire
    obtain ⟨rfl, hrest⟩ := newline_unique hinit hinit' hwire
    cases data with
    | nil => exact absurd rfl hne
    | cons b data =>
      simp only [htext, hparse, List.length_cons] at hs hsize
      rw [if_pos hsize] at hs
      cases hs
      refine ⟨nofun, taken, b :: data ++ later, ?_, hclosed, fun _ => hpending, ?_⟩
      · exact (List.append_nil lines).symm ▸ h
      · rw [if_neg (Bool.eq_false_iff.mp hdone)]
        exact ⟨hchunked, Nat.succ_pos _, b :: data, wire, later, rfl, hrest, hframed, rfl⟩

theorem newline_mem {wire left : Bytes} (h : Framed true wire left) : 10 ∈ wire := by
  cases h with
  | last hline => obtain ⟨init, -, rfl, -⟩ := hline.reads; simp
  | chunk hline => obtain ⟨init, -, rfl, -⟩ := hline.reads; simp

theorem span_newline {xs front back : Bytes} (h : xs.span (· ≠ 10) = (front, back)) :
    xs = front ++ back ∧ 10 ∉ front ∧ ∀ b ∈ back.head?, b = 10 := by
  rw [List.span_eq_takeWhile_dropWhile] at h
  obtain ⟨rfl, rfl⟩ := Prod.mk.inj h
  refine ⟨List.takeWhile_append_dropWhile.symm, fun hmem => ?_, fun b hb => ?_⟩
  · simpa using List.mem_takeWhile_imp hmem
  · have hhead := List.head?_dropWhile_not (· ≠ 10) xs
    rw [Option.mem_def.mp hb] at hhead
    simpa using hhead

theorem kept_on {left : Bytes} (h : Follows body lines s'.pending taken left)
    (hclosed : s'.closed = true → s'.coming = []) (hpending : s'.phase = .looking ∨ 10 ∉ s'.pending)
    (hdone : s'.done = false) (hholds : s'.Holds left) : Kept body lines none s' := by
  refine ⟨nofun, taken, left, (List.append_nil lines).symm ▸ h, hclosed, fun hbusy => ?_, ?_⟩
  · exact hpending.resolve_left (hbusy.resolve_left (Bool.eq_false_iff.mp hdone)).2
  rwa [if_neg (Bool.eq_false_iff.mp hdone)]

/-- The call is in `read_line`. -/
theorem line_inv {n : Nat} {read : Bytes} (h : Follows body lines s.pending taken left)
    (hclosed : s.closed = true → s.coming = []) (hpending : 10 ∉ s.pending) (hdone : s.done = false)
    (hphase : s.phase = .line read) (hplace : s.Holds left) (hs : s.poll n = some (s', o)) : Kept body lines o s' := by
  simp only [Stream.poll, hphase] at hs
  simp only [Stream.Holds, hphase] at hplace
  obtain ⟨hchunked, hread, hframed⟩ := hplace
  split at hs
  · rename_i front newline back hspan
    obtain ⟨hinbuf, hfront, hnewline⟩ := span_newline hspan
    obtain rfl := hnewline newline rfl
    refine sized_inv (s := { s with inbuf := back, phase := .line read }) h hclosed hpending hdone hchunked ?_ ?_ hs
    · exact fun hmem => (List.mem_append.mp hmem).elim hread hfront
    · rw [hinbuf] at hframed
      simpa using hframed
  · rename_i front hspan
    obtain ⟨hinbuf, hfront, -⟩ := span_newline hspan
    rw [List.append_nil] at hinbuf
    split at hs
    · cases hs
      refine kept_on h hclosed (.inr hpending) hdone ⟨hchunked, ?_, ?_⟩
      · exact fun hmem => (List.mem_append.mp hmem).elim hread hfront
      · rw [hinbuf] at hframed
        simpa using hframed
    · rename_i hnil
      split at hs
      · rename_i hclose
        -- a framed body goes on to a newline
        rw [hinbuf, not_not.mp hnil, hclosed hclose] at hframed
        exact absurd (newline_mem hframed) (by simpa using hread)
      · cases hs

/-- The call is in `read_exact`. -/
theorem chunk_inv {n : Nat} {size : Nat} {read : Bytes} (h : Follows body lines s.pending taken left)
    (hclosed : s.closed = true → s.coming = []) (hpending : 10 ∉ s.pending) (hdone : s.done = false)
    (hphase : s.phase = .chunk size read) (hplace : s.Holds left) (hs : s.poll n = some (s', o)) :
    Kept body lines o s' := by
  simp only [Stream.poll, hphase] at hs
  simp only [Stream.Holds, hphase] at hplace
  obtain ⟨hchunked, hlt, data, wire, later, rfl, hwire, hframed, rfl⟩ := hplace
  split at hs
  · rename_i hnil
    split at hs
    · rename_i hclose
      rw [hnil, hclosed hclose] at hwire
      have hlength := congrArg List.length hwire
      simp only [List.length_append, List.length_nil, List.length_cons] at hlength
      omega
    · cases hs
  · -- what is read so far begins the chunk, and the rest is behind it
    have hsplit : read ++ s.inbuf.take (data.length + 2 - read.length) ++
        (s.inbuf.drop (data.length + 2 - read.length) ++ s.coming) = data ++ ([13, 10] ++ wire) := by
      rw [← hwire, List.append_assoc, ← List.append_assoc (s.inbuf.take _), List.take_append_drop]
    generalize hread' : read ++ s.inbuf.take (data.length + 2 - read.length) = read' at hs hsplit
    split at hs
    · rename_i hshort
      cases hs
      exact kept_on h hclosed (.inr hpending) hdone
        ⟨hchunked, hshort, data, wire, later, rfl, hsplit, hframed, rfl⟩
    · rename_i hlong
      cases hs
      have hlength : read'.length = data.length + 2 := by
        have := congrArg List.length hread'
        rw [List.length_append, List.length_take] at this
        omega
      rw [← List.append_assoc data] at hsplit
      obtain ⟨rfl, hrest⟩ := List.append_inj hsplit (by simpa using hlength)
      refine kept_on (?_ : Follows body lines _ (taken ++ data) later) hclosed (.inl rfl) hdone ?_
      · rw [List.take_left]
        exact h.push
      · show Framed s.chunked _ later
        rw [hchunked]
        exact hrest ▸ hframed

/-- The call is in `read`. -/
theorem body_inv {n : Nat} (h : Follows body lines s.pending taken left)
    (hclosed : s.closed = true → s.coming = []) (hpending : 10 ∉ s.pending) (hdone : s.done = false)
    (hphase : s.phase = .body) (hplace : s.Holds left) (hs : s.poll n = some (s', o)) : Kept body lines o s' := by
  simp only [Stream.poll, hphase] at hs
  simp only [Stream.Holds, hphase] at hplace
  obtain ⟨hchunked, hframed⟩ := hplace
  split at hs
  · rename_i hnil
    split at hs
    · rename_i hclose
      rw [hnil, hclosed hclose] at hframed
      cases hframed
      exact ended_inv h hclosed hpending hs
    · cases hs
  · split at hs
    · cases hs
      cases hframed
      refine kept_on (?_ : Follows body lines _ (taken ++ s.inbuf.take n) (s.inbuf.drop n ++ s.coming)) hclosed
        (.inl rfl) hdone ?_
      · refine Follows.push ?_
        rwa [← List.append_assoc, List.take_append_drop]
      · show Framed s.chunked _ _
        rw [hchunked]
        exact .plain _
    · cases hs

/-- **A call goes on.** -/
theorem poll_inv {n : Nat} (h : Inv body lines s) (hs : s.poll n = some (s', o)) : Kept body lines o s' := by
  obtain ⟨taken, left, hfollows, hclosed, hpending, hplace⟩ := h
  have hpoll := hs
  unfold Stream.poll at hs
  split at hs
  · cases hs
  · rename_i hphase
    have hlook := hfollows.look
    by_cases hdone : s.done = true
    · have ht := takeLine_of_not_mem (hpending (.inl hdone)) []
      rw [ht] at hs hlook
      dsimp only at hs
      rw [if_pos hdone] at hs hplace
      cases hs
      refine ⟨nofun, taken, left, hlook, hclosed, fun _ => hpending (.inl hdone), ?_⟩
      rw [if_pos hdone]
      exact ⟨hplace.1, .inl rfl⟩
    · rw [if_neg hdone] at hplace
      unfold Stream.Holds at hplace
      rw [hphase] at hplace
      split at hs
      · rename_i line rest ht
        rw [ht] at hlook
        cases hs
        refine ⟨nofun, taken, left, hlook, hclosed, fun hbusy => absurd rfl (hbusy.resolve_left hdone).1, ?_⟩
        rw [if_neg hdone]
        exact hplace
      · rename_i rest ht
        rw [ht] at hlook
        rw [if_neg hdone] at hs
        cases hs
        refine kept_on (by simpa using hlook) hclosed (.inr ?_) (Bool.eq_false_iff.mpr hdone) ?_
        · exact (takeLine_none ht).2 ▸ not_mem_cutLines List.not_mem_nil _
        · unfold Stream.Holds
          cases hchunked : s.chunked with
          | true => exact ⟨rfl, List.not_mem_nil, hchunked ▸ hplace⟩
          | false => exact ⟨rfl, hchunked ▸ hplace⟩
  all_goals
    rename_i hphase
    have hdone : s.done = false := by
      by_contra hdone
      rw [if_pos (Bool.eq_true_of_not_eq_false hdone), hphase] at hplace
      simp at hplace
    rw [if_neg (Bool.eq_false_iff.mp hdone)] at hplace
    have hquiet := hpending (.inr (by rw [hphase]; exact ⟨nofun, nofun⟩))
  · exact line_inv hfollows hclosed hquiet hdone hphase hplace hpoll
  · exact chunk_inv hfollows hclosed hquiet hdone hphase hplace hpoll
  · exact body_inv hfollows hclosed hquiet hdone hphase hplace hpoll

theorem Inv.quiet (h : Inv body lines s) (hpending : s'.pending = s.pending) (hdone : s'.done = s.done)
    (hclosed : s'.closed = true → s.coming = [] → s'.coming = [])
    (hclose : s'.closed = true → s.closed = true ∨ s.coming = [])
    (hphase : s'.phase = s.phase ∨ s'.phase = .idle ∨ s'.phase = .looking)
    (hholds : ∀ left, s.Holds left → s'.Holds left) : Inv body lines s' := by
  obtain ⟨taken, left, hfollows, hcoming, hquiet, hplace⟩ := h
  refine ⟨taken, left, hpending ▸ hfollows, fun hc => hclosed hc ((hclose hc).elim hcoming id), ?_, ?_⟩
  · rw [hpending, hdone]
    refine fun hbusy => hquiet (hbusy.imp_right fun hbusy => ?_)
    rcases hphase with hphase | hphase
    · rwa [← hphase]
    · exact absurd hphase (not_or.mpr hbusy)
  · rw [hdone]
    by_cases hd : s.done = true
    · rw [if_pos hd] at hplace ⊢
      refine ⟨hplace.1, hphase.elim (fun hphase => ?_) id⟩
      rw [hphase]
      exact hplace.2
    · rw [if_neg hd] at hplace ⊢
      exact hholds left hplace

theorem step_inv {i : Input} (h : Inv body lines s) (hg : Harmless s i) (hs : s.step i = some (s', o)) :
    Kept body lines o s' := by
  have hquiet (hinv : Inv body lines s') (ho : lineOf o = none) (he : ∀ e, o ≠ some (.error e)) :
      Kept body lines o s' := by
    refine ⟨he, ?_⟩
    rw [ho]
    simpa using hinv
  cases i with
  | poll n => exact poll_inv h hs
  | nextLine =>
    rw [Stream.step] at hs
    split at hs
    · rename_i hphase
      cases hs
      refine hquiet (h.quiet rfl rfl (fun _ => id) .inl (.inr (.inr rfl)) fun left hholds => ?_) rfl nofun
      unfold Stream.Holds at hholds
      rwa [hphase] at hholds
    · cases hs
  | arrive n =>
    cases hs
    refine hquiet (h.quiet rfl rfl (fun _ hc => ?_) .inl (.inl rfl) fun left hholds => ?_) rfl nofun
    · simp [hc]
    · exact hholds.congr rfl rfl (by simp)
  | close =>
    rw [Stream.step] at hs
    split at hs
    · rename_i hcoming
      cases hs
      exact hquiet (h.quiet rfl rfl (fun _ => id) (fun _ => .inr hcoming) (.inl rfl) fun _ => id) rfl nofun
    · cases hs
  | timeout =>
    rw [Stream.step] at hs
    split at hs
    · cases hs
    · cases hs
      refine hquiet (h.quiet rfl rfl (fun _ => id) .inl (.inr (.inl rfl)) fun left hholds => ?_) rfl nofun
      unfold Stream.Holds at hholds
      show Framed s.chunked _ _
      rcases hg with hg | hg
      · rw [hg] at hholds
        exact hholds.1 ▸ hholds.2.2
      · rw [hg] at hholds
        exact hholds.1 ▸ hholds.2

end

/-! ## Every run -/

def EndsInLine (body : Bytes) : Prop := text (cutLines [] body).2 = ""

theorem said_bodyLines (body : Bytes) : bodyLines body =
    said (cutLines [] body).1 ++ if text (cutLines [] body).2 = "" then [] else [text (cutLines [] body).2] := by
  rw [bodyLines, said_append, said_cons]
  rfl

variable {chunked : Bool} {arrived coming body : Bytes} {es : List (Event Stream Input (Option Answer))} {s : Stream}

/-- **No line is lost** by a run in which no timeout does harm: what the calls returned are the first lines of the
body, none of them failed, and when the stream is over they are all of them exactly if the last one ends. -/
theorem framed_lines (hframed : Framed chunked (arrived ++ coming) body)
    (h : Run Stream.step (opened chunked arrived coming) es s)
    (hg : ∀ e ∈ es, Harmless e.before e.input) :
    returned es <+: bodyLines body ∧ (∀ e ∈ es, ∀ err, e.output ≠ some (.error err)) ∧
      (s.done = true → (returned es = bodyLines body ↔ EndsInLine body)) := by
  have hstart : Inv body (returned []) (opened chunked arrived coming) :=
    ⟨[], body, ⟨rfl, rfl, rfl⟩, nofun, nofun, by simpa [Stream.Holds, opened] using hframed⟩
  have hrun : Inv body (returned es) s ∧ ∀ e ∈ es, ∀ err, e.output ≠ some (.error err) := by
    refine h.history_invariant
      (P := fun es s => Inv body (returned es) s ∧ ∀ e ∈ es, ∀ err, e.output ≠ some (.error err))
      (G := fun e => Harmless e.before e.input) ⟨hstart, List.forall_mem_nil _⟩
      (fun es s i s' o hP hi hs => ?_) hg
    obtain ⟨hnone, hinv⟩ := step_inv hP.1 hi hs
    rw [returned, List.filterMap_append]
    refine ⟨?_, forall_mem_snoc hP.2 hnone⟩
    cases hline : lineOf o <;> simpa [hline, returned] using hinv
  obtain ⟨⟨taken, left, hfollows, -, hquiet, hplace⟩, herrors⟩ := hrun
  have hfirst : (cutLines [] body).1 = (cutLines [] taken).1 ++ (cutLines (cutLines [] taken).2 left).1 := by
    rw [hfollows.whole, cutLines_append]
  refine ⟨?_, herrors, fun hdone => ?_⟩
  · rw [said_bodyLines, hfirst, said_append, ← hfollows.lines, List.append_assoc, List.append_assoc]
    exact List.prefix_append _ _
  · rw [if_pos hdone] at hplace
    obtain ⟨rfl, -⟩ := hplace
    have hlines := hfollows.lines
    rw [cutLines_of_not_mem (hquiet (.inl hdone)), ← List.append_nil taken, ← hfollows.whole] at hlines
    have hall : returned es = said (cutLines [] body).1 := by simpa [said] using hlines
    rw [said_bodyLines, hall, EndsInLine]
    by_cases ht : text (cutLines [] body).2 = "" <;> simp [ht]

instance (s : Stream) (i : Input) : Decidable (Harmless s i) :=
  match i with
  | .timeout => inferInstanceAs (Decidable (s.phase = .line [] ∨ s.phase = .body))
  | .nextLine | .arrive _ | .close | .poll _ => isTrue trivial

def twoLines : Bytes := [52, 13, 10] ++ ([97, 10, 98, 10] ++ ([13, 10] ++ ([48, 13, 10] ++ [13, 10])))

theorem framed_twoLines : Framed true twoLines [97, 10, 98, 10] := by
  refine @Framed.chunk _ _ _ [] ?_ (by decide) (by decide) (.last ?_ _)
  · exact @SizeLine.mk ['4'] [] 4 (by decide) (by simp [hexDigit]) (by decide) (.inl rfl) (by decide)
  · exact @SizeLine.mk ['0'] [] 0 (by decide) (by simp [hexDigit]) (by decide) (.inl rfl) (by decide)

def twoLinesAfter (n : Nat) : Stream := opened true (twoLines.take n) (twoLines.drop n)

/-- Nothing has come when the timeout fires for the first time. -/
def quietly : List Input :=
  [.nextLine, .poll 1, .timeout, .nextLine, .poll 1, .arrive 5, .poll 1, .poll 1, .arrive 99, .poll 1, .poll 1,
    .nextLine, .poll 1, .nextLine, .poll 1, .poll 1]

theorem framed_lines_quietly : ∃ es s, Run Stream.step (twoLinesAfter 0) es s ∧ s.done = true ∧
    returned es = bodyLines [97, 10, 98, 10] := by
  have hharmless : ∀ es s, exec Stream.step (twoLinesAfter 0) quietly [] = some (es, s) →
      ∀ e ∈ es, Harmless e.before e.input := by
    intro es s hexec e he
    have hall : ((exec Stream.step (twoLinesAfter 0) quietly []).map fun r =>
        r.1.all fun e => decide (Harmless e.before e.input)) = some true := rfl
    rw [hexec] at hall
    exact of_decide_eq_true (List.all_eq_true.mp (Option.some.inj hall) e he)
  have hrun : Run Stream.step (twoLinesAfter 0) _ _ := run_of_exec quietly rfl
  have hframed : Framed true (twoLines.take 0 ++ twoLines.drop 0) [97, 10, 98, 10] := framed_twoLines
  exact ⟨_, _, hrun, rfl, ((framed_lines hframed hrun (hharmless _ _ rfl)).2.2 rfl).mpr (show text _ = "" by decide)⟩

/-! ## Lines that are lost -/

/-- **The last line** is lost when no newline follows it, and so are the lines of a chunk in which the timeout
fires: what is left of it is read as a size line. -/
theorem lines_lost :
    (∃ es s, Run Stream.step (opened false [97, 10, 98] []) es s ∧ s.done = true ∧ returned es = ["a"] ∧
      bodyLines [97, 10, 98] = ["a", "b"]) ∧
    ∃ es s, Run Stream.step (twoLinesAfter 5) es s ∧ Framed true twoLines [97, 10, 98, 10] ∧ s.closed = true ∧
      s.inbuf = [] ∧ returned es = [] ∧ bodyLines [97, 10, 98, 10] = ["a", "b"] :=
  ⟨⟨_, _, run_of_exec [.nextLine, .poll 1, .poll 8192, .poll 1, .nextLine, .close, .poll 1, .poll 1] rfl, rfl,
    by decide, by decide⟩, _, _, run_of_exec [.nextLine, .poll 1, .poll 1, .poll 1, .timeout, .arrive 99, .nextLine,
      .poll 1, .poll 1, .poll 1, .close, .poll 1] rfl, framed_twoLines, rfl, rfl, by decide, by decide⟩

end BuildYourOwn.Etcd
