import ZioBenchmarks.Http.Framing

/-!
# The framer behind the handlers

What the hand-written loops do, without a buffer: the unread bytes are a list, answering removes all
complete requests of them at once, and a read appends some bytes. The loops refine it
(`loopHead_abs`), and its state is computed from the bytes taken so far (`Framer.Good`).
-/

set_option autoImplicit false

namespace ZioBenchmarks.Http

open ZioBenchmarks.Search

/-- The bytes read and not answered, and the three counts of `Loop`. -/
@[ext] structure Framer where
  unread : List UInt8
  responses : Nat
  taken : Nat
  reads : Nat

/-- How many of the next `n` writes succeed before one fails. -/
def written (ok : Nat → Bool) (r : Nat) : Nat → Nat
  | 0 => 0
  | n + 1 => if ok r then written ok (r + 1) n + 1 else 0

/-- All writes succeed. -/
theorem written_eq_iff (ok : Nat → Bool) (r n : Nat) :
    written ok r n = n ↔ ∀ j < n, ok (r + j) = true := by
  induction n generalizing r with
  | zero => simp [written]
  | succ n ih =>
      rw [written]
      by_cases h : ok r = true
      · rw [if_pos h, Nat.add_right_cancel_iff, ih]
        constructor
        · intro h' j hj
          cases j with
          | zero => exact h
          | succ j =>
              rw [← Nat.succ_add_eq_add_succ]
              exact h' j (by omega)
        · intro h' j hj
          rw [Nat.succ_add_eq_add_succ]
          exact h' (j + 1) (by omega)
      · rw [if_neg h]
        constructor
        · intro h'
          omega
        · intro h'
          exact absurd (h' 0 (Nat.succ_pos n)) h

namespace Framer

/-- Answer every complete request. -/
def answer (c : Conn) (a : Framer) : Status Framer :=
  let w := written c.writes a.responses (requests a.unread)
  if w = requests a.unread then
    .running { a with unread := unfinished a.unread, responses := a.responses + w }
  else .returned (a.responses + w)

/-- Read more. Only a loop that `stalls` goes on when there is no room. -/
def refill (stalls : Bool) (c : Conn) (a : Framer) : Status Framer :=
  if bufSize - a.unread.length = 0 then
    if stalls then .running { a with reads := a.reads + 1 } else .returned a.responses
  else if c.stream.length ≤ a.taken then .returned a.responses
  else
    let bs := (c.stream.drop a.taken).take
      (min (bufSize - a.unread.length) (c.arrives a.reads + 1))
    .running ⟨a.unread ++ bs, a.responses, a.taken + bs.length, a.reads + 1⟩

/-- Before the `k`-th time the requests are answered. -/
def head (stalls : Bool) (c : Conn) : Nat → Status Framer :=
  rounds (fun a => (a.answer c).bind (refill stalls c)) ⟨[], 0, 0, 0⟩

end Framer

/-! ## Refinement -/

/-- The framer a loop stands for. -/
def Loop.abs (s : Loop) : Framer := ⟨s.buf.take s.last, s.responses, s.taken, s.reads⟩

/-- `buf` has its size, and `end` lies inside of it. -/
structure Loop.Fits (s : Loop) : Prop where
  length_eq : s.buf.length = bufSize
  last_le : s.last ≤ bufSize

/-- A loop that goes on after it read nothing into an empty slice. -/
def Runtime.stalls (rt : Runtime) : Bool := !rt.returns (.data [])

/-- A status is refined: its state has the invariant and stands for the state on the other side. -/
def Refines (x : Status Loop) (y : Status Framer) : Prop :=
  x.map Loop.abs = y ∧ ∀ s, x = .running s → s.Fits

section Refinement

variable {c : Conn} {rt : Runtime} {s : Loop}

theorem Loop.Fits.unread_length (h : s.Fits) : s.abs.unread.length = s.last := by
  have hl := h.length_eq
  have hle := h.last_le
  simp only [Loop.abs, List.length_take]
  omega

/-- The shift of the inner loop drops the request that was found. -/
theorem Loop.Fits.shift (h : s.Fits) {i : Nat} (hi : indexOf crlf (s.buf.take s.last) = some i)
    (r : Nat) :
    ({ s with
      buf := rt.shift s.buf (i + 4) s.last
      last := s.last - (i + 4)
      responses := r } : Loop).Fits ∧
    (rt.shift s.buf (i + 4) s.last).take (s.last - (i + 4)) =
      (s.buf.take s.last).drop (i + crlf.length) := by
  have hl := h.length_eq
  have hle := h.last_le
  have hin := indexOf_add_length_le hi
  have hcrlf : crlf.length = 4 := rfl
  rw [List.length_take, hcrlf] at hin
  have hshift := rt.shift_eq s.buf (i + 4) s.last (by omega) (by omega) (by omega)
  refine ⟨⟨?_, ?_⟩, ?_⟩
  · rw [hshift, memmove_length (by omega) (by omega), hl]
  · exact (Nat.sub_le _ _).trans hle
  · rw [hshift, memmove_take (by omega)]
    rfl

/-- The inner loop answers every complete request. -/
theorem drain_refines (h : s.Fits) : Refines (drain rt c s) (s.abs.answer c) := by
  fun_induction drain rt c s with
  | case1 s hnone =>
      rw [rt.index_eq] at hnone
      have hreq : requests s.abs.unread = 0 := count_of_none hnone
      have hunf : unfinished s.abs.unread = s.abs.unread := rest_of_none hnone
      -- no terminator: the loop ends with everything unread
      refine ⟨?_, fun s' hs' => ?_⟩
      · simp only [Framer.answer, hreq, hunf, written, reduceIte]
        rfl
      · cases hs'
        exact h
  | case2 s i hsome hw ih =>
      rw [rt.index_eq] at hsome
      obtain ⟨hfits, htake⟩ := @Loop.Fits.shift rt s h _ hsome (s.responses + 1)
      have hreq : requests s.abs.unread =
          requests ((s.buf.take s.last).drop (i + crlf.length)) + 1 :=
        count_of_some hsome
      have hunf : unfinished s.abs.unread =
          unfinished ((s.buf.take s.last).drop (i + crlf.length)) :=
        rest_of_some hsome
      have hih := ih hfits
      -- one response, then the loop goes on with what follows the terminator
      have hcount : ∀ w, s.responses + 1 + w = s.responses + (w + 1) := fun w => by omega
      simp only [Loop.abs, htake, Framer.answer, hcount] at hih
      simp only [Framer.answer, hreq, hunf, written]
      simp only [Loop.abs, hw, reduceIte, Nat.add_right_cancel_iff]
      exact hih
  | case3 s i hsome hw =>
      rw [rt.index_eq] at hsome
      have hreq : requests s.abs.unread =
          requests ((s.buf.take s.last).drop (i + crlf.length)) + 1 :=
        count_of_some hsome
      refine ⟨?_, fun s' hs' => by cases hs'⟩
      -- the write fails: the handler returns before it shifts the buffer
      have hw' : c.writes s.abs.responses = false := Bool.eq_false_iff.2 hw
      simp only [Framer.answer, hreq, written, hw']
      rfl

/-- The three runtimes return at the end of a stream, at an error, and at no other time if the read
took some bytes. -/
theorem returns_of_mem (hrt : rt ∈ runtimes) :
    rt.returns .eof = true ∧ rt.returns .failed = true ∧
      ∀ bs, bs ≠ [] → rt.returns (.data bs) = false := by
  simp only [runtimes, List.mem_cons, List.not_mem_nil, or_false] at hrt
  rcases hrt with rfl | rfl | rfl
  all_goals
    refine ⟨rfl, rfl, fun bs hbs => ?_⟩
    simp [tcpServerNative, tcpServerGo, tcpServerTokio, ReadOutcome.n, ReadOutcome.bytes, hbs]

/-- Bytes that fit are appended. -/
theorem receive_data (h : s.Fits) {bs : List UInt8} (hret : rt.returns (.data bs) = false)
    (hroom : s.last + bs.length ≤ bufSize) :
    Refines (receive rt s (.data bs))
      (.running ⟨s.abs.unread ++ bs, s.responses, s.taken + bs.length, s.reads + 1⟩) := by
  have hl := h.length_eq
  have hle := h.last_le
  have htake : (s.buf.take s.last).length = s.last := by
    rw [List.length_take]
    omega
  rw [receive, hret, if_neg Bool.false_ne_true]
  refine ⟨?_, fun s' hs' => ?_⟩
  · simp only [Status.map, Loop.abs, ReadOutcome.n, ReadOutcome.bytes]
    rw [List.take_left' (by rw [List.length_append, htake])]
  · cases hs'
    refine ⟨?_, hroom⟩
    simp only [ReadOutcome.n, ReadOutcome.bytes, List.length_append, List.length_drop, htake]
    omega

theorem receive_returns {o : ReadOutcome} (hret : rt.returns o = true) :
    Refines (receive rt s o) (.returned s.responses) := by
  rw [receive, hret, if_pos rfl]
  exact ⟨rfl, fun s' hs' => by cases hs'⟩

/-- The read behind the inner loop. -/
theorem refill_refines (hrt : rt ∈ runtimes) (h : s.Fits) :
    Refines (refill rt c s) (s.abs.refill rt.stalls c) := by
  obtain ⟨heof, hfailed, hdata⟩ := returns_of_mem hrt
  have hle := h.last_le
  rw [refill, Framer.refill, h.unread_length, Conn.read]
  by_cases hroom : bufSize - s.last = 0
  · rw [if_pos hroom, if_pos hroom]
    -- an empty slice: the runtimes differ in whether they return
    cases hret : rt.returns (.data []) with
    | true =>
        rw [Runtime.stalls, hret]
        exact receive_returns hret
    | false =>
        rw [Runtime.stalls, hret]
        have href := receive_data h hret hle
        rwa [List.append_nil] at href
  · rw [if_neg hroom, if_neg hroom]
    by_cases hend : c.stream.length ≤ s.taken
    · rw [if_pos hend, if_pos (show c.stream.length ≤ s.abs.taken from hend)]
      -- the end of the stream or an error: every runtime returns
      cases c.reset with
      | true => exact receive_returns hfailed
      | false => exact receive_returns heof
    · rw [if_neg hend, if_neg (show ¬ c.stream.length ≤ s.abs.taken from hend)]
      simp only [Loop.abs]
      generalize hbs : (c.stream.drop s.taken).take
        (min (bufSize - s.last) (c.arrives s.reads + 1)) = bs
      have hlen : bs.length = min (min (bufSize - s.last) (c.arrives s.reads + 1))
          (c.stream.length - s.taken) := by
        rw [← hbs, List.length_take, List.length_drop]
      -- some bytes: no runtime returns
      have hne : bs ≠ [] := by
        intro hnil
        rw [hnil, List.length_nil] at hlen
        omega
      exact receive_data h (hdata bs hne) (by omega)

/-- A round of a loop is a round of the framer. -/
theorem loopHead_refines (hrt : rt ∈ runtimes) {buf : List UInt8} (hbuf : buf.length = bufSize)
    (k : Nat) : Refines (loopHead rt c buf k) (Framer.head rt.stalls c k) := by
  induction k with
  | zero =>
      refine ⟨rfl, fun s hs => ?_⟩
      cases hs
      exact ⟨hbuf, Nat.zero_le _⟩
  | succ k ih =>
      obtain ⟨habs, hfits⟩ := ih
      rw [loopHead, Framer.head, rounds, rounds, ← loopHead, ← Framer.head, ← habs]
      cases hs : loopHead rt c buf k with
      | returned n => exact ⟨rfl, fun s' hs' => by cases hs'⟩
      | running s =>
          obtain ⟨hdrain, hdfits⟩ := @drain_refines c rt s (hfits s hs)
          simp only [Status.bind, Status.map]
          rw [← hdrain]
          cases hd : drain rt c s with
          | returned n => exact ⟨rfl, fun s' hs' => by cases hs'⟩
          | running s' => exact refill_refines hrt (hdfits s' hd)

/-- Before the `k`-th read. -/
def Framer.answered (stalls : Bool) (c : Conn) (k : Nat) : Status Framer :=
  (Framer.head stalls c k).bind (Framer.answer c)

theorem drained_refines (hrt : rt ∈ runtimes) {buf : List UInt8} (hbuf : buf.length = bufSize)
    (k : Nat) : Refines (drained rt c buf k) (Framer.answered rt.stalls c k) := by
  obtain ⟨habs, hfits⟩ := loopHead_refines (c := c) hrt hbuf k
  rw [drained, Framer.answered, ← habs]
  cases hs : loopHead rt c buf k with
  | returned n => exact ⟨rfl, fun s' hs' => by cases hs'⟩
  | running s => exact drain_refines (hfits s hs)

end Refinement

/-! ## The state is computed from the bytes taken -/

namespace Framer

variable {c : Conn} {stalls : Bool} {a b : Framer} {k : Nat}

/-- What has been answered and what is left are those of the bytes taken so far. -/
structure Good (c : Conn) (a : Framer) : Prop where
  taken_le : a.taken ≤ c.stream.length
  fits : a.unread.length ≤ bufSize
  requests_eq : requests (c.stream.take a.taken) = a.responses + requests a.unread
  unfinished_eq : unfinished (c.stream.take a.taken) = unfinished a.unread
  writes : ∀ j < a.responses, c.writes j = true

/-- As `Good`, with every complete request answered. -/
structure Clear (c : Conn) (a : Framer) : Prop where
  taken_le : a.taken ≤ c.stream.length
  fits : a.unread.length ≤ bufSize
  responses_eq : a.responses = requests (c.stream.take a.taken)
  unread_eq : a.unread = unfinished (c.stream.take a.taken)
  writes : ∀ j < a.responses, c.writes j = true

/-- What follows the last terminator is no longer than the whole. -/
theorem unfinished_length_le (xs : List UInt8) : (unfinished xs).length ≤ xs.length := by
  have h : ((split crlf crlf_ne_nil xs).1.flatten ++ (split crlf crlf_ne_nil xs).2).length =
      xs.length := congrArg List.length (split_flatten xs)
  rw [List.length_append] at h
  exact (Nat.le_add_left _ _).trans_eq h

theorem answer_running (h : a.answer c = .running b) (hg : Good c a) : Clear c b := by
  simp only [answer] at h
  split at h
  case isTrue hw =>
    cases h
    refine ⟨hg.taken_le, (unfinished_length_le _).trans hg.fits, ?_, hg.unfinished_eq.symm, ?_⟩
    · rw [hg.requests_eq, hw]
    · intro j hj
      by_cases hlt : j < a.responses
      · exact hg.writes j hlt
      · obtain ⟨i, rfl⟩ := Nat.exists_eq_add_of_le (Nat.le_of_not_lt hlt)
        exact (written_eq_iff _ _ _).1 hw i (by simp only at hj; omega)
  case isFalse => cases h

/-- With every complete request answered, there is nothing to answer. -/
theorem Clear.settled (hc : Clear c b) : requests b.unread = 0 ∧ unfinished b.unread = b.unread := by
  have hnone : indexOf crlf b.unread = none := by
    rw [hc.unread_eq]
    exact indexOf_rest _
  exact ⟨count_of_none hnone, rest_of_none hnone⟩

/-- The prefix of the stream that has been taken after a read. -/
theorem take_add_length (xs : List UInt8) (i m : Nat) :
    xs.take (i + ((xs.drop i).take m).length) = xs.take i ++ (xs.drop i).take m := by
  rw [List.take_add, List.length_take]
  congr 1
  rw [← List.take_take, List.take_length]

/-- A read keeps the account, since only the unread bytes have to be looked at again. -/
theorem refill_running (h : b.refill stalls c = .running a) (hc : Clear c b) : Good c a := by
  obtain ⟨hzero, hsame⟩ := hc.settled
  simp only [refill] at h
  split at h
  case isTrue hroom =>
    split at h
    case isTrue =>
      cases h
      -- the buffer is full and nothing was read
      refine ⟨hc.taken_le, hc.fits, ?_, ?_, hc.writes⟩
      · change requests (c.stream.take b.taken) = b.responses + requests b.unread
        rw [hzero, hc.responses_eq, Nat.add_zero]
      · rw [hsame, hc.unread_eq]
    case isFalse => cases h
  case isFalse hroom =>
    split at h
    case isTrue => cases h
    case isFalse hend =>
      cases h
      -- the bytes read extend the prefix, and what was unread is its unfinished end
      refine ⟨?_, ?_, ?_, ?_, hc.writes⟩
      · simp only [List.length_take, List.length_drop]
        omega
      · have hfits := hc.fits
        simp only [List.length_append, List.length_take, List.length_drop]
        omega
      · rw [take_add_length, requests, count_append, ← requests, ← hc.responses_eq, ← unfinished,
          ← hc.unread_eq, ← requests]
      · rw [take_add_length, unfinished, rest_append, ← unfinished, ← unfinished, ← hc.unread_eq]

theorem initial_good : Good c ⟨[], 0, 0, 0⟩ where
  taken_le := Nat.zero_le _
  fits := Nat.zero_le _
  requests_eq := by
    rw [List.take_zero, Nat.zero_add]
  unfinished_eq := by rw [List.take_zero]
  writes _ hj := absurd hj (Nat.not_lt_zero _)

/-- The state is computed from the bytes taken, at the head of every round -/
theorem head_good (h : head stalls c k = .running a) : Good c a := by
  refine rounds_invariant (I := Good c) initial_good (fun a b hg hr => ?_) h
  obtain ⟨a', ha', hb⟩ := Status.bind_eq_running.1 hr
  exact refill_running hb (answer_running ha' hg)

/-- and behind every inner loop. -/
theorem answered_clear (h : answered stalls c k = .running a) : Clear c a := by
  obtain ⟨a', ha', hb⟩ := Status.bind_eq_running.1 h
  exact answer_running hb (head_good ha')

end Framer

end ZioBenchmarks.Http
