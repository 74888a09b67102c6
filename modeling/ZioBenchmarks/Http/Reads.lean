import ZioBenchmarks.Http.Framer

/-!
# Framing and the splits into reads

How the handlers answer a stream does not depend on how it is cut into reads, as long as the buffer
never fills up with an unfinished request.
-/

set_option autoImplicit false

namespace ZioBenchmarks.Http

open ZioBenchmarks.Search

namespace Framer

variable {c : Conn} {stalls : Bool} {a b : Framer} {k n : Nat}

/-- A longer prefix has at least as many requests. -/
theorem requests_take_le {m : Nat} (hmn : m ≤ n) :
    requests (c.stream.take m) ≤ requests (c.stream.take n) := by
  obtain ⟨d, rfl⟩ := Nat.exists_eq_add_of_le hmn
  rw [List.take_add, requests, requests, count_append]
  exact Nat.le_add_right _ _

/-- If the writes for the bytes taken succeed, the requests are answered. -/
theorem answer_of_writes (hg : Good c a)
    (hw : ∀ j < requests (c.stream.take a.taken), c.writes j = true) :
    ∃ b, a.answer c = .running b ∧ b.taken = a.taken := by
  have hall : written c.writes a.responses (requests a.unread) = requests a.unread := by
    rw [written_eq_iff]
    intro j hj
    apply hw
    rw [hg.requests_eq]
    omega
  rw [answer, if_pos hall]
  exact ⟨_, rfl, rfl⟩

/-- With room in the buffer and bytes to come, a read takes some. -/
theorem refill_of_room (hroom : b.unread.length < bufSize) (hmore : b.taken < c.stream.length) :
    ∃ a, b.refill stalls c = .running a ∧ b.taken < a.taken ∧
      a.taken ≤ b.taken + (bufSize - b.unread.length) ∧ a.taken ≤ c.stream.length := by
  rw [refill, if_neg (by omega), if_neg (by omega)]
  refine ⟨_, rfl, ?_, ?_, ?_⟩
  all_goals
    simp only [List.length_take, List.length_drop]
    omega

/-- A running round with room took a byte. -/
theorem taken_lt_of_room (hroom : b.unread.length < bufSize)
    (h : b.refill stalls c = .running a) : b.taken < a.taken := by
  rw [refill, if_neg (by omega)] at h
  split at h
  case isTrue => cases h
  case isFalse hend =>
    cases h
    simp only [List.length_take, List.length_drop]
    omega

/-- The rounds go on until the buffer is full or `n` bytes have been taken: `k` rounds take at least
`k` bytes, and no read leads past `n`. -/
theorem advance (hn : n ≤ c.stream.length)
    (hw : ∀ j < requests (c.stream.take n), c.writes j = true)
    (hstop : ∀ m ≤ n, n = c.stream.length ∨
      bufSize ≤ (unfinished (c.stream.take m)).length + (n - m)) (k : Nat) :
    (∃ i a, answered stalls c i = .running a ∧ (a.unread.length = bufSize ∨ a.taken = n)) ∨
      ∃ a, head stalls c k = .running a ∧ k ≤ a.taken ∧ a.taken ≤ n := by
  -- each round takes a byte, so `k` rounds get to `k` bytes unless one of the two happens
  induction k with
  | zero => exact .inr ⟨_, rfl, Nat.zero_le _, Nat.zero_le _⟩
  | succ k ih =>
      rcases ih with ih | ⟨a, ha, hk, hle⟩
      · exact .inl ih
      · have hg := head_good ha
        obtain ⟨b, hb, htaken⟩ :=
          answer_of_writes hg fun j hj => hw j (hj.trans_le (requests_take_le hle))
        have hans : answered stalls c k = .running b := Status.bind_eq_running.2 ⟨a, ha, hb⟩
        have hc := answered_clear hans
        by_cases hfound : b.unread.length = bufSize ∨ b.taken = n
        · exact .inl ⟨k, b, hans, hfound⟩
        · rw [not_or] at hfound
          have hfits := hc.fits
          -- there is room and more of the stream, so the read takes a byte
          obtain ⟨a', ha', hlt, hroom, hend⟩ :=
            @refill_of_room c stalls b (by omega) (by omega)
          refine .inr ⟨a', Status.bind_eq_running.2 ⟨a, ha, ?_⟩, by omega, ?_⟩
          · exact Status.bind_eq_running.2 ⟨b, hb, ha'⟩
          -- and it does not go past `n`
          · have hs := hstop b.taken (by omega)
            rw [← hc.unread_eq] at hs
            omega

/-- So one of the two happens. -/
theorem advance_end (hn : n ≤ c.stream.length)
    (hw : ∀ j < requests (c.stream.take n), c.writes j = true)
    (hstop : ∀ m ≤ n, n = c.stream.length ∨
      bufSize ≤ (unfinished (c.stream.take m)).length + (n - m)) :
    ∃ i a, answered stalls c i = .running a ∧ (a.unread.length = bufSize ∨ a.taken = n) := by
  rcases @advance c stalls n hn hw hstop (n + 1) with h | ⟨a, -, hk, hle⟩
  · exact h
  · omega

/-- A prefix that leaves a full buffer is where the reads stop. -/
theorem reaches_full (hn : n ≤ c.stream.length)
    (hw : ∀ j < requests (c.stream.take n), c.writes j = true)
    (hfull : (unfinished (c.stream.take n)).length = bufSize) :
    ∃ i a, answered stalls c i = .running a ∧ a.unread.length = bufSize := by
  obtain ⟨i, a, ha, h⟩ := @advance_end c stalls n hn hw fun m hm => by
    right
    obtain ⟨d, rfl⟩ := Nat.exists_eq_add_of_le hm
    rw [List.take_add, unfinished, rest_append, ← unfinished, ← unfinished] at hfull
    have hle := unfinished_length_le (unfinished (c.stream.take m) ++ (c.stream.drop m).take d)
    rw [hfull, List.length_append] at hle
    have htake : ((c.stream.drop m).take d).length ≤ d := List.length_take_le _ _
    omega
  refine ⟨i, a, ha, ?_⟩
  rcases h with h | h
  · exact h
  · rw [(answered_clear ha).unread_eq, h, hfull]

/-- If no prefix leaves a full buffer, the whole stream is taken. -/
theorem reaches_end (hw : ∀ j, c.writes j = true)
    (hroom : ∀ m, (unfinished (c.stream.take m)).length < bufSize) :
    ∃ i a, answered stalls c i = .running a ∧ a.taken = c.stream.length := by
  obtain ⟨i, a, ha, h⟩ := @advance_end c stalls _ (Nat.le_refl c.stream.length)
    (fun j _ => hw j) fun m _ => .inl rfl
  refine ⟨i, a, ha, ?_⟩
  rcases h with h | h
  · have hlt := hroom a.taken
    rw [← (answered_clear ha).unread_eq, h] at hlt
    exact absurd hlt (Nat.lt_irrefl _)
  · exact h

/-- While the buffer does not fill up, it makes no difference what a loop does when it is full. -/
theorem head_eq_of_room {stalls' : Bool}
    (hroom : ∀ i a, answered stalls c i = .running a → a.unread.length ≠ bufSize) :
    head stalls' c k = head stalls c k := by
  induction k with
  | zero => rfl
  | succ k ih =>
      rw [head, head, rounds, rounds, ← head, ← head, ih]
      cases ha : head stalls c k with
      | returned r => rfl
      | running a =>
          simp only [Status.bind]
          cases hb : a.answer c with
          | returned r => rfl
          | running b =>
              have hans : answered stalls c k = .running b := Status.bind_eq_running.2 ⟨a, ha, hb⟩
              -- the runtimes differ at an empty slice only, and there is room
              have hne := hroom k b hans
              have hfits := (answered_clear hans).fits
              have hpos : ¬ bufSize - b.unread.length = 0 := by omega
              simp only [refill]
              rw [if_neg hpos, if_neg hpos]

end Framer

/-! ## The handler over a `std.Io.Reader` -/

/-- What `tcp_server.zig` uses of a `std.Io.Reader`. -/
structure Reader (R : Type) where
  buffered : R → List UInt8
  toss : R → Nat → R
  fillMore : R → List UInt8 → R

/-- `buffered()` is what has been read and not consumed, and `fillMore` appends one read. -/
structure Reader.Lawful {R : Type} (io : Reader R) : Prop where
  buffered_toss : ∀ r n, n ≤ (io.buffered r).length →
    io.buffered (io.toss r n) = (io.buffered r).drop n
  buffered_fillMore : ∀ r bs, io.buffered (io.fillMore r bs) = io.buffered r ++ bs

section StdReader

variable {R : Type} {io : Reader R}

/-- The locals of the handler. -/
structure StdLoop (R : Type) where
  reader : R
  responses : Nat
  taken : Nat
  reads : Nat

/-- The inner loop. The writer has no buffer of its own, so the `flush` behind it writes nothing. -/
def StdLoop.drain (h : io.Lawful) (c : Conn) (s : StdLoop R) : Status (StdLoop R) :=
  match _ : indexOf crlf (io.buffered s.reader) with
  | none => .running s
  | some i =>
      if c.writes s.responses then
        StdLoop.drain h c { s with
          reader := io.toss s.reader (i + 4)
          responses := s.responses + 1 }
      else .returned s.responses
termination_by (io.buffered s.reader).length
decreasing_by
  have hle := indexOf_add_length_le ‹indexOf crlf (io.buffered s.reader) = some i›
  have hcrlf : crlf.length = 4 := rfl
  rw [h.buffered_toss _ _ (by omega), List.length_drop]
  omega

/-- `fillMore() catch return`. -/
def StdLoop.refill (io : Reader R) (c : Conn) (s : StdLoop R) : Status (StdLoop R) :=
  match c.read s.taken s.reads (bufSize - (io.buffered s.reader).length) with
  | .eof | .failed => .returned s.responses
  | .data bs =>
      .running ⟨io.fillMore s.reader bs, s.responses, s.taken + bs.length, s.reads + 1⟩

/-- The handler has left its inner loop for the `k`-th time. -/
def StdLoop.drained (h : io.Lawful) (c : Conn) (r : R) (k : Nat) : Status (StdLoop R) :=
  (rounds (fun s => (StdLoop.drain h c s).bind (StdLoop.refill io c)) ⟨r, 0, 0, 0⟩ k).bind
    (StdLoop.drain h c)

/-- The framer the handler stands for. -/
def StdLoop.abs (io : Reader R) (s : StdLoop R) : Framer :=
  ⟨io.buffered s.reader, s.responses, s.taken, s.reads⟩

theorem StdLoop.drain_abs (h : io.Lawful) (c : Conn) (s : StdLoop R) :
    (s.drain h c).map (StdLoop.abs io) = (s.abs io).answer c := by
  fun_induction StdLoop.drain h c s with
  | case1 s hnone =>
      have hreq : requests (s.abs io).unread = 0 := count_of_none hnone
      have hunf : unfinished (s.abs io).unread = (s.abs io).unread := rest_of_none hnone
      simp only [Framer.answer, hreq, hunf, written, reduceIte]
      rfl
  | case2 s i hsome hw ih =>
      have hle := indexOf_add_length_le hsome
      have hcrlf : crlf.length = 4 := rfl
      -- `toss` takes the request off the front of the buffered bytes
      have htoss := h.buffered_toss s.reader (i + 4) (by omega)
      have hreq : requests (s.abs io).unread =
          requests ((io.buffered s.reader).drop (i + 4)) + 1 := count_of_some hsome
      have hunf : unfinished (s.abs io).unread =
          unfinished ((io.buffered s.reader).drop (i + 4)) := rest_of_some hsome
      have hcount : ∀ w, s.responses + 1 + w = s.responses + (w + 1) := fun w => by omega
      simp only [StdLoop.abs, htoss, Framer.answer, hcount] at ih
      simp only [Framer.answer, hreq, hunf, written]
      simp only [StdLoop.abs, hw, reduceIte, Nat.add_right_cancel_iff]
      exact ih
  | case3 s i hsome hw =>
      have hreq : requests (s.abs io).unread =
          requests ((io.buffered s.reader).drop (i + 4)) + 1 := count_of_some hsome
      have hw' : c.writes (s.abs io).responses = false := Bool.eq_false_iff.2 hw
      simp only [Framer.answer, hreq, written, hw']
      rfl

theorem StdLoop.refill_abs (h : io.Lawful) (c : Conn) (s : StdLoop R) :
    (s.refill io c).map (StdLoop.abs io) = (s.abs io).refill true c := by
  rw [StdLoop.refill, Framer.refill, Conn.read]
  have hlen : (s.abs io).unread.length = (io.buffered s.reader).length := rfl
  rw [hlen]
  by_cases hroom : bufSize - (io.buffered s.reader).length = 0
  · rw [if_pos hroom, if_pos hroom]
    simp [Status.map, StdLoop.abs, h.buffered_fillMore]
  · rw [if_neg hroom, if_neg hroom]
    by_cases hend : c.stream.length ≤ s.taken
    · rw [if_pos hend, if_pos (show c.stream.length ≤ (s.abs io).taken from hend)]
      cases c.reset <;> rfl
    · rw [if_neg hend, if_neg (show ¬ c.stream.length ≤ (s.abs io).taken from hend)]
      simp [Status.map, StdLoop.abs, h.buffered_fillMore]

/-- The handler is the framer, too. -/
theorem StdLoop.drained_abs (h : io.Lawful) (c : Conn) {r : R} (hr : io.buffered r = []) (k : Nat) :
    (StdLoop.drained h c r k).map (StdLoop.abs io) = Framer.answered true c k := by
  have hhead : (rounds (fun s => (StdLoop.drain h c s).bind (StdLoop.refill io c)) ⟨r, 0, 0, 0⟩
      k).map (StdLoop.abs io) = Framer.head true c k := by
    induction k with
    | zero => simp [rounds, Framer.head, Status.map, StdLoop.abs, hr]
    | succ k ih =>
        rw [Framer.head, rounds, rounds, ← Framer.head, ← ih]
        rw [Status.map_bind, Status.bind_map]
        congr 1
        funext s
        rw [Status.map_bind, ← StdLoop.drain_abs h, Status.bind_map]
        congr 1
        funext s'
        exact StdLoop.refill_abs h c s'
  rw [StdLoop.drained, Framer.answered, ← hhead, Status.map_bind, Status.bind_map]
  congr 1
  funext s
  exact StdLoop.drain_abs h c s

end StdReader

/-- What a peer can tell: whether the handler is still there, the bytes taken, the responses. -/
def Status.seen {σ : Type} (responses taken : σ → Nat) : Status σ → Option Nat × Nat
  | running s => (some (taken s), responses s)
  | returned n => (none, n)

theorem Status.seen_map {σ τ : Type} (f : σ → τ) (responses taken : τ → Nat) (x : Status σ) :
    (x.map f).seen responses taken = x.seen (fun s => responses (f s)) fun s => taken (f s) := by
  cases x <;> rfl

section Results

variable {c : Conn} {rt : Runtime} {buf : List UInt8}

theorem loopHead_seen (hrt : rt ∈ runtimes) (hbuf : buf.length = bufSize) (k : Nat) :
    (loopHead rt c buf k).seen Loop.responses Loop.taken =
      (Framer.head rt.stalls c k).seen Framer.responses Framer.taken := by
  rw [← (loopHead_refines hrt hbuf k).1, Status.seen_map]
  rfl

theorem drained_seen (hrt : rt ∈ runtimes) (hbuf : buf.length = bufSize) (k : Nat) :
    (drained rt c buf k).seen Loop.responses Loop.taken =
      (Framer.answered rt.stalls c k).seen Framer.responses Framer.taken := by
  rw [← (drained_refines hrt hbuf k).1, Status.seen_map]
  rfl

/-- A running loop stands for a running framer. -/
theorem drained_running (hrt : rt ∈ runtimes) (hbuf : buf.length = bufSize) {k : Nat} {s : Loop}
    (h : drained rt c buf k = .running s) :
    s.Fits ∧ Framer.answered rt.stalls c k = .running s.abs := by
  obtain ⟨habs, hfits⟩ := drained_refines (c := c) hrt hbuf k
  refine ⟨hfits s h, ?_⟩
  rw [← habs, h]
  rfl

theorem running_of_answered (hrt : rt ∈ runtimes) (hbuf : buf.length = bufSize) {k : Nat}
    {a : Framer} (h : Framer.answered rt.stalls c k = .running a) :
    ∃ s, drained rt c buf k = .running s ∧ s.abs = a := by
  obtain ⟨habs, -⟩ := drained_refines (c := c) hrt hbuf k
  rw [h] at habs
  cases hs : drained rt c buf k with
  | returned n =>
      rw [hs] at habs
      cases habs
  | running s =>
      rw [hs] at habs
      cases habs
      exact ⟨s, rfl, rfl⟩

/-- Short requests leave room behind every prefix of the stream. -/
theorem room_of_short (hrequests : ∀ q ∈ (split crlf crlf_ne_nil c.stream).1, q.length ≤ bufSize)
    (hrest : (unfinished c.stream).length < bufSize) (m : Nat) :
    (unfinished (c.stream.take m)).length < bufSize := by
  have hsplit := List.take_append_drop m c.stream
  rw [unfinished, rest] at hrest
  rw [← hsplit] at hrequests hrest
  exact rest_prefix_length_lt hrequests hrest

/-- Framing does not depend on the reads. After each inner loop, the responses written are as many as
the terminators in the bytes read so far, the buffer holds what follows the last of them, with no
terminator and some room left, the handler over `std.Io.Reader` has written as many, and if the
peer takes the responses, the whole stream is read and answered. -/
theorem framing_exact (c : Conn)
    (hrequests : ∀ q ∈ (split crlf crlf_ne_nil c.stream).1, q.length ≤ bufSize)
    (hrest : (unfinished c.stream).length < bufSize) (rt : Runtime) (hrt : rt ∈ runtimes)
    (buf : List UInt8) (hbuf : buf.length = bufSize) {R : Type} (io : Reader R) (hio : io.Lawful)
    (r : R) (hr : io.buffered r = []) :
    (∀ k s, drained rt c buf k = .running s →
      s.responses = requests (c.stream.take s.taken) ∧
      s.buf.take s.last = unfinished (c.stream.take s.taken) ∧
      indexOf crlf (s.buf.take s.last) = none ∧ s.last < bufSize) ∧
    (∀ k, (StdLoop.drained hio c r k).seen StdLoop.responses StdLoop.taken =
      (drained rt c buf k).seen Loop.responses Loop.taken) ∧
    ((∀ j, c.writes j = true) →
      ∃ k s, drained rt c buf k = .running s ∧ s.taken = c.stream.length) := by
  have hroom := room_of_short hrequests hrest
  refine ⟨fun k s hs => ?_, fun k => ?_, fun hw => ?_⟩
  · obtain ⟨hfits, hans⟩ := drained_running hrt hbuf hs
    have hc := Framer.answered_clear hans
    have hlen := hfits.unread_length
    have hunread : s.buf.take s.last = unfinished (c.stream.take s.taken) := hc.unread_eq
    refine ⟨hc.responses_eq, hunread, ?_, ?_⟩
    · rw [hunread]
      exact indexOf_rest _
    · rw [← hlen, hc.unread_eq]
      exact hroom _
  · have hstd : (StdLoop.drained hio c r k).seen StdLoop.responses StdLoop.taken =
        (Framer.answered true c k).seen Framer.responses Framer.taken := by
      rw [← StdLoop.drained_abs hio c hr k, Status.seen_map]
      rfl
    -- no round fills the buffer, so it does not matter what a runtime does there
    have hsame : Framer.head rt.stalls c k = Framer.head true c k := by
      apply Framer.head_eq_of_room
      intro i a ha
      rw [(Framer.answered_clear ha).unread_eq]
      exact (hroom _).ne
    rw [hstd, drained_seen hrt hbuf, Framer.answered, Framer.answered, hsame]
  · obtain ⟨k, a, ha, hend⟩ := @Framer.reaches_end c rt.stalls hw hroom
    obtain ⟨s, hs, rfl⟩ := running_of_answered hrt hbuf ha
    exact ⟨k, s, hs, hend⟩

/-- A reader that keeps the unread bytes in a list. -/
def listReader : Reader (List UInt8) where
  buffered r := r
  toss r n := r.drop n
  fillMore r bs := r ++ bs

theorem listReader_lawful : listReader.Lawful := ⟨fun _ _ _ => rfl, fun _ _ => rfl⟩

/-- One request, read one byte at a time. -/
def oneRequest : Conn where
  stream := [71, 69, 84, 13, 10, 13, 10]
  arrives _ := 0
  reset := false
  writes _ := true

theorem oneRequest_split : split crlf crlf_ne_nil oneRequest.stream = ([oneRequest.stream], []) := by
  have h : indexOf crlf oneRequest.stream = some 3 := by decide
  rw [split_of_some h]
  have hnil : indexOf crlf (oneRequest.stream.drop (3 + crlf.length)) = none := by decide
  rw [split_of_none hnil]
  rfl

theorem framing_exact_oneRequest :
    ∃ k s, drained tcpServerGo oneRequest (List.replicate bufSize 0) k = .running s ∧
      s.taken = 7 := by
  have hsplit := oneRequest_split
  refine (framing_exact oneRequest ?_ ?_ tcpServerGo (by simp [runtimes]) _
    (List.length_replicate ..) listReader listReader_lawful [] rfl).2.2 fun _ => rfl
  · rw [hsplit]
    decide
  · rw [unfinished, rest, hsplit]
    decide

end Results

end ZioBenchmarks.Http
