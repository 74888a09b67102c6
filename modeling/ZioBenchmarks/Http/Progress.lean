import ZioBenchmarks.Http.Reads

/-!
# Full buffers

Once the buffer is full of an unfinished request, a read gets an empty slice and returns no bytes
and no error. `if (n == 0) return` then closes the connection, as in the Zig and the Rust handler.
The Go handler tests only `err`, so it goes on with empty reads for ever.
-/

set_option autoImplicit false

namespace ZioBenchmarks.Http

open ZioBenchmarks.Search

/-- The three handlers write the same responses and decide alike whether to keep the connection. -/
def Agrees (c : Conn) : Prop :=
  ∀ rt ∈ runtimes, ∀ rt' ∈ runtimes, ∀ buf buf' : List UInt8,
    buf.length = bufSize → buf'.length = bufSize → ∀ k,
      ((loopHead rt c buf k).seen Loop.responses Loop.taken).2 =
        ((loopHead rt' c buf' k).seen Loop.responses Loop.taken).2 ∧
      ((loopHead rt c buf k).seen Loop.responses Loop.taken).1.isSome =
        ((loopHead rt' c buf' k).seen Loop.responses Loop.taken).1.isSome

/-- Every round of an outer loop that does not leave it takes a byte. -/
def Progresses (c : Conn) : Prop :=
  ∀ rt ∈ runtimes, ∀ buf : List UInt8, buf.length = bufSize → ∀ k s s',
    loopHead rt c buf k = .running s → loopHead rt c buf (k + 1) = .running s' →
      s.taken < s'.taken

variable {c : Conn} {buf : List UInt8} {k : Nat}

/-- A framer that is still running behind its answers is running at the head of the round. -/
theorem Framer.head_of_answered {stalls : Bool} {b : Framer}
    (h : Framer.answered stalls c k = .running b) :
    ∃ a, Framer.head stalls c k = .running a ∧ a.taken = b.taken ∧ a.answer c = .running b := by
  obtain ⟨a, ha, hb⟩ := Status.bind_eq_running.1 h
  refine ⟨a, ha, ?_, hb⟩
  simp only [Framer.answer] at hb
  split at hb
  case isTrue =>
    cases hb
    rfl
  case isFalse => cases hb

theorem running_of_head {rt : Runtime} (hrt : rt ∈ runtimes) (hbuf : buf.length = bufSize)
    {a : Framer} (h : Framer.head rt.stalls c k = .running a) :
    ∃ s, loopHead rt c buf k = .running s ∧ s.abs = a := by
  obtain ⟨habs, -⟩ := loopHead_refines (c := c) hrt hbuf k
  rw [h] at habs
  cases hs : loopHead rt c buf k with
  | returned n =>
      rw [hs] at habs
      cases habs
  | running s =>
      rw [hs] at habs
      cases habs
      exact ⟨s, rfl, rfl⟩

theorem head_of_running {rt : Runtime} (hrt : rt ∈ runtimes) (hbuf : buf.length = bufSize)
    {s : Loop} (h : loopHead rt c buf k = .running s) :
    Framer.head rt.stalls c k = .running s.abs := by
  obtain ⟨habs, -⟩ := loopHead_refines (c := c) hrt hbuf k
  rw [← habs, h]
  rfl

/-- With a full buffer the Go handler goes round without taking a byte. -/
theorem not_progresses_of_full {n : Nat} (hn : n ≤ c.stream.length)
    (hw : ∀ j < requests (c.stream.take n), c.writes j = true)
    (hfull : (unfinished (c.stream.take n)).length = bufSize) : ¬ Progresses c := by
  intro hprogress
  have hgo : tcpServerGo ∈ runtimes := by simp [runtimes]
  have hbuf : (List.replicate bufSize (0 : UInt8)).length = bufSize := List.length_replicate ..
  obtain ⟨k, b, hb, hlen⟩ := @Framer.reaches_full c tcpServerGo.stalls n hn hw hfull
  obtain ⟨a, ha, htaken, hans⟩ := Framer.head_of_answered hb
  -- the empty read
  have hnext : Framer.head tcpServerGo.stalls c (k + 1) =
      .running { b with reads := b.reads + 1 } := by
    refine Status.bind_eq_running.2 ⟨a, ha, Status.bind_eq_running.2 ⟨b, hans, ?_⟩⟩
    rw [Framer.refill, if_pos (by omega)]
    rfl
  obtain ⟨s, hs, hsabs⟩ := running_of_head hgo hbuf ha
  obtain ⟨s', hs', hsabs'⟩ := running_of_head hgo hbuf hnext
  have hlt := hprogress tcpServerGo hgo _ hbuf k s s' hs hs'
  have h₁ : s.taken = a.taken := congrArg Framer.taken hsabs
  have h₂ : s'.taken = b.taken := congrArg Framer.taken hsabs'
  omega

/-- While the buffer has room, the three handlers are one. -/
theorem agrees_of_room
    (hroom : ∀ i b, Framer.answered true c i = .running b → b.unread.length ≠ bufSize) :
    Agrees c := by
  intro rt hrt rt' hrt' buf buf' hbuf hbuf' k
  have hhead : Framer.head rt.stalls c k = Framer.head true c k := Framer.head_eq_of_room hroom
  have hhead' : Framer.head rt'.stalls c k = Framer.head true c k := Framer.head_eq_of_room hroom
  rw [loopHead_seen hrt hbuf, loopHead_seen hrt' hbuf', hhead, hhead']
  exact ⟨rfl, rfl⟩

theorem progresses_of_room
    (hroom : ∀ i b, Framer.answered true c i = .running b → b.unread.length ≠ bufSize) :
    Progresses c := by
  intro rt hrt buf hbuf k s s' hs hs'
  have ha := head_of_running hrt hbuf hs
  have ha' := head_of_running hrt hbuf hs'
  rw [Framer.head_eq_of_room hroom] at ha ha'
  obtain ⟨a, ha₁, hround⟩ := Status.bind_eq_running.1 ha'
  rw [← Framer.head, ha] at ha₁
  cases ha₁
  obtain ⟨b, hb, hrefill⟩ := Status.bind_eq_running.1 hround
  have hans : Framer.answered true c k = .running b := Status.bind_eq_running.2 ⟨s.abs, ha, hb⟩
  have hne := hroom k b hans
  have hfits := (Framer.answered_clear hans).fits
  have hlt := Framer.taken_lt_of_room (by omega) hrefill
  obtain ⟨a, ha₂, htaken, -⟩ := Framer.head_of_answered hans
  rw [ha] at ha₂
  cases ha₂
  exact htaken.trans_lt hlt

/-- The handlers agree and make progress exactly if no prefix of the stream that gets all its
responses leaves a full buffer of unfinished request. -/
theorem agrees_and_progresses_iff (c : Conn) :
    Agrees c ∧ Progresses c ↔
      ∀ xs, xs <+: c.stream → (unfinished xs).length = bufSize →
        ∃ j < requests xs, c.writes j = false := by
  constructor
  · rintro ⟨-, hprogress⟩ xs hxs hfull
    by_contra hno
    rw [List.prefix_iff_eq_take.1 hxs] at hfull hno
    refine not_progresses_of_full hxs.length_le (fun j hj => ?_) hfull hprogress
    by_contra hj'
    exact hno ⟨j, hj, by simpa using hj'⟩
  · intro h
    have hroom : ∀ i b, Framer.answered true c i = .running b → b.unread.length ≠ bufSize := by
      intro i b hb hlen
      have hc := Framer.answered_clear hb
      rw [hc.unread_eq] at hlen
      obtain ⟨j, hj, hw⟩ := h _ (List.take_prefix _ _) hlen
      rw [← hc.responses_eq] at hj
      rw [hc.writes j hj] at hw
      cases hw
    exact ⟨agrees_of_room hroom, progresses_of_room hroom⟩

/-- A peer that sends `buf_size` zeros. -/
def zeros : Conn where
  stream := List.replicate bufSize 0
  arrives _ := bufSize
  reset := false
  writes _ := true

theorem zeros_not_progresses : ¬ ∀ c : Conn, Agrees c ∧ Progresses c := by
  intro h
  have hnone : indexOf crlf zeros.stream = none := by
    rw [indexOf_eq_none_iff]
    intro i hi
    have hmem : (13 : UInt8) ∈ zeros.stream :=
      List.mem_of_mem_drop (hi.subset (by decide : (13 : UInt8) ∈ crlf))
    exact absurd (List.eq_of_mem_replicate hmem) (by decide)
  have htake : zeros.stream.take zeros.stream.length = zeros.stream := List.take_length
  refine not_progresses_of_full (c := zeros) (Nat.le_refl _) (fun _ _ => rfl) ?_ (h zeros).2
  rw [htake, unfinished, rest_of_none hnone]
  exact List.length_replicate ..

end ZioBenchmarks.Http
