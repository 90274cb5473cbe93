import AcceleratorVirtualization.Wire.Delivery

/-!
# Handing a channel on

A channel is moved into another object after the handshake. The frames that are pending go along;
the bytes of a frame that is not complete stay behind in the stream decoder of the object that is
left. The new object answers as the old one would have if and only if there are no such bytes.
-/

namespace AcceleratorVirtualization

open FrameStream (sent)

namespace FrameChannel

/-- The move constructor: the new decoder takes over the limit and nothing else. -/
def moved (other : FrameChannel) : FrameChannel where
  socket := other.socket
  stream := { maxPayload := other.stream.maxPayload }
  pending := other.pending
  isOpen := other.isOpen
  framesReceived := other.framesReceived

/-- Move assignment to another object, whatever that one held. -/
def assign (target other : FrameChannel) : FrameChannel :=
  { target with
    socket := other.socket
    stream := { target.stream with
      buffer := [], consumed := 0, maxPayload := other.stream.maxPayload }
    pending := other.pending
    isOpen := other.isOpen
    framesReceived := other.framesReceived }

/-- The move assignment leaves the target as the move construction does. -/
theorem assign_eq_moved (target other : FrameChannel) : assign target other = moved other := rfl

/-- The channels there are between two calls: opened on a socket or never opened, received from,
moved, and closed (by `close`, by `interrupt` or by a `send` that fails). -/
inductive Reached : FrameChannel → Prop
  | opened (socket : List Bytes) : Reached { socket }
  | unopened : Reached { isOpen := false }
  | received {c : FrameChannel} (h : Reached c) : Reached c.receive.1
  | moved {c : FrameChannel} (h : Reached c) : Reached c.moved
  | closed {c : FrameChannel} (h : Reached c) : Reached { c with isOpen := false }

/-- As long as a channel is open, its decoder holds the beginning of one frame. -/
def Settled (c : FrameChannel) : Prop :=
  c.isOpen = true → c.stream.consumed = 0 ∧ Unfinished c.stream.maxPayload c.stream.buffer

/-- Waiting leaves the channel settled. -/
theorem settled_await {c : FrameChannel} (h : c.Settled) (socket : List Bytes) :
    (c.await socket).1.Settled := by
  induction socket generalizing c with
  | nil => exact fun hopen => nomatch hopen
  | cons chunk socket ih =>
    by_cases hne : chunk = []
    · subst hne
      exact fun hopen => nomatch hopen
    · rw [await_cons hne]
      cases hfeed : c.stream.feed chunk with
      | mk stream r =>
        obtain ⟨out, status | ⟨⟩⟩ := r
        · exact fun hopen => nomatch hopen
        · have hstream : c.isOpen = true →
              stream.consumed = 0 ∧ Unfinished stream.maxPayload stream.buffer := by
            intro hopen
            obtain ⟨hconsumed, -⟩ := h hopen
            have heq : c.stream = ⟨c.stream.buffer, 0, c.stream.maxPayload⟩ := by
              rw [← hconsumed]
            rw [heq] at hfeed
            obtain ⟨-, -, rest, -, hrest, rfl⟩ := FrameStream.feed_eq_ok.mp hfeed
            exact ⟨rfl, hrest⟩
          cases out with
          | nil => exact @ih { c with stream } hstream
          | cons first others => exact hstream

/-- Receiving leaves the channel settled. -/
theorem settled_receive {c : FrameChannel} (h : c.Settled) : c.receive.1.Settled := by
  rw [receive]
  split
  · exact h
  · split
    · exact settled_await h c.socket
    · exact h

/-- A channel that was reached is settled. -/
theorem Reached.settled {c : FrameChannel} (h : c.Reached) : c.Settled := by
  have hshort : ∀ maxPayload, Unfinished maxPayload [] := fun _ => .inl (by decide)
  induction h with
  | opened socket => exact fun _ => ⟨rfl, hshort _⟩
  | unopened => exact fun hopen => nomatch hopen
  | received h ih => exact settled_receive ih
  | moved h ih => exact fun _ => ⟨rfl, hshort _⟩
  | closed h ih => exact fun hopen => nomatch hopen

/-- Whatever the socket is going to deliver, the channel that `c` is moved to answers as `c` would,
by construction and by assignment. -/
def MovesWhole (c : FrameChannel) : Prop :=
  ∀ (target : FrameChannel) (socket : List Bytes) (n : ℕ),
    (moved { c with socket }).receives n = receives { c with socket } n ∧
    (assign target { c with socket }).receives n = receives { c with socket } n

/-- A channel that is not open hands out what is pending, whatever its decoder holds. -/
theorem receives_of_closed {c c' : FrameChannel} (hopen : c.isOpen = false)
    (hopen' : c'.isOpen = false) (hpending : c.pending = c'.pending) (n : ℕ) :
    c.receives n = c'.receives n := by
  induction n generalizing c c' with
  | zero => rfl
  | succ n ih =>
    rw [receives, receives, receive, receive, ← hpending]
    cases c.pending with
    | nil =>
      simp only [hopen, hopen', Bool.false_eq_true, if_false]
      rw [ih hopen hopen' hpending]
    | cons frame pending =>
      simp only
      rw [@ih { c with pending, framesReceived := c.framesReceived + 1 }
        { c' with pending, framesReceived := c'.framesReceived + 1 } hopen hopen' rfl]

/-! ### A frame that tells the difference -/

/-- The frame without a type and without a payload. -/
def probe : Frame := {}

/-- The probe is sealed. -/
theorem sealed_probe (maxPayload : UInt32) : probe.Sealed maxPayload :=
  ⟨rfl, rfl, rfl, by decide, Nat.zero_le _⟩

/-- The frame is not found in the middle of another: its first byte does not come again. -/
theorem probe_not_shifted (n : ℕ) (hpos : 0 < n) (hlt : n < frameHeaderSize) :
    probe.encode[n]? ≠ probe.encode[0]? := by
  have hall : ∀ n < frameHeaderSize, 0 < n → probe.encode[n]? ≠ probe.encode[0]? := by decide
  exact hall n hlt hpos

/-- The probe alone is delivered. -/
theorem flow_probe (maxPayload : UInt32) :
    FrameStream.flow ⟨[], 0, maxPayload⟩ [probe.encode] = [probe] := by
  have hlength : probe.encode.length = frameHeaderSize := by decide
  have hfeed : FrameStream.feed ⟨[], 0, maxPayload⟩ probe.encode =
      (⟨[], 0, maxPayload⟩, [probe], .ok ()) := by
    refine FrameStream.feed_eq_ok.mpr ⟨?_, ?_, [], ?_, .inl (by decide), rfl⟩
    · rw [hlength, List.length_nil]
      omega
    · simpa using sealed_probe maxPayload
    · simp [sent]
  rw [FrameStream.flow_of_ok (by decide) hfeed]
  rfl

/-- Behind the beginning of another frame it does not come out first. -/
theorem flow_probe_ne {maxPayload : UInt32} {buffer : Bytes} (hne : buffer ≠ [])
    (h : Unfinished maxPayload buffer) :
    ¬ [probe] <+: FrameStream.flow ⟨buffer, 0, maxPayload⟩ [probe.encode] := by
  rintro ⟨fs, hfs⟩
  obtain ⟨-, rest, hview⟩ := @FrameStream.flow_sent maxPayload [probe.encode] buffer
  rw [← hfs, List.singleton_append, FrameStream.sent_cons, List.append_assoc,
    List.flatten_singleton] at hview
  have hlength : probe.encode.length = frameHeaderSize := by decide
  by_cases hshort : buffer.length < frameHeaderSize
  · -- both ends of the stream begin with the frame, one of them inside the other
    have hpos : 0 < buffer.length := List.length_pos_of_ne_nil hne
    have hright := congrArg (·[buffer.length]?) hview
    simp only [List.getElem?_append_right le_rfl, Nat.sub_self,
      List.getElem?_append_left (hlength.symm ▸ hshort)] at hright
    exact probe_not_shifted _ hpos hshort hright.symm
  · -- the header that is there is another one: its payload is not empty
    have hread := FrameHeader.eq_bytes_read (not_lt.mp hshort)
    have hprobe : probe.encode = probe.header.bytes := by
      rw [(sealed_probe maxPayload).encode_eq]
      exact List.append_nil _
    rw [hread, hprobe, List.append_assoc] at hview
    have hheader : FrameHeader.read buffer = probe.header :=
      FrameHeader.bytes_injective
        (List.append_inj hview (by simp only [FrameHeader.length_bytes])).1
    rcases h with h | ⟨-, -, -, h⟩
    · exact hshort h
    · rw [hheader] at h
      exact hshort h

/-- Moving a channel loses nothing if and only if it is closed or holds no part of a frame. -/
theorem movesWhole_iff {c : FrameChannel} (h : c.Reached) :
    c.MovesWhole ↔ c.isOpen = false ∨ c.stream.buffered = 0 := by
  constructor
  · intro hwhole
    by_contra hcon
    rw [not_or, Bool.not_eq_false] at hcon
    obtain ⟨hopen, hbuffered⟩ := hcon
    obtain ⟨hconsumed, hunfinished⟩ := h.settled hopen
    have hstream : c.stream = ⟨c.stream.buffer, 0, c.stream.maxPayload⟩ := by rw [← hconsumed]
    have hne : c.stream.buffer ≠ [] := by
      intro hnil
      rw [FrameStream.buffered, hnil] at hbuffered
      exact hbuffered (Nat.zero_sub _)
    -- the new object delivers what is pending and then the frame
    have hmoved : receives (moved { c with socket := [probe.encode] })
        (c.pending ++ [probe]).length = (c.pending ++ [probe]).map .ok := by
      refine receives_eq_iff.mpr ?_
      have hcoming : coming (moved { c with socket := [probe.encode] }) = c.pending ++ [probe] := by
        simp only [coming, moved, hopen, if_true]
        rw [flow_probe]
      exact hcoming ▸ List.prefix_rfl
    rw [(hwhole {} [probe.encode] _).1, receives_eq_iff] at hmoved
    simp only [coming, hopen, if_true, List.prefix_append_right_inj] at hmoved
    rw [hstream] at hmoved
    exact flow_probe_ne hne hunfinished hmoved
  · intro hcases target socket n
    rw [assign_eq_moved, and_self]
    by_cases hopen : c.isOpen = true
    · have hbuffered : c.stream.buffered = 0 :=
        hcases.resolve_left (by rw [hopen]; exact Bool.true_eq_false.mp)
      obtain ⟨hconsumed, -⟩ := h.settled hopen
      rw [FrameStream.buffered, hconsumed, Nat.sub_zero, List.length_eq_zero_iff] at hbuffered
      have hstream : c.stream = { maxPayload := c.stream.maxPayload } := by
        rw [← hconsumed, ← hbuffered]
      rw [moved]
      simp only
      rw [← hstream]
    · rw [Bool.not_eq_true] at hopen
      exact @receives_of_closed (moved { c with socket }) { c with socket } hopen hopen rfl n

/-- Two frames come in one chunk. -/
def coupled : FrameChannel := { socket := [probe.encode ++ probe.encode] }

/-- Once one of them was received, the other one is pending, and the channel is moved whole. -/
theorem movesWhole_coupled : coupled.receive.2 = .ok probe ∧ coupled.receive.1.pending = [probe] ∧
    coupled.receive.1.isOpen = true ∧ coupled.receive.1.MovesWhole := by
  refine ⟨by decide +kernel, by decide +kernel, by decide +kernel, ?_⟩
  exact (movesWhole_iff (.received (.opened _))).mpr (.inr (by decide +kernel))

/-- The first bytes of the second frame came with the first one, and they are lost. -/
theorem not_movesWhole : ¬ ∀ c : FrameChannel, c.Reached → c.MovesWhole := by
  intro h
  have hwhole := (h _ (.received (.opened [probe.encode ++ probe.encode.take 5]))
    {} [probe.encode.drop 5] 1).1
  revert hwhole
  decide +kernel

end FrameChannel

end AcceleratorVirtualization
