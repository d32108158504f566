import HttpServer.Logs

/-!
# Readers stay inside their buffers

`conn_recv_body_chunked` hands the decoder a part of `req_buf` and the free part of
`body_dechunked`. Neither pointer runs past its buffer, over all turns of its two
loops, and the decoder is never asked for the data of an empty chunk.
-/

namespace HttpServer

variable {dec : ChunkDecoder} {input : Bytes} {avail bodyStart : ℕ} {reqBuf dechunked : HttpBuffer}
  {st : ChunkedBodySt} {r : ChunkedRead}

/-! ## The assertions -/

/-- What must hold whenever `chunk_advance` is called: its own assertion, and that the two
subtractions in front of the call do not wrap. -/
def chunkDrainAsserts (reqBuf : HttpBuffer) (bodyStart : ℕ) :
    ℕ → HttpBuffer → ChunkedBodySt → Bool
  | 0, _, _ => true
  | fuel + 1, dechunked, st =>
    let input := reqBuf.contents.drop (bodyStart + st.consumed)
    let (cr, dec, written) := chunkAdvance st.dec input (dechunked.cap - dechunked.size)
    decide (bodyStart + st.consumed ≤ reqBuf.size) && decide (dechunked.size ≤ dechunked.cap) &&
      chunkAdvanceAsserts st.dec &&
      (cr.parseResult.status != .ok || dec.phase == .done ||
        chunkDrainAsserts reqBuf bodyStart fuel (dechunked.append written)
          { consumed := st.consumed + cr.parseResult.next.getD 0, dec := dec })

/-- The same over all turns of the outer loop. -/
def connRecvBodyChunkedLoopAsserts (bodyStart : ℕ) : List RecvOutcome → ChunkedRead → Bool
  | recvs, r =>
    chunkDrainAsserts r.reqBuf bodyStart (r.reqBuf.size + 2) r.dechunked r.st &&
    match chunkDrain r.reqBuf bodyStart (r.reqBuf.size + 2) r.dechunked r.st with
    | (some _, _, _) => true
    | (none, dechunked, st) =>
      let r := { r with dechunked := dechunked, st := st }
      if r.reqBuf.size ≥ r.reqBuf.cap then true
      else match recvs with
        | [] => true
        | o :: rest =>
          match o.clip (r.reqBuf.cap - r.reqBuf.size) with
          | .data [] | .again | .error => true
          | .data got =>
            connRecvBodyChunkedLoopAsserts bodyStart rest { r with reqBuf := r.reqBuf.append got }
          | .interrupted => connRecvBodyChunkedLoopAsserts bodyStart rest r

/-! ## One call of the decoder -/

theorem crlfFind_add_two_le {n : ℕ} (h : ¬ n - crlfFind input 0 n < 2) :
    crlfFind input 0 n + 2 ≤ n := by
  omega

/-- The decoder reads and writes no more than it is given, and keeps its assertion. -/
theorem chunkAdvance_bounds (input : Bytes) (avail : ℕ) (hdec : chunkAdvanceAsserts dec = true) :
    (chunkAdvance dec input avail).1.parseResult.next.getD 0 ≤ input.length ∧
      (chunkAdvance dec input avail).2.2.length ≤ avail ∧
      chunkAdvanceAsserts (chunkAdvance dec input avail).2.1 = true := by
  unfold chunkAdvance
  cases hphase : dec.phase with
  | size =>
    dsimp only
    split
    · exact ⟨Nat.zero_le _, Nat.zero_le _, hdec⟩
    · next hcrlf =>
      split
      · exact ⟨Nat.zero_le _, Nat.zero_le _, hdec⟩
      · split
        · split
          · exact ⟨crlfFind_add_two_le hcrlf, Nat.zero_le _, rfl⟩
          · next hlen =>
            refine ⟨crlfFind_add_two_le hcrlf, Nat.zero_le _, ?_⟩
            simp only [chunkAdvanceAsserts, Bool.or_eq_true, decide_eq_true_eq]
            exact .inr (Nat.pos_of_ne_zero hlen)
        · exact ⟨Nat.zero_le _, Nat.zero_le _, hdec⟩
  | data =>
    dsimp only
    have htake : (if dec.remaining < input.length then dec.remaining else input.length) ≤
        input.length := by
      split <;> omega
    generalize (if dec.remaining < input.length then dec.remaining else input.length) = take
      at htake ⊢
    split
    · exact ⟨Nat.zero_le _, Nat.zero_le _, hdec⟩
    · next hroom =>
      refine ⟨htake, ?_, ?_⟩
      · rw [List.length_take]
        omega
      · by_cases hleft : dec.remaining - take = 0
        · simp [chunkAdvanceAsserts, hleft]
        · simp only [chunkAdvanceAsserts, Bool.or_eq_true, decide_eq_true_eq]
          exact .inr (Nat.pos_of_ne_zero hleft)
  | trailCr =>
    dsimp only
    split
    · exact ⟨Nat.zero_le _, Nat.zero_le _, hdec⟩
    · split
      · exact ⟨Nat.zero_le _, Nat.zero_le _, hdec⟩
      · next hne _ => exact ⟨Nat.one_le_iff_ne_zero.mpr hne, Nat.zero_le _, rfl⟩
  | trailLf =>
    dsimp only
    split
    · exact ⟨Nat.zero_le _, Nat.zero_le _, hdec⟩
    · split
      · exact ⟨Nat.zero_le _, Nat.zero_le _, hdec⟩
      · next hne _ => exact ⟨Nat.one_le_iff_ne_zero.mpr hne, Nat.zero_le _, rfl⟩
  | trailer =>
    dsimp only
    split
    · exact ⟨Nat.zero_le _, Nat.zero_le _, hdec⟩
    · split
      · exact ⟨Nat.zero_le _, Nat.zero_le _, hdec⟩
      · next hlen _ => exact ⟨Nat.not_lt.mp hlen, Nat.zero_le _, rfl⟩
  | done => exact ⟨Nat.zero_le _, Nat.zero_le _, hdec⟩

/-! ## The loops -/

/-- Where the decoder stands in the two buffers. -/
structure DrainBounds (reqBuf : HttpBuffer) (bodyStart : ℕ) (dechunked : HttpBuffer)
    (st : ChunkedBodySt) : Prop where
  consumed : bodyStart + st.consumed ≤ reqBuf.size
  decoded : dechunked.size ≤ dechunked.cap
  decoder : chunkAdvanceAsserts st.dec = true

theorem DrainBounds.advance (h : DrainBounds reqBuf bodyStart dechunked st)
    {cr : ChunkResult} {written : Bytes}
    (hadvance : chunkAdvance st.dec (reqBuf.contents.drop (bodyStart + st.consumed))
      (dechunked.cap - dechunked.size) = (cr, dec, written)) :
    DrainBounds reqBuf bodyStart (dechunked.append written)
      { consumed := st.consumed + cr.parseResult.next.getD 0, dec := dec } := by
  obtain ⟨hconsumed, hdecoded, hdecoder⟩ := h
  have hbounds := chunkAdvance_bounds (reqBuf.contents.drop (bodyStart + st.consumed))
    (dechunked.cap - dechunked.size) hdecoder
  rw [hadvance] at hbounds
  obtain ⟨hnext, hwritten, hdec⟩ := hbounds
  have hlen : (reqBuf.contents.drop (bodyStart + st.consumed)).length ≤
      reqBuf.size - (bodyStart + st.consumed) := by
    rw [List.length_drop, HttpBuffer.contents, List.length_take]
    omega
  refine ⟨?_, ?_, hdec⟩
  · dsimp only at hnext ⊢
    omega
  · show dechunked.size + written.length ≤ dechunked.cap
    dsimp only at hwritten
    omega

/-- The inner loop keeps the bounds, and they are what it asserts. -/
theorem chunkDrain_bounds (fuel : ℕ) (h : DrainBounds reqBuf bodyStart dechunked st) :
    chunkDrainAsserts reqBuf bodyStart fuel dechunked st = true ∧
      DrainBounds reqBuf bodyStart (chunkDrain reqBuf bodyStart fuel dechunked st).2.1
        (chunkDrain reqBuf bodyStart fuel dechunked st).2.2 ∧
      (chunkDrain reqBuf bodyStart fuel dechunked st).2.1.cap = dechunked.cap ∧
      (chunkDrain reqBuf bodyStart fuel dechunked st).2.1.address = dechunked.address := by
  induction fuel generalizing dechunked st with
  | zero => exact ⟨rfl, h, rfl, rfl⟩
  | succ fuel ih =>
    generalize hadvance : chunkAdvance st.dec (reqBuf.contents.drop (bodyStart + st.consumed))
      (dechunked.cap - dechunked.size) = advanced
    obtain ⟨cr, dec, written⟩ := advanced
    have hnext := h.advance hadvance
    obtain ⟨hasserts, hbounds, hcap, haddress⟩ := ih hnext
    constructor
    · rw [chunkDrainAsserts, hadvance]
      simp only [h.consumed, h.decoded, h.decoder, decide_true, Bool.true_and, hasserts,
        Bool.or_true]
    · rw [chunkDrain, hadvance]
      dsimp only
      split
      · exact ⟨hnext, rfl, rfl⟩
      · split
        · exact ⟨hnext, rfl, rfl⟩
        · split
          · exact ⟨hnext, rfl, rfl⟩
          · split
            · exact ⟨hnext, rfl, rfl⟩
            · exact ⟨hbounds, hcap, haddress⟩

/-- What the outer loop keeps besides. -/
structure ChunkedRead.Bounds (r : ChunkedRead) (bodyStart : ℕ) : Prop extends
    DrainBounds r.reqBuf bodyStart r.dechunked r.st where
  filled : r.reqBuf.size ≤ r.reqBuf.cap

/-- The parts of the two buffers that no reader changes. -/
def ChunkedRead.SameBuffers (r r' : ChunkedRead) : Prop :=
  r'.reqBuf.cap = r.reqBuf.cap ∧ r'.reqBuf.address = r.reqBuf.address ∧
    r'.dechunked.cap = r.dechunked.cap ∧ r'.dechunked.address = r.dechunked.address

theorem connRecvBodyChunkedLoop_bounds (recvs : List RecvOutcome) (log : List Event)
    (h : r.Bounds bodyStart) :
    connRecvBodyChunkedLoopAsserts bodyStart recvs r = true ∧
      (connRecvBodyChunkedLoop bodyStart recvs r log).2.1.Bounds bodyStart ∧
      r.SameBuffers (connRecvBodyChunkedLoop bodyStart recvs r log).2.1 := by
  induction recvs generalizing r log with
  | nil =>
    obtain ⟨hasserts, hbounds, hcap, haddress⟩ := chunkDrain_bounds (r.reqBuf.size + 2)
      h.toDrainBounds
    rw [connRecvBodyChunkedLoopAsserts, connRecvBodyChunkedLoop, hasserts]
    generalize chunkDrain r.reqBuf bodyStart (r.reqBuf.size + 2) r.dechunked r.st = drained
      at hbounds hcap haddress ⊢
    obtain ⟨_ | res, dechunked, st⟩ := drained
    · dsimp only at hbounds hcap haddress ⊢
      split
      · exact ⟨rfl, ⟨hbounds, h.filled⟩, rfl, rfl, hcap, haddress⟩
      · exact ⟨rfl, ⟨hbounds, h.filled⟩, rfl, rfl, hcap, haddress⟩
    · exact ⟨rfl, ⟨hbounds, h.filled⟩, rfl, rfl, hcap, haddress⟩
  | cons o recvs ih =>
    obtain ⟨hasserts, hbounds, hcap, haddress⟩ := chunkDrain_bounds (r.reqBuf.size + 2)
      h.toDrainBounds
    rw [connRecvBodyChunkedLoopAsserts, connRecvBodyChunkedLoop, hasserts]
    generalize chunkDrain r.reqBuf bodyStart (r.reqBuf.size + 2) r.dechunked r.st = drained
      at hbounds hcap haddress ⊢
    obtain ⟨_ | res, dechunked, st⟩ := drained
    · dsimp only at hbounds hcap haddress ⊢
      split
      · exact ⟨rfl, ⟨hbounds, h.filled⟩, rfl, rfl, hcap, haddress⟩
      · generalize hclip : o.clip (r.reqBuf.cap - r.reqBuf.size) = out
        cases out with
        | data got =>
          cases got with
          | nil => exact ⟨rfl, ⟨hbounds, h.filled⟩, rfl, rfl, hcap, haddress⟩
          | cons c got =>
            have hroom : (c :: got).length ≤ r.reqBuf.cap - r.reqBuf.size := by
              cases o with
              | data bytes =>
                simp only [RecvOutcome.clip, RecvOutcome.data.injEq] at hclip
                rw [← hclip, List.length_take]
                exact Nat.min_le_left _ _
              | _ => cases hclip
            have hfilled := h.filled
            have hgrown : ChunkedRead.Bounds
                { r with reqBuf := r.reqBuf.append (c :: got), dechunked := dechunked, st := st }
                bodyStart := by
              refine ⟨⟨?_, hbounds.decoded, hbounds.decoder⟩, ?_⟩
              · show bodyStart + st.consumed ≤ r.reqBuf.size + (c :: got).length
                have := hbounds.consumed
                omega
              · show r.reqBuf.size + (c :: got).length ≤ r.reqBuf.cap
                omega
            obtain ⟨hasserts', hbounds', hreqcap, hreqaddress, hdcap, hdaddress⟩ :=
              ih (log ++ [.recv (.data (c :: got))]) hgrown
            exact ⟨hasserts', hbounds', hreqcap, hreqaddress, hdcap.trans hcap,
              hdaddress.trans haddress⟩
        | again => exact ⟨rfl, ⟨hbounds, h.filled⟩, rfl, rfl, hcap, haddress⟩
        | interrupted =>
          have hsame : ChunkedRead.Bounds { r with dechunked := dechunked, st := st } bodyStart :=
            ⟨hbounds, h.filled⟩
          obtain ⟨hasserts', hbounds', hreqcap, hreqaddress, hdcap, hdaddress⟩ :=
            ih (log ++ [.recv .interrupted]) hsame
          exact ⟨hasserts', hbounds', hreqcap, hreqaddress, hdcap.trans hcap,
            hdaddress.trans haddress⟩
        | error => exact ⟨rfl, ⟨hbounds, h.filled⟩, rfl, rfl, hcap, haddress⟩
    · exact ⟨rfl, ⟨hbounds, h.filled⟩, rfl, rfl, hcap, haddress⟩

end HttpServer
