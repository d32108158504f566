import HttpServer.ChunkedGrammar
import HttpServer.Response

/-!
# Chunk frames are read back

A frame of `chunk_frame` begins with the length in hexadecimal, which is a size
line of that value; a sequence of frames with the last frame behind it is a
chunked body whose payload is what was framed.
-/

namespace HttpServer

open IncrementalDecoder

theorem hexDigit_digitChar (d : ℕ) (h : d < 16) :
    HexDigit (Nat.digitChar d).val.toUInt8 d := by
  revert h d
  decide

theorem hexNumeral_showHex (n : ℕ) : HexNumeral (showHex n) n := by
  induction n using Nat.strongRecOn with
  | ind n ih =>
    by_cases hlt : n < 16
    · rw [showHex, Nat.toDigits_of_lt_base hlt]
      exact .digit (hexDigit_digitChar n hlt)
    · have hsplit : showHex n = showHex (n / 16) ++ [(Nat.digitChar (n % 16)).val.toUInt8] := by
        rw [showHex, Nat.toDigits_of_base_le (by decide) (by omega), List.map_append]
        rfl
      have hvalue : n / 16 * 16 + n % 16 = n := by omega
      have hsnoc := (ih (n / 16) (by omega)).snoc
        (hexDigit_digitChar (n % 16) (Nat.mod_lt n (by decide)))
      rwa [hvalue, ← hsplit] at hsnoc

/-- A numeral has no carriage return, so the CRLF behind it is the first one. -/
theorem HexNumeral.find_crlf {s : Bytes} {n : ℕ} (h : HexNumeral s n) :
    PatternSearch.find CRLF (s ++ CRLF) = s.length := by
  have hdigit : ∀ c d, HexDigit c d → c ≠ CR := by
    rintro c d h rfl
    revert h
    simp [HexDigit, CR]
  have hne : ∀ c ∈ s, c ≠ CR := by
    induction h with
    | digit h => simpa using hdigit _ _ h
    | snoc hs h ih =>
      intro c hc
      rcases List.mem_append.mp hc with hc | hc
      · exact ih c hc
      · obtain rfl := List.mem_singleton.mp hc
        exact hdigit _ _ h
  refine PatternSearch.find_eq (by simp) (by simp) ?_
  intro j hj hpre
  rw [List.drop_append_of_le_length hj.le, List.drop_eq_getElem_cons hj] at hpre
  obtain ⟨t, ht⟩ := hpre
  have hhead : CR = s[j] := (List.cons.inj ht).1
  exact hne _ (List.getElem_mem hj) hhead.symm

theorem sizeLine_showHex (n : ℕ) : SizeLine (showHex n) n where
  split := ⟨showHex n, [], (List.append_nil _).symm, hexNumeral_showHex n, .inl rfl⟩
  first_crlf := (hexNumeral_showHex n).find_crlf

theorem chunkFrame_eq {payload frame : Bytes} {outCap : ℕ}
    (h : chunkFrame payload outCap = some frame) :
    frame = showHex payload.length ++ CRLF ++ (payload ++ CRLF) := by
  unfold chunkFrame at h
  dsimp only at h
  split at h
  · cases h
  · split at h
    · cases h
    · rw [← Option.some.inj h, List.append_assoc _ payload CRLF]

theorem chunkFrameLast_eq {last : Bytes} {outCap : ℕ} (h : chunkFrameLast outCap = some last) :
    last = showHex 0 ++ CRLF ++ CRLF := by
  unfold chunkFrameLast at h
  split at h
  · cases h
  · rw [← Option.some.inj h]; rfl

/-- Frame after frame, then the last one. -/
theorem chunkedBody_of_frames {payloads frames : List Bytes} {last : Bytes} {lastCap : ℕ}
    (hframes : List.Forall₂ (fun payload frame => ∃ outCap, chunkFrame payload outCap = some frame)
      payloads frames)
    (hsize : ∀ payload ∈ payloads, payload ≠ [] ∧ payload.length ≤ HTTP_MAX_BODY_LEN)
    (hlast : chunkFrameLast lastCap = some last) :
    ChunkedBody (frames.flatten ++ last) payloads.flatten := by
  induction hframes with
  | nil =>
    rw [chunkFrameLast_eq hlast]
    exact .last (sizeLine_showHex 0)
  | @cons payload frame payloads frames hframe hframes ih =>
    obtain ⟨outCap, hframe⟩ := hframe
    obtain ⟨hne, hmax⟩ := hsize payload (List.mem_cons_self ..)
    have hrest := ih fun p hp => hsize p (List.mem_cons_of_mem _ hp)
    have hbody := ChunkedBody.chunk (sizeLine_showHex payload.length)
      (List.length_pos_iff.mpr hne) hmax rfl hrest
    rw [List.flatten_cons, List.flatten_cons, chunkFrame_eq hframe]
    simpa only [List.append_assoc] using hbody

theorem dechunkDrive_chunkFrames (payloads frames : List Bytes) (last rest : Bytes)
    (lastCap C fuel : ℕ)
    (hframes : List.Forall₂ (fun payload frame => ∃ outCap, chunkFrame payload outCap = some frame)
      payloads frames)
    (hsize : ∀ payload ∈ payloads, payload ≠ [] ∧ payload.length ≤ HTTP_MAX_BODY_LEN)
    (hlast : chunkFrameLast lastCap = some last) (hfit : payloads.flatten.length ≤ C)
    (hfuel : (frames.flatten ++ last ++ rest).length < fuel) :
    ∃ r, dechunkDrive (frames.flatten ++ last ++ rest) C fuel {} = some r ∧
      r.dec.phase = .done ∧ r.status = .ok ∧ r.out = payloads.flatten ∧
      r.consumed = (frames.flatten ++ last).length ∧
      (frames.flatten ++ last ++ rest).drop r.consumed = rest := by
  have hbody := chunkedBody_of_frames hframes hsize hlast
  obtain ⟨o, r, hrun, hdrive, hend⟩ :=
    exists_dechunkDrive (frames.flatten ++ last ++ rest) C hfuel
  obtain ⟨hdone, hstatus, hused, hout⟩ := driveEnd_of_chunkedBody hbody hfit hrun hend
  refine ⟨r, hdrive, hdone, hstatus, hout, hused, ?_⟩
  rw [hused, List.drop_left]

theorem dechunkDrive_chunkFrames_two :
    ∃ r, dechunkDrive ([ascii "2" ++ CRLF ++ CRLF ++ CRLF, ascii "1" ++ CRLF ++ ascii "0" ++
        CRLF].flatten ++ (ascii "0" ++ CRLF ++ CRLF) ++ ascii "GET") 16 100 {} = some r ∧
      r.dec.phase = .done ∧ r.out = [CRLF, ascii "0"].flatten := by
  obtain ⟨r, hdrive, hdone, -, hout, -⟩ := dechunkDrive_chunkFrames [CRLF, ascii "0"]
    [ascii "2" ++ CRLF ++ CRLF ++ CRLF, ascii "1" ++ CRLF ++ ascii "0" ++ CRLF]
    (ascii "0" ++ CRLF ++ CRLF) (ascii "GET") 5 16 100
    (.cons ⟨64, by decide⟩ (.cons ⟨64, by decide⟩ .nil)) (by decide) (by decide) (by decide)
    (by decide)
  exact ⟨r, hdrive, hdone, hout⟩

end HttpServer
