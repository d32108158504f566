import HttpServer.Logs

/-!
# Live bytes of buffers and calls of `recv`

A buffer is `Backed` when the memory behind it reaches as far as its size says.
Appending to such a buffer appends to its live bytes. `RecvScript` says how the
calls of one reader use up the script.
-/

namespace HttpServer

variable {b : HttpBuffer} {bs : Bytes}

def HttpBuffer.Backed (b : HttpBuffer) : Prop := b.size ≤ b.storage.length

theorem HttpBuffer.Backed.length_contents (h : b.Backed) : b.contents.length = b.size := by
  rw [HttpBuffer.contents, List.length_take]
  exact Nat.min_eq_left h

@[simp] theorem HttpBuffer.append_size (b : HttpBuffer) (bs : Bytes) :
    (b.append bs).size = b.size + bs.length := rfl

@[simp] theorem HttpBuffer.append_cap (b : HttpBuffer) (bs : Bytes) :
    (b.append bs).cap = b.cap := rfl

@[simp] theorem HttpBuffer.append_address (b : HttpBuffer) (bs : Bytes) :
    (b.append bs).address = b.address := rfl

theorem HttpBuffer.append_storage (b : HttpBuffer) (bs : Bytes) :
    (b.append bs).storage = b.contents ++ bs ++ b.storage.drop (b.size + bs.length) := rfl

theorem HttpBuffer.Backed.append (h : b.Backed) (bs : Bytes) : (b.append bs).Backed := by
  rw [Backed, append_size, append_storage, List.length_append, List.length_append,
    h.length_contents]
  exact Nat.le_add_right _ _

theorem HttpBuffer.Backed.contents_append (h : b.Backed) (bs : Bytes) :
    (b.append bs).contents = b.contents ++ bs := by
  have hlen : (b.contents ++ bs).length = b.size + bs.length := by
    rw [List.length_append, h.length_contents]
  rw [contents, append_size, append_storage, ← hlen, List.take_left]

/-! ## Calls of `recv` -/

@[simp] theorem Io.assert_recvs (io : Io) (b : Bool) : (io.assert b).recvs = io.recvs := by
  unfold Io.assert
  split <;> rfl

/-- Calls of `recv` with room for `room` bytes in all: `outs` is what they returned and `rest`
is what is left of the script. -/
inductive RecvScript : ℕ → List RecvOutcome → List RecvOutcome → List RecvOutcome → Prop where
  | stop (room recvs) : RecvScript room recvs recvs []
  | blocked (room) : RecvScript room [] [] [.again]
  | call {room o recvs rest outs}
      (h : RecvScript (room - (o.clip room).bytes.length) recvs rest outs) :
      RecvScript room (o :: recvs) rest (o.clip room :: outs)

variable {room : ℕ} {recvs rest outs : List RecvOutcome}

theorem RecvScript.cons {o out : RecvOutcome} (hclip : o.clip room = out)
    (h : RecvScript (room - out.bytes.length) recvs rest outs) :
    RecvScript room (o :: recvs) rest (out :: outs) := by
  subst hclip
  exact .call h

theorem RecvScript.length_bytes_le (h : RecvScript room recvs rest outs) :
    (outs.flatMap RecvOutcome.bytes).length ≤ room := by
  induction h with
  | stop => exact Nat.zero_le _
  | blocked => exact Nat.zero_le _
  | @call room o recvs rest outs h ih =>
    have hclip : (o.clip room).bytes.length ≤ room := by
      cases o <;> simp [RecvOutcome.clip, RecvOutcome.bytes]
    rw [List.flatMap_cons, List.length_append]
    omega

/-- Nothing is cut off when there is room for all of the script. -/
theorem RecvScript.eq_append (h : RecvScript room recvs rest outs)
    (hroom : (recvs.flatMap RecvOutcome.bytes).length ≤ room) :
    recvs = outs ++ rest ∨ rest = [] ∧ outs = recvs ++ [.again] := by
  induction h with
  | stop => exact .inl rfl
  | blocked => exact .inr ⟨rfl, rfl⟩
  | @call room o recvs rest outs h ih =>
    rw [List.flatMap_cons, List.length_append] at hroom
    have hclip : o.clip room = o := by
      cases o with
      | data bytes =>
        simp only [RecvOutcome.bytes] at hroom
        simp only [RecvOutcome.clip, List.take_of_length_le (show bytes.length ≤ room by omega)]
      | _ => rfl
    rw [hclip] at ih ⊢
    rcases ih (by omega) with rfl | ⟨rfl, rfl⟩
    · exact .inl rfl
    · exact .inr ⟨rfl, rfl⟩

theorem RecvScript.bytes_eq (h : RecvScript room recvs rest outs)
    (hroom : (recvs.flatMap RecvOutcome.bytes).length ≤ room) :
    recvs.flatMap RecvOutcome.bytes =
      outs.flatMap RecvOutcome.bytes ++ rest.flatMap RecvOutcome.bytes := by
  rcases h.eq_append hroom with rfl | ⟨rfl, rfl⟩
  · exact List.flatMap_append
  · simp [RecvOutcome.bytes]

/-- The answer of `recv` that a reader of a body reports with this status. -/
def ReadBodyStatus.lastRecv : ReadBodyStatus → Option RecvOutcome
  | .hasMore => some .again
  | .peerClosed => some (.data [])
  | .ioError => some .error
  | _ => none

end HttpServer
