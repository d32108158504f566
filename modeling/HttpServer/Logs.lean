import HttpServer.Socket

/-!
# Reading a log

What a log says about the bytes received and accepted, and the part of it that is
left when only the socket calls, the staged responses and the turns count.
-/

namespace HttpServer

/-! ## Received bytes -/

def RecvOutcome.bytes : RecvOutcome → Bytes
  | .data bytes => bytes
  | _ => []

def Event.recvBytes : Event → Bytes
  | .recv o => o.bytes
  | _ => []

/-- Everything the peer's bytes in a log amount to. -/
def received (log : List Event) : Bytes := log.flatMap Event.recvBytes

@[simp] theorem received_nil : received [] = [] := rfl

@[simp] theorem received_append (log log' : List Event) :
    received (log ++ log') = received log ++ received log' := List.flatMap_append

@[simp] theorem received_cons (e : Event) (log : List Event) :
    received (e :: log) = e.recvBytes ++ received log := List.flatMap_cons

@[simp] theorem received_singleton (e : Event) : received [e] = e.recvBytes := by
  simp [received]

theorem received_map_recv (outs : List RecvOutcome) :
    received (outs.map Event.recv) = outs.flatMap RecvOutcome.bytes := by
  rw [received, List.flatMap_map]
  rfl

/-! ## Accepted bytes -/

def Event.sentBytes : Event → Bytes
  | .send offered (.accepted n) => offered.take n
  | _ => []

/-- Everything the socket has accepted according to a log. -/
def accepted (log : List Event) : Bytes := log.flatMap Event.sentBytes

@[simp] theorem accepted_nil : accepted [] = [] := rfl

@[simp] theorem accepted_append (log log' : List Event) :
    accepted (log ++ log') = accepted log ++ accepted log' := List.flatMap_append

@[simp] theorem accepted_cons (e : Event) (log : List Event) :
    accepted (e :: log) = e.sentBytes ++ accepted log := List.flatMap_cons

theorem accepted_assert (io : Io) (b : Bool) : accepted (io.assert b).log = accepted io.log := by
  unfold Io.assert
  split
  · rfl
  · simp [Io.emit, Event.sentBytes]

/-! ## The events that count -/

/-- The calls of `recv` and `send`, the staged responses and the turns. -/
def Event.visible : Event → Bool
  | .recv _ | .send _ _ | .staged _ _ _ | .step _ _ => true
  | _ => false

def visible (log : List Event) : List Event := log.filter Event.visible

@[simp] theorem visible_append (log log' : List Event) :
    visible (log ++ log') = visible log ++ visible log' := List.filter_append ..

theorem received_visible (log : List Event) : received (visible log) = received log := by
  induction log with
  | nil => rfl
  | cons e log ih =>
    have hcons : visible (e :: log) = if e.visible then e :: visible log else visible log :=
      List.filter_cons
    rw [hcons, received_cons, ← ih]
    cases e <;> simp [Event.visible, Event.recvBytes]

@[simp] theorem visible_map_recv (outs : List RecvOutcome) :
    visible (outs.map Event.recv) = outs.map Event.recv := by
  simp [visible, Event.visible]

@[simp] theorem visible_send (offered : Bytes) (o : SendOutcome) :
    visible [.send offered o] = [.send offered o] := rfl

@[simp] theorem visible_staged (byError keepAlive : Bool) (text : Option Bytes) :
    visible [.staged byError keepAlive text] = [.staged byError keepAlive text] := rfl

@[simp] theorem visible_step (pre post : Connection) :
    visible [.step pre post] = [.step pre post] := rfl

@[simp] theorem visible_assert (io : Io) (b : Bool) :
    visible (io.assert b).log = visible io.log := by
  unfold Io.assert
  split
  · rfl
  · simp [Io.emit, visible, Event.visible]

@[simp] theorem visible_time (io : Io) : io.time.2.log = io.log := by
  unfold Io.time
  split <;> rfl

end HttpServer
