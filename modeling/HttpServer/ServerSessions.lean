import HttpServer.LogIndependence
import HttpServer.ServerLoop

/-!
# The clients of a server, one by one

A session is what happens to one client from `accept` until its descriptor is closed.
Whatever the other clients do in between, it is the run of one connection on its own,
woken by the events of its own descriptor; of the others it sees the world they leave.
-/

namespace HttpServer

open Relation

variable {σ : Type*} {router : Router σ} {i : ℕ}

/-! ## Sessions -/

/-- A client that has been given a slot: what the slot held before, the world it has been accepted
in, the wake-ups so far and what they have logged. -/
structure Session (σ : Type*) where
  slot : Connection
  backing : ℕ
  fd : ℤ
  world : World σ
  wakes : List (Wake σ) := []
  log : List Event := []

/-- The client served on its own. -/
def Session.alone (router : Router σ) (s : Session σ) : Machine σ :=
  serve router (.ofSlot s.slot s.backing HTTP_CONN_ARENA_SIZE s.fd s.world) s.wakes

/-- Another wake-up of the client, with the world as the other clients have left it. -/
def Session.wake (s : Session σ) (w : Wake σ) (world : World σ) (log : List Event) : Session σ :=
  { s with
    wakes := s.wakes ++ [{ w with meanwhile := fun _ => w.meanwhile world }]
    log := s.log ++ log }

theorem serve_concat (router : Router σ) (m : Machine σ) (wakes : List (Wake σ)) (w : Wake σ)
    (hopen : (serve router m wakes).conn.phase ≠ .closed) :
    serve router m (wakes ++ [w]) =
      connectionStepProcess router ((serve router m wakes).wake w) := by
  induction wakes generalizing m with
  | nil =>
    rw [List.nil_append, serve_cons router m w [] hopen]
    rfl
  | cons w' wakes ih =>
    by_cases hclosed : m.conn.phase = .closed
    · rw [serve_closed router m _ hclosed] at hopen
      exact absurd hclosed hopen
    · rw [serve_cons router m w' wakes hclosed] at hopen ⊢
      rw [List.cons_append, serve_cons router m w' _ hclosed]
      exact ih _ hopen

/-- The server does not keep the log of a client, the client alone does. -/
theorem Session.alone_wake (s : Session σ) (w : Wake σ) (world : World σ)
    (hopen : (s.alone router).conn.phase ≠ .closed) (log : List Event) :
    (s.wake w world log).alone router =
      (connectionStepProcess router
        (({ conn := (s.alone router).conn, world := world } : Machine σ).wake w)).after
        (s.alone router).io.log := by
  have hmachine : (s.alone router).wake { w with meanwhile := fun _ => w.meanwhile world } =
      (({ conn := (s.alone router).conn, world := world } : Machine σ).wake w).after
        (s.alone router).io.log := by
    unfold Machine.wake Machine.after Io.after
    dsimp only
    rw [List.append_nil]
  rw [← connectionStepProcess_after, ← hmachine]
  exact serve_concat router _ s.wakes _ hopen

/-! ## A server with its sessions -/

/-- `current` holds the sessions of the slots in use. -/
structure History (σ : Type*) where
  server : Server σ
  current : ℕ → Option (Session σ) := fun _ => none
  ended : List (Session σ) := []

def Session.begin (s : Server σ) (fd : ℤ) (i : ℕ) : Session σ :=
  { slot := s.set.conns i, backing := s.set.arenaBacking i, fd := fd, world := s.world }

/-- A new client that is given a slot begins a session. -/
def History.accept : Option Accept → History σ → History σ
  | none, h => h
  | some new, h =>
    { h with
      server := clientSetAddNew (some new) h.server
      current := fun i =>
        if new.nonblocking = true ∧ freeSlot h.server.set = some i then
          some (.begin h.server new.fd i)
        else h.current i }

def History.serve (router : Router σ) (i : ℕ) (w : Wake σ) (h : History σ) : History σ :=
  let m := connectionStepProcess router
    (({ conn := h.server.set.conns i, world := h.server.world } : Machine σ).wake w)
  let session := (h.current i).map fun s => s.wake w h.server.world m.io.log
  { server := serveSlot router i w h.server
    current := fun j =>
      if j = i then if m.conn.phase = .closed then none else session else h.current j
    ended := h.ended ++ if m.conn.phase = .closed then session.toList else [] }

/-- One turn of the loop over the slots. -/
def serveReady (router : Router σ) (round : Round σ) (s : Server σ) (i : ℕ) : Server σ :=
  match round.ready i with
  | none => s
  | some w => if (s.set.pollFdSet i).fd < 0 then s else serveSlot router i w s

def History.serveReady (router : Router σ) (round : Round σ) (h : History σ) (i : ℕ) : History σ :=
  match round.ready i with
  | none => h
  | some w => if (h.server.set.pollFdSet i).fd < 0 then h else h.serve router i w

theorem serverTurn_eq (router : Router σ) (round : Round σ) (s : Server σ) :
    serverTurn router round s =
      clientSlots.foldl (serveReady router round) (clientSetAddNew round.accepted s) := rfl

def History.turn (router : Router σ) (round : Round σ) (h : History σ) : History σ :=
  clientSlots.foldl (History.serveReady router round) (h.accept round.accepted)

/-- One turn of the server, for a round that is `allowed`, in which `accept` returns no descriptor
that is open. -/
def HistoryNext (router : Router σ) (allowed : Round σ → Prop) (h h' : History σ) : Prop :=
  ∃ round : Round σ, allowed round ∧
    (∀ new ∈ round.accepted, 0 ≤ new.fd ∧ ¬ h.server.Open new.fd) ∧ h' = h.turn router round

def HistoryReaches (router : Router σ) (allowed : Round σ → Prop) (backing : ℕ)
    (world : World σ) : History σ → Prop :=
  ReflTransGen (HistoryNext router allowed)
    { server := { set := { backing := backing }, world := world } }

theorem History.accept_server (accepted : Option Accept) (h : History σ) :
    (h.accept accepted).server = clientSetAddNew accepted h.server := by
  cases accepted <;> rfl

theorem History.serveReady_server (router : Router σ) (round : Round σ) (h : History σ) (i : ℕ) :
    (h.serveReady router round i).server = HttpServer.serveReady router round h.server i := by
  unfold History.serveReady HttpServer.serveReady
  cases round.ready i with
  | none => rfl
  | some w =>
    dsimp only
    split <;> rfl

/-- The history is kept beside the server and does not interfere. -/
theorem History.turn_server (router : Router σ) (round : Round σ) (h : History σ) :
    (h.turn router round).server = serverTurn router round h.server := by
  rw [serverTurn_eq, ← accept_server, turn]
  generalize h.accept round.accepted = h
  induction clientSlots generalizing h with
  | nil => rfl
  | cons i slots ih => rw [List.foldl_cons, List.foldl_cons, ih, serveReady_server]

theorem HistoryReaches.server {allowed : Round σ → Prop} {backing : ℕ} {world : World σ}
    {h : History σ} (hreaches : HistoryReaches router allowed backing world h) :
    ServerReaches router backing world h.server := by
  refine Runs.invariant (fun h : History σ => ServerReaches router backing world h.server) hreaches
    .refl fun a b _ ha hnext => ?_
  obtain ⟨round, -, hnew, rfl⟩ := hnext
  exact ha.tail ⟨round, hnew, History.turn_server router round a⟩

/-- Every run of the server has a history. -/
theorem ServerReaches.history {backing : ℕ} {world : World σ} {s : Server σ}
    (hreaches : ServerReaches router backing world s) :
    ∃ h, HistoryReaches router (fun _ => True) backing world h ∧ h.server = s := by
  refine Runs.invariant (fun s => ∃ h, HistoryReaches router (fun _ => True) backing world h ∧
    h.server = s) hreaches ⟨_, .refl, rfl⟩ fun a b _ ha hnext => ?_
  obtain ⟨h, hreached, rfl⟩ := ha
  obtain ⟨round, hnew, rfl⟩ := hnext
  exact ⟨h.turn router round, hreached.tail ⟨round, trivial, hnew, rfl⟩,
    h.turn_server router round⟩

/-! ## What a history tells -/

/-- The session of a slot that is in use, or of one that has been closed, is the run of a
connection on its own. -/
structure Session.Told (router : Router σ) (s : Session σ) (conn : Connection) : Prop where
  conn : (s.alone router).conn = conn
  log : (s.alone router).io.log = s.log

structure History.Told (router : Router σ) (h : History σ) : Prop where
  current : ∀ i ∈ clientSlots, 0 ≤ (h.server.set.pollFdSet i).fd →
    ∃ s ∈ h.current i, s.fd = (h.server.set.pollFdSet i).fd ∧
      s.backing = h.server.set.arenaBacking i ∧ s.Told router (h.server.set.conns i)
  ended : ∀ s ∈ h.ended, ∃ conn, conn.phase = .closed ∧ s.Told router conn
  closed : (h.ended.map Session.fd).Sublist h.server.set.closed

theorem Session.begin_told (router : Router σ) (s : Server σ) (fd : ℤ) (i : ℕ) :
    (Session.begin s fd i).Told router
      (connectionInit (s.set.conns i) (s.set.arenaBacking i) HTTP_CONN_ARENA_SIZE fd) :=
  ⟨rfl, rfl⟩

theorem Session.Told.wake {s : Session σ} {conn : Connection} (h : s.Told router conn)
    (hopen : conn.phase ≠ .closed) (w : Wake σ) (world : World σ) :
    (s.wake w world (connectionStepProcess router
        (({ conn := conn, world := world } : Machine σ).wake w)).io.log).Told router
      (connectionStepProcess router (({ conn := conn, world := world } : Machine σ).wake w)).conn := by
  obtain ⟨rfl, hlog⟩ := h
  refine ⟨?_, ?_⟩
  · rw [s.alone_wake w world hopen]
    rfl
  · rw [s.alone_wake w world hopen]
    exact congrArg (· ++ _) hlog

/-- A slot that has not changed keeps its session. -/
theorem History.Told.of_slot {h h' : History σ} (htold : h.Told router)
    (hset : h.server.set.SameBut h'.server.set i)
    (hcurrent : ∀ j, j ≠ i → h'.current j = h.current j)
    (hslot : 0 ≤ (h'.server.set.pollFdSet i).fd →
      ∃ s ∈ h'.current i, s.fd = (h'.server.set.pollFdSet i).fd ∧
        s.backing = h.server.set.arenaBacking i ∧ s.Told router (h'.server.set.conns i))
    (hended : ∀ s ∈ h'.ended, ∃ conn, conn.phase = .closed ∧ s.Told router conn)
    (hclosed : (h'.ended.map Session.fd).Sublist h'.server.set.closed) : h'.Told router where
  current j hj hused := by
    have hbacking : h'.server.set.arenaBacking j = h.server.set.arenaBacking j := by
      rw [ClientSet.arenaBacking, hset.backing]
      rfl
    rw [hbacking]
    by_cases hji : j = i
    · subst hji
      exact hslot hused
    · rw [hset.fds j hji] at hused ⊢
      rw [hset.conns j hji, hcurrent j hji]
      exact htold.current j hj hused
  ended := hended
  closed := hclosed

theorem History.Told.accept {h : History σ} (htold : h.Told router) (accepted : Option Accept) :
    (h.accept accepted).Told router := by
  cases accepted with
  | none => exact htold
  | some new =>
    have hmore := List.sublist_append_left h.server.set.closed [new.fd]
    obtain ⟨fd, nonblocking⟩ := new
    cases nonblocking with
    | false =>
      refine ⟨fun i hi hused => ?_, htold.ended, htold.closed.trans hmore⟩
      exact htold.current i hi hused
    | true =>
      cases hfree : freeSlot h.server.set with
      | none =>
        have hrefused : addToClientSet h.server.set fd =
            { h.server.set with closed := h.server.set.closed ++ [fd] } := by
          unfold addToClientSet
          rw [hfree]
        have hset : (h.accept (some ⟨fd, true⟩)).server.set =
            { h.server.set with closed := h.server.set.closed ++ [fd] } := hrefused
        have hcurrent : (h.accept (some ⟨fd, true⟩)).current = h.current := by
          funext i
          exact if_neg fun heq => by simp [hfree] at heq
        refine ⟨?_, htold.ended, ?_⟩
        · rw [hset, hcurrent]
          exact htold.current
        · rw [hset]
          exact htold.closed.trans hmore
      | some i =>
        obtain ⟨hset, hown, hinit, hclosed⟩ := addToClientSet_slot hfree fd
        refine htold.of_slot (i := i) hset (fun j hj => ?_) (fun _ => ?_) htold.ended ?_
        · exact if_neg fun heq => hj (Option.some.inj (hfree.symm.trans heq.2)).symm
        · refine ⟨.begin h.server fd i, if_pos ⟨rfl, hfree⟩, hown.symm, rfl, ?_⟩
          have hconn : (h.accept (some ⟨fd, true⟩)).server.set.conns i = _ := hinit
          rw [hconn]
          exact Session.begin_told router h.server fd i
        · have hsame : (h.accept (some ⟨fd, true⟩)).server.set.closed = _ := hclosed
          rw [hsame]
          exact htold.closed

theorem serveSlot_set (router : Router σ) (i : ℕ) (w : Wake σ) (s : Server σ) :
    let m := connectionStepProcess router
      (({ conn := s.set.conns i, world := s.world } : Machine σ).wake w)
    (serveSlot router i w s).set =
      if m.conn.phase = .closed then connectionClose (s.set.served i m.conn) i
      else s.set.served i m.conn := rfl

theorem History.Told.serve {h : History σ} (htold : h.Told router) (hsound : h.server.Sound)
    (hi : i ∈ clientSlots) (hused : 0 ≤ (h.server.set.pollFdSet i).fd) (w : Wake σ) :
    (h.serve router i w).Told router := by
  obtain ⟨s, hs, hfd, hbacking, htoldSlot⟩ := htold.current i hi hused
  have hopen := (hsound.owned i hi hused).unclosed
  have hwoken := htoldSlot.wake hopen w h.server.world
  have hset := serveSlot_set router i w h.server
  have hcurrent : h.current i = some s := hs
  unfold History.serve
  rw [hcurrent]
  dsimp only at hset ⊢
  generalize connectionStepProcess router
    (({ conn := h.server.set.conns i, world := h.server.world } : Machine σ).wake w) = m
    at hwoken hset ⊢
  have hserved := h.server.set.served_sameBut i m.conn
  have hfds := h.server.set.served_fd i m.conn i
  have hown : (h.server.set.served i m.conn).conns i = m.conn := if_pos rfl
  by_cases hphase : m.conn.phase = .closed
  · rw [if_pos hphase] at hset
    rw [if_pos hphase, if_pos hphase]
    refine htold.of_slot (i := i) ?_ (fun j hj => if_neg hj) (fun hnow => ?_) ?_ ?_
    · rw [hset]
      exact hserved.trans (connectionClose_sameBut _ i)
    · dsimp only at hnow
      rw [hset, connectionClose_fd] at hnow
      exact absurd hnow (by decide)
    · intro s' hs'
      rcases List.mem_append.mp hs' with hs' | hs'
      · exact htold.ended s' hs'
      · obtain rfl := List.mem_singleton.mp hs'
        exact ⟨m.conn, hphase, hwoken⟩
    · dsimp only
      have hclosed : (connectionClose (h.server.set.served i m.conn) i).closed =
          h.server.set.closed ++ [s.fd] := by
        rw [hfd, ← hfds]
        rfl
      rw [hset, hclosed, List.map_append]
      exact htold.closed.append (List.Sublist.refl _)
  · rw [if_neg hphase] at hset
    rw [if_neg hphase, if_neg hphase, List.append_nil]
    refine htold.of_slot (i := i) ?_ (fun j hj => if_neg hj) (fun _ => ?_) htold.ended ?_
    · rw [hset]
      exact hserved
    · refine ⟨s.wake w h.server.world m.io.log, if_pos rfl, ?_, hbacking, ?_⟩
      · dsimp only
        rw [hset, hfds]
        exact hfd
      · dsimp only
        rw [hset, hown]
        exact hwoken
    · dsimp only
      rw [hset]
      exact htold.closed

theorem serveReady_sound (router : Router σ) (round : Round σ) {s : Server σ} (h : s.Sound)
    (hi : i ∈ clientSlots) : (serveReady router round s i).Sound := by
  unfold serveReady
  cases round.ready i with
  | none => exact h
  | some w =>
    dsimp only
    split
    · exact h
    · next hused => exact serveSlot_sound router w h hi (not_lt.mp hused)

theorem History.Told.serveReady {h : History σ} (htold : h.Told router) (hsound : h.server.Sound)
    (round : Round σ) (hi : i ∈ clientSlots) : (h.serveReady router round i).Told router := by
  unfold History.serveReady
  cases round.ready i with
  | none => exact htold
  | some w =>
    dsimp only
    split
    · exact htold
    · next hused => exact htold.serve hsound hi (not_lt.mp hused) w

theorem History.Told.turn {h : History σ} (htold : h.Told router) (hsound : h.server.Sound)
    (round : Round σ) (hnew : ∀ new ∈ round.accepted, 0 ≤ new.fd ∧ ¬ h.server.Open new.fd) :
    (h.turn router round).Told router := by
  have hslots : ∀ slots : List ℕ, (∀ i ∈ slots, i ∈ clientSlots) → ∀ h : History σ,
      h.Told router → h.server.Sound →
      (slots.foldl (History.serveReady router round) h).Told router := by
    intro slots hmem
    induction slots with
    | nil => exact fun h htold _ => htold
    | cons i slots ih =>
      intro h htold hsound
      obtain ⟨hi, hrest⟩ := List.forall_mem_cons.mp hmem
      rw [List.foldl_cons]
      refine ih hrest _ (htold.serveReady hsound round hi) ?_
      rw [History.serveReady_server]
      exact serveReady_sound router round hsound hi
  refine hslots clientSlots (fun _ hi => hi) _ (htold.accept round.accepted) ?_
  rw [History.accept_server]
  exact clientSetAddNew_sound hsound hnew

/-- The run lemma of `History.Told.turn`. -/
theorem HistoryReaches.told {allowed : Round σ → Prop} {backing : ℕ} {world : World σ}
    {h : History σ} (hreaches : HistoryReaches router allowed backing world h) : h.Told router := by
  refine Runs.invariant (History.Told router) hreaches ?_ fun a b hreached ha hnext => ?_
  · refine ⟨fun i _ hused => ?_, (fun s hs => nomatch hs), List.Sublist.refl _⟩
    exact absurd (show (0 : ℤ) ≤ -1 from hused) (by decide)
  · obtain ⟨round, -, hnew, rfl⟩ := hnext
    exact ha.turn (HistoryReaches.server hreached).sound round hnew

/-- What each session begins with and keeps when its client is woken holds of every session. -/
theorem HistoryReaches.sessions {allowed : Round σ → Prop} {backing : ℕ} {world : World σ}
    {h : History σ} (hreaches : HistoryReaches router allowed backing world h)
    (inv : Session σ → Prop)
    (hbegin : ∀ round, allowed round → ∀ new ∈ round.accepted, ∀ s i, inv (.begin s new.fd i))
    (hwake : ∀ round, allowed round → ∀ i, ∀ w ∈ round.ready i, ∀ client : Session σ, inv client →
      ∀ world log, inv (client.wake w world log)) :
    (∀ i, ∀ client ∈ h.current i, inv client) ∧ ∀ client ∈ h.ended, inv client := by
  refine Runs.invariant (fun h : History σ => (∀ i, ∀ client ∈ h.current i, inv client) ∧
    ∀ client ∈ h.ended, inv client) hreaches ⟨fun i _ h => (nomatch h), fun _ h => (nomatch h)⟩
    fun a b _ ha hnext => ?_
  obtain ⟨round, hallowed, -, rfl⟩ := hnext
  have haccept : (∀ i, ∀ client ∈ (a.accept round.accepted).current i, inv client) ∧
      ∀ client ∈ (a.accept round.accepted).ended, inv client := by
    cases hnew : round.accepted with
    | none => exact ha
    | some new =>
      refine ⟨fun i client hclient => ?_, ha.2⟩
      unfold History.accept at hclient
      dsimp only at hclient
      split at hclient
      · obtain rfl := Option.some.inj hclient
        exact hbegin round hallowed new hnew a.server i
      · exact ha.1 i client hclient
  unfold History.turn
  generalize a.accept round.accepted = h at haccept
  induction clientSlots generalizing h with
  | nil => exact haccept
  | cons i slots ih =>
    rw [List.foldl_cons]
    apply ih
    unfold History.serveReady
    cases hready : round.ready i with
    | none => exact haccept
    | some w =>
      dsimp only
      split
      · exact haccept
      · have hwoken : ∀ log, ∀ client ∈ (h.current i).map fun s => s.wake w h.server.world log,
            inv client := by
          intro log client hclient
          obtain ⟨old, hold, rfl⟩ := Option.map_eq_some_iff.mp hclient
          exact hwake round hallowed i w hready old (haccept.1 i old hold) _ _
        unfold History.serve
        refine ⟨fun j client hclient => ?_, fun client hclient => ?_⟩
        · dsimp only at hclient
          split at hclient
          · split at hclient
            · cases hclient
            · exact hwoken _ client hclient
          · exact haccept.1 j client hclient
        · dsimp only at hclient
          rcases List.mem_append.mp hclient with hclient | hclient
          · exact haccept.2 client hclient
          · split at hclient
            · exact hwoken _ client (Option.mem_toList.mp hclient)
            · cases hclient

/-- Every run of the server is one run for each client, on its own: of the clients that are being
served and of those whose descriptors have been closed. -/
theorem server_sessions (router : Router σ) (backing : ℕ) (world : World σ) (s : Server σ)
    (hreaches : ServerReaches router backing world s) :
    ∃ h, HistoryReaches router (fun _ => True) backing world h ∧ h.server = s ∧
      (∀ i ∈ s.set.liveSlots, ∃ client ∈ h.current i,
        client.fd = (s.set.pollFdSet i).fd ∧ client.backing = s.set.arenaBacking i ∧
          (client.alone router).conn = s.set.conns i ∧ (client.alone router).io.log = client.log) ∧
      (∀ client ∈ h.ended, (client.alone router).conn.phase = .closed ∧
        (client.alone router).io.log = client.log) ∧
      (h.ended.map Session.fd).Sublist s.set.closed := by
  obtain ⟨h, hreached, rfl⟩ := hreaches.history
  have htold := hreached.told
  refine ⟨h, hreached, rfl, fun i hi => ?_, fun client hclient => ?_, htold.closed⟩
  · obtain ⟨hslot, hused⟩ := List.mem_filter.mp hi
    obtain ⟨client, hcurrent, hfd, hbacking, hconn, hlog⟩ :=
      htold.current i hslot (by simpa using hused)
    exact ⟨client, hcurrent, hfd, hbacking, hconn, hlog⟩
  · obtain ⟨conn, hphase, hconn, hlog⟩ := htold.ended client hclient
    exact ⟨hconn ▸ hphase, hlog⟩

/-- A client uploads while another one is accepted. -/
def firstRound : Round Unit := { accepted := some { fd := 5 } }

def secondRound : Round Unit :=
  { accepted := some { fd := 6 }
    ready := fun i => if i = 1 then
      some
        { recvs := [.data (ascii "POST / HTTP/1.1" ++ CRLF ++ ascii "Host: a" ++ CRLF ++
            ascii "Transfer-Encoding: chunked" ++ CRLF ++ CRLF ++ ascii "5" ++ CRLF ++ ascii "he")]
          clock := [784111777] }
      else none }

def twoClients : History Unit :=
  (({ server := { set := { backing := 4096 }, world := { handlers := () } } } :
    History Unit).turn {} firstRound).turn {} secondRound

theorem twoClients_reaches {allowed : Round Unit → Prop} (hfirst : allowed firstRound)
    (hsecond : allowed secondRound) :
    HistoryReaches {} allowed 4096 { handlers := () } twoClients := by
  refine .tail (.single ⟨firstRound, hfirst, ?_, rfl⟩) ⟨secondRound, hsecond, ?_, rfl⟩
  · intro new hnew
    obtain rfl : ({ fd := 5 } : Accept) = new := Option.some.inj hnew
    exact ⟨by decide, by simp [Server.Open]⟩
  · intro new hnew
    obtain rfl : ({ fd := 6 } : Accept) = new := Option.some.inj hnew
    refine ⟨by decide, ?_⟩
    unfold Server.Open
    decide +kernel

theorem server_sessions_two :
    twoClients.server.set.liveSlots = [1, 2] ∧
      ∃ h, HistoryReaches {} (fun _ => True) 4096 { handlers := () } h ∧
        h.server = twoClients.server ∧
        (∀ i ∈ twoClients.server.set.liveSlots, ∃ client ∈ h.current i,
          client.fd = (twoClients.server.set.pollFdSet i).fd ∧
            client.backing = twoClients.server.set.arenaBacking i ∧
            (client.alone {}).conn = twoClients.server.set.conns i ∧
            (client.alone {}).io.log = client.log) ∧
        (∀ client ∈ h.ended, (client.alone {}).conn.phase = .closed ∧
          (client.alone {}).io.log = client.log) ∧
        (h.ended.map Session.fd).Sublist twoClients.server.set.closed := by
  have hreaches : HistoryReaches {} (fun _ => True) 4096 { handlers := () } twoClients :=
    twoClients_reaches trivial trivial
  exact ⟨by decide +kernel,
    server_sessions {} 4096 { handlers := () } twoClients.server hreaches.server⟩

end HttpServer
