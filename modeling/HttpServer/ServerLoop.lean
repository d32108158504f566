import HttpServer.ConnectionBounds
import HttpServer.ConnectionLayout
import Mathlib.Data.List.Perm.Basic
import Mathlib.Data.List.Perm.Lattice
import Mathlib.Order.CompletePartialOrder
import Mathlib.Order.Interval.Set.Disjoint

/-!
# The loop of the server

`server_run` between two calls of `poll`: at most one accepted client, then the slots
in order. Every accepted descriptor is in one slot until it is closed, once, and the
buffers of the clients lie apart, each in the backing memory of its own slot.
-/

namespace HttpServer

variable {σ : Type*} {set : ClientSet} {i : ℕ} {newFd : ℤ}

/-! ## `server_run` -/

/-- A descriptor that `accept` has returned, and whether `fcntl` made it nonblocking. -/
structure Accept where
  fd : ℤ
  nonblocking : Bool := true

/-- What `poll` and `accept` report in one round. A slot that is not ready is passed over. -/
structure Round (σ : Type*) where
  accepted : Option Accept := none
  ready : ℕ → Option (Wake σ) := fun _ => none

/-- `accepted` collects the descriptors that `accept` has returned. -/
structure Server (σ : Type*) where
  set : ClientSet := {}
  world : World σ
  accepted : List ℤ := []

def clientSetAddNew (accepted : Option Accept) (s : Server σ) : Server σ :=
  match accepted with
  | none => s
  | some new =>
    { s with
      accepted := s.accepted ++ [new.fd]
      set := if new.nonblocking then addToClientSet s.set new.fd
        else { s.set with closed := s.set.closed ++ [new.fd] } }

/-- The set when the connection in slot `i` has been served. The default of `conn_phase_event` is
`assert(0); return 0`, and its assertion is left out here. -/
def ClientSet.served (set : ClientSet) (i : ℕ) (conn : Connection) : ClientSet :=
  { set with
    conns := fun j => if j = i then conn else set.conns j
    pollFdSet := fun j => if j = i then
      { set.pollFdSet j with events := (connPhaseEvent conn.phase).getD 0 }
      else set.pollFdSet j }

/-- The body of the loop over the slots, for a slot that is ready. -/
def serveSlot (router : Router σ) (i : ℕ) (w : Wake σ) (s : Server σ) : Server σ :=
  let m : Machine σ := connectionStepProcess router
    (({ conn := s.set.conns i, world := s.world } : Machine σ).wake w)
  let set : ClientSet := s.set.served i m.conn
  { s with
    world := m.world
    set := if m.conn.phase = .closed then connectionClose set i else set }

def clientSlots : List ℕ := (List.range HTTP_MAX_CONNECTIONS).map (· + 1)

/-- One turn of the loop, from one call of `poll` to the next. -/
def serverTurn (router : Router σ) (round : Round σ) (s : Server σ) : Server σ :=
  clientSlots.foldl (fun s i =>
    match round.ready i with
    | none => s
    | some w => if (s.set.pollFdSet i).fd < 0 then s else serveSlot router i w s)
    (clientSetAddNew round.accepted s)

/-- A descriptor that has been accepted more often than it has been closed. -/
def Server.Open (s : Server σ) (fd : ℤ) : Prop := s.set.closed.count fd < s.accepted.count fd

/-- One turn, in which `accept` returns no descriptor that is open. -/
def ServerNext (router : Router σ) (s s' : Server σ) : Prop :=
  ∃ round : Round σ, (∀ new ∈ round.accepted, 0 ≤ new.fd ∧ ¬ s.Open new.fd) ∧
    s' = serverTurn router round s

/-- Every run from the start of `server_run`, with the backing memory at `backing`. -/
def ServerReaches (router : Router σ) (backing : ℕ) (world : World σ) : Server σ → Prop :=
  Relation.ReflTransGen (ServerNext router) { set := { backing := backing }, world := world }

/-! ## Descriptors in slots -/

/-- The descriptors of these slots that are in use. -/
def ClientSet.fdsOf (set : ClientSet) (slots : List ℕ) : List ℤ :=
  (slots.map fun i => (set.pollFdSet i).fd).filter (0 ≤ ·)

def ClientSet.live (set : ClientSet) : List ℤ := set.fdsOf clientSlots

theorem ClientSet.fdsOf_congr {set' : ClientSet} {slots : List ℕ}
    (h : ∀ j ∈ slots, (set'.pollFdSet j).fd = (set.pollFdSet j).fd) :
    set'.fdsOf slots = set.fdsOf slots := by
  rw [fdsOf, fdsOf, List.map_congr_left h]

theorem clientSlots_nodup : clientSlots.Nodup :=
  (List.nodup_map_iff (fun _ _ h => Nat.succ_injective h)).mpr List.nodup_range

theorem ClientSet.fdsOf_append (set : ClientSet) (slots slots' : List ℕ) :
    set.fdsOf (slots ++ slots') = set.fdsOf slots ++ set.fdsOf slots' := by
  rw [fdsOf, List.map_append, List.filter_append]
  rfl

theorem ClientSet.fdsOf_singleton (set : ClientSet) (i : ℕ) :
    set.fdsOf [i] = if 0 ≤ (set.pollFdSet i).fd then [(set.pollFdSet i).fd] else [] := by
  by_cases hused : 0 ≤ (set.pollFdSet i).fd <;> simp [fdsOf, hused]

/-- One slot apart from the others. -/
theorem ClientSet.live_perm (set : ClientSet) (hi : i ∈ clientSlots) :
    set.live.Perm (set.fdsOf [i] ++ set.fdsOf (clientSlots.erase i)) := by
  rw [← fdsOf_append]
  exact ((List.perm_cons_erase hi).map fun i => (set.pollFdSet i).fd).filter (0 ≤ ·)

theorem ClientSet.fdsOf_erase_congr {set' : ClientSet}
    (h : ∀ j, j ≠ i → (set'.pollFdSet j).fd = (set.pollFdSet j).fd) :
    set'.fdsOf (clientSlots.erase i) = set.fdsOf (clientSlots.erase i) := by
  refine fdsOf_congr fun j hj => h j ?_
  rintro rfl
  exact clientSlots_nodup.not_mem_erase hj

/-! ## The invariant -/

/-- The buffers are where `connection_init` puts them in this backing memory. -/
def Connection.LaidOut (conn : Connection) (backing : ℕ) : Prop :=
  conn.layout =
    { fd := conn.fd
      request := (some backing, HTTP_MAX_REQUEST_LEN)
      response := (some (backing + HTTP_MAX_REQUEST_LEN), HTTP_RESPONSE_BUFFER_SIZE)
      dechunked := (some (backing + (HTTP_MAX_REQUEST_LEN + HTTP_RESPONSE_BUFFER_SIZE)),
        HTTP_MAX_DECHUNK_SIZE) }

/-- The connection of a slot that is in use. -/
structure Connection.Serves (conn : Connection) (fd : ℤ) (backing : ℕ) : Prop where
  fd : conn.fd = fd
  unclosed : conn.phase ≠ .closed
  laid : conn.LaidOut backing

structure Server.Sound (s : Server σ) : Prop where
  free : ∀ i ∈ clientSlots, (s.set.pollFdSet i).fd < 0 → (s.set.pollFdSet i).fd = -1
  owned : ∀ i ∈ clientSlots, 0 ≤ (s.set.pollFdSet i).fd →
    (s.set.conns i).Serves (s.set.pollFdSet i).fd (s.set.arenaBacking i)
  distinct : s.set.live.Nodup
  counted : s.accepted.Perm (s.set.closed ++ s.set.live)

/-- Only slot `i` may differ. -/
structure ClientSet.SameBut (set set' : ClientSet) (i : ℕ) : Prop where
  fds : ∀ j, j ≠ i → (set'.pollFdSet j).fd = (set.pollFdSet j).fd
  conns : ∀ j, j ≠ i → set'.conns j = set.conns j
  backing : set'.backing = set.backing

theorem ClientSet.SameBut.trans {set' set'' : ClientSet} (h : set.SameBut set' i)
    (h' : set'.SameBut set'' i) : set.SameBut set'' i where
  fds j hj := (h'.fds j hj).trans (h.fds j hj)
  conns j hj := (h'.conns j hj).trans (h.conns j hj)
  backing := h'.backing.trans h.backing

theorem ClientSet.SameBut.live_perm {set' : ClientSet} (h : set.SameBut set' i)
    (hi : i ∈ clientSlots) :
    set'.live.Perm (set'.fdsOf [i] ++ set.fdsOf (clientSlots.erase i)) := by
  rw [← ClientSet.fdsOf_erase_congr h.fds]
  exact set'.live_perm hi

/-- What is left to show when one slot has changed. -/
theorem Server.Sound.of_slot {s s' : Server σ} (h : s.Sound) (hset : s.set.SameBut s'.set i)
    (hfree : (s'.set.pollFdSet i).fd < 0 → (s'.set.pollFdSet i).fd = -1)
    (howned : 0 ≤ (s'.set.pollFdSet i).fd →
      (s'.set.conns i).Serves (s'.set.pollFdSet i).fd (s.set.arenaBacking i))
    (hdistinct : s'.set.live.Nodup)
    (hcounted : s'.accepted.Perm (s'.set.closed ++ s'.set.live)) : s'.Sound where
  free j hj hneg := by
    by_cases hji : j = i
    · subst hji
      exact hfree hneg
    · rw [hset.fds j hji] at hneg ⊢
      exact h.free j hj hneg
  owned j hj hused := by
    have hbacking : s'.set.arenaBacking j = s.set.arenaBacking j := by
      rw [ClientSet.arenaBacking, hset.backing]
      rfl
    rw [hbacking]
    by_cases hji : j = i
    · subst hji
      exact howned hused
    · rw [hset.fds j hji] at hused ⊢
      rw [hset.conns j hji]
      exact h.owned j hj hused
  distinct := hdistinct
  counted := hcounted

theorem connectionInit_laidOut (slot : Connection) (backing : ℕ) (newFd : ℤ) :
    (connectionInit slot backing HTTP_CONN_ARENA_SIZE newFd).LaidOut backing := by
  have hmem := connectionInit_mem slot backing newFd
  simp only [Connection.LaidOut, Connection.layout, hmem, HttpBuffer.region]

theorem freeSlot_eq_some (h : freeSlot set = some i) :
    i ∈ clientSlots ∧ (set.pollFdSet i).fd = -1 :=
  ⟨List.mem_of_find?_eq_some h, by simpa using List.find?_some h⟩

/-- A descriptor that is accepted and closed at once. -/
theorem Server.Sound.refuse {s : Server σ} (h : s.Sound) (fd : ℤ) :
    ({ s with
      accepted := s.accepted ++ [fd]
      set := { s.set with closed := s.set.closed ++ [fd] } } : Server σ).Sound where
  free := h.free
  owned := h.owned
  distinct := h.distinct
  counted := by
    have hperm : (s.accepted ++ [fd]).Perm (s.set.closed ++ s.set.live ++ [fd]) :=
      h.counted.append_right [fd]
    refine hperm.trans ?_
    rw [List.append_assoc, List.append_assoc]
    exact List.perm_append_comm.append_left _

theorem Server.Sound.not_mem_live {s : Server σ} (h : s.Sound) {fd : ℤ} (hnew : ¬ s.Open fd) :
    fd ∉ s.set.live := by
  intro hmem
  have hcount := h.counted.count_eq fd
  have hpos := List.count_pos_iff.mpr hmem
  rw [List.count_append] at hcount
  apply hnew
  unfold Server.Open
  omega

theorem addToClientSet_slot (hfree : freeSlot set = some i) (fd : ℤ) :
    set.SameBut (addToClientSet set fd) i ∧ ((addToClientSet set fd).pollFdSet i).fd = fd ∧
      (addToClientSet set fd).conns i =
        connectionInit (set.conns i) (set.arenaBacking i) HTTP_CONN_ARENA_SIZE fd ∧
      (addToClientSet set fd).closed = set.closed := by
  unfold addToClientSet
  rw [hfree]
  exact ⟨⟨fun j hj => congrArg PollFd.fd (if_neg hj), fun j hj => if_neg hj, rfl⟩,
    congrArg PollFd.fd (if_pos rfl), if_pos rfl, rfl⟩

/-- A new client is given a free slot, or is refused. -/
theorem Server.Sound.add {s : Server σ} (h : s.Sound) {fd : ℤ} (hfd : 0 ≤ fd)
    (hnew : ¬ s.Open fd) :
    ({ s with accepted := s.accepted ++ [fd], set := addToClientSet s.set fd } : Server σ).Sound := by
  cases hfree : freeSlot s.set with
  | none =>
    unfold addToClientSet
    rw [hfree]
    exact h.refuse fd
  | some i =>
    obtain ⟨hi, hidle⟩ := freeSlot_eq_some hfree
    obtain ⟨hset, hown, hinit, hclosed⟩ := addToClientSet_slot hfree fd
    have hold : s.set.live.Perm (s.set.fdsOf (clientSlots.erase i)) := by
      have hperm := s.set.live_perm hi
      rwa [ClientSet.fdsOf_singleton, if_neg (by rw [hidle]; decide), List.nil_append] at hperm
    have hlive : (addToClientSet s.set fd).live.Perm
        (fd :: s.set.fdsOf (clientSlots.erase i)) := by
      have hperm := hset.live_perm hi
      rwa [ClientSet.fdsOf_singleton, hown, if_pos hfd] at hperm
    refine h.of_slot hset (fun hneg => ?_) (fun _ => ?_) ?_ ?_
    · dsimp only at hneg
      rw [hown] at hneg
      exact absurd hfd (not_le.mpr hneg)
    · dsimp only
      rw [hown, hinit]
      exact ⟨rfl, by simp [connectionInit], connectionInit_laidOut _ _ _⟩
    · exact hlive.nodup_iff.mpr (List.nodup_cons.mpr
        ⟨fun hmem => h.not_mem_live hnew (hold.mem_iff.mpr hmem), hold.nodup_iff.mp h.distinct⟩)
    · dsimp only
      rw [hclosed]
      have hmore : (s.set.closed ++ (addToClientSet s.set fd).live).Perm
          (s.set.closed ++ s.set.fdsOf (clientSlots.erase i) ++ [fd]) := by
        rw [List.append_assoc]
        exact (hlive.trans (List.perm_append_singleton fd _).symm).append_left _
      exact ((h.counted.trans (hold.append_left _)).append_right [fd]).trans hmore.symm

theorem clientSetAddNew_sound {s : Server σ} (h : s.Sound) {accepted : Option Accept}
    (hnew : ∀ new ∈ accepted, 0 ≤ new.fd ∧ ¬ s.Open new.fd) :
    (clientSetAddNew accepted s).Sound := by
  cases accepted with
  | none => exact h
  | some new =>
    obtain ⟨hfd, hclosed⟩ := hnew new rfl
    unfold clientSetAddNew
    dsimp only
    split
    · exact h.add hfd hclosed
    · exact h.refuse new.fd

/-- A step of a connection moves neither its descriptor nor its buffers. -/
theorem Connection.LaidOut.of_layout {conn conn' : Connection} {backing : ℕ}
    (h : conn.LaidOut backing) (hlayout : conn'.layout = conn.layout) :
    conn'.fd = conn.fd ∧ conn'.LaidOut backing := by
  have hfd : conn'.fd = conn.fd := congrArg Layout.fd hlayout
  refine ⟨hfd, ?_⟩
  rw [LaidOut, hfd, hlayout]
  exact h

theorem ClientSet.served_fd (set : ClientSet) (i : ℕ) (conn : Connection) (j : ℕ) :
    ((set.served i conn).pollFdSet j).fd = (set.pollFdSet j).fd := by
  unfold served
  dsimp only
  split <;> rfl

theorem ClientSet.served_sameBut (set : ClientSet) (i : ℕ) (conn : Connection) :
    set.SameBut (set.served i conn) i :=
  ⟨fun j _ => set.served_fd i conn j, fun _ hj => if_neg hj, rfl⟩

theorem connectionClose_sameBut (set : ClientSet) (i : ℕ) :
    set.SameBut (connectionClose set i) i :=
  ⟨fun _ hj => congrArg PollFd.fd (if_neg hj), fun _ _ => rfl, rfl⟩

theorem connectionClose_fd (set : ClientSet) (i : ℕ) :
    ((connectionClose set i).pollFdSet i).fd = -1 := congrArg PollFd.fd (if_pos rfl)

theorem serveSlot_sound (router : Router σ) (w : Wake σ) {s : Server σ} (h : s.Sound)
    (hi : i ∈ clientSlots) (hused : 0 ≤ (s.set.pollFdSet i).fd) :
    (serveSlot router i w s).Sound := by
  have hserves := h.owned i hi hused
  unfold serveSlot
  dsimp only
  have hlayout : (connectionStepProcess router
      (({ conn := s.set.conns i, world := s.world } : Machine σ).wake w)).conn.layout =
        (s.set.conns i).layout := stepProcessLoop_layout router _ _
  generalize connectionStepProcess router
    (({ conn := s.set.conns i, world := s.world } : Machine σ).wake w) = m at hlayout ⊢
  obtain ⟨hfd, hlaid⟩ := hserves.laid.of_layout hlayout
  have hset := s.set.served_sameBut i m.conn
  have hfds := s.set.served_fd i m.conn
  have hown : (s.set.served i m.conn).conns i = m.conn := if_pos rfl
  by_cases hphase : m.conn.phase = .closed
  · rw [if_pos hphase]
    -- the slot becomes free, and its descriptor is closed
    have hclose := hset.trans (connectionClose_sameBut _ i)
    have hidle := connectionClose_fd (s.set.served i m.conn) i
    have hold : s.set.live.Perm
        ((s.set.pollFdSet i).fd :: s.set.fdsOf (clientSlots.erase i)) := by
      have hperm := s.set.live_perm hi
      rwa [ClientSet.fdsOf_singleton, if_pos hused] at hperm
    have hleft : (connectionClose (s.set.served i m.conn) i).live.Perm
        (s.set.fdsOf (clientSlots.erase i)) := by
      have hperm := hclose.live_perm hi
      rwa [ClientSet.fdsOf_singleton, hidle, if_neg (by decide), List.nil_append] at hperm
    refine h.of_slot hclose (fun _ => hidle) (fun hnow => ?_) ?_ ?_
    · exact absurd (hidle ▸ hnow) (by decide)
    · exact hleft.nodup_iff.mpr (List.nodup_cons.mp (hold.nodup_iff.mp h.distinct)).2
    · have hclosed : (connectionClose (s.set.served i m.conn) i).closed =
          s.set.closed ++ [(s.set.pollFdSet i).fd] := by
        rw [← hfds i]
        rfl
      dsimp only
      rw [hclosed, List.append_assoc]
      refine h.counted.trans (List.Perm.append_left _ ?_)
      exact hold.trans (hleft.symm.cons _)
  · rw [if_neg hphase]
    have hlive : (s.set.served i m.conn).live = s.set.live :=
      ClientSet.fdsOf_congr fun j _ => hfds j
    refine h.of_slot hset (fun hneg => ?_) (fun _ => ?_) ?_ ?_
    · exact absurd hused (not_le.mpr (hfds i ▸ hneg))
    · dsimp only
      rw [hfds, hown]
      exact ⟨hfd.trans hserves.fd, hphase, hlaid⟩
    · exact hlive.symm ▸ h.distinct
    · dsimp only
      rw [hlive]
      exact h.counted

theorem serverTurn_sound (router : Router σ) (round : Round σ) {s : Server σ} (h : s.Sound)
    (hnew : ∀ new ∈ round.accepted, 0 ≤ new.fd ∧ ¬ s.Open new.fd) :
    (serverTurn router round s).Sound := by
  have hslots : ∀ slots : List ℕ, (∀ i ∈ slots, i ∈ clientSlots) → ∀ s : Server σ, s.Sound →
      (slots.foldl (fun s i =>
        match round.ready i with
        | none => s
        | some w => if (s.set.pollFdSet i).fd < 0 then s else serveSlot router i w s) s).Sound := by
    intro slots hmem
    induction slots with
    | nil => exact fun s hs => hs
    | cons i slots ih =>
      intro s hs
      obtain ⟨hi, hrest⟩ := List.forall_mem_cons.mp hmem
      rw [List.foldl_cons]
      apply ih hrest
      cases round.ready i with
      | none => exact hs
      | some w =>
        dsimp only
        split
        · exact hs
        · next hused => exact serveSlot_sound router w hs hi (not_lt.mp hused)
  exact hslots clientSlots (fun _ hi => hi) _ (clientSetAddNew_sound h hnew)

/-- The run lemma of `serverTurn_sound`. -/
theorem ServerReaches.sound {router : Router σ} {backing : ℕ} {world : World σ} {s : Server σ}
    (h : ServerReaches router backing world s) : s.Sound := by
  refine Runs.invariant Server.Sound h ?_ fun a b _ ha hnext => ?_
  · refine ⟨fun i _ _ => rfl, fun i _ hused => ?_, ?_, ?_⟩
    · exact absurd (show (0 : ℤ) ≤ -1 from hused) (by decide)
    · exact (by decide : (({} : ClientSet).live).Nodup)
    · exact (by decide : ([] : List ℤ).Perm ([] ++ ({} : ClientSet).live))
  · obtain ⟨round, hnew, rfl⟩ := hnext
    exact serverTurn_sound router round ha hnew

/-! ## Where the buffers are -/

/-- The addresses of a buffer, up to its capacity. -/
def HttpBuffer.addresses (b : HttpBuffer) : Set ℕ :=
  {p | ∃ a, b.address = some a ∧ a ≤ p ∧ p < a + b.cap}

def Connection.buffers (conn : Connection) : List HttpBuffer :=
  [conn.mem.reqBuf, conn.mem.respBuf, conn.mem.bodyDechunked]

theorem HttpBuffer.addresses_of_region {b : HttpBuffer} {a n : ℕ} (h : b.region = (some a, n)) :
    b.address = some a ∧ b.cap = n ∧ b.addresses = Set.Ico a (a + n) := by
  obtain ⟨haddress, hcap⟩ := Prod.mk.inj h
  refine ⟨haddress, hcap, Set.ext fun p => ?_⟩
  rw [Set.mem_Ico]
  constructor
  · rintro ⟨a', ha', hlow, hhigh⟩
    obtain rfl : a = a' := Option.some.inj (haddress.symm.trans ha')
    exact ⟨hlow, hcap ▸ hhigh⟩
  · rintro ⟨hlow, hhigh⟩
    exact ⟨a, haddress, hlow, hcap ▸ hhigh⟩

/-- The buffers of a connection, in the backing memory of its slot. -/
structure Connection.Placed (conn : Connection) (backing : ℕ) : Prop where
  caps : conn.buffers.map HttpBuffer.cap =
    [HTTP_MAX_REQUEST_LEN, HTTP_RESPONSE_BUFFER_SIZE, HTTP_MAX_DECHUNK_SIZE]
  inside : ∀ b ∈ conn.buffers,
    b.address.isSome ∧ b.addresses ⊆ Set.Ico backing (backing + HTTP_CONN_ARENA_SIZE)
  apart : conn.buffers.Pairwise fun b b' => Disjoint b.addresses b'.addresses

theorem Connection.LaidOut.placed {conn : Connection} {backing : ℕ} (h : conn.LaidOut backing) :
    conn.Placed backing := by
  obtain ⟨hreq, hreqCap, hreqAt⟩ :=
    HttpBuffer.addresses_of_region (congrArg Layout.request h : conn.mem.reqBuf.region = _)
  obtain ⟨hresp, hrespCap, hrespAt⟩ :=
    HttpBuffer.addresses_of_region (congrArg Layout.response h : conn.mem.respBuf.region = _)
  obtain ⟨hbody, hbodyCap, hbodyAt⟩ :=
    HttpBuffer.addresses_of_region (congrArg Layout.dechunked h : conn.mem.bodyDechunked.region = _)
  have hsize : HTTP_CONN_ARENA_SIZE = HTTP_MAX_REQUEST_LEN + HTTP_RESPONSE_BUFFER_SIZE +
      HTTP_MAX_DECHUNK_SIZE + HTTP_ARENA_SLACK := rfl
  refine ⟨?_, ?_, ?_⟩
  · simp only [buffers, List.map_cons, List.map_nil, hreqCap, hrespCap, hbodyCap]
  · simp only [buffers, List.forall_mem_cons, List.not_mem_nil, false_implies, implies_true,
      and_true, hreq, hresp, hbody, hreqAt, hrespAt, hbodyAt, Option.isSome_some, true_and]
    refine ⟨?_, ?_, ?_⟩
    · exact Set.Ico_subset_Ico (by omega) (by omega)
    · exact Set.Ico_subset_Ico (by omega) (by omega)
    · exact Set.Ico_subset_Ico (by omega) (by omega)
  · simp only [buffers, List.pairwise_cons, List.mem_cons, List.not_mem_nil, or_false,
      forall_eq_or_imp, forall_eq, false_implies, implies_true, List.Pairwise.nil, and_true,
      hreqAt, hrespAt, hbodyAt, Set.Ico_disjoint_Ico]
    omega

theorem arenaBacking_disjoint (set : ClientSet) {j : ℕ} (hi : i ∈ clientSlots)
    (hj : j ∈ clientSlots) (hne : i ≠ j) :
    Disjoint (Set.Ico (set.arenaBacking i) (set.arenaBacking i + HTTP_CONN_ARENA_SIZE))
      (Set.Ico (set.arenaBacking j) (set.arenaBacking j + HTTP_CONN_ARENA_SIZE)) := by
  obtain ⟨a, -, rfl⟩ := List.mem_map.mp hi
  obtain ⟨b, -, rfl⟩ := List.mem_map.mp hj
  have hab : a < b ∨ b < a := by omega
  rw [Set.Ico_disjoint_Ico]
  unfold ClientSet.arenaBacking
  rw [Nat.add_sub_cancel, Nat.add_sub_cancel]
  rcases hab with hab | hab
  · have hstep : (a + 1) * HTTP_CONN_ARENA_SIZE ≤ b * HTTP_CONN_ARENA_SIZE :=
      Nat.mul_le_mul_right _ hab
    rw [Nat.add_mul, Nat.one_mul] at hstep
    omega
  · have hstep : (b + 1) * HTTP_CONN_ARENA_SIZE ≤ a * HTTP_CONN_ARENA_SIZE :=
      Nat.mul_le_mul_right _ hab
    rw [Nat.add_mul, Nat.one_mul] at hstep
    omega

def ClientSet.liveSlots (set : ClientSet) : List ℕ :=
  clientSlots.filter fun i => 0 ≤ (set.pollFdSet i).fd

/-- What holds of the client set whenever `poll` is called. -/
structure Server.Invariant (s : Server σ) : Prop where
  owned : ∀ i ∈ s.set.liveSlots,
    (s.set.conns i).fd = (s.set.pollFdSet i).fd ∧ (s.set.conns i).phase ≠ .closed
  one_slot : ∀ i ∈ s.set.liveSlots, ∀ j ∈ s.set.liveSlots,
    (s.set.pollFdSet i).fd = (s.set.pollFdSet j).fd → i = j
  accounted : s.accepted.Perm
    (s.set.closed ++ s.set.liveSlots.map fun i => (s.set.pollFdSet i).fd)
  placed : ∀ i ∈ s.set.liveSlots, (s.set.conns i).Placed (s.set.arenaBacking i)
  apart : (s.set.liveSlots.flatMap fun i => (s.set.conns i).buffers).Pairwise
    fun b b' => Disjoint b.addresses b'.addresses

theorem ClientSet.live_eq (set : ClientSet) :
    set.live = set.liveSlots.map fun i => (set.pollFdSet i).fd := by
  rw [live, fdsOf, List.filter_map]
  rfl

theorem Server.Sound.invariant {s : Server σ} (h : s.Sound) : s.Invariant := by
  have hserves : ∀ i ∈ s.set.liveSlots,
      (s.set.conns i).Serves (s.set.pollFdSet i).fd (s.set.arenaBacking i) := by
    intro i hi
    obtain ⟨hslot, hused⟩ := List.mem_filter.mp hi
    exact h.owned i hslot (by simpa using hused)
  have hslots : s.set.liveSlots.Nodup := clientSlots_nodup.filter _
  refine ⟨fun i hi => ⟨(hserves i hi).fd, (hserves i hi).unclosed⟩, ?_, ?_,
    fun i hi => (hserves i hi).laid.placed, ?_⟩
  · have hdistinct := h.distinct
    rw [ClientSet.live_eq] at hdistinct
    exact fun i hi j hj heq => List.inj_on_of_nodup_map hdistinct hi hj heq
  · rw [← ClientSet.live_eq]
    exact h.counted
  · rw [List.pairwise_flatMap]
    refine ⟨fun i hi => (hserves i hi).laid.placed.apart, ?_⟩
    refine hslots.imp_of_mem fun hi hj hne b hb b' hb' => ?_
    have hin := ((hserves _ hi).laid.placed.inside b hb).2
    have hin' := ((hserves _ hj).laid.placed.inside b' hb').2
    exact (arenaBacking_disjoint s.set (List.mem_of_mem_filter hi) (List.mem_of_mem_filter hj)
      hne).mono hin hin'

/-- In every run of the server, for every router and every place of the backing memory. -/
theorem client_set_invariant (router : Router σ) (backing : ℕ) (world : World σ) (s : Server σ)
    (hreaches : ServerReaches router backing world s) : s.Invariant :=
  hreaches.sound.invariant

def hangUp : Round Unit :=
  { ready := fun i => if i = 1 then some { recvs := [.data []] } else none }

/-- Two clients have been accepted, and then the first one has hung up. -/
def firstHungUp : Server Unit :=
  [{ accepted := some { fd := 5 } }, { accepted := some { fd := 6 } }, hangUp].foldl
    (fun s round => serverTurn {} round s)
    { set := { backing := 4096 }, world := { handlers := () } }

theorem client_set_invariant_closed :
    firstHungUp.set.liveSlots = [2] ∧
      firstHungUp.set.closed = [5] ∧ firstHungUp.Invariant := by
  refine ⟨by decide +kernel, by decide +kernel,
    client_set_invariant {} 4096 { handlers := () } firstHungUp ?_⟩
  refine .tail (.tail (.tail .refl ⟨{ accepted := some { fd := 5 } }, ?_, rfl⟩)
    ⟨{ accepted := some { fd := 6 } }, ?_, rfl⟩) ⟨hangUp, ?_, rfl⟩
  · intro new hnew
    obtain rfl : ({ fd := 5 } : Accept) = new := Option.some.inj hnew
    exact ⟨by decide, by simp [Server.Open]⟩
  · intro new hnew
    obtain rfl : ({ fd := 6 } : Accept) = new := Option.some.inj hnew
    refine ⟨by decide, ?_⟩
    unfold Server.Open
    decide +kernel
  · exact fun new hnew => (nomatch hnew)

end HttpServer
