import HttpServer.ConnectionBounds
import HttpServer.Networking
import Mathlib.Algebra.Order.Floor.Div
import Mathlib.Order.CompletePartialOrder
import Mathlib.Order.Interval.Set.Basic

/-!
# The blocks of an arena

A run of `arena_alloc`, `arena_mark` and `arena_reset_to` together with the blocks that
have been handed out and not rewound since. The cursor is never below the end of such
a block, so no later block overlaps it.
-/

namespace HttpServer

open Relation

variable {arena : Arena} {base cap n k : ℕ}

/-! ## Rounding up -/

/-- The next multiple of `align`, without any bound on its size. -/
def roundUp (used align : ℕ) : ℕ := used ⌈/⌉ align * align

theorem le_roundUp (used k : ℕ) : used ≤ roundUp used (2 ^ k) := by
  rw [roundUp, mul_comm]
  exact le_smul_ceilDiv (Nat.two_pow_pos k)

theorem arenaAligned_eq_roundUp {used : ℕ} (hk : k < 64) (hused : used + (2 ^ k - 1) < 2 ^ 64) :
    arenaAligned used (2 ^ k) = roundUp used (2 ^ k) := by
  have hpos : 0 < 2 ^ k := Nat.two_pow_pos k
  rw [arenaAligned_eq hk hused, roundUp, Nat.ceilDiv_eq_add_pred_div,
    Nat.add_sub_assoc (Nat.succ_le_of_lt hpos)]

/-- What a call does, and when: the subtraction of the bounds check does not hide an overflow. -/
theorem arenaAlloc_cases (hk : k < 64) (hcap : arena.cap ≤ 2 ^ 63 - 1)
    (hused : arena.used ≤ arena.cap) (n : ℕ) :
    (arena.cap < roundUp arena.used (2 ^ k) + n ∧ arenaAlloc arena n (2 ^ k) = (none, arena)) ∨
    (roundUp arena.used (2 ^ k) + n ≤ arena.cap ∧ arenaAlloc arena n (2 ^ k) =
      (some (arena.base + roundUp arena.used (2 ^ k)),
        { arena with used := roundUp arena.used (2 ^ k) + n })) := by
  have hpow : 2 ^ k ≤ 2 ^ 63 := Nat.pow_le_pow_right (by decide) (by omega)
  have haligned : arenaAligned arena.used (2 ^ k) = roundUp arena.used (2 ^ k) :=
    arenaAligned_eq_roundUp hk (by omega)
  unfold arenaAlloc
  rw [haligned]
  generalize roundUp arena.used (2 ^ k) = aligned
  by_cases hfits : aligned + n ≤ arena.cap
  · refine .inr ⟨hfits, if_neg ?_⟩
    simp only [Bool.or_eq_true, decide_eq_true_eq, not_or]
    omega
  · refine .inl ⟨by omega, if_pos ?_⟩
    simp only [Bool.or_eq_true, decide_eq_true_eq]
    omega

/-! ## Runs -/

/-- An address and the size that was asked for. -/
structure Block where
  start : ℕ
  size : ℕ

def Block.fin (b : Block) : ℕ := b.start + b.size

def Block.range (b : Block) : Set ℕ := Set.Ico b.start b.fin

theorem Block.disjoint_of_le {b b' : Block} (h : b.fin ≤ b'.start) :
    Disjoint b.range b'.range :=
  Set.disjoint_left.mpr fun _ hb hb' => Nat.not_lt.mpr (h.trans hb'.1) hb.2

/-- An arena with the blocks that have been handed out and not rewound since. -/
structure ArenaHistory where
  arena : Arena
  live : List Block := []

def ArenaHistory.alloc (h : ArenaHistory) (n align : ℕ) : ArenaHistory where
  arena := (arenaAlloc h.arena n align).2
  live := ((arenaAlloc h.arena n align).1.map fun start => ⟨start, n⟩).toList ++ h.live

/-- A block is rewound by a reset to a mark below its end. -/
def ArenaHistory.resetTo (h : ArenaHistory) (mark : ℕ) : ArenaHistory where
  arena := arenaResetTo h.arena mark
  live := h.live.filter fun b => b.fin ≤ h.arena.base + mark

inductive ArenaStep : ArenaHistory → ArenaHistory → Prop where
  | alloc {h} (n : ℕ) {k : ℕ} (hk : k < 64) : ArenaStep h (h.alloc n (2 ^ k))
  | mark {h} : ArenaStep h h
  | resetTo {h : ArenaHistory} {mark : ℕ} (hmark : mark ≤ arenaMark h.arena) :
      ArenaStep h (h.resetTo mark)

/-- The run begins with `arena_init`. -/
def ArenaHistory.start (base cap : ℕ) : ArenaHistory where
  arena := arenaInit base cap

/-! ## The invariant -/

structure ArenaHistory.Sound (base cap : ℕ) (h : ArenaHistory) : Prop where
  base_eq : h.arena.base = base
  cap_eq : h.arena.cap = cap
  used_le : h.arena.used ≤ cap
  begins : ∀ b ∈ h.live, base ≤ b.start
  ends : ∀ b ∈ h.live, b.fin ≤ base + h.arena.used
  disjoint : h.live.Pairwise fun b b' => Disjoint b.range b'.range

variable {h h' : ArenaHistory}

theorem ArenaHistory.start_sound (base cap : ℕ) : (start base cap).Sound base cap where
  base_eq := rfl
  cap_eq := rfl
  used_le := Nat.zero_le cap
  begins := nofun
  ends := nofun
  disjoint := .nil

/-- A block behind the cursor is behind all the others. -/
theorem ArenaHistory.Sound.push (hsound : h.Sound base cap) {offset : ℕ}
    (hoffset : h.arena.used ≤ offset) (hfits : offset + n ≤ cap) :
    ArenaHistory.Sound base cap
      { arena := { h.arena with used := offset + n }
        live := ⟨h.arena.base + offset, n⟩ :: h.live } := by
  obtain ⟨rfl, rfl, hused, hbegins, hends, hdisjoint⟩ := hsound
  refine ⟨rfl, rfl, hfits, ?_, ?_, ?_⟩
  · intro b hb
    rcases List.mem_cons.mp hb with rfl | hb
    · exact Nat.le_add_right _ _
    · exact hbegins b hb
  · intro b hb
    rcases List.mem_cons.mp hb with rfl | hb
    · exact (Nat.add_assoc ..).le
    · have hend := hends b hb
      dsimp only
      omega
  · refine List.pairwise_cons.mpr ⟨fun b hb => ?_, hdisjoint⟩
    have hend := hends b hb
    apply Disjoint.symm
    apply Block.disjoint_of_le
    dsimp only
    omega

theorem ArenaHistory.Sound.alloc (hsound : h.Sound base cap) (hcap : cap ≤ 2 ^ 63 - 1) (n : ℕ)
    (hk : k < 64) : (h.alloc n (2 ^ k)).Sound base cap := by
  have hused := hsound.used_le
  rw [← hsound.cap_eq] at hcap hused
  unfold ArenaHistory.alloc
  rcases arenaAlloc_cases hk hcap hused n with ⟨-, heq⟩ | ⟨hfits, heq⟩
  · rw [heq]
    exact hsound
  · rw [heq]
    exact hsound.push (le_roundUp h.arena.used k) (hfits.trans hsound.cap_eq.le)

theorem ArenaHistory.Sound.resetTo (hsound : h.Sound base cap) {mark : ℕ}
    (hmark : mark ≤ h.arena.used) : (h.resetTo mark).Sound base cap := by
  obtain ⟨rfl, rfl, hused, hbegins, hends, hdisjoint⟩ := hsound
  refine ⟨rfl, rfl, hmark.trans hused, ?_, ?_, hdisjoint.sublist List.filter_sublist⟩
  · exact fun b hb => hbegins b (List.mem_of_mem_filter hb)
  · exact fun b hb => of_decide_eq_true (List.mem_filter.mp hb).2

theorem ArenaStep.sound (hstep : ArenaStep h h') (hcap : cap ≤ 2 ^ 63 - 1)
    (hsound : h.Sound base cap) : h'.Sound base cap := by
  cases hstep with
  | alloc n hk => exact hsound.alloc hcap n hk
  | mark => exact hsound
  | resetTo hmark => exact hsound.resetTo hmark

theorem arenaRun_sound (hcap : cap ≤ 2 ^ 63 - 1)
    (hrun : ReflTransGen ArenaStep (.start base cap) h) : h.Sound base cap := by
  induction hrun with
  | refl => exact ArenaHistory.start_sound base cap
  | tail _ hstep ih => exact hstep.sound hcap ih

/-- After any run the blocks lie inside the arena and do not overlap, and a call fails exactly when
the block does not fit, however large the numbers are. -/
theorem arenaRun_blocks (hcap : cap ≤ 2 ^ 63 - 1)
    (hrun : ReflTransGen ArenaStep (.start base cap) h) :
    h.arena.used ≤ cap ∧
    (∀ b ∈ h.live, base ≤ b.start ∧ b.start + b.size ≤ base + cap) ∧
    h.live.Pairwise (fun b b' => Disjoint b.range b'.range) ∧
    ∀ n k, k < 64 →
      ((arenaAlloc h.arena n (2 ^ k)).1 = none ↔ cap < roundUp h.arena.used (2 ^ k) + n) ∧
      ((arenaAlloc h.arena n (2 ^ k)).1 = none → (arenaAlloc h.arena n (2 ^ k)).2 = h.arena) := by
  obtain ⟨rfl, rfl, hused, hbegins, hends, hdisjoint⟩ := arenaRun_sound hcap hrun
  refine ⟨hused, fun b hb => ⟨hbegins b hb, ?_⟩, hdisjoint, fun n k hk => ?_⟩
  · have hend := hends b hb
    unfold Block.fin at hend
    omega
  · rcases arenaAlloc_cases hk hcap hused n with ⟨hlarge, heq⟩ | ⟨hfits, heq⟩
    · rw [heq]
      exact ⟨iff_of_true rfl hlarge, fun _ => rfl⟩
    · rw [heq]
      exact ⟨iff_of_false nofun (Nat.not_lt.mpr hfits), nofun⟩

/-- Two blocks, of which the second is rewound and a third takes its place. -/
theorem arenaRun_blocks_reused :
    let h := ((((ArenaHistory.start 4096 64).alloc 10 (2 ^ 0)).alloc 20 (2 ^ 3)).resetTo 16).alloc 8
      (2 ^ 3)
    h.arena.used ≤ 64 ∧
    (∀ b ∈ h.live, 4096 ≤ b.start ∧ b.start + b.size ≤ 4096 + 64) ∧
    h.live.Pairwise (fun b b' => Disjoint b.range b'.range) ∧
    ∀ n k, k < 64 →
      ((arenaAlloc h.arena n (2 ^ k)).1 = none ↔ 64 < roundUp h.arena.used (2 ^ k) + n) ∧
      ((arenaAlloc h.arena n (2 ^ k)).1 = none → (arenaAlloc h.arena n (2 ^ k)).2 = h.arena) := by
  refine arenaRun_blocks (by decide) ?_
  apply ReflTransGen.tail _ (.alloc 8 (k := 3) (by decide))
  apply ReflTransGen.tail _ (.resetTo (by decide +kernel))
  apply ReflTransGen.tail _ (.alloc 20 (k := 3) (by decide))
  exact ReflTransGen.refl.tail (.alloc 10 (k := 0) (by decide))

/-! ## Alignment -/

/-- The last assertion of `arena_alloc`, about the address it is going to return. -/
def arenaAllocAsserts (p align : ℕ) : Bool := p &&& (align - 1) == 0

theorem arenaAllocAsserts_iff {p : ℕ} : arenaAllocAsserts p (2 ^ k) = true ↔ 2 ^ k ∣ p := by
  rw [arenaAllocAsserts, beq_iff_eq, Nat.and_two_pow_sub_one_eq_mod, Nat.dvd_iff_mod_eq_zero]

/-- The offset is a multiple even where rounding up has wrapped. -/
theorem two_pow_dvd_arenaAligned (used : ℕ) (hk : k < 64) : 2 ^ k ∣ arenaAligned used (2 ^ k) := by
  rw [arenaAligned, and_mask_eq hk (Nat.mod_lt _ (Nat.two_pow_pos 64))]
  exact Nat.dvd_mul_left _ _

/-- Every address that a call with these arguments can return passes the assertion. -/
def Arena.AllocAligned (arena : Arena) (n align : ℕ) : Prop :=
  ∀ p, (arenaAlloc arena n align).1 = some p → align ∣ p ∧ arenaAllocAsserts p align = true

theorem allocAligned_iff (arena : Arena) (n : ℕ) (hk : k < 64) : arena.AllocAligned n (2 ^ k) ↔
    2 ^ k ∣ arena.base ∨ arena.cap < arenaAligned arena.used (2 ^ k) + n := by
  have hdvd := two_pow_dvd_arenaAligned arena.used hk
  unfold Arena.AllocAligned arenaAlloc
  dsimp only
  generalize arenaAligned arena.used (2 ^ k) = aligned at hdvd
  by_cases hfits : aligned + n ≤ arena.cap
  · have hroom : ¬ (decide (aligned > arena.cap) || decide (n > arena.cap - aligned)) = true := by
      simp only [Bool.or_eq_true, decide_eq_true_eq, not_or]
      omega
    rw [if_neg hroom, or_iff_left (Nat.not_lt.mpr hfits)]
    constructor
    · intro h
      exact (Nat.dvd_add_iff_left hdvd).mpr (h _ rfl).1
    · intro hbase p hp
      obtain rfl := Option.some.inj hp
      have haligned := Nat.dvd_add hbase hdvd
      exact ⟨haligned, arenaAllocAsserts_iff.mpr haligned⟩
  · have hfull : (decide (aligned > arena.cap) || decide (n > arena.cap - aligned)) = true := by
      simp only [Bool.or_eq_true, decide_eq_true_eq]
      omega
    rw [if_pos hfull]
    exact iff_of_true nofun (.inr (Nat.not_le.mp hfits))

/-- `arena_backing[i - 1]` when `stride` is the size of the arena of a connection. -/
def slotBase (backing stride i : ℕ) : ℕ := backing + (i - 1) * stride

theorem slotBase_aligned_iff {backing stride align : ℕ} :
    (∀ i, 1 ≤ i → i ≤ HTTP_MAX_CONNECTIONS → align ∣ slotBase backing stride i) ↔
      align ∣ backing ∧ align ∣ stride := by
  constructor
  · intro h
    have hfirst : align ∣ backing := by simpa [slotBase] using h 1 le_rfl (by decide)
    have hsecond : align ∣ backing + stride := by
      simpa [slotBase] using h 2 (by decide) (by decide)
    exact ⟨hfirst, (Nat.dvd_add_iff_right hfirst).mpr hsecond⟩
  · rintro ⟨hbacking, hstride⟩ i - -
    exact Nat.dvd_add hbacking (Nat.dvd_mul_left_of_dvd hstride _)

theorem arenaAlloc_base (arena : Arena) (n align : ℕ) :
    (arenaAlloc arena n align).2.base = arena.base := by
  unfold arenaAlloc
  dsimp only
  split <;> rfl

theorem bufferInit_base (buffer : HttpBuffer) (arena : Arena) (len : ℕ) :
    (bufferInit buffer arena len).2.base = arena.base := arenaAlloc_base arena len 1

theorem connectionInit_base (conn : Connection) (backing backingCap : ℕ) (newFd : ℤ) :
    (connectionInit conn backing backingCap newFd).mem.arena.base = backing := by
  unfold connectionInit
  dsimp only
  rw [bufferInit_base, bufferInit_base, bufferInit_base]
  rfl

theorem addToClientSet_base {set : ClientSet} {i : ℕ} (h : freeSlot set = some i) (newFd : ℤ) :
    ((addToClientSet set newFd).conns i).mem.arena.base =
      slotBase set.backing HTTP_CONN_ARENA_SIZE i := by
  unfold addToClientSet
  rw [h]
  dsimp only
  rw [if_pos rfl]
  exact connectionInit_base ..

/-- For any region, and for the slots of any array of regions: what an arena hands out is aligned
where the region is. -/
theorem allocAligned_iff_base (hk : k < 64) :
    (∀ (arena : Arena) (n : ℕ), arena.AllocAligned n (2 ^ k) ↔
      2 ^ k ∣ arena.base ∨ arena.cap < arenaAligned arena.used (2 ^ k) + n) ∧
    (∀ backing stride, (∀ i, 1 ≤ i → i ≤ HTTP_MAX_CONNECTIONS → ∀ used n,
        Arena.AllocAligned ⟨slotBase backing stride i, stride, used⟩ n (2 ^ k)) ↔
      2 ^ k ∣ backing ∧ 2 ^ k ∣ stride) ∧
    ∀ set newFd i, freeSlot set = some i →
      ((addToClientSet set newFd).conns i).mem.arena.base =
        slotBase set.backing HTTP_CONN_ARENA_SIZE i := by
  refine ⟨fun arena n => allocAligned_iff arena n hk, fun backing stride => ?_,
    fun set newFd i h => addToClientSet_base h newFd⟩
  rw [← slotBase_aligned_iff]
  refine forall₃_congr fun i hfirst hlast => ⟨fun h => ?_, fun hbase used n => ?_⟩
  · -- a block without bytes at the very beginning
    have hzero : arenaAligned 0 (2 ^ k) = 0 := by
      have hpow : 2 ^ k ≤ 2 ^ 63 := Nat.pow_le_pow_right (by decide) (by omega)
      rw [arenaAligned_eq hk (by omega), Nat.zero_add,
        Nat.div_eq_of_lt (Nat.sub_lt (Nat.two_pow_pos k) Nat.one_pos), Nat.zero_mul]
    refine ((allocAligned_iff _ 0 hk).mp (h 0 0)).resolve_right ?_
    rw [hzero]
    exact Nat.not_lt_zero _
  · exact (allocAligned_iff _ n hk).mpr (.inl hbase)

theorem allocAligned_iff_base_page : Arena.AllocAligned (arenaInit 4096 256) 10 (2 ^ 4) :=
  ((allocAligned_iff_base (by decide)).1 (arenaInit 4096 256) 10).mpr (.inl (by decide))

/-- A region that begins between two multiples of 16. -/
theorem arenaAlloc_misaligned : (arenaAlloc (arenaInit 4104 256) 16 16).1 = some 4104 ∧
    ¬ 16 ∣ 4104 ∧ arenaAllocAsserts 4104 16 = false := by
  decide +kernel

end HttpServer
