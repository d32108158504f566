import HttpServer.Types

/-!
# The bump allocator

`Arena.c`. Sizes and the cursor are `size_t`, so rounding up wraps modulo
`2 ^ 64`; a pointer is a plain address.
-/

namespace HttpServer

def arenaInit (mem cap : ℕ) : Arena := { base := mem, cap := cap, used := 0 }

def arenaMark (arena : Arena) : ℕ := arena.used

def arenaResetTo (arena : Arena) (mark : ℕ) : Arena := { arena with used := mark }

/-- The cursor rounded up: `(used + (align - 1)) & ~(align - 1)`. -/
def arenaAligned (used align : ℕ) : ℕ :=
  (used + (align - 1)) % 2 ^ 64 &&& (SIZE_MAX ^^^ (align - 1))

/-- `none` is the `NULL` result. -/
def arenaAlloc (arena : Arena) (n align : ℕ) : Option ℕ × Arena :=
  let aligned := arenaAligned arena.used align
  if aligned > arena.cap || n > arena.cap - aligned then (none, arena)
  else (some (arena.base + aligned), { arena with used := aligned + n })

end HttpServer
