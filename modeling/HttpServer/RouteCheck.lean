import HttpServer.Router
import HttpServer.Turns
import Mathlib.Data.List.Nodup
import Mathlib.Data.List.Perm.Basic

/-!
# The startup check of the route table

`router_has_duplicate_routes` over a table whose strings are somewhere in memory. Its
indices are `int`, the number of routes a `size_t`. The check calls every table of
three or more routes a duplicate, and it compares the method with `GET` by address.
-/

namespace HttpServer

variable {σ : Type*}

/-! ## `router_has_duplicate_routes` -/

def INT_MAX : ℕ := 2 ^ 31 - 1

/-- The strings of the program by their addresses. `methodGet` is the address that
`http_method_show(GET)` returns. -/
structure Strings where
  load : ℕ → Bytes
  methodGet : ℕ
  load_methodGet : load methodGet = httpMethodShow .get

/-- An entry of the table as it is stored. -/
structure StoredRoute (σ : Type*) where
  method : ℕ
  path : ℕ
  handler : HandlerFn σ
  data : Option ℕ := none

def StoredRoute.route (strings : Strings) (stored : StoredRoute σ) : Route σ where
  method := strings.load stored.method
  path := strings.load stored.path
  handler := stored.handler
  data := stored.data

/-- A loop over the elements from the index `i` on that returns at the first hit. `none` is an
index past `INT_MAX`, which is undefined. -/
def intLoop {α : Type*} (hit : α → Bool) : ℕ → List α → Option Bool
  | _, [] => some false
  | i, a :: rest =>
    if hit a then some true
    else if i = INT_MAX then none
    else intLoop hit (i + 1) rest

/-- The body of the first loop. -/
def StoredRoute.shadowed (strings : Strings) (registry : ContentRegistry) (route : StoredRoute σ) :
    Bool :=
  route.method == strings.methodGet && (dictFind registry (strings.load route.path)).isSome

/-- The comparison of the inner loop. -/
def StoredRoute.same (strings : Strings) (route1 route2 : StoredRoute σ) : Bool :=
  strings.load route1.path == strings.load route2.path &&
    strings.load route1.method == strings.load route2.method

/-- The outer loop from the index `i` on, with so many turns to go. The inner one starts at 1, and
`route1` is read only when there is a `route2`. -/
def duplicateLoop (strings : Strings) (routes : List (StoredRoute σ)) : ℕ → ℕ → Option Bool
  | 0, _ => some false
  | turns + 1, i =>
    match intLoop (fun route2 => routes[i]?.any (·.same strings route2)) 1 (routes.drop 1) with
    | none => none
    | some true => some true
    | some false => if i = INT_MAX then none else duplicateLoop strings routes turns (i + 1)

/-- `route_count - 1` is unsigned. -/
def routerHasDuplicateRoutes (strings : Strings) (registry : ContentRegistry)
    (routes : List (StoredRoute σ)) : Option Bool :=
  match intLoop (StoredRoute.shadowed strings registry) 0 routes with
  | none => none
  | some true => some true
  | some false => duplicateLoop strings routes (wrapSub routes.length 1) 0

variable {strings : Strings} {registry : ContentRegistry} {routes : List (StoredRoute σ)}

/-! ## When the check passes -/

theorem intLoop_false_iff {α : Type*} {hit : α → Bool} {i : ℕ} {l : List α} (hi : i ≤ INT_MAX) :
    intLoop hit i l = some false ↔ (∀ a ∈ l, hit a = false) ∧ i + l.length ≤ INT_MAX := by
  induction l generalizing i with
  | nil => simpa [intLoop] using hi
  | cons a rest ih =>
    rw [intLoop, List.forall_mem_cons, List.length_cons]
    by_cases hhit : hit a = true
    · simp [hhit]
    · rw [if_neg hhit]
      by_cases hlast : i = INT_MAX
      · rw [if_pos hlast]
        refine iff_of_false (by simp) fun h => ?_
        omega
      · rw [if_neg hlast, ih (by omega)]
        have hsum : i + 1 + rest.length = i + (rest.length + 1) := by omega
        rw [hsum]
        simp [hhit]

theorem duplicateLoop_false_iff (turns i : ℕ) (hi : i ≤ INT_MAX) :
    duplicateLoop strings routes turns i = some false ↔
      (∀ k < turns, intLoop (fun route2 => routes[i + k]?.any (·.same strings route2)) 1
        (routes.drop 1) = some false) ∧ i + turns ≤ INT_MAX := by
  induction turns generalizing i with
  | zero => simpa [duplicateLoop] using hi
  | succ turns ih =>
    have hsplit : (∀ k < turns + 1, intLoop (fun route2 => routes[i + k]?.any (·.same strings route2))
          1 (routes.drop 1) = some false) ↔
        intLoop (fun route2 => routes[i]?.any (·.same strings route2)) 1 (routes.drop 1) =
          some false ∧
        ∀ k < turns, intLoop (fun route2 => routes[i + 1 + k]?.any (·.same strings route2)) 1
          (routes.drop 1) = some false := by
      rw [Nat.forall_lt_succ_left]
      simp only [Nat.add_zero, Nat.add_assoc, Nat.add_comm 1]
    rw [hsplit, duplicateLoop]
    generalize intLoop (fun route2 => routes[i]?.any (·.same strings route2)) 1 (routes.drop 1) =
      first
    rcases first with _ | _ | _
    · simp
    · by_cases hlast : i = INT_MAX
      · simp only [hlast, if_true]
        refine iff_of_false (by simp) fun h => ?_
        omega
      · simp only [hlast, if_false]
        rw [ih (i + 1) (by omega), true_and]
        have hsum : i + 1 + turns = i + (turns + 1) := by omega
        rw [hsum]
    · simp

theorem routerHasDuplicateRoutes_loops :
    routerHasDuplicateRoutes strings registry routes = some false ↔
      intLoop (StoredRoute.shadowed strings registry) 0 routes = some false ∧
        duplicateLoop strings routes (wrapSub routes.length 1) 0 = some false := by
  unfold routerHasDuplicateRoutes
  cases intLoop (StoredRoute.shadowed strings registry) 0 routes with
  | none => simp
  | some found => cases found <;> simp

theorem StoredRoute.same_self (route : StoredRoute σ) : route.same strings route = true := by
  simp [same]

/-- The check passes no table but those of one or two routes: from three on it compares the second
with itself, and for none `route_count - 1` wraps. -/
theorem routerHasDuplicateRoutes_false_iff (hcount : routes.length < 2 ^ 64) :
    routerHasDuplicateRoutes strings registry routes = some false ↔
      (routes.length = 1 ∨ routes.length = 2) ∧
        (∀ route ∈ routes, route.shadowed strings registry = false) ∧
        routes.Pairwise fun route1 route2 => route1.same strings route2 = false := by
  have hmax : INT_MAX = 2147483647 := rfl
  rw [routerHasDuplicateRoutes_loops, intLoop_false_iff (Nat.zero_le _),
    duplicateLoop_false_iff _ 0 (Nat.zero_le _)]
  match routes with
  | [] =>
    refine iff_of_false (fun h => ?_) (by simp)
    have hturns : 0 + wrapSub 0 1 ≤ INT_MAX := h.2.2
    exact absurd hturns (by decide)
  | [route] =>
    have hzero : wrapSub 1 1 = 0 := by decide
    rw [List.length_singleton, hzero]
    simp [hmax]
  | [first, second] =>
    have hone : wrapSub 2 1 = 1 := by decide
    have hsize : [first, second].length = 2 := rfl
    have hinner : intLoop (fun route2 => ([first, second])[0]?.any (·.same strings route2)) 1
        ([first, second].drop 1) = some false ↔ first.same strings second = false := by
      rw [intLoop_false_iff (by decide)]
      simp [hmax]
    rw [hsize, hone]
    simp only [Nat.lt_one_iff, forall_eq, Nat.zero_add, hinner, List.pairwise_pair]
    simp [hmax]
  | first :: second :: third :: rest =>
    refine iff_of_false (fun h => ?_) (by simp)
    have hsize : (first :: second :: third :: rest).length = rest.length + 3 := rfl
    rw [hsize] at hcount h
    have hturns : 1 < wrapSub (rest.length + 3) 1 := by
      unfold wrapSub
      omega
    have hinner := h.2.1 1 hturns
    rw [intLoop_false_iff (by decide)] at hinner
    have hself := hinner.1 second (List.mem_cons_self ..)
    exact absurd second.same_self (by simpa using hself)

/-! ## Routers without conflicts -/

/-- No two entries with the same method and path, and no `GET` route whose path is registered. -/
structure ConflictFree (strings : Strings) (registry : ContentRegistry)
    (routes : List (StoredRoute σ)) : Prop where
  distinct : routes.Pairwise fun route1 route2 =>
    ¬ (strings.load route1.method = strings.load route2.method ∧
      strings.load route1.path = strings.load route2.path)
  unregistered : ∀ route ∈ routes, strings.load route.method = httpMethodShow .get →
    dictFind registry (strings.load route.path) = none

theorem StoredRoute.same_false_iff (route1 route2 : StoredRoute σ) :
    route1.same strings route2 = false ↔
      ¬ (strings.load route1.method = strings.load route2.method ∧
        strings.load route1.path = strings.load route2.path) := by
  rw [← Bool.not_eq_true, same, Bool.and_eq_true, beq_iff_eq, beq_iff_eq, and_comm]

theorem StoredRoute.shadowed_false_iff (route : StoredRoute σ) :
    route.shadowed strings registry = false ↔
      (route.method = strings.methodGet →
        dictFind registry (strings.load route.path) = none) := by
  rw [← Bool.not_eq_true, shadowed, Bool.and_eq_true, beq_iff_eq, Option.isSome_iff_ne_none,
    not_and, not_not]

/-- A router without conflicts passes exactly when it has one route or two. -/
theorem conflictFree_passes_iff (strings : Strings) (registry : ContentRegistry)
    (routes : List (StoredRoute σ)) (hcount : routes.length < 2 ^ 64)
    (hfree : ConflictFree strings registry routes) :
    routerHasDuplicateRoutes strings registry routes = some false ↔
      routes.length = 1 ∨ routes.length = 2 := by
  rw [routerHasDuplicateRoutes_false_iff hcount]
  refine and_iff_left ⟨fun route hmem => ?_, ?_⟩
  · rw [route.shadowed_false_iff]
    intro hget
    apply hfree.unregistered route hmem
    rw [hget, strings.load_methodGet]
  · exact hfree.distinct.imp fun {route1 route2} h => (route1.same_false_iff route2).mpr h

/-- Four strings, with those of the method in two places. -/
def fewStrings : Strings where
  load
    | 0 | 1 => ascii "GET"
    | 2 => ascii "/"
    | 3 => ascii "/a"
    | _ => ascii "/b"
  methodGet := 0
  load_methodGet := rfl

/-- The route of a handler that always answers 200. -/
def plainRoute (method path : ℕ) : StoredRoute Unit where
  method := method
  path := path
  handler := fun _ _ arena handlers => (responseNone 200 (ascii "OK") [], arena, handlers)

theorem conflictFree_passes_iff_two :
    routerHasDuplicateRoutes fewStrings {} [plainRoute 0 2, plainRoute 0 3] = some false ↔
      [plainRoute 0 2, plainRoute 0 3].length = 1 ∨ [plainRoute 0 2, plainRoute 0 3].length = 2 := by
  refine conflictFree_passes_iff fewStrings {} _ (by decide) ⟨?_, fun _ _ _ => rfl⟩
  rw [List.pairwise_pair]
  decide

/-- Three routes with different paths do not pass. -/
theorem three_routes_fail :
    ConflictFree fewStrings {} [plainRoute 0 2, plainRoute 0 3, plainRoute 0 4] ∧
      routerHasDuplicateRoutes fewStrings {} [plainRoute 0 2, plainRoute 0 3, plainRoute 0 4] =
        some true := by
  refine ⟨⟨?_, fun _ _ _ => rfl⟩, by decide +kernel⟩
  simp only [List.pairwise_cons, List.mem_cons, List.not_mem_nil, or_false, forall_eq_or_imp,
    forall_eq, false_implies, implies_true, List.Pairwise.nil, and_true]
  decide

/-! ## Dispatch -/

/-- The route whose handler `step_response_build` calls. -/
def dispatchedRoute (routes : List (Route σ)) (registry : ContentRegistry) (method : HttpMethod)
    (path : Bytes) : Option (Route σ) :=
  let method := if method = .head then .get else method
  if method = .get ∧ (dictFind registry path).isSome then none
  else (routeLookup routes (httpMethodShow method) path).1

/-- The answer of the handler of `route`. -/
def Machine.call (m : Machine σ) (route : Route σ) : HttpResponse × Machine σ :=
  let req := m.conn.requestView
  let (res, arena, handlers) := route.handler req route.data m.conn.mem.arena m.world.handlers
  (res,
    { m with
      conn.mem.arena := arena
      world.handlers := handlers
      io := m.io.emit (.handled route.method route.path req) })

/-- The answer is that of the handler of this route, or no handler has been called. -/
def Machine.AnswersBy (m : Machine σ) (answer : HttpResponse × Machine σ) : Option (Route σ) → Prop
  | some route => answer = m.call route
  | none => answer.2.io = m.io

theorem contentRegistryLookup_miss {w : World σ} {headers : List Header} {path : Bytes}
    (h : dictFind w.registry path = none) : contentRegistryLookup w headers path = (.miss, w) := by
  unfold contentRegistryLookup
  rw [h]

theorem contentRegistryLookup_ne_miss {w : World σ} (headers : List Header) {path : Bytes}
    (h : (dictFind w.registry path).isSome) : (contentRegistryLookup w headers path).1 ≠ .miss := by
  obtain ⟨entry, hentry⟩ := Option.isSome_iff_exists.mp h
  unfold contentRegistryLookup
  rw [hentry]
  dsimp only
  split
  · split
    · simp
    · split
      · simp
      · dsimp only
        split <;> simp
  · simp

theorem routeLookup_find? (routes : List (Route σ)) (method path : Bytes) :
    (routeLookup routes method path).1 =
      routes.find? fun route => (route.method, route.path) == (method, path) := by
  have hloop : ∀ allowed, (routeLookupLoop method path routes allowed).1 =
      routes.find? fun route => (route.method, route.path) == (method, path) := by
    induction routes with
    | nil => intro allowed; rfl
    | cons route rest ih =>
      intro allowed
      have hmatch : ((route.method, route.path) == (method, path)) = true ↔
          path = route.path ∧ method = route.method := by
        rw [beq_iff_eq, Prod.mk.injEq, and_comm, eq_comm, @eq_comm _ route.method]
      rw [List.find?_cons, routeLookupLoop]
      by_cases hpath : path = route.path
      · by_cases hmethod : method = route.method
        · rw [hmatch.mpr ⟨hpath, hmethod⟩, if_neg (not_not.mpr hpath), if_pos hmethod]
        · rw [eq_false_of_ne_true (mt hmatch.mp (mt And.right hmethod)),
            if_neg (not_not.mpr hpath), if_neg hmethod]
          split <;> exact ih _
      · rw [eq_false_of_ne_true (mt hmatch.mp (mt And.left hpath)), if_pos hpath]
        exact ih _
  exact hloop []

theorem routeDispatch_answersBy (router : Router σ) (method : HttpMethod) (m : Machine σ) :
    m.AnswersBy (routeDispatch router method m) (routeLookup router.routes (httpMethodShow method)
      m.conn.requestView.requestLine.path).1 := by
  unfold routeDispatch
  dsimp only
  generalize routeLookup router.routes (httpMethodShow method)
    m.conn.requestView.requestLine.path = found
  obtain ⟨_ | route, allowed⟩ := found
  · dsimp only
    split <;> rfl
  · rfl

/-- `step_response_build` calls the handler of `dispatchedRoute`. -/
theorem responseDispatch_answersBy (router : Router σ) (m : Machine σ) :
    m.AnswersBy (responseDispatch router m) (dispatchedRoute router.routes m.world.registry
      m.conn.requestView.requestLine.method m.conn.requestView.requestLine.path) := by
  unfold dispatchedRoute responseDispatch
  dsimp only
  generalize (if m.conn.requestView.requestLine.method = .head then HttpMethod.get
    else m.conn.requestView.requestLine.method) = method
  by_cases hget : method = .get
  · rw [if_pos hget]
    cases hfind : dictFind m.world.registry m.conn.requestView.requestLine.path with
    | none =>
      rw [contentRegistryLookup_miss hfind, if_neg (by simp)]
      exact routeDispatch_answersBy router method m
    | some entry =>
      have hfound := contentRegistryLookup_ne_miss m.conn.requestView.headers
        (Option.isSome_of_mem hfind)
      rw [if_pos ⟨hget, rfl⟩]
      generalize contentRegistryLookup m.world m.conn.requestView.headers
        m.conn.requestView.requestLine.path = found at hfound ⊢
      obtain ⟨result, world⟩ := found
      cases result with
      | miss => exact absurd rfl hfound
      | gone => rfl
      | notModified entry => rfl
      | hit entry => rfl
  · rw [if_neg hget, if_neg (mt And.left hget)]
    exact routeDispatch_answersBy router method m

/-! ## Unambiguous dispatch -/

/-- In a list without two elements of one key, the order does not matter for a search by key. -/
theorem find?_perm_of_nodup {α κ : Type*} [BEq κ] [LawfulBEq κ] {key : α → κ} {l l' : List α}
    (hperm : l'.Perm l) (hnodup : (l.map key).Nodup) (k : κ) :
    l'.find? (key · == k) = l.find? (key · == k) := by
  have hmem : ∀ l : List α, (l.map key).Nodup → ∀ a,
      l.find? (key · == k) = some a ↔ a ∈ l ∧ key a = k := by
    intro l hnodup a
    have hfound : ∀ b, l.find? (key · == k) = some b → b ∈ l ∧ key b = k := by
      intro b h
      have hb := List.find?_some h
      exact ⟨List.mem_of_find?_eq_some h, eq_of_beq hb⟩
    refine ⟨hfound a, ?_⟩
    rintro ⟨ha, hkey⟩
    cases hfind : l.find? (key · == k) with
    | none => exact absurd (beq_iff_eq.mpr hkey) (List.find?_eq_none.mp hfind a ha)
    | some b =>
      obtain ⟨-, hb⟩ := hfound b hfind
      have hsame := List.inj_on_of_nodup_map hnodup (List.mem_of_find?_eq_some hfind) ha
        (hb.trans hkey.symm)
      rw [hsame]
  ext a
  rw [hmem l' ((hperm.map key).nodup_iff.mpr hnodup), hmem l hnodup, hperm.mem_iff]

theorem dispatchedRoute_perm {routes routes' : List (Route σ)} (hperm : routes'.Perm routes)
    (hnodup : (routes.map fun route => (route.method, route.path)).Nodup)
    (registry : ContentRegistry) (method : HttpMethod) (path : Bytes) :
    dispatchedRoute routes' registry method path = dispatchedRoute routes registry method path := by
  simp only [dispatchedRoute, routeLookup_find?]
  rw [find?_perm_of_nodup hperm hnodup]

/-- The router of a table as it is stored. -/
def storedRouter (strings : Strings) (routes : List (StoredRoute σ)) : Router σ where
  routes := routes.map (·.route strings)

/-- For a path, the registry and the table do not both answer a `GET`, and in whatever order the
table is, `step_response_build` calls the same handler. -/
structure Unambiguous (strings : Strings) (registry : ContentRegistry)
    (routes : List (StoredRoute σ)) : Prop where
  exclusive : ∀ path, ¬ ((dictFind registry path).isSome ∧
    (routeLookup (storedRouter strings routes).routes (httpMethodShow .get) path).1.isSome)
  ordered : ∀ routes', routes'.Perm routes → ∀ m : Machine σ, m.world.registry = registry →
    ∃ called, m.AnswersBy (responseDispatch (storedRouter strings routes) m) called ∧
      m.AnswersBy (responseDispatch (storedRouter strings routes') m) called

theorem nodup_of_pairwise
    (h : routes.Pairwise fun route1 route2 => route1.same strings route2 = false) :
    ((storedRouter strings routes).routes.map fun route => (route.method, route.path)).Nodup := by
  have hkeys : (storedRouter strings routes).routes.map (fun route => (route.method, route.path)) =
      routes.map fun stored => (strings.load stored.method, strings.load stored.path) :=
    List.map_map ..
  rw [hkeys, List.Nodup, List.pairwise_map]
  refine h.imp fun {route1 route2} hsame heq => ?_
  exact (route1.same_false_iff route2).mp hsame (Prod.mk.inj heq)

theorem exclusive_iff :
    (∀ path, ¬ ((dictFind registry path).isSome ∧
      (routeLookup (storedRouter strings routes).routes (httpMethodShow .get) path).1.isSome)) ↔
    ∀ route ∈ routes, strings.load route.method = httpMethodShow .get →
      dictFind registry (strings.load route.path) = none := by
  have hanswers : ∀ path, (routeLookup (storedRouter strings routes).routes (httpMethodShow .get)
      path).1.isSome ↔ ∃ route ∈ routes, strings.load route.method = httpMethodShow .get ∧
        strings.load route.path = path := by
    intro path
    rw [routeLookup_find?, List.find?_isSome, storedRouter]
    simp [StoredRoute.route]
  constructor
  · intro h route hmem hget
    have hpath := mt (And.intro · ((hanswers (strings.load route.path)).mpr
      ⟨route, hmem, hget, rfl⟩)) (h (strings.load route.path))
    rwa [Bool.not_eq_true, Option.isSome_eq_false_iff, Option.isNone_iff_eq_none] at hpath
  · rintro h path ⟨hsome, hroute⟩
    obtain ⟨route, hmem, hget, rfl⟩ := (hanswers path).mp hroute
    rw [h route hmem hget] at hsome
    cases hsome

/-- A router that passes dispatches unambiguously exactly when no registered path has a `GET` route
whose method is stored elsewhere than the server's own `GET`. -/
theorem passing_unambiguous_iff (strings : Strings) (registry : ContentRegistry)
    (routes : List (StoredRoute σ)) (hcount : routes.length < 2 ^ 64)
    (hpasses : routerHasDuplicateRoutes strings registry routes = some false) :
    Unambiguous strings registry routes ↔
      ∀ route ∈ routes, strings.load route.method = httpMethodShow .get →
        route.method ≠ strings.methodGet → dictFind registry (strings.load route.path) = none := by
  obtain ⟨-, hshadowed, hdistinct⟩ := (routerHasDuplicateRoutes_false_iff hcount).mp hpasses
  constructor
  · intro h route hmem hget _
    exact exclusive_iff.mp h.exclusive route hmem hget
  · intro h
    refine ⟨exclusive_iff.mpr fun route hmem hget => ?_, fun routes' hperm m hregistry => ?_⟩
    · by_cases haddress : route.method = strings.methodGet
      · exact (route.shadowed_false_iff).mp (hshadowed route hmem) haddress
      · exact h route hmem hget haddress
    · refine ⟨_, responseDispatch_answersBy (storedRouter strings routes) m, ?_⟩
      have hsame := dispatchedRoute_perm (hperm.map (·.route strings)) (nodup_of_pairwise hdistinct)
      have hanswers := responseDispatch_answersBy (storedRouter strings routes') m
      rwa [storedRouter, hsame] at hanswers

def rootRegistry : ContentRegistry := dictInsert {} (ascii "/") { mode := .staticResident }

/-- Two routes beside a registered page, of which one stores its `GET` elsewhere. -/
theorem passing_unambiguous_iff_two :
    Unambiguous fewStrings rootRegistry [plainRoute 0 3, plainRoute 1 4] := by
  refine (passing_unambiguous_iff fewStrings rootRegistry _ (by decide) (by decide +kernel)).mpr ?_
  simp only [List.forall_mem_cons, List.not_mem_nil, false_implies, implies_true, and_true]
  exact ⟨fun _ _ => by decide +kernel, fun _ _ => by decide +kernel⟩

/-- The method of this route is `GET`, but not the server's own, and its path is registered. -/
theorem passing_ambiguous :
    routerHasDuplicateRoutes fewStrings rootRegistry [plainRoute 1 2] = some false ∧
      ¬ Unambiguous fewStrings rootRegistry [plainRoute 1 2] := by
  refine ⟨by decide +kernel, fun h => h.exclusive (ascii "/") ⟨?_, ?_⟩⟩
  · decide +kernel
  · rw [routeLookup_find?, List.find?_isSome]
    exact ⟨_, List.mem_singleton_self _, by decide +kernel⟩

end HttpServer
