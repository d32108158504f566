import HttpServer.CheckedStrings
import HttpServer.RouteCheck
import HttpServer.SerializedSize

/-!
# Requests that the registry does not answer

Such a request goes to the first route with its method and path, is refused with the
methods of the routes with its path where there are some, and is not found otherwise.
The refusal is composed in an array of 128 bytes.
-/

namespace HttpServer

variable {σ : Type*} {routes : List (Route σ)} {method path : Bytes} {cap : ℕ}

/-! ## The search -/

/-- The methods of the routes with this path, in the order of the table. -/
def pathMethods (routes : List (Route σ)) (path : Bytes) : List Bytes :=
  (routes.filter fun route => path = route.path).map Route.method

theorem pathMethods_cons (route : Route σ) (routes : List (Route σ)) (path : Bytes) :
    pathMethods (route :: routes) path =
      if path = route.path then route.method :: pathMethods routes path
      else pathMethods routes path := by
  unfold pathMethods
  rw [List.filter_cons]
  by_cases h : path = route.path
  · rw [if_pos (by simpa using h), if_pos h, List.map_cons]
  · rw [if_neg (by simpa using h), if_neg h]

/-- No more than eight methods are collected. -/
theorem routeLookupLoop_allowed {allowed : List Bytes} (hallowed : allowed.length ≤ ALLOWED_MAX)
    (h : ∀ route ∈ routes, path = route.path → method ≠ route.method) :
    routeLookupLoop method path routes allowed =
      (none, (allowed ++ pathMethods routes path).take ALLOWED_MAX) := by
  induction routes generalizing allowed with
  | nil =>
    rw [pathMethods, List.filter_nil, List.map_nil, List.append_nil,
      List.take_of_length_le hallowed]
    rfl
  | cons first rest ih =>
    have hrest : ∀ route ∈ rest, path = route.path → method ≠ route.method :=
      fun route hroute => h route (List.mem_cons_of_mem _ hroute)
    rw [pathMethods_cons, routeLookupLoop]
    by_cases hpath : path = first.path
    · rw [if_neg (not_not.mpr hpath), if_neg (h first List.mem_cons_self hpath), if_pos hpath]
      by_cases hroom : allowed.length < ALLOWED_MAX
      · rw [if_pos hroom, ih (by rw [List.length_append, List.length_singleton]; omega) hrest,
          List.append_assoc, List.singleton_append]
      · rw [if_neg hroom, ih hallowed hrest, List.take_append_of_le_length (by omega),
          List.take_append_of_le_length (by omega)]
    · rw [if_pos hpath, if_neg hpath]
      exact ih hallowed hrest

theorem routeLookup_allowed
    (h : routes.find? (fun route => (route.method, route.path) == (method, path)) = none) :
    routeLookup routes method path = (none, (pathMethods routes path).take ALLOWED_MAX) := by
  refine routeLookupLoop_allowed (Nat.zero_le _) fun route hroute hpath hmethod => ?_
  have hno := List.find?_eq_none.mp h route hroute
  exact hno (beq_iff_eq.mpr (Prod.ext hmethod.symm hpath.symm))

theorem pathMethods_eq_nil_iff :
    pathMethods routes path = [] ↔ ∀ route ∈ routes, route.path ≠ path := by
  unfold pathMethods
  rw [List.map_eq_nil_iff, List.filter_eq_nil_iff]
  simp [eq_comm]

/-! ## The text of `Allow` -/

theorem strncat_fits {buf text : Bytes} (h : buf.length + text.length < cap) :
    strncat cap buf text = buf ++ text := by
  rw [strncat, List.take_of_length_le (by omega)]

/-- The methods behind the first one, each behind a comma and a blank. -/
theorem allowCompose_rest {buf : Bytes} {methods : List Bytes}
    (h : (buf ++ methods.flatMap (ascii ", " ++ ·)).length < cap) :
    allowCompose cap false buf methods = buf ++ methods.flatMap (ascii ", " ++ ·) := by
  induction methods generalizing buf with
  | nil => simp [allowCompose]
  | cons method rest ih =>
    rw [List.flatMap_cons, ← List.append_assoc] at h ⊢
    have hlen := h
    simp only [List.length_append] at hlen
    have hsep : strncat cap buf (ascii ", ") = buf ++ ascii ", " := strncat_fits (by omega)
    have hmethod : strncat cap (buf ++ ascii ", ") method = buf ++ (ascii ", " ++ method) := by
      rw [strncat_fits (by rw [List.length_append]; omega), List.append_assoc]
    show allowCompose cap false (strncat cap (strncat cap buf (ascii ", ")) method) rest = _
    rw [hsep, hmethod]
    exact ih h

theorem intercalate_cons (sep x : Bytes) (xs : List Bytes) :
    sep.intercalate (x :: xs) = x ++ xs.flatMap (sep ++ ·) := by
  induction xs generalizing x with
  | nil => simp [List.intercalate]
  | cons y ys ih =>
    rw [List.intercalate_cons_cons, ih, List.flatMap_cons]
    simp

theorem allowCompose_eq {methods : List Bytes}
    (h : ((ascii ", ").intercalate methods).length < cap) :
    allowCompose cap true [] methods = (ascii ", ").intercalate methods := by
  cases methods with
  | nil => rfl
  | cons method rest =>
    rw [intercalate_cons] at h ⊢
    have hlen := h
    rw [List.length_append] at hlen
    show allowCompose cap false (strncat cap [] method) rest = _
    rw [strncat_fits (by rw [List.length_nil]; omega)]
    exact allowCompose_rest h

/-! ## The array behind it -/

namespace Checked

open CheckedMemory

inductive ResponseArray where
  | allowStorage
  deriving DecidableEq, Repr

/-- `strncat(allow_buf->buffer, s, allow_buf->cap - strlen(allow_buf->buffer) - 1)` on the memory
of the buffer. -/
def allowAppend (cap : ℕ) (mem s : Bytes) : Except (Fault ResponseArray) Bytes := do
  let len ← strlen .allowStorage 0 mem 0
  CheckedMemory.strncat .allowStorage 0 mem s (wrapSub (wrapSub cap len) 1)

/-- The loop of `response_error_405`. -/
def allowCompose (cap : ℕ) (first : Bool) (mem : Bytes) :
    List Bytes → Except (Fault ResponseArray) Bytes
  | [] => return mem
  | method :: rest => do
    let mem ← if first then pure mem else allowAppend cap mem (ascii ", ")
    allowCompose cap false (← allowAppend cap mem method) rest

end Checked

open CheckedMemory

/-- An array of `cap` bytes with the string `s` in front. -/
structure HoldsText (cap : ℕ) (mem s : Bytes) : Prop where
  length : mem.length = cap
  no_nul : 0 ∉ s
  starts : ∃ rest, mem = s ++ 0 :: rest

theorem HoldsText.text_eq {mem s : Bytes} (h : HoldsText cap mem s) : text 0 mem = s := by
  obtain ⟨rest, rfl⟩ := h.starts
  rw [text, List.takeWhile_append_of_pos, List.takeWhile_cons_of_neg (by simp), List.append_nil]
  intro b hb
  exact decide_eq_true fun heq => h.no_nul (heq ▸ hb)

theorem HoldsText.room {mem s : Bytes} (h : HoldsText cap mem s) : s.length < cap := by
  obtain ⟨rest, hmem⟩ := h.starts
  have hlen := congrArg List.length hmem
  rw [h.length, List.length_append, List.length_cons] at hlen
  omega

theorem wrapSub_of_le {a b : ℕ} (h : b ≤ a) (ha : a < 2 ^ 64) : wrapSub a b = a - b := by
  rw [wrapSub, Nat.sub_add_comm h, Nat.add_mod_right, Nat.mod_eq_of_lt (by omega)]

theorem wrapSub_room {len : ℕ} (h : len < cap) (hcap : cap < 2 ^ 64) :
    wrapSub (wrapSub cap len) 1 = cap - len - 1 := by
  rw [wrapSub_of_le h.le hcap, wrapSub_of_le (by omega) (by omega)]

/-- The room is computed without wrapping, and what is appended fits in it. -/
theorem allowAppend_holds {mem s : Bytes} (h : HoldsText cap mem s) (hcap : cap < 2 ^ 64)
    (t : Bytes) : ∃ mem', Checked.allowAppend cap mem t = .ok mem' ∧
      HoldsText cap mem' (strncat cap s (text 0 t)) := by
  have hroom := h.room
  obtain ⟨hlen, hnul, rest, rfl⟩ := h
  rw [List.length_append, List.length_cons] at hlen
  have htake : ((text 0 t).take (cap - s.length - 1)).length ≤ rest.length := by
    rw [List.length_take]
    omega
  refine ⟨strncat cap s (text 0 t) ++ 0 :: rest.drop ((text 0 t).take (cap - s.length - 1)).length,
    ?_, ?_, ?_, _, rfl⟩
  · rw [Checked.allowAppend, strlen_eq hnul (Nat.zero_le _), pure_bind, wrapSub_room hroom hcap,
      strncat_eq hnul htake]
    rfl
  · rw [List.length_append, strncat, List.length_append, List.length_cons, List.length_drop]
    omega
  · intro hmem
    rcases List.mem_append.mp hmem with hmem | hmem
    · exact hnul hmem
    · exact nul_not_mem_text 0 t (List.mem_of_mem_take hmem)

theorem allowCompose_holds {mem s : Bytes} (h : HoldsText cap mem s) (hcap : cap < 2 ^ 64)
    (first : Bool) (methods : List Bytes) :
    ∃ mem', Checked.allowCompose cap first mem methods = .ok mem' ∧
      HoldsText cap mem' (allowCompose cap first s (methods.map (text 0))) := by
  induction methods generalizing mem s first with
  | nil => exact ⟨mem, rfl, h⟩
  | cons method rest ih =>
    obtain ⟨mem₁, hmem₁, hsep⟩ : ∃ mem₁,
        (if first then pure mem else Checked.allowAppend cap mem (ascii ", ")) = .ok mem₁ ∧
          HoldsText cap mem₁ (if first then s else strncat cap s (ascii ", ")) := by
      cases first with
      | true => exact ⟨mem, rfl, h⟩
      | false => exact allowAppend_holds h hcap (ascii ", ")
    obtain ⟨mem₂, hmem₂, hmethod⟩ := allowAppend_holds hsep hcap method
    obtain ⟨mem₃, hmem₃, hrest⟩ := ih hmethod false
    refine ⟨mem₃, ?_, hrest⟩
    have hfold : Checked.allowCompose cap first mem (method :: rest) =
        (if first then pure mem else Checked.allowAppend cap mem (ascii ", ")) >>= fun mem =>
          Checked.allowAppend cap mem method >>= fun mem =>
            Checked.allowCompose cap false mem rest := by
      cases first <;> rfl
    rw [hfold, hmem₁]
    show (Checked.allowAppend cap mem₁ method >>= _) = _
    rw [hmem₂]
    exact hmem₃

theorem holdsText_empty : HoldsText ALLOW_STORAGE (List.replicate ALLOW_STORAGE 0) [] :=
  ⟨List.length_replicate, List.not_mem_nil, List.replicate (ALLOW_STORAGE - 1) 0, rfl⟩

/-! ## The response -/

variable {router : Router σ} {m : Machine σ}

/-- The method that is looked up: a HEAD request is served like a GET request. -/
def Machine.lookupMethod (m : Machine σ) : HttpMethod :=
  if m.conn.requestView.requestLine.method = .head then .get
  else m.conn.requestView.requestLine.method

def Machine.urlPath (m : Machine σ) : Bytes := m.conn.requestView.requestLine.path

/-- The registry is not asked, or has nothing under the path. -/
def Machine.RegistryMisses (m : Machine σ) : Prop :=
  m.lookupMethod = .get →
    (contentRegistryLookup m.world m.conn.requestView.headers m.urlPath).1 = .miss

theorem responseDispatch_of_miss (h : m.RegistryMisses) :
    responseDispatch router m = routeDispatch router m.lookupMethod m := by
  unfold Machine.RegistryMisses at h
  unfold responseDispatch
  dsimp only
  show (if m.lookupMethod = .get then _ else routeDispatch router m.lookupMethod m) = _
  by_cases hget : m.lookupMethod = .get
  · have hfind : dictFind m.world.registry m.urlPath = none := by
      by_contra hsome
      exact contentRegistryLookup_ne_miss _ (Option.isSome_iff_ne_none.mpr hsome) (h hget)
    rw [if_pos hget]
    unfold Machine.urlPath at hfind
    rw [contentRegistryLookup_miss hfind]
    rfl
  · rw [if_neg hget]

theorem routeDispatch_allowed {method : HttpMethod}
    (h : router.routes.find? (fun route =>
      (route.method, route.path) == (httpMethodShow method, m.urlPath)) = none) :
    routeDispatch router method m =
      (if pathMethods router.routes m.urlPath = [] then responseErrorFromStatus .notFound
        else responseError405 ((pathMethods router.routes m.urlPath).take ALLOWED_MAX)
          ALLOW_STORAGE, m) := by
  unfold routeDispatch
  dsimp only
  rw [show m.conn.requestView.requestLine.path = m.urlPath from rfl, routeLookup_allowed h]
  dsimp only
  cases pathMethods router.routes m.urlPath with
  | nil => rfl
  | cons method rest => rfl

/-- However many methods there are and however long, the array is not overrun, and it holds a
string at the end. -/
theorem allowCompose_checked (methods : List Bytes) :
    ∃ mem, Checked.allowCompose ALLOW_STORAGE true (List.replicate ALLOW_STORAGE 0) methods =
        .ok mem ∧
      mem.length = ALLOW_STORAGE ∧ 0 ∈ mem ∧
      ((∀ method ∈ methods, 0 ∉ method) →
        text 0 mem = allowCompose ALLOW_STORAGE true [] methods) := by
  obtain ⟨mem, hmem, hholds⟩ := allowCompose_holds holdsText_empty (by decide) true methods
  refine ⟨mem, hmem, hholds.length, ?_, fun hmethods => ?_⟩
  · obtain ⟨rest, heq⟩ := hholds.starts
    rw [heq]
    exact List.mem_append_right _ List.mem_cons_self
  · have hsame : methods.map (text 0) = methods :=
      (List.map_congr_left fun method hmethod => text_eq_self (hmethods method hmethod)).trans
        (List.map_id methods)
    rw [hholds.text_eq, hsame]

/-- A request that the registry does not answer, by what the route table has for it. -/
theorem responseDispatch_routes (router : Router σ) (m : Machine σ) (h : m.RegistryMisses) :
    (∀ route, router.routes.find? (fun route =>
          (route.method, route.path) == (httpMethodShow m.lookupMethod, m.urlPath)) = some route →
      responseDispatch router m = m.call route) ∧
    (router.routes.find? (fun route =>
          (route.method, route.path) == (httpMethodShow m.lookupMethod, m.urlPath)) = none →
      (∃ route ∈ router.routes, route.path = m.urlPath) →
      (responseDispatch router m).1.status = 405 ∧ (responseDispatch router m).2 = m ∧
        ((pathMethods router.routes m.urlPath).length ≤ 8 →
          ((ascii ", ").intercalate (pathMethods router.routes m.urlPath)).length ≤ 127 →
          (responseDispatch router m).1.headers = [⟨ascii "Allow",
            (ascii ", ").intercalate (pathMethods router.routes m.urlPath)⟩])) ∧
    ((∀ route ∈ router.routes, route.path ≠ m.urlPath) →
      responseDispatch router m = (responseErrorFromStatus .notFound, m) ∧
        (responseErrorFromStatus .notFound).status = 404) ∧
    ∀ methods, ∃ mem,
      Checked.allowCompose ALLOW_STORAGE true (List.replicate ALLOW_STORAGE 0) methods = .ok mem ∧
      mem.length = ALLOW_STORAGE ∧ 0 ∈ mem ∧
      ((∀ method ∈ methods, 0 ∉ method) →
        text 0 mem = allowCompose ALLOW_STORAGE true [] methods) := by
  rw [responseDispatch_of_miss h]
  refine ⟨?_, ?_, ?_, allowCompose_checked⟩
  · intro route hroute
    have hanswer := routeDispatch_answersBy router m.lookupMethod m
    rw [routeLookup_find?, show m.conn.requestView.requestLine.path = m.urlPath from rfl,
      hroute] at hanswer
    exact hanswer
  · rintro hnone ⟨route, hroute, hpath⟩
    have hne : pathMethods router.routes m.urlPath ≠ [] :=
      fun hnil => pathMethods_eq_nil_iff.mp hnil route hroute hpath
    rw [routeDispatch_allowed hnone, if_neg hne]
    refine ⟨rfl, rfl, fun hcount hlength => ?_⟩
    have htext : allowCompose ALLOW_STORAGE true [] _ = _ :=
      allowCompose_eq (Nat.lt_succ_of_le hlength)
    have htake : (pathMethods router.routes m.urlPath).take ALLOWED_MAX = _ :=
      List.take_of_length_le hcount
    rw [htake]
    exact congrArg (fun value => [ResponseHeader.mk (ascii "Allow") value]) htext
  · intro hpaths
    have hnone : router.routes.find? (fun route =>
        (route.method, route.path) == (httpMethodShow m.lookupMethod, m.urlPath)) = none := by
      refine List.find?_eq_none.mpr fun route hroute heq => hpaths route hroute ?_
      exact (Prod.mk.inj (beq_iff_eq.mp heq)).2
    rw [routeDispatch_allowed hnone, if_pos (pathMethods_eq_nil_iff.mpr hpaths)]
    exact ⟨rfl, rfl⟩

def notFoundHandler : HandlerFn Unit :=
  fun _ _ arena handlers => (responseErrorFromStatus .notFound, arena, handlers)

/-- Two routes with the path of a GET request, and neither is for GET. -/
def upload : Router Unit where
  routes := [⟨ascii "POST", ascii "/a", notFoundHandler, none⟩,
    ⟨ascii "POST", ascii "/b", notFoundHandler, none⟩,
    ⟨ascii "PUT", ascii "/a", notFoundHandler, none⟩]

def uploadRequest : Machine Unit where
  conn := { reqParsed := { requestLine := { path := ascii "/a" } } }
  world := { handlers := () }

theorem responseDispatch_routes_upload :
    (responseDispatch upload uploadRequest).1.status = 405 ∧
      (responseDispatch upload uploadRequest).2 = uploadRequest ∧
      (responseDispatch upload uploadRequest).1.headers = [⟨ascii "Allow", ascii "POST, PUT"⟩] := by
  obtain ⟨-, hrefused, -⟩ := responseDispatch_routes upload uploadRequest fun _ => by decide
  obtain ⟨hstatus, hsame, hallow⟩ := hrefused (by rfl) ⟨_, List.mem_cons_self, rfl⟩
  exact ⟨hstatus, hsame, hallow (by decide) (by decide)⟩

end HttpServer
