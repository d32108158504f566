import HttpServer.ContentFreshness
import HttpServer.LinkedDictionary
import Mathlib.Data.List.Nodup

/-!
# The hash map is a map

The chains in memory hold what the lists of `Dictionary` hold, each key once and in the bucket
of its hash. Every insertion keeps this, so `dict_find` returns what was inserted last.
-/

namespace HttpServer

open Linked (Memory dictReplace dictInsertNew findNode strdup kvpNodeInit kvpNodeHeadInsert)

variable {V : Type*} {m m' : Memory V} {d d' : Linked.Dictionary} {head : Option ℕ}
  {p fuel : ℕ} {node node' : Linked.KvpNode V} {kvp kvp' : Kvp V} {key : Bytes}
  {chains : ℕ → List (ℕ × Kvp V)} {xs : List (ℕ × Kvp V)}

/-! ## Lists -/

theorem chainReplace_none {chain : List (Kvp V)} (h : ∀ kvp ∈ chain, kvp.key ≠ key) (value : V) :
    chainReplace key value chain = none := by
  induction chain with
  | nil => rfl
  | cons kvp chain ih =>
    rw [chainReplace, if_neg (h kvp List.mem_cons_self),
      ih fun other hother => h other (List.mem_cons_of_mem _ hother)]
    rfl

theorem chainReplace_append {before after : List (Kvp V)} (h : ∀ kvp ∈ before, kvp.key ≠ kvp'.key)
    (value : V) : chainReplace kvp'.key value (before ++ kvp' :: after) =
      some (before ++ { kvp' with value := value } :: after) := by
  induction before with
  | nil => exact if_pos rfl
  | cons kvp before ih =>
    rw [List.cons_append, chainReplace, if_neg (h kvp List.mem_cons_self),
      ih fun other hother => h other (List.mem_cons_of_mem _ hother)]
    rfl

theorem chainReplace_length {chain chain' : List (Kvp V)} {value : V}
    (h : chainReplace key value chain = some chain') : chain'.length = chain.length := by
  induction chain generalizing chain' with
  | nil => cases h
  | cons kvp chain ih =>
    rw [chainReplace] at h
    split at h
    · obtain rfl := Option.some.inj h
      rfl
    · obtain ⟨tail, htail, rfl⟩ := Option.map_eq_some_iff.mp h
      rw [List.length_cons, List.length_cons, ih htail]

theorem dictInsert_bucket_length (d : Dictionary V) (key : Bytes) (value : V) (i : ℕ) :
    ((dictInsert d key value).bucket i).length ≤ (d.bucket i).length + 1 := by
  rw [dictInsert]
  dsimp only
  by_cases hi : i = dictIndex key
  · rw [if_pos hi, hi]
    cases hreplace : chainReplace key value (d.bucket (dictIndex key)) with
    | none => exact Nat.le_refl _
    | some chain => exact (chainReplace_length hreplace).trans_le (Nat.le_succ _)
  · rw [if_neg hi]
    exact Nat.le_succ _

/-- The lists after these insertions. -/
def dictInsertAll (log : List (Bytes × V)) : Dictionary V :=
  log.foldl (fun d insert => dictInsert d insert.1 insert.2) dictInit

theorem dictInsertAll_append (log : List (Bytes × V)) (key : Bytes) (value : V) :
    dictInsertAll (log ++ [(key, value)]) = dictInsert (dictInsertAll log) key value :=
  List.foldl_concat ..

theorem dictFind_dictInsertAll (log : List (Bytes × V)) (key : Bytes) :
    dictFind (dictInsertAll log) key = log.reverse.lookup key := by
  induction log using List.reverseRecOn with
  | nil => rfl
  | append_singleton log insert ih =>
    obtain ⟨inserted, value⟩ := insert
    rw [dictInsertAll_append, dictFind_dictInsert, ih, List.reverse_append]
    show _ = List.lookup key ((inserted, value) :: log.reverse)
    by_cases hkey : key = inserted
    · rw [if_pos hkey, hkey, List.lookup_cons_self]
    · rw [if_neg hkey, List.lookup_cons, beq_false_of_ne hkey]

theorem dictInsertAll_bucket_length (log : List (Bytes × V)) (i : ℕ) :
    ((dictInsertAll log).bucket i).length ≤ log.length := by
  induction log using List.reverseRecOn with
  | nil => exact Nat.le_refl 0
  | append_singleton log insert ih =>
    rw [dictInsertAll_append, List.length_append]
    exact (dictInsert_bucket_length ..).trans (Nat.succ_le_succ ih)

/-! ## Chains of key and value -/

/-- The node holds this key and this value. -/
def Linked.Memory.Shows (m : Memory V) (node : Linked.KvpNode V)
    (kvp : HttpServer.Kvp V) : Prop :=
  node.value.key.bind m.strings = some kvp.key ∧ node.value.value = some kvp.value

/-- The chain from `head`, with the addresses of its nodes. -/
def Linked.Memory.Chain (m : Memory V) :
    Option ℕ → List (ℕ × HttpServer.Kvp V) → Prop :=
  LinkedChains.Chain Linked.KvpNode.next m.Shows m.nodes

theorem strcmpEq_shows (h : m.Shows node kvp) (key : Bytes) :
    m.strcmpEq node.value.key key = some (kvp.key == key) := by
  rw [Linked.Memory.strcmpEq, h.1, Option.map_some]

theorem strdup_chain (hchain : m.Chain head xs) (hp : m.strings p = none) (key : Bytes) :
    (strdup m key (some p)).Chain head xs := by
  apply LinkedChains.Chain.frame hchain
  intro x _ n hread hshows
  refine ⟨n, hread, rfl, ?_, hshows.2⟩
  obtain ⟨q, hq, htext⟩ := Option.bind_eq_some_iff.mp hshows.1
  have hne : q ≠ p := by
    rintro rfl
    rw [hp] at htext
    cases htext
  rw [hq, Option.bind_some]
  exact (Function.update_of_ne hne ..).trans htext

theorem setNode_chain (hchain : m.Chain head xs) (hp : p ∉ xs.map Prod.fst)
    (node : Linked.KvpNode V) : (m.setNode p node).Chain head xs :=
  hchain.update_other hp _

theorem setPrevious_chain (hchain : m.Chain head xs) (p : ℕ) :
    ∃ m', m.setPrevious p head = some m' ∧ m'.freed = m.freed ∧
      ∀ other ys, m.Chain other ys → m'.Chain other ys := by
  cases hchain with
  | nil => exact ⟨m, rfl, rfl, fun _ _ => id⟩
  | @cons q n b tail hread _ _ =>
    refine ⟨m.setNode q { n with previous := some p }, ?_, rfl, fun other ys hother => ?_⟩
    · rw [Linked.Memory.setPrevious, Option.elim_some, hread, Option.map_some]
    · exact hother.update_same hread rfl fun _ => id

/-- The node becomes the head of the chain, and chains without it stay. -/
theorem kvpNodeHeadInsert_chain (hchain : m.Chain head xs) (hp : p ∉ xs.map Prod.fst)
    (hread : m.nodes p = some node) (hshows : m.Shows node kvp) :
    ∃ m', kvpNodeHeadInsert m head p = some (some p, m') ∧ m'.freed = m.freed ∧
      m'.Chain (some p) ((p, kvp) :: xs) ∧
      ∀ other ys, m.Chain other ys → p ∉ ys.map Prod.fst → m'.Chain other ys := by
  have hlinked : (m.setNode p { node with next := head }).Chain (some p) ((p, kvp) :: xs) :=
    .cons (Function.update_self ..) hshows (setNode_chain hchain hp _)
  obtain ⟨m', hprevious, hfreed, hkeeps⟩ := setPrevious_chain (setNode_chain hchain hp _) p
  refine ⟨m', ?_, hfreed, hkeeps _ _ hlinked, fun other ys hother hys => ?_⟩
  · rw [kvpNodeHeadInsert, hread, Option.bind_eq_bind, Option.bind_some]
    dsimp only
    rw [hprevious]
    rfl
  · exact hkeeps _ _ (setNode_chain hother hys _)

/-! ## The dictionary in memory -/

/-- What `Dictionary` knows of the chains. -/
def listed (chains : ℕ → List (ℕ × Kvp V)) : Dictionary V :=
  ⟨fun i => (chains i).map Prod.snd⟩

/-- The chains of all buckets: each is finite, and each key is on the chain of its hash, once. -/
structure Linked.Memory.Chains (m : Memory V) (d : Linked.Dictionary)
    (chains : ℕ → List (ℕ × HttpServer.Kvp V)) : Prop where
  chain : ∀ i, m.Chain (d.bucket i) (chains i)
  placed : ∀ i, ∀ x ∈ chains i, dictIndex x.2.key = i
  nodup : ∀ i, ((chains i).map fun x => x.2.key).Nodup

theorem listed_find? (chains : ℕ → List (ℕ × Kvp V)) (key : Bytes) :
    dictFind (listed chains) key =
      ((chains (dictIndex key)).find? fun x => x.2.key == key).map fun x => x.2.value := by
  rw [dictFind, listed, List.find?_map, Option.map_map]
  rfl

/-- No node is on the chains of two buckets. -/
theorem bucket_unique (h : m.Chains d chains) {i j : ℕ} (hi : (p, kvp) ∈ chains i)
    (hj : p ∈ (chains j).map Prod.fst) : j = i := by
  obtain ⟨⟨_, kvp'⟩, hx, rfl⟩ := List.mem_map.mp hj
  obtain ⟨node, hread, hshows⟩ := (h.chain i).read hi
  obtain ⟨node', hread', hshows'⟩ := (h.chain j).read hx
  obtain rfl := Option.some.inj (hread.symm.trans hread')
  rw [← h.placed i _ hi, ← h.placed j _ hx]
  exact congrArg dictIndex (Option.some.inj (hshows'.1.symm.trans hshows.1))

theorem chains_dictFind (h : m.Chains d chains) (key : Bytes)
    (hfuel : (chains (dictIndex key)).length < fuel) :
    Linked.dictFind fuel m (some d) (some key) = some (dictFind (listed chains) key) := by
  have htest : ∀ node kvp, m.Shows node kvp →
      m.strcmpEq node.value.key key = some (kvp.key == key) := fun node kvp hshows =>
    strcmpEq_shows hshows key
  rw [Linked.dictFind, findNode, listed_find?]
  cases hfind : (chains (dictIndex key)).find? fun x => x.2.key == key with
  | none =>
    rw [(h.chain _).search_none htest hfuel hfind]
    rfl
  | some x =>
    obtain ⟨node, hsearch, -, hshows⟩ := (h.chain _).search_some htest hfuel hfind
    rw [hsearch, Option.map_some, Option.bind_some, hshows.2]
    rfl

theorem chains_update (h : m.Chains d chains) {i : ℕ}
    {ys : List (ℕ × Kvp V)} (hchain : m'.Chain (d'.bucket i) ys)
    (hothers : ∀ j, j ≠ i → m'.Chain (d'.bucket j) (chains j))
    (hplaced : ∀ y ∈ ys, dictIndex y.2.key = i) (hnodup : (ys.map fun y => y.2.key).Nodup) :
    m'.Chains d' (Function.update chains i ys) := by
  refine ⟨fun j => ?_, fun j => ?_, fun j => ?_⟩ <;> by_cases hj : j = i
  · rwa [hj, Function.update_self]
  · rw [Function.update_of_ne hj]
    exact hothers j hj
  · rwa [hj, Function.update_self]
  · rw [Function.update_of_ne hj]
    exact h.placed j
  · rwa [hj, Function.update_self]
  · rw [Function.update_of_ne hj]
    exact h.nodup j

/-- The branch that replaces the value of a node. -/
theorem dictReplace_chains (h : m.Chains d chains) {i : ℕ} {before after : List (ℕ × Kvp V)}
    (hsplit : chains i = before ++ (p, kvp) :: after) (hread : m.nodes p = some node)
    (hshows : m.Shows node kvp) (value : V) :
    (dictReplace m d (some value) p node).2.1.Chains d
      (Function.update chains i (before ++ (p, { kvp with value := value }) :: after)) := by
  have hchain := h.chain i
  have hplaced := h.placed i
  have hnodup := h.nodup i
  rw [hsplit] at hchain hplaced hnodup
  apply chains_update h
  · exact LinkedChains.Chain.update hchain hread rfl ⟨hshows.1, rfl⟩
  · intro j hj
    have hmem : (p, kvp) ∈ chains i := by
      rw [hsplit]
      exact List.mem_append_right _ List.mem_cons_self
    exact setNode_chain (h.chain j) (fun hp => hj (bucket_unique h hmem hp)) _
  · simpa only [List.forall_mem_append, List.forall_mem_cons] using hplaced
  · simpa only [List.map_append, List.map_cons] using hnodup

/-- The branch that inserts a node at the head of the chain. -/
theorem dictInsertNew_chains (h : m.Chains d chains) {string : ℕ} (hstring : m.strings string = none)
    (hnode : m.nodes p = none) (hnew : ∀ x ∈ chains (dictIndex key), x.2.key ≠ key) (value : V) :
    ∃ m' d', dictInsertNew m d key (some value) (some string) (some p) = some (1, m', d') ∧
      m'.freed = m.freed ∧ m'.Chains d' (Function.update chains (dictIndex key)
        ((p, ⟨key, value⟩) :: chains (dictIndex key))) := by
  -- the chains outlive the allocations
  have hfresh : ∀ i, p ∉ (chains i).map Prod.fst := fun i =>
    LinkedChains.Chain.fresh (h.chain i) hnode
  have hkeeps : ∀ i, ((strdup m key (some string)).setNode p
      ⟨⟨some string, some value⟩, none, none⟩).Chain (d.bucket i) (chains i) := fun i =>
    setNode_chain (strdup_chain (h.chain i) hstring key) (hfresh i) _
  have hshows : ((strdup m key (some string)).setNode p
      ⟨⟨some string, some value⟩, none, none⟩).Shows ⟨⟨some string, some value⟩, none, none⟩
      ⟨key, value⟩ := ⟨Function.update_self .., rfl⟩
  obtain ⟨m', hinsert, hfreed, hhead, hothers⟩ :=
    kvpNodeHeadInsert_chain (hkeeps (dictIndex key)) (hfresh _) (Function.update_self ..) hshows
  refine ⟨m', ⟨Function.update d.bucket (dictIndex key) (some p)⟩, ?_, hfreed,
    chains_update h ?_ ?_ ?_ ?_⟩
  · rw [dictInsertNew, kvpNodeInit, Option.map_some, Option.bind_eq_bind, Option.bind_some]
    dsimp only
    rw [hinsert]
    rfl
  · dsimp only
    rwa [Function.update_self]
  · intro j hj
    dsimp only
    rw [Function.update_of_ne hj]
    exact hothers _ _ (hkeeps j) (hfresh j)
  · exact List.forall_mem_cons.mpr ⟨rfl, h.placed _⟩
  · rw [List.map_cons, List.nodup_cons]
    refine ⟨fun hkey => ?_, h.nodup _⟩
    obtain ⟨x, hx, heq⟩ := List.mem_map.mp hkey
    exact hnew x hx heq

theorem listed_update (chains : ℕ → List (ℕ × Kvp V)) (i : ℕ) (ys : List (ℕ × Kvp V)) :
    listed (Function.update chains i ys) =
      ⟨fun j => if j = i then ys.map Prod.snd else (listed chains).bucket j⟩ := by
  refine congrArg Dictionary.mk (funext fun j => ?_)
  by_cases hj : j = i
  · rw [if_pos hj, hj, Function.update_self]
  · rw [if_neg hj, Function.update_of_ne hj]
    rfl

/-- An insertion in memory does what it does to the lists. Only a value that it replaces is
freed. -/
theorem chains_dictInsert (h : m.Chains d chains) {string : ℕ} (hstring : m.strings string = none)
    (hnode : m.nodes p = none) (hfuel : (chains (dictIndex key)).length < fuel) (value : V) :
    ∃ m' d' chains', Linked.dictInsert fuel m d key (some value) (some string) (some p) =
        some (1, m', d') ∧ m'.Chains d' chains' ∧
      listed chains' = dictInsert (listed chains) key value ∧
      m'.freed = (dictFind (listed chains) key).toList ++ m.freed := by
  have htest : ∀ node kvp, m.Shows node kvp →
      m.strcmpEq node.value.key key = some (kvp.key == key) := fun node kvp hshows =>
    strcmpEq_shows hshows key
  rw [Linked.dictInsert, findNode, listed_find?, dictInsert]
  cases hfind : (chains (dictIndex key)).find? fun x => x.2.key == key with
  | none =>
    have hnew : ∀ x ∈ chains (dictIndex key), x.2.key ≠ key := fun x hx hkey =>
      List.find?_eq_none.mp hfind x hx (beq_iff_eq.mpr hkey)
    obtain ⟨m', d', hinsert, hfreed, hchains⟩ := dictInsertNew_chains h hstring hnode hnew value
    refine ⟨m', d', _, ?_, hchains, ?_, hfreed⟩
    · rw [(h.chain _).search_none htest hfuel hfind]
      exact hinsert
    · have hreplace : chainReplace key value ((listed chains).bucket (dictIndex key)) = none :=
        chainReplace_none (List.forall_mem_map.mpr hnew) value
      rw [listed_update, hreplace]
      rfl
  | some x =>
    obtain ⟨node, hsearch, hread, hshows⟩ := (h.chain _).search_some htest hfuel hfind
    obtain ⟨hkey, before, after, hsplit, hbefore⟩ := List.find?_eq_some_iff_append.mp hfind
    obtain rfl := beq_iff_eq.mp hkey
    refine ⟨_, _, _, ?_, dictReplace_chains h hsplit hread hshows value, ?_, ?_⟩
    · rw [hsearch]
      rfl
    · have hothers : ∀ kvp ∈ before.map Prod.snd, kvp.key ≠ x.2.key :=
        List.forall_mem_map.mpr fun y hy hsame => by simpa [hsame] using hbefore y hy
      have hbucket : (listed chains).bucket (dictIndex x.2.key) =
          before.map Prod.snd ++ x.2 :: after.map Prod.snd :=
        (congrArg (List.map Prod.snd) hsplit).trans List.map_append
      rw [listed_update, hbucket, chainReplace_append hothers, List.map_append, List.map_cons]
      rfl
    · show node.value.value.toList ++ m.freed = _
      rw [hshows.2]
      rfl

/-! ## Runs -/

theorem dictInsert_mono {fuel' : ℕ} {value : Option V} {string block : Option ℕ}
    {result : ℤ × Memory V × Linked.Dictionary} (hfuel : fuel ≤ fuel')
    (h : Linked.dictInsert fuel m d key value string block = some result) :
    Linked.dictInsert fuel' m d key value string block = some result := by
  obtain ⟨found, hfind, h⟩ := Option.bind_eq_some_iff.mp h
  rw [Linked.dictInsert, findNode, LinkedChains.search_mono hfind hfuel]
  exact h

variable {log : List (Bytes × V)}

/-- After a run the chains hold what has been inserted. -/
theorem dictRun_chains (h : Linked.DictRun log m d) :
    ∃ chains, m.Chains d chains ∧ listed chains = dictInsertAll log := by
  induction h with
  | init hinit =>
    obtain rfl := Option.some.inj hinit
    exact ⟨fun _ => [], ⟨fun _ => .nil, fun _ => List.forall_mem_nil _, fun _ => List.nodup_nil⟩,
      rfl⟩
  | insert fuel key value string node hrun hstring hnode hinsert ih =>
    obtain ⟨chains, hchains, hlisted⟩ := ih
    have henough : (chains (dictIndex key)).length <
        max fuel ((chains (dictIndex key)).length + 1) := by omega
    obtain ⟨m₁, d₁, chains', hinsert', hchains', hlisted', -⟩ :=
      chains_dictInsert hchains hstring hnode henough value
    rw [dictInsert_mono (Nat.le_max_left ..) hinsert] at hinsert'
    obtain ⟨-, rfl, rfl⟩ := by simpa using hinsert'
    exact ⟨chains', hchains', by rw [hlisted', hlisted, dictInsertAll_append]⟩

/-- No chain is longer than the run. -/
theorem chains_length (hlisted : listed chains = dictInsertAll log) (i : ℕ) :
    (chains i).length ≤ log.length := by
  have hbucket := dictInsertAll_bucket_length log i
  rw [← hlisted, listed, List.length_map] at hbucket
  exact hbucket

theorem dictRun_dictFind (h : Linked.DictRun log m d) (key : Bytes) (hfuel : log.length < fuel) :
    Linked.dictFind fuel m (some d) (some key) = some (dictFind (dictInsertAll log) key) := by
  obtain ⟨chains, hchains, hlisted⟩ := dictRun_chains h
  rw [← hlisted]
  exact chains_dictFind hchains key ((chains_length hlisted _).trans_lt hfuel)

/-- The hash map is a map, in every run: its chains are finite and hold each key once, on the chain of
its hash; a lookup ends with the value that was inserted last; and an insertion ends, whatever the
allocator chooses, without an effect on other keys. -/
theorem dictRun_map (h : Linked.DictRun log m d) :
    (∃ chains, m.Chains d chains ∧
      ∀ i j, ∀ x ∈ chains i, ∀ y ∈ chains j, x.2.key = y.2.key → x = y) ∧
    (∀ key fuel, log.length < fuel →
      Linked.dictFind fuel m (some d) (some key) = some (log.reverse.lookup key)) ∧
    ∀ key value string node fuel, m.strings string = none → m.nodes node = none →
      log.length < fuel → ∃ m' d',
        Linked.dictInsert fuel m d key (some value) (some string) (some node) = some (1, m', d') ∧
        Linked.DictRun (log ++ [(key, value)]) m' d' ∧
        ∀ other, other ≠ key → ∀ fuel', log.length + 1 < fuel' →
          Linked.dictFind fuel' m' (some d') (some other) =
            Linked.dictFind fuel m (some d) (some other) := by
  obtain ⟨chains, hchains, hlisted⟩ := dictRun_chains h
  refine ⟨⟨chains, hchains, fun i j x hx y hy hkey => ?_⟩, fun key fuel hfuel => ?_, ?_⟩
  · have hbucket : i = j := by
      rw [← hchains.placed i x hx, ← hchains.placed j y hy, hkey]
    subst hbucket
    exact List.inj_on_of_nodup_map (hchains.nodup i) hx hy hkey
  · rw [dictRun_dictFind h key hfuel, dictFind_dictInsertAll]
  · intro key value string node fuel hstring hnode hfuel
    obtain ⟨m', d', _, hinsert, -⟩ :=
      chains_dictInsert hchains hstring hnode ((chains_length hlisted _).trans_lt hfuel) value
    have hrun := Linked.DictRun.insert fuel key value string node h hstring hnode hinsert
    refine ⟨m', d', hinsert, hrun, fun other hother fuel' hfuel' => ?_⟩
    have hlonger : (log ++ [(key, value)]).length < fuel' := by
      rwa [List.length_append]
    rw [dictRun_dictFind hrun other hlonger, dictRun_dictFind h other hfuel, dictInsertAll_append,
      dictFind_dictInsert, if_neg hother]

/-- Two keys on one chain, the first of them inserted twice. -/
theorem dictRun_map_collision : dictIndex (ascii "/aa") = dictIndex (ascii "/hz") ∧ ∃ m d,
    Linked.DictRun [(ascii "/aa", 1), (ascii "/hz", 2), (ascii "/aa", 3)] m d ∧
    Linked.dictFind 4 m (some d) (some (ascii "/aa")) = some (some 3) ∧
    Linked.dictFind 4 m (some d) (some (ascii "/hz")) = some (some 2) := by
  have hempty : Linked.DictRun [] (⟨fun _ => none, fun _ => none, []⟩ : Memory ℕ) _ := .init rfl
  have hfirst := hempty.insert 4 (ascii "/aa") 1 0 0 rfl rfl rfl
  have hsecond := hfirst.insert 4 (ascii "/hz") 2 1 1 rfl rfl rfl
  have hthird := hsecond.insert 4 (ascii "/aa") 3 2 2 rfl rfl rfl
  have hfind := (dictRun_map hthird).2.1
  refine ⟨by decide +kernel, _, _, hthird, ?_, ?_⟩
  · rw [hfind _ 4 (by decide)]
    decide
  · rw [hfind _ 4 (by decide)]
    decide

end HttpServer
