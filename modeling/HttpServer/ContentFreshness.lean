import HttpServer.ChunkedFrames
import HttpServer.ContentLoading
import Mathlib.Logic.Relation

/-!
# Freshness of resident content

A file that is registered with `SERVE_DYN_RESIDENT` is looked at on every lookup.
However the file changes between the lookups, what is served is what the file holds
when it is looked at.
-/

namespace HttpServer

open Relation

variable {σ V : Type*} {w : World σ} {content : ℤ → ℕ → Bytes} {path url : Bytes}
  {entry : ContentEntry} {st : Stat} {file : FileNode}

/-! ## The hash map -/

/-- The chain after an insertion. -/
theorem chainReplace_find? (key other : Bytes) (value : V) (chain : List (Kvp V)) :
    (((chainReplace key value chain).getD (⟨key, value⟩ :: chain)).find?
        fun node => node.key == other).map Kvp.value =
      if other = key then some value
      else (chain.find? fun node => node.key == other).map Kvp.value := by
  have hne : other ≠ key → (key == other) = false := fun h => beq_false_of_ne h.symm
  cases hreplace : chainReplace key value chain with
  | none =>
    rw [Option.getD_none, List.find?_cons]
    by_cases hkey : other = key
    · simp [hkey]
    · simp [hkey, hne hkey]
  | some chain' =>
    rw [Option.getD_some]
    induction chain generalizing chain' with
    | nil => cases hreplace
    | cons node next ih =>
      unfold chainReplace at hreplace
      split at hreplace
      · next hnode =>
        obtain rfl := Option.some.inj hreplace
        rw [List.find?_cons, List.find?_cons]
        by_cases hkey : other = key
        · simp [hkey, hnode]
        · simp [hkey, hnode, hne hkey]
      · next hnode =>
        obtain ⟨rest, hrest, rfl⟩ := Option.map_eq_some_iff.mp hreplace
        have hih := ih rest hrest
        rw [List.find?_cons, List.find?_cons]
        by_cases hother : node.key = other
        · have hkey : other ≠ key := fun heq => hnode (hother.trans heq)
          simp [hother, hkey]
        · rw [beq_false_of_ne hother]
          exact hih

theorem dictFind_dictInsert (d : Dictionary V) (key other : Bytes) (value : V) :
    dictFind (dictInsert d key value) other =
      if other = key then some value else dictFind d other := by
  unfold dictFind dictInsert
  dsimp only
  by_cases hindex : dictIndex other = dictIndex key
  · rw [if_pos hindex, chainReplace_find?, hindex]
  · have hkey : other ≠ key := fun heq => hindex (by rw [heq])
    rw [if_neg hindex, if_neg hkey]

/-! ## Entity tags -/

theorem showHex_injective {n n' : ℕ} (h : showHex n = showHex n') : n = n' := by
  have hn := ((hexNumeral_iff _ _).mp (hexNumeral_showHex n)).2
  have hn' := ((hexNumeral_iff _ _).mp (hexNumeral_showHex n')).2
  rw [h, hn'] at hn
  exact (Option.some.inj hn).symm

theorem showHex_length {n : ℕ} (h : n < 2 ^ 64) : (showHex n).length ≤ 16 := by
  rw [showHex, List.length_map]
  refine (Nat.length_toDigits_le_iff (by decide) (by decide)).mpr (h.trans_le ?_)
  decide

theorem toUnsignedLong_lt (n : ℤ) : toUnsignedLong n < 2 ^ 64 := by
  unfold toUnsignedLong
  omega

/-- A digit is not the dash between the two numbers. -/
theorem HexNumeral.ne_dash {s : Bytes} {n : ℕ} (h : HexNumeral s n) : ∀ c ∈ s, c ≠ 45 := by
  have hdigit : ∀ c d, HexDigit c d → c ≠ 45 := by
    rintro c d h rfl
    revert h
    simp [HexDigit]
  induction h with
  | digit h => simpa using hdigit _ _ h
  | snoc hs h ih =>
    intro c hc
    rcases List.mem_append.mp hc with hc | hc
    · exact ih c hc
    · obtain rfl := List.mem_singleton.mp hc
      exact hdigit _ _ h

/-- The tag of a file with these times and size. -/
def etagText (mtime : ℤ) (size : ℕ) : Bytes :=
  ascii "W/\"" ++ showHex (toUnsignedLong mtime) ++ ascii "-" ++ showHex (toUnsignedLong size) ++
    ascii "\""

/-- The tag is not cut off. -/
theorem revalFill_etag (st : Stat) (path : Bytes) :
    (revalFill st path).etag = etagText st.mtime st.size := by
  have hmtime := showHex_length (toUnsignedLong_lt st.mtime)
  have hsize := showHex_length (toUnsignedLong_lt st.size)
  have hliterals : (ascii "W/\"").length = 3 ∧ (ascii "-").length = 1 ∧ (ascii "\"").length = 1 := by
    decide
  refine List.take_of_length_le ?_
  simp only [List.length_append, hliterals, ETAG_SIZE]
  omega

theorem List.append_cons_injective {a b a' b' : Bytes} {c : Byte} (ha : ∀ x ∈ a, x ≠ c)
    (ha' : ∀ x ∈ a', x ≠ c) (h : a ++ c :: b = a' ++ c :: b') : a = a' ∧ b = b' := by
  induction a generalizing a' with
  | nil =>
    cases a' with
    | nil => exact ⟨rfl, (List.cons.inj h).2⟩
    | cons x a' => exact absurd (List.cons.inj h).1.symm (ha' x (List.mem_cons_self ..))
  | cons x a ih =>
    cases a' with
    | nil => exact absurd (List.cons.inj h).1 (ha x (List.mem_cons_self ..))
    | cons x' a' =>
      obtain ⟨rfl, htail⟩ := List.cons.inj h
      obtain ⟨rfl, rfl⟩ := ih (fun y hy => ha y (List.mem_cons_of_mem _ hy))
        (fun y hy => ha' y (List.mem_cons_of_mem _ hy)) htail
      exact ⟨rfl, rfl⟩

/-- The values of `time_t` and `off_t`. -/
def FileNode.Representable (file : FileNode) : Prop :=
  -2 ^ 63 ≤ file.mtime ∧ file.mtime < 2 ^ 63 ∧ file.size < 2 ^ 63

theorem etagText_injective {file file' : FileNode} (hfile : file.Representable)
    (hfile' : file'.Representable)
    (h : etagText file.mtime file.size = etagText file'.mtime file'.size) :
    file.mtime = file'.mtime ∧ file.size = file'.size := by
  have hdash : ascii "-" = [45] := by decide
  simp only [etagText, hdash, List.append_assoc, List.cons_append, List.nil_append] at h
  obtain ⟨hmtime, hrest⟩ := List.append_cons_injective (hexNumeral_showHex _).ne_dash
    (hexNumeral_showHex _).ne_dash (List.append_cancel_left h)
  have hmtime := showHex_injective hmtime
  have hsize := showHex_injective (List.append_cancel_right hrest)
  obtain ⟨hlow, hhigh, hfits⟩ := hfile
  obtain ⟨hlow', hhigh', hfits'⟩ := hfile'
  simp only [toUnsignedLong] at hmtime hsize
  omega

/-! ## Loading -/

/-- The file is read as a whole, and its times and size tell what it contains. -/
structure FileNode.Regular (content : ℤ → ℕ → Bytes) (file : FileNode) : Prop where
  whole : file.content.length = file.size
  determined : file.content = content file.mtime file.size

/-- `entry` is what has been loaded from the file at `path` when `st` was its status. -/
structure ContentEntry.Loaded (content : ℤ → ℕ → Bytes) (path : Bytes) (st : Stat)
    (entry : ContentEntry) : Prop where
  mode : entry.mode = .dynResident
  len : entry.len = st.size
  data : entry.data.take entry.len = content st.mtime st.size
  reval : entry.reval = some (revalFill st path)

theorem contentEntryDynamicLoad_loaded (hfile : w.files path = some file)
    (hregular : file.Regular content)
    (hload : (contentEntryDynamicLoad w path ⟨file.mtime, file.size⟩).1 = some entry) :
    entry.Loaded content path ⟨file.mtime, file.size⟩ := by
  obtain ⟨file', hfile', hmode, hholds, hreval, -⟩ := contentEntryDynamicLoad_some hload
  obtain rfl := Option.some.inj (hfile.symm.trans hfile')
  have hwhole : file.content.take file.size = file.content := by
    rw [← hregular.whole, List.take_length]
  refine ⟨hmode, ?_, ?_, hreval⟩
  · rw [hholds.len, hwhole, hregular.whole]
  · rw [hholds.data, hwhole, hregular.determined]

theorem contentRegistryAddFile_loaded (hfile : w.files path = some file)
    (hregular : file.Regular content)
    (hadded : (contentRegistryAddFile w path url .dynResident).1 = true) :
    ∃ entry, dictFind (contentRegistryAddFile w path url .dynResident).2.registry url = some entry ∧
      entry.Loaded content path ⟨file.mtime, file.size⟩ := by
  unfold contentRegistryAddFile at hadded ⊢
  rw [World.stat_some hfile] at hadded ⊢
  dsimp only at hadded ⊢
  have hloaded : ∀ entry, (contentEntryDynamicLoad (w.stat path).2 path
      ⟨file.mtime, file.size⟩).1 = some entry → entry.Loaded content path _ := fun entry hload =>
    contentEntryDynamicLoad_loaded (show (w.stat path).2.files path = some file from hfile)
      hregular hload
  generalize contentEntryDynamicLoad (w.stat path).2 path ⟨file.mtime, file.size⟩ = load
    at hadded hloaded ⊢
  obtain ⟨_ | entry, w'⟩ := load
  · cases hadded
  · refine ⟨entry, ?_, hloaded entry rfl⟩
    dsimp only
    rw [dictFind_dictInsert, if_pos rfl]

theorem contentRegistryAddFile_files (w : World σ) (path url : Bytes) :
    (contentRegistryAddFile w path url .dynResident).2.files = w.files := by
  have hfiles : ∀ st, (contentEntryDynamicLoad (w.stat path).2 path st).2.files = w.files :=
    fun st => (contentEntryDynamicLoad_extends (w.stat path).2 path st).files
  unfold contentRegistryAddFile
  generalize hstat : w.stat path = found at hfiles ⊢
  obtain ⟨_ | st, w'⟩ := found
  · exact congrArg (fun found => found.2.files) hstat.symm
  · have hload := hfiles st
    dsimp only at hload ⊢
    generalize contentEntryDynamicLoad w' path st = load at hload ⊢
    obtain ⟨_ | entry, w''⟩ := load <;> exact hload

/-! ## Looking up -/

theorem contentEntryRefresh_frame (w : World σ) (url : Bytes) (entry : ContentEntry)
    (reval : RevalMeta) (st : Stat) :
    (contentEntryRefresh w url entry reval st).2.files = w.files ∧
      ∀ other, other ≠ url →
        dictFind (contentEntryRefresh w url entry reval st).2.registry other =
          dictFind w.registry other := by
  obtain ⟨hfiles, hregistry, -⟩ := contentEntryDynamicLoad_extends w reval.fsPath st
  unfold contentEntryRefresh
  split
  · generalize contentEntryDynamicLoad w reval.fsPath st = load at hregistry hfiles ⊢
    obtain ⟨_ | fresh, w'⟩ := load
    · exact ⟨hfiles, fun other _ => congrArg (dictFind · other) hregistry⟩
    · refine ⟨hfiles, fun other hother => ?_⟩
      dsimp only at hregistry ⊢
      rw [dictFind_dictInsert, if_neg hother, hregistry]
  · exact ⟨rfl, fun other _ => rfl⟩

/-- A lookup touches no file, and of the registry only the entry it looks for. -/
theorem contentRegistryLookup_frame (w : World σ) (headers : List Header) (url : Bytes) :
    (contentRegistryLookup w headers url).2.files = w.files ∧
      ∀ other, other ≠ url →
        dictFind (contentRegistryLookup w headers url).2.registry other =
          dictFind w.registry other := by
  unfold contentRegistryLookup
  cases dictFind w.registry url with
  | none => exact ⟨rfl, fun other _ => rfl⟩
  | some entry =>
    dsimp only
    split
    · next reval hmode hreval =>
      have hstat : (w.stat reval.fsPath).2.files = w.files ∧
          (w.stat reval.fsPath).2.registry = w.registry := ⟨rfl, rfl⟩
      generalize w.stat reval.fsPath = found at hstat ⊢
      obtain ⟨_ | st, w'⟩ := found
      · exact ⟨hstat.1, fun other _ => congrArg (dictFind · other) hstat.2⟩
      · dsimp only at hstat ⊢
        obtain ⟨hfiles, hothers⟩ := contentEntryRefresh_frame w' url entry reval st
        generalize contentEntryRefresh w' url entry reval st = refreshed at hfiles hothers ⊢
        obtain ⟨_ | fresh, w''⟩ := refreshed <;>
          exact ⟨hfiles.trans hstat.1, fun other hother =>
            (hothers other hother).trans (congrArg (dictFind · other) hstat.2)⟩
    · exact ⟨rfl, fun other _ => rfl⟩

/-- The entry a lookup goes on with is the file as it is now. -/
theorem contentEntryRefresh_loaded {st : Stat} (hfile : w.files path = some file)
    (hregular : file.Regular content) (hpath : path.length < FS_PATH_SIZE)
    (hfind : dictFind w.registry url = some entry) (hloaded : entry.Loaded content path st) :
    ((contentEntryRefresh w url entry (revalFill st path) ⟨file.mtime, file.size⟩).1 = none ∧
      (contentEntryRefresh w url entry (revalFill st path) ⟨file.mtime, file.size⟩).2.registry =
        w.registry) ∨
    ∃ fresh, fresh.Loaded content path ⟨file.mtime, file.size⟩ ∧
      (contentEntryRefresh w url entry (revalFill st path) ⟨file.mtime, file.size⟩).1 =
        some fresh ∧
      dictFind (contentEntryRefresh w url entry (revalFill st path)
        ⟨file.mtime, file.size⟩).2.registry url = some fresh := by
  have hfsPath : (revalFill st path).fsPath = path :=
    List.take_of_length_le (by unfold FS_PATH_SIZE at *; omega)
  unfold contentEntryRefresh
  rw [hfsPath]
  split
  · have hfresh : ∀ fresh, (contentEntryDynamicLoad w path ⟨file.mtime, file.size⟩).1 =
        some fresh → fresh.Loaded content path _ :=
      fun fresh hload => contentEntryDynamicLoad_loaded hfile hregular hload
    have hregistry := (contentEntryDynamicLoad_extends w path ⟨file.mtime, file.size⟩).registry
    generalize contentEntryDynamicLoad w path ⟨file.mtime, file.size⟩ = load
      at hfresh hregistry ⊢
    obtain ⟨_ | fresh, w'⟩ := load
    · exact .inl ⟨rfl, hregistry⟩
    · refine .inr ⟨fresh, hfresh fresh rfl, rfl, ?_⟩
      dsimp only
      rw [dictFind_dictInsert, if_pos rfl]
  · next hsame =>
    obtain ⟨hmtime, hsize⟩ := not_or.mp hsame
    have hmtime : file.mtime = st.mtime := not_not.mp hmtime
    have hsize : file.size = st.size := not_not.mp hsize
    refine .inr ⟨entry, ?_, rfl, hfind⟩
    rw [hmtime, hsize]
    exact hloaded

/-- `url` is registered for the file at `path`, and whatever that file is, its times and size tell
what it contains. -/
structure World.Serves (content : ℤ → ℕ → Bytes) (path url : Bytes) (w : World σ) : Prop where
  loaded : ∃ entry st, dictFind w.registry url = some entry ∧ entry.Loaded content path st
  regular : ∀ file ∈ w.files path, file.Regular content

/-- A lookup answers with the file as it is, or finds it gone. -/
theorem contentRegistryLookup_spec (hpath : path.length < FS_PATH_SIZE)
    (h : w.Serves content path url) (headers : List Header) :
    ((contentRegistryLookup w headers url).1 = .gone ∧
      (contentRegistryLookup w headers url).2.registry = w.registry) ∨
    ∃ file entry, w.files path = some file ∧
      entry.Loaded content path ⟨file.mtime, file.size⟩ ∧
      dictFind (contentRegistryLookup w headers url).2.registry url = some entry ∧
      (contentRegistryLookup w headers url).1 =
        if requestValidatorsMatch headers (revalFill ⟨file.mtime, file.size⟩ path) then
          .notModified entry
        else .hit entry := by
  obtain ⟨⟨entry, st, hfind, hloaded⟩, hregular⟩ := h
  have hfsPath : (revalFill st path).fsPath = path :=
    List.take_of_length_le (by unfold FS_PATH_SIZE at *; omega)
  unfold contentRegistryLookup
  rw [hfind]
  dsimp only
  rw [hloaded.mode, hloaded.reval]
  dsimp only
  rw [hfsPath]
  cases hfile : w.files path with
  | none =>
    rw [World.stat_none hfile]
    exact .inl ⟨rfl, rfl⟩
  | some file =>
    rw [World.stat_some hfile]
    dsimp only
    have hrefresh := contentEntryRefresh_loaded
      (show (w.stat path).2.files path = some file from hfile) (hregular file hfile) hpath
      (show dictFind (w.stat path).2.registry url = some entry from hfind) hloaded
    have hregistry : (w.stat path).2.registry = w.registry := rfl
    generalize contentEntryRefresh (w.stat path).2 url entry (revalFill st path)
      ⟨file.mtime, file.size⟩ = refreshed at hrefresh ⊢
    obtain ⟨result, w'⟩ := refreshed
    rcases hrefresh with ⟨rfl, hsame⟩ | ⟨fresh, hfresh, rfl, hfound⟩
    · exact .inl ⟨rfl, hsame.trans hregistry⟩
    · refine .inr ⟨file, fresh, rfl, hfresh, hfound, ?_⟩
      dsimp only
      rw [hfresh.reval, Option.getD_some]

/-! ## Runs -/

/-- What can happen: the file system changes, and a URL is looked up. -/
inductive ContentNext (content : ℤ → ℕ → Bytes) (path : Bytes) : World σ → World σ → Prop where
  | change {w : World σ} (files : Bytes → Option FileNode) (mallocs : List Bool)
      (hregular : ∀ file ∈ files path, file.Regular content) :
      ContentNext content path w { w with files := files, mallocs := mallocs }
  | lookup {w : World σ} (headers : List Header) (url : Bytes) :
      ContentNext content path w (contentRegistryLookup w headers url).2

theorem World.Serves.lookup (hpath : path.length < FS_PATH_SIZE) (h : w.Serves content path url)
    (headers : List Header) (other : Bytes) :
    (contentRegistryLookup w headers other).2.Serves content path url := by
  obtain ⟨hfiles, hothers⟩ := contentRegistryLookup_frame w headers other
  refine ⟨?_, by rw [hfiles]; exact h.regular⟩
  by_cases hurl : url = other
  · subst hurl
    rcases contentRegistryLookup_spec hpath h headers with ⟨-, hregistry⟩ |
        ⟨file, entry, -, hloaded, hfind, -⟩
    · rw [hregistry]
      exact h.loaded
    · exact ⟨entry, _, hfind, hloaded⟩
  · rw [hothers url hurl]
    exact h.loaded

theorem ContentNext.serves {w' : World σ} (hpath : path.length < FS_PATH_SIZE)
    (h : ContentNext content path w w') (hw : w.Serves content path url) :
    w'.Serves content path url := by
  cases h with
  | change files mallocs hregular => exact ⟨hw.loaded, hregular⟩
  | lookup headers other => exact hw.lookup hpath headers other

theorem serves_of_reaches {w' : World σ} (hpath : path.length < FS_PATH_SIZE)
    (h : ReflTransGen (ContentNext content path) w w') (hw : w.Serves content path url) :
    w'.Serves content path url := by
  induction h with
  | refl => exact hw
  | tail _ hnext ih => exact hnext.serves hpath ih

/-! ## Freshness -/

/-- `entry` is what the file holds. -/
structure ContentEntry.Current (entry : ContentEntry) (file : FileNode) : Prop where
  data : entry.data.take entry.len = file.content
  len : entry.len = file.content.length
  reval : ∃ reval, entry.reval = some reval ∧ reval.mtime = file.mtime ∧
    reval.size = file.size ∧ reval.etag = etagText file.mtime file.size

theorem ContentEntry.Loaded.current (h : entry.Loaded content path ⟨file.mtime, file.size⟩)
    (hregular : file.Regular content) : entry.Current file := by
  refine ⟨h.data.trans hregular.determined.symm, h.len.trans hregular.whole.symm,
    revalFill ⟨file.mtime, file.size⟩ path, h.reval, rfl, rfl, revalFill_etag _ _⟩

/-- The validators of a request that the file has not changed for: `If-Modified-Since` counts
only without `If-None-Match`. -/
def Unmodified (headers : List Header) (file : FileNode) : Prop :=
  match headerFind headers (ascii "if-none-match") with
  | some inm => inm.value = ascii "*" ∨ inm.value = etagText file.mtime file.size
  | none => ∃ ims t, headerFind headers (ascii "if-modified-since") = some ims ∧
      httpDateParse ims.value = some t ∧ file.mtime ≤ t

theorem requestValidatorsMatch_iff (headers : List Header) (file : FileNode) (path : Bytes) :
    requestValidatorsMatch headers (revalFill ⟨file.mtime, file.size⟩ path) = true ↔
      Unmodified headers file := by
  have hmtime : (revalFill ⟨file.mtime, file.size⟩ path).mtime = file.mtime := rfl
  unfold requestValidatorsMatch Unmodified
  rw [revalFill_etag, hmtime]
  cases headerFind headers (ascii "if-none-match") with
  | some inm =>
    dsimp only
    split
    · next hany => simp [hany]
    · next hany => simp [hany]
  | none =>
    dsimp only
    cases headerFind headers (ascii "if-modified-since") with
    | none => simp
    | some ims =>
      dsimp only
      cases hdate : httpDateParse ims.value with
      | none => simp [hdate]
      | some t => simp [hdate]

/-- What a lookup may answer. -/
def ContentFresh (w : World σ) (path : Bytes) (headers : List Header) :
    ContentLookupResult × World σ → Prop
  | (.hit entry, _) => ∃ file, w.files path = some file ∧ entry.Current file
  | (.notModified _, _) => ∃ file, w.files path = some file ∧ Unmodified headers file
  | (.gone, w') => w'.registry = w.registry
  | (.miss, _) => False

theorem World.Serves.fresh (hpath : path.length < FS_PATH_SIZE) (h : w.Serves content path url)
    (headers : List Header) : ContentFresh w path headers (contentRegistryLookup w headers url) := by
  have hspec := contentRegistryLookup_spec hpath h headers
  have hregular := h.regular
  generalize contentRegistryLookup w headers url = found at hspec ⊢
  obtain ⟨result, w'⟩ := found
  rcases hspec with ⟨rfl, hregistry⟩ | ⟨file, entry, hfile, hloaded, -, rfl⟩
  · exact hregistry
  · split
    · next hmatch =>
      exact ⟨file, hfile, (requestValidatorsMatch_iff headers file path).mp hmatch⟩
    · exact ⟨file, hfile, hloaded.current (hregular file hfile)⟩

/-- For every sequence of changes and lookups behind the registration, and every pair of files. -/
theorem lookup_fresh (content : ℤ → ℕ → Bytes) (path url : Bytes)
    (hpath : path.length < FS_PATH_SIZE) (w₀ w : World σ)
    (hregular : ∀ file ∈ w₀.files path, file.Regular content)
    (hadded : (contentRegistryAddFile w₀ path url .dynResident).1 = true)
    (hreaches : ReflTransGen (ContentNext content path)
      (contentRegistryAddFile w₀ path url .dynResident).2 w) :
    (∀ headers, ContentFresh w path headers (contentRegistryLookup w headers url)) ∧
      ∀ file file' : FileNode, file.Representable → file'.Representable →
        etagText file.mtime file.size = etagText file'.mtime file'.size →
        file.mtime = file'.mtime ∧ file.size = file'.size := by
  have hfile : ∃ file, w₀.files path = some file := by
    cases hfile : w₀.files path with
    | some file => exact ⟨file, rfl⟩
    | none =>
      unfold contentRegistryAddFile at hadded
      rw [World.stat_none hfile] at hadded
      cases hadded
  obtain ⟨file, hfile⟩ := hfile
  obtain ⟨entry, hfind, hloaded⟩ := contentRegistryAddFile_loaded hfile (hregular file hfile) hadded
  have hserves : (contentRegistryAddFile w₀ path url .dynResident).2.Serves content path url :=
    ⟨⟨entry, _, hfind, hloaded⟩, by rw [contentRegistryAddFile_files]; exact hregular⟩
  exact ⟨(serves_of_reaches hpath hreaches hserves).fresh hpath,
    fun file file' => etagText_injective⟩

/-- A page and the page that takes its place. -/
def firstPage : FileNode := { mtime := 1, size := 3, content := ascii "one" }

def secondPage : FileNode := { mtime := 2, size := 3, content := ascii "two" }

def pageContent (mtime : ℤ) (_ : ℕ) : Bytes := if mtime = 1 then ascii "one" else ascii "two"

def pageRegistered : World Unit :=
  (contentRegistryAddFile { files := fun _ => some firstPage, handlers := () } (ascii "page")
    (ascii "/page") .dynResident).2

/-- The page changes between two lookups. -/
def pageChanged : World Unit :=
  { (contentRegistryLookup pageRegistered [] (ascii "/page")).2 with
    files := fun _ => some secondPage, mallocs := [] }

theorem lookup_fresh_changed :
    ContentFresh pageChanged (ascii "page") []
      (contentRegistryLookup pageChanged [] (ascii "/page")) := by
  have hfirst : firstPage.Regular pageContent := ⟨by decide, by decide⟩
  have hsecond : secondPage.Regular pageContent := ⟨by decide, by decide⟩
  refine (lookup_fresh pageContent (ascii "page") (ascii "/page") (by decide)
    { files := fun _ => some firstPage, handlers := () } pageChanged ?_ (by decide +kernel)
    ?_).1 []
  · intro file hfile
    obtain rfl := Option.some.inj hfile
    exact hfirst
  · refine .tail (.single (.lookup [] (ascii "/page"))) (.change (fun _ => some secondPage) [] ?_)
    intro file hfile
    obtain rfl := Option.some.inj hfile
    exact hsecond

end HttpServer
