import HttpServer.RegistryRuns
import HttpServer.SiteConfinement

/-!
# Registering a directory

`content_registry_add_dir` over the entries that `readdir` returns. It comes to registering
files one by one, so the site of a directory is known exactly, and a server that serves it is
confined to the regular files in it.
-/

namespace HttpServer

variable {σ : Type*}

/-- An entry of a directory. A name is not empty; `regular` tells whether `d_type` is `DT_REG`. -/
structure Dirent where
  name : Bytes
  regular : Bool
  named : name ≠ []

/-- The size of the buffers for paths and URLs. -/
def DIR_BUF_SIZE : ℕ := 512

def DOT : UInt8 := 46

/-- `snprintf` of `"%s/%s"` into such a buffer. -/
def joinPath (front name : Bytes) : Bytes :=
  (front ++ ascii "/" ++ name).take (DIR_BUF_SIZE - 1)

def Dirent.url (de : Dirent) (urlPrefix : Option Bytes) : Bytes :=
  urlPrefix.elim (joinPath [] de.name) fun front => joinPath front de.name

/-- The loop over the entries. `f_count` is an `int`, which does not overflow for fewer than `2 ^ 31`
entries; here it counts without a bound. -/
def contentRegistryAddDirLoop (dirPath : Bytes) (urlPrefix : Option Bytes) (mode : ServeMode) :
    List Dirent → ℕ → World σ → ℕ × World σ
  | [], fCount, w => (fCount, w)
  | de :: rest, fCount, w =>
    if de.name.head? = some DOT then contentRegistryAddDirLoop dirPath urlPrefix mode rest fCount w
    else if !de.regular then contentRegistryAddDirLoop dirPath urlPrefix mode rest fCount w
    else
      let fpath := joinPath dirPath de.name
      let (added, w) := contentRegistryAddFile w fpath (de.url urlPrefix) mode
      let fCount := fCount + if added then 1 else 0
      let w := if de.name = ascii "index.html" then
          (contentRegistryAddFile w fpath (ascii "/") mode).2
        else w
      contentRegistryAddDirLoop dirPath urlPrefix mode rest fCount w

/-- `listing` is what `readdir` returns, `none` for a directory that cannot be opened. The result
counts the files that have been registered under a URL of their own. -/
def contentRegistryAddDir (w : World σ) (listing : Option (List Dirent)) (dirPath : Bytes)
    (urlPrefix : Option Bytes) (mode : ServeMode) : ℕ × World σ :=
  match listing with
  | none => (0, w)
  | some entries => contentRegistryAddDirLoop dirPath urlPrefix mode entries 0 w

variable {w : World σ} {dirPath : Bytes} {urlPrefix : Option Bytes} {mode : ServeMode}
  {listing : List Dirent} {de : Dirent} {f : Registration} {file : FileNode} {path url : Bytes}

/-! ## A directory as a list of files -/

def Dirent.Visible (de : Dirent) : Prop :=
  de.name.head? ≠ some DOT ∧ de.regular = true

instance (de : Dirent) : Decidable de.Visible :=
  inferInstanceAs (Decidable (_ ∧ _))

def Dirent.registration (dirPath : Bytes) (urlPrefix : Option Bytes) (mode : ServeMode)
    (de : Dirent) : Registration :=
  ⟨joinPath dirPath de.name, de.url urlPrefix, mode⟩

/-- The index of a directory has a second URL. -/
def Dirent.registrations (dirPath : Bytes) (urlPrefix : Option Bytes) (mode : ServeMode)
    (de : Dirent) : List Registration :=
  if de.Visible then
    de.registration dirPath urlPrefix mode ::
      if de.name = ascii "index.html" then [⟨joinPath dirPath de.name, ascii "/", mode⟩] else []
  else []

theorem registrations_hidden (h : ¬de.Visible) :
    de.registrations dirPath urlPrefix mode = [] := if_neg h

theorem registrations_visible (h : de.Visible) :
    de.registrations dirPath urlPrefix mode = de.registration dirPath urlPrefix mode ::
      if de.name = ascii "index.html" then [⟨joinPath dirPath de.name, ascii "/", mode⟩] else [] :=
  if_pos h

theorem registrations_mem (hf : f ∈ de.registrations dirPath urlPrefix mode) :
    de.Visible ∧ f.path = joinPath dirPath de.name ∧ f.mode = mode := by
  by_cases hvisible : de.Visible
  · rw [registrations_visible hvisible, List.mem_cons] at hf
    rcases hf with rfl | hindex
    · exact ⟨hvisible, rfl, rfl⟩
    · split at hindex
      · obtain rfl := List.mem_singleton.mp hindex
        exact ⟨hvisible, rfl, rfl⟩
      · cases hindex
  · rw [registrations_hidden hvisible] at hf
    cases hf

/-- Registering a directory is registering its visible files, in the order of the entries. -/
theorem addDirLoop_registerAll (fCount : ℕ) (w : World σ) :
    (contentRegistryAddDirLoop dirPath urlPrefix mode listing fCount w).2 =
      registerAll w (listing.flatMap (Dirent.registrations dirPath urlPrefix mode)) := by
  induction listing generalizing fCount w with
  | nil => rfl
  | cons de rest ih =>
    rw [contentRegistryAddDirLoop, List.flatMap_cons]
    by_cases hdot : de.name.head? = some DOT
    · rw [if_pos hdot, ih, registrations_hidden fun hvisible => hvisible.1 hdot, List.nil_append]
    rw [if_neg hdot]
    cases hregular : de.regular with
    | false =>
      have hhidden : ¬de.Visible := fun hvisible =>
        Bool.false_ne_true (hregular.symm.trans hvisible.2)
      rw [registrations_hidden hhidden]
      exact ih fCount w
    | true =>
      rw [registrations_visible ⟨hdot, hregular⟩]
      simp only [Bool.not_true, Bool.false_eq_true, if_false, ih]
      by_cases hindex : de.name = ascii "index.html"
      · rw [if_pos hindex, if_pos hindex]
        rfl
      · rw [if_neg hindex, if_neg hindex]
        rfl

/-! ## What is registered -/

/-- Whether a file can be loaded in its mode, where allocations succeed. -/
def World.loads (w : World σ) (f : Registration) : Bool :=
  (w.files f.path).any fun file =>
    f.mode == .staticStreamed || f.mode == .dynStreamed || file.opens && file.reads

theorem World.malloc_succeeds (hmallocs : w.mallocs = []) : w.malloc = (true, w) := by
  unfold malloc
  rw [hmallocs]

theorem fileRead_isSome (hfile : w.files path = some file) (size : ℕ) :
    (fileRead w path size).1.isSome = (file.opens && file.reads) := by
  unfold fileRead World.open
  rw [hfile]
  cases hopens : file.opens <;> cases hreads : file.reads <;> simp [Option.filter, hopens, hreads]

theorem contentEntryLoad_isSome (hmallocs : w.mallocs = []) (hfile : w.files path = some file)
    (st : Stat) (mode : ServeMode) : (contentEntryLoad w path st mode).1.isSome =
      (mode == .staticStreamed || mode == .dynStreamed || file.opens && file.reads) ∧
    (contentEntryLoad w path st mode).2.mallocs = [] := by
  cases mode with
  | staticResident =>
    have hmallocs' : (w.stat path).2.mallocs = [] := hmallocs
    have hread := fileRead_isSome (w := (w.stat path).2) hfile file.size
    have hkept : (fileRead (w.stat path).2 path file.size).2.mallocs = [] := hmallocs
    rw [contentEntryLoad, contentEntryStaticLoad, World.stat_some hfile]
    simp only [Bool.not_true, Bool.false_eq_true, if_false, World.malloc_succeeds hmallocs']
    generalize fileRead (w.stat path).2 path file.size = read at hread hkept ⊢
    obtain ⟨_ | bytes, w'⟩ := read <;> exact ⟨hread, hkept⟩
  | dynResident =>
    have hread := fileRead_isSome hfile st.size
    have hkept : (fileRead w path st.size).2.mallocs = [] := hmallocs
    rw [contentEntryLoad, contentEntryDynamicLoad, World.malloc_succeeds hmallocs]
    simp only [Bool.not_true, Bool.false_eq_true, if_false, World.malloc_succeeds hmallocs]
    generalize fileRead w path st.size = read at hread hkept ⊢
    obtain ⟨_ | bytes, w'⟩ := read <;> exact ⟨hread, hkept⟩
  | staticStreamed | dynStreamed =>
    rw [contentEntryLoad, contentEntryStreamedLoad, World.malloc_succeeds hmallocs]
    simp only [Bool.not_true, Bool.false_eq_true, if_false, World.malloc_succeeds hmallocs]
    exact ⟨rfl, hmallocs⟩

theorem addFile_loads (hmallocs : w.mallocs = []) (path url : Bytes) (mode : ServeMode) :
    (contentRegistryAddFile w path url mode).1 = w.loads ⟨path, url, mode⟩ ∧
      (contentRegistryAddFile w path url mode).2.mallocs = [] ∧
      (contentRegistryAddFile w path url mode).2.files = w.files ∧
      (contentRegistryAddFile w path url mode).2.site = fun other =>
        if w.loads ⟨path, url, mode⟩ ∧ other = url then some (mode.place path)
        else w.site other := by
  unfold World.loads
  cases hfile : w.files path with
  | none =>
    rw [contentRegistryAddFile, World.stat_none hfile]
    refine ⟨rfl, hmallocs, rfl, funext fun other => ?_⟩
    simp only [Option.any_none, Bool.false_eq_true, false_and, if_false]
    rfl
  | some file =>
    have hstat := World.stat_some hfile
    have hmallocs' : (w.stat path).2.mallocs = [] := hmallocs
    obtain ⟨hloads, hkept⟩ := contentEntryLoad_isSome hmallocs' hfile ⟨file.mtime, file.size⟩ mode
    obtain ⟨hvisits, hplace⟩ := contentEntryLoad_visits (w.stat path).2
      ⟨file.mtime, file.size⟩ mode (Set.mem_univ path)
    have hfiles := (contentEntryLoad_extends (w.stat path).2 path ⟨file.mtime, file.size⟩ mode).files
    rw [contentRegistryAddFile_load hstat, Option.any_some, ← hloads]
    generalize contentEntryLoad (w.stat path).2 path ⟨file.mtime, file.size⟩ mode = load at *
    obtain ⟨_ | entry, w'⟩ := load
    · refine ⟨rfl, hkept, hfiles, funext fun other => ?_⟩
      rw [if_neg fun h => Bool.false_ne_true h.1]
      exact congrFun hvisits.site other
    · refine ⟨rfl, hkept, hfiles, funext fun other => ?_⟩
      show (dictFind (dictInsert w'.registry url entry) other).map ContentEntry.place = _
      rw [dictFind_dictInsert]
      by_cases hother : other = url
      · rw [if_pos hother, if_pos ⟨rfl, hother⟩, Option.map_some, hplace entry rfl]
      · rw [if_neg hother, if_neg fun h => hother h.2]
        exact congrFun hvisits.site other

theorem World.loads_congr {w' : World σ} (hfiles : w'.files = w.files) : w'.loads = w.loads := by
  funext f
  unfold loads
  rw [hfiles]

/-- The last file that has been registered for a URL, of those that can be loaded. -/
theorem registerAll_loads (hmallocs : w.mallocs = []) (files : List Registration) :
    (registerAll w files).mallocs = [] ∧ (registerAll w files).files = w.files ∧
      ∀ url, (registerAll w files).site url =
        ((files.reverse.find? fun f => f.url == url && w.loads f).map fun f =>
          f.mode.place f.path).or (w.site url) := by
  induction files using List.reverseRecOn with
  | nil => exact ⟨hmallocs, rfl, fun _ => rfl⟩
  | append_singleton files f ih =>
    obtain ⟨hkept, hfiles, hsite⟩ := ih
    have hlast : registerAll w (files ++ [f]) =
        (contentRegistryAddFile (registerAll w files) f.path f.url f.mode).2 := List.foldl_concat ..
    obtain ⟨-, hkept', hfiles', hsite'⟩ := addFile_loads hkept f.path f.url f.mode
    rw [hlast]
    refine ⟨hkept', hfiles'.trans hfiles, fun url => ?_⟩
    rw [hsite', World.loads_congr hfiles, List.reverse_append, List.reverse_singleton,
      List.singleton_append, List.find?_cons]
    by_cases hurl : f.url = url
    · cases hloads : w.loads f with
      | true => simp [hurl]
      | false => simp [hsite]
    · have hother : url ≠ f.url := fun heq => hurl heq.symm
      simp [beq_false_of_ne hurl, hother, hsite]

theorem addDirLoop_count (hmallocs : w.mallocs = []) (fCount : ℕ) :
    (contentRegistryAddDirLoop dirPath urlPrefix mode listing fCount w).1 = fCount +
      listing.countP fun de => de.Visible ∧ w.loads (de.registration dirPath urlPrefix mode) := by
  induction listing generalizing fCount w with
  | nil => rfl
  | cons de rest ih =>
    rw [contentRegistryAddDirLoop, List.countP_cons]
    by_cases hdot : de.name.head? = some DOT
    · have hhidden : ¬de.Visible := fun hvisible => hvisible.1 hdot
      rw [if_pos hdot, ih hmallocs]
      simp [hhidden]
    rw [if_neg hdot]
    cases hregular : de.regular with
    | false =>
      have hhidden : ¬de.Visible := fun hvisible =>
        Bool.false_ne_true (hregular.symm.trans hvisible.2)
      simpa [hhidden] using ih hmallocs fCount
    | true =>
      obtain ⟨hadded, hkept, hfiles, -⟩ := addFile_loads hmallocs (joinPath dirPath de.name)
        (de.url urlPrefix) mode
      obtain ⟨-, hkept', hfiles', -⟩ := addFile_loads hkept (joinPath dirPath de.name)
        (ascii "/") mode
      have hvisible : de.Visible := ⟨hdot, hregular⟩
      have hloads : (de.Visible ∧ w.loads (de.registration dirPath urlPrefix mode)) ↔
          (contentRegistryAddFile w (joinPath dirPath de.name) (de.url urlPrefix) mode).1 = true := by
        rw [hadded]
        exact and_iff_right hvisible
      simp only [Bool.not_true, Bool.false_eq_true, if_false, hloads, decide_eq_true_eq]
      have hcount : ∀ {w' : World σ} n, w'.mallocs = [] → w'.files = w.files →
          (contentRegistryAddDirLoop dirPath urlPrefix mode rest (fCount + n) w').1 = fCount +
            (rest.countP (fun de => de.Visible ∧ w.loads (de.registration dirPath urlPrefix mode)) +
              n) := by
        intro w' n hmallocs' hsame
        rw [ih hmallocs', World.loads_congr hsame]
        omega
      by_cases hindex : de.name = ascii "index.html"
      · rw [if_pos hindex]
        exact hcount _ hkept' (hfiles'.trans hfiles)
      · rw [if_neg hindex]
        exact hcount _ hkept hfiles

/-! ## URLs -/

theorem Dirent.url_eq (de : Dirent) (urlPrefix : Option Bytes) :
    de.url urlPrefix = joinPath (urlPrefix.getD []) de.name := by
  cases urlPrefix <;> rfl

/-- A name is not cut off. -/
def Dirent.Fits (urlPrefix : Option Bytes) (de : Dirent) : Prop :=
  (urlPrefix.getD []).length + 1 + de.name.length < DIR_BUF_SIZE

theorem joinPath_fits (hfits : de.Fits urlPrefix) :
    de.url urlPrefix = urlPrefix.getD [] ++ ascii "/" ++ de.name := by
  rw [de.url_eq, joinPath]
  apply List.take_of_length_le
  have hlength : (ascii "/").length = 1 := rfl
  rw [List.length_append, List.length_append, hlength]
  exact Nat.le_sub_one_of_lt hfits

/-- No file is registered for the URL of the index under its own name. -/
theorem Dirent.url_ne (de : Dirent) (urlPrefix : Option Bytes) : de.url urlPrefix ≠ ascii "/" := by
  intro heq
  have hlength := congrArg List.length heq
  have hname := List.length_pos_iff.mpr de.named
  have hslash : (ascii "/").length = 1 := rfl
  rw [de.url_eq, joinPath, List.length_take, List.length_append, List.length_append, hslash,
    DIR_BUF_SIZE] at hlength
  omega

/-- With distinct names that are not cut off, each file that can be loaded is the one registered for
its URL. -/
theorem registrations_find (hnames : (listing.map Dirent.name).Nodup)
    (hfits : ∀ de ∈ listing, de.Fits urlPrefix) (hde : de ∈ listing) (hvisible : de.Visible)
    (hloads : w.loads (de.registration dirPath urlPrefix mode)) :
    ((listing.flatMap (Dirent.registrations dirPath urlPrefix mode)).reverse.find?
      fun f => f.url == de.url urlPrefix && w.loads f) =
        some (de.registration dirPath urlPrefix mode) := by
  have hmem : de.registration dirPath urlPrefix mode ∈
      (listing.flatMap (Dirent.registrations dirPath urlPrefix mode)).reverse := by
    rw [List.mem_reverse, List.mem_flatMap]
    refine ⟨de, hde, ?_⟩
    rw [registrations_visible hvisible]
    exact List.mem_cons_self
  obtain ⟨f, hfind⟩ : ∃ f, ((listing.flatMap (Dirent.registrations dirPath urlPrefix mode)).reverse.find?
      fun f => f.url == de.url urlPrefix && w.loads f) = some f := by
    rw [← Option.isSome_iff_exists, List.find?_isSome]
    exact ⟨_, hmem, Bool.and_eq_true_iff.mpr ⟨beq_self_eq_true _, hloads⟩⟩
  rw [hfind]
  have hurl : f.url = de.url urlPrefix := by
    have := List.find?_some hfind
    simp only [Bool.and_eq_true, beq_iff_eq] at this
    exact this.1
  obtain ⟨de', hde', hf⟩ := List.mem_flatMap.mp (List.mem_reverse.mp (List.mem_of_find?_eq_some hfind))
  by_cases hvisible' : de'.Visible
  · rw [registrations_visible hvisible', List.mem_cons] at hf
    rcases hf with rfl | hindex
    · have hsame : de'.name = de.name := by
        have hjoined : de'.url urlPrefix = de.url urlPrefix := hurl
        rw [joinPath_fits (hfits de' hde'), joinPath_fits (hfits de hde)] at hjoined
        exact List.append_cancel_left hjoined
      rw [List.inj_on_of_nodup_map hnames hde' hde hsame]
    · split at hindex
      · obtain rfl := List.mem_singleton.mp hindex
        exact absurd hurl.symm (de.url_ne urlPrefix)
      · cases hindex
  · rw [registrations_hidden hvisible'] at hf
    cases hf

/-! ## The server of a directory -/

/-- A server that serves a directory: the files that can be loaded are counted and registered, each
under its own URL unless another one has taken it later on; that is how it stays; and nothing else
than the regular files of the directory, those whose names begin with a dot left out, is ever looked
at. -/
theorem directory_served (router : Router σ) (backing : ℕ) (start : World σ)
    (listing : List Dirent) (dirPath : Bytes) (urlPrefix : Option Bytes) (mode : ServeMode)
    (hempty : start.registry = {}) (hmallocs : start.mallocs = []) (h : History σ)
    (hreaches : HistoryReaches router Round.Undisturbed backing
      (contentRegistryAddDir start (some listing) dirPath urlPrefix mode).2 h) :
    (contentRegistryAddDir start (some listing) dirPath urlPrefix mode).1 =
        (listing.countP fun de =>
          de.Visible ∧ start.loads (de.registration dirPath urlPrefix mode)) ∧
      (∀ url, h.server.world.site url =
        ((listing.flatMap (Dirent.registrations dirPath urlPrefix mode)).reverse.find? fun f =>
          f.url == url && start.loads f).map fun f => f.mode.place f.path) ∧
      ((listing.map Dirent.name).Nodup → (∀ de ∈ listing, de.Fits urlPrefix) →
        ∀ de ∈ listing, de.Visible → start.loads (de.registration dirPath urlPrefix mode) →
          h.server.world.site (de.url urlPrefix) =
            some (mode.place (joinPath dirPath de.name))) ∧
      ∃ calls, h.server.world.fsCalls =
          (contentRegistryAddDir start (some listing) dirPath urlPrefix mode).2.fsCalls ++ calls ∧
        ∀ call ∈ calls, mode ≠ .staticResident ∧
          ∃ de ∈ listing, de.Visible ∧ call.target = storedPath (joinPath dirPath de.name) := by
  have hregistered : (contentRegistryAddDir start (some listing) dirPath urlPrefix mode).2 =
      registerAll start (listing.flatMap (Dirent.registrations dirPath urlPrefix mode)) :=
    addDirLoop_registerAll 0 start
  rw [hregistered] at hreaches ⊢
  have hvisits := hreaches.visits (registerAll_rooted _ hempty)
  have hsite : ∀ url, h.server.world.site url =
      ((listing.flatMap (Dirent.registrations dirPath urlPrefix mode)).reverse.find? fun f =>
        f.url == url && start.loads f).map fun f => f.mode.place f.path := by
    intro url
    have hnone : start.site url = none := by
      unfold World.site
      rw [hempty]
      rfl
    rw [hvisits.site, (registerAll_loads hmallocs _).2.2, hnone, Option.or_none]
  refine ⟨?_, hsite, fun hnames hfits de hde hvisible hloads => ?_, ?_⟩
  · exact (addDirLoop_count hmallocs 0).trans (Nat.zero_add _)
  · rw [hsite, registrations_find hnames hfits hde hvisible hloads]
    rfl
  · obtain ⟨calls, heq, hcalls⟩ := hvisits.calls
    refine ⟨calls, heq, fun call hcall => ?_⟩
    obtain ⟨url, hroot⟩ := hcalls call hcall
    obtain ⟨f, hf, hmode, htarget⟩ := registerAll_root hempty hroot
    obtain ⟨de, hde, hf⟩ := List.mem_flatMap.mp hf
    obtain ⟨hvisible, hpath, hsame⟩ := registrations_mem hf
    rw [hsame] at hmode
    rw [hpath] at htarget
    exact ⟨hmode, de, hde, hvisible, htarget⟩

/-- A page, a hidden file and a directory in between. -/
def siteListing : List Dirent :=
  [⟨ascii ".git", true, by decide⟩, ⟨ascii "index.html", true, by decide⟩,
    ⟨ascii "images", false, by decide⟩]

def directoryServed : History Unit :=
  (({ server := { set := { backing := 4096 }, world :=
    (contentRegistryAddDir siteStart (some siteListing) (ascii "www") none .dynStreamed).2 } } :
    History Unit).turn {} firstRound).turn {} siteRound

theorem directory_served_page :
    (contentRegistryAddDir siteStart (some siteListing) (ascii "www") none .dynStreamed).1 = 1 ∧
      directoryServed.server.world.site (ascii "/index.html") =
        some (.dynStreamed, some (ascii "www/index.html")) ∧
      directoryServed.server.world.site (ascii "/") =
        some (.dynStreamed, some (ascii "www/index.html")) ∧
      directoryServed.server.world.site (ascii "/.git") = none ∧
      ∃ calls, directoryServed.server.world.fsCalls =
          (contentRegistryAddDir siteStart (some siteListing) (ascii "www") none
            .dynStreamed).2.fsCalls ++ calls ∧
        ∀ call ∈ calls, ServeMode.dynStreamed ≠ .staticResident ∧ ∃ de ∈ siteListing, de.Visible ∧
          call.target = storedPath (joinPath (ascii "www") de.name) := by
  have hreaches : HistoryReaches {} Round.Undisturbed 4096
      (contentRegistryAddDir siteStart (some siteListing) (ascii "www") none .dynStreamed).2
      directoryServed := by
    refine .tail (.single ⟨firstRound, ?_, ?_, rfl⟩) ⟨siteRound, ?_, ?_, rfl⟩
    · exact fun i w hw => by cases hw
    · intro new hnew
      obtain rfl : ({ fd := 5 } : Accept) = new := Option.some.inj hnew
      exact ⟨by decide, by simp [Server.Open]⟩
    · intro i w hw world
      obtain ⟨-, hw⟩ := Option.ite_none_right_eq_some.mp hw
      obtain rfl := Option.some.inj hw
      exact ⟨rfl, rfl⟩
    · exact fun new hnew => by cases hnew
  obtain ⟨hcount, hsite, -, hcalls⟩ := directory_served {} 4096 siteStart siteListing (ascii "www")
    none .dynStreamed rfl rfl directoryServed hreaches
  refine ⟨hcount.trans (by decide +kernel), ?_, ?_, ?_, hcalls⟩
  · exact (hsite _).trans (by decide +kernel)
  · exact (hsite _).trans (by decide +kernel)
  · exact (hsite _).trans (by decide +kernel)

end HttpServer
