import HttpServer.ContentServing

/-!
# Validators of dynamic content

`ETag` and `Last-Modified` of the answers with registered content. A resident entry is
loaded again together with them. A streamed one keeps those of its registration, while
the file is opened anew for every request.
-/

namespace HttpServer

open Relation

variable {σ : Type*} {versions : FileNode → Prop} {w w₁ : World σ} {path url : Bytes} {st : Stat}
  {entry : ContentEntry} {file : FileNode} {req : RequestView} {scratch : Arena}

/-- The bytes of the body are those of `file`, which is opened now or is one of the versions that
have been there. A `HEAD` request is answered without them. -/
def BodyOf (versions : FileNode → Prop) (w : World σ) (entry : ContentEntry) (req : RequestView)
    (res : HttpResponse) (file : FileNode) : Prop :=
  (∃ path, res.body = .stream (fileStream path) ∧ w.files path = some file) ∨
    (res.body = (if req.requestLine.method = .head then .buffer none 0
        else .buffer (some entry.data) entry.len) ∧
      versions file ∧ entry.Holds file file.size)

/-- The validators of an answer are those of the file that its body comes from. -/
def Describes (versions : FileNode → Prop) (w : World σ) (entry : ContentEntry) (req : RequestView)
    (res : HttpResponse) : Prop :=
  ∃ file, BodyOf versions w entry req res file ∧
    CarriesValidators ⟨file.mtime, file.size⟩ res.headers

theorem CarriesValidators.etag_eq {st' : Stat} {headers : List ResponseHeader}
    (h : CarriesValidators st headers) (h' : CarriesValidators st' headers) :
    etagText st.mtime st.size = etagText st'.mtime st'.size := by
  have hboth := h.symm.trans h'
  obtain ⟨htag, -⟩ := List.cons.inj hboth
  have hvalue := congrArg ResponseHeader.value htag
  rwa [revalFill_etag, revalFill_etag] at hvalue

theorem describes_dynamic (hstored : entry.Stored versions path st .dynResident) (w : World σ)
    (req : RequestView) (scratch : Arena) :
    Describes versions w entry req (responseForEntry w req entry scratch).1 := by
  cases hstored with
  | @dynamic _ version source hmode hversion hholds hsource hreval hheaders hcount =>
    rw [responseForEntry_resident (.inr hmode)]
    refine ⟨version, .inr ⟨responseResident_body req entry, hversion, hholds⟩, ?_⟩
    have hall : (responseResident req entry).headers = entry.headers := by
      rw [responseResident, hmode]
      exact List.take_of_length_le hcount.le
    rw [hall]
    exact hheaders
  | streamed hstreamed => simp at hstreamed

theorem describes_streamed (hrange : ∀ file, versions file → file.Representable)
    {registered : FileNode} (hregistered : versions registered)
    (hversions : ∀ file ∈ w.files (storedPath path), versions file)
    (hstored : entry.Stored versions path ⟨registered.mtime, registered.size⟩ .dynStreamed)
    (hok : (responseForEntry w req entry scratch).1.status = 200) :
    Describes versions w entry req (responseForEntry w req entry scratch).1 ↔
      ∃ file, w.files (storedPath path) = some file ∧ file.mtime = registered.mtime ∧
        file.size = registered.size := by
  cases hstored with
  | streamed hstreamed hmode hreval hheaders hcount =>
    have hfsPath : (revalFill ⟨registered.mtime, registered.size⟩ path).fsPath = storedPath path := rfl
    obtain ⟨-, hanswer⟩ := responseForEntry_streamed (.inr hmode) hreval w req scratch
    rw [hfsPath] at hanswer
    rcases hanswer with ⟨⟨⟨file, hfile, hopens⟩, -⟩, hanswer⟩ | ⟨-, hanswer⟩
    · rw [hanswer, List.take_of_length_le hcount.le]
      constructor
      · rintro ⟨file', ⟨path', hbody, hfile'⟩ | ⟨hbody, -⟩, hcarries⟩
        · obtain rfl : storedPath path = path' := by simpa [fileStream, responseStream] using hbody
          obtain rfl := Option.some.inj (hfile.symm.trans hfile')
          have hetag := hcarries.etag_eq hheaders
          obtain ⟨hmtime, hsize⟩ := etagText_injective (hrange file (hversions file hfile))
            (hrange registered hregistered) hetag
          exact ⟨file, hfile, hmtime, hsize⟩
        · rw [responseStream] at hbody
          split at hbody <;> cases hbody
      · rintro ⟨file', hfile', hmtime, hsize⟩
        obtain rfl := Option.some.inj (hfile.symm.trans hfile')
        refine ⟨file, .inl ⟨_, rfl, hfile⟩, ?_⟩
        rw [hmtime, hsize]
        exact hheaders
    · rw [hanswer] at hok
      exact absurd hok (by decide)

/-- The validators of an answer describe its body exactly when the entry is resident or the file
has the times and size of its registration. `versions` is whatever the file has ever been. -/
theorem validators_describe_iff (versions : FileNode → Prop)
    (hrange : ∀ file, versions file → file.Representable) (w₀ w w₁ : World σ) (path url : Bytes)
    (mode : ServeMode) (hmode : mode = .dynResident ∨ mode = .dynStreamed) (registered : FileNode)
    (hfile : w₀.files path = some registered) (hregistered : versions registered)
    (hversions : ∀ file ∈ w₀.files (storedPath path), versions file)
    (hadded : (contentRegistryAddFile w₀ path url mode).1 = true)
    (hreaches : ReflTransGen
      (RegistryNext (fun files => ∀ file ∈ files (storedPath path), versions file) url)
      (contentRegistryAddFile w₀ path url mode).2 w)
    (req : RequestView) (entry : ContentEntry) (scratch : Arena)
    (hlookup : contentRegistryLookup w req.headers url = (.hit entry, w₁))
    (hok : (responseForEntry w₁ req entry scratch).1.status = 200) :
    Describes versions w₁ entry req (responseForEntry w₁ req entry scratch).1 ↔
      mode = .dynResident ∨ ∃ file, w.files (storedPath path) = some file ∧
        file.mtime = registered.mtime ∧ file.size = registered.size := by
  obtain ⟨hnow, entry₀, hfind, hstored₀⟩ := keeps_of_added (fun _ _ hallowed => hallowed) hfile
    hregistered hversions hadded hreaches
  have hfiles := (contentRegistryLookup_frame w req.headers url).1
  obtain ⟨entry', -, hstored, hfound⟩ :=
    contentRegistryLookup_stored (fun _ => hnow) hfind hstored₀ req.headers
  rw [hlookup] at hfiles hfound
  obtain rfl : entry = entry' := by simpa using hfound
  dsimp only at hfiles
  rcases hmode with rfl | rfl
  · exact iff_of_true (describes_dynamic hstored w₁ req scratch) (.inl rfl)
  · rw [or_iff_right (by decide), ← hfiles]
    exact describes_streamed hrange hregistered (hfiles.symm ▸ hnow) hstored hok

/-- A page that has been registered for streaming, and then another in its place. -/
def streamedPage : World Unit :=
  (contentRegistryAddFile pageWorld (ascii "page") (ascii "/page") .dynStreamed).2

def streamedPageChanged : World Unit := { streamedPage with files := fun _ => some secondPage }

def streamedPageEntry : ContentEntry :=
  (dictFind streamedPage.registry (ascii "/page")).getD { mode := .dynStreamed }

theorem streamedPageChanged_lookup :
    contentRegistryLookup streamedPageChanged [] (ascii "/page") =
      (.hit streamedPageEntry, streamedPageChanged) :=
  contentRegistryLookup_other (by decide +kernel) (by decide +kernel) []

theorem validators_describe_iff_changed :
    Describes (fun file => file = firstPage ∨ file = secondPage) streamedPageChanged
        streamedPageEntry {}
        (responseForEntry streamedPageChanged {} streamedPageEntry (arenaInit 0 64)).1 ↔
      ServeMode.dynStreamed = .dynResident ∨ ∃ file,
        streamedPageChanged.files (storedPath (ascii "page")) = some file ∧
          file.mtime = firstPage.mtime ∧ file.size = firstPage.size := by
  refine validators_describe_iff (fun file => file = firstPage ∨ file = secondPage) ?_ pageWorld
    streamedPageChanged streamedPageChanged (ascii "page") (ascii "/page") .dynStreamed (.inr rfl)
    firstPage rfl (.inl rfl) ?_ (by decide +kernel) (.single ?_) {} streamedPageEntry
    (arenaInit 0 64) streamedPageChanged_lookup (by decide +kernel)
  · rintro file (rfl | rfl)
    · exact ⟨by decide, by decide, by decide⟩
    · exact ⟨by decide, by decide, by decide⟩
  · intro file hfile
    exact .inl (Option.some.inj hfile).symm
  · refine .change (fun _ => some secondPage) streamedPage.mallocs streamedPage.handlers ?_
    intro file hfile
    exact .inr (Option.some.inj hfile).symm

/-- The second page is sent with the validators of the first. -/
theorem stale_validators :
    contentRegistryLookup streamedPageChanged [] (ascii "/page") =
        (.hit streamedPageEntry, streamedPageChanged) ∧
      (responseForEntry streamedPageChanged {} streamedPageEntry (arenaInit 0 64)).1.status = 200 ∧
      ¬ Describes (fun _ => True) streamedPageChanged streamedPageEntry {}
        (responseForEntry streamedPageChanged {} streamedPageEntry (arenaInit 0 64)).1 := by
  refine ⟨streamedPageChanged_lookup, by decide +kernel, ?_⟩
  rintro ⟨file, ⟨path, -, hfile⟩ | ⟨hbody, -⟩, hcarries⟩
  · obtain rfl : secondPage = file := Option.some.inj hfile
    revert hcarries
    unfold CarriesValidators
    decide +kernel
  · revert hbody
    decide +kernel

end HttpServer
