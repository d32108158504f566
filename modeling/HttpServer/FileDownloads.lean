import HttpServer.ContentHeaders
import HttpServer.ContentValidators
import HttpServer.ResponseExactness
import HttpServer.SiteConfinement
import HttpServer.StreamedSources

/-!
# Downloads of streamed files

A file that has been registered in a streamed mode is opened at the request and read
piece by piece while the response is sent. Pieces may be short, reads may be
interrupted or fail, and so may sends; a client that has a response has the file.
-/

namespace HttpServer

open Relation

variable {σ : Type*} {router : Router σ} {m m' : Machine σ} {w w' : World σ} {path url : Bytes}
  {mode : ServeMode} {entry : ContentEntry} {file : FileNode}
  {allowed : (Bytes → Option FileNode) → Prop}

/-! ## Reading an open file -/

/-- What one call of `read` comes to: up to `quota` bytes and one more, a signal, or an error. -/
inductive ReadOutcome where
  | ready (quota : ℕ)
  | interrupted | error
  deriving DecidableEq, Repr

/-- The file behind a `FileCtx`, whose content stays as it is while the file is open. -/
structure OpenFile where
  content : Bytes
  offset : ℕ := 0
  deriving DecidableEq, Repr

/-- `read (fd, out, cap)`, which delivers a byte at least unless the file has ended. -/
def OpenFile.read (f : OpenFile) (cap quota : ℕ) : Bytes × OpenFile :=
  let got := (f.content.drop f.offset).take (min cap (quota + 1))
  (got, { f with offset := f.offset + got.length })

/-- The loop of `file_pull` goes round while `read` is interrupted. Past the end of its script
`read` delivers what it is asked for. -/
def filePull (cap : ℕ) : List ReadOutcome → OpenFile → PullOutcome × OpenFile × List ReadOutcome
  | [], f => (.data (f.read cap cap).1, (f.read cap cap).2, [])
  | .ready quota :: reads, f => (.data (f.read cap quota).1, (f.read cap quota).2, reads)
  | .interrupted :: reads, f => filePull cap reads f
  | .error :: reads, f => (.error, f, reads)

/-- The next `n` pulls of an open file. -/
def filePulls (cap : ℕ) : ℕ → List ReadOutcome → OpenFile → List PullOutcome
  | 0, _, _ => []
  | n + 1, reads, f =>
    let (o, f, reads) := filePull cap reads f
    o :: filePulls cap n reads f

/-- A pull that does not fail moves the offset over what it returns, which is empty only at the
end of the file. -/
theorem filePull_spec {cap : ℕ} (hcap : 0 < cap) (reads : List ReadOutcome) (f : OpenFile) :
    (filePull cap reads f).1 = .error ∨
      ∃ got, (filePull cap reads f).1 = .data got ∧
        (filePull cap reads f).2.1 = { f with offset := f.offset + got.length } ∧
        f.content.drop f.offset = got ++ f.content.drop (f.offset + got.length) ∧
        (got = [] → f.content.drop f.offset = []) := by
  have hread : ∀ quota, f.content.drop f.offset =
        (f.read cap quota).1 ++ f.content.drop (f.offset + (f.read cap quota).1.length) ∧
      ((f.read cap quota).1 = [] → f.content.drop f.offset = []) := by
    intro quota
    have hsplit := List.take_append_drop (f.read cap quota).1.length (f.content.drop f.offset)
    have htake : (f.content.drop f.offset).take (f.read cap quota).1.length =
        (f.read cap quota).1 := (List.prefix_iff_eq_take.mp (List.take_prefix _ _)).symm
    rw [htake, List.drop_drop] at hsplit
    refine ⟨hsplit.symm, fun hnone => ?_⟩
    have hpos : min cap (quota + 1) ≠ 0 := by omega
    exact (List.take_eq_nil_iff.mp hnone).resolve_left hpos
  induction reads with
  | nil => exact .inr ⟨_, rfl, rfl, hread cap⟩
  | cons o reads ih =>
    cases o with
    | ready quota => exact .inr ⟨_, rfl, rfl, hread quota⟩
    | interrupted => exact ih
    | error => exact .inl rfl

/-- What has been read is in front of the rest of the file, of which nothing is left behind the
end. -/
theorem filePulls_split {cap n : ℕ} (hcap : 0 < cap) {reads : List ReadOutcome} {f : OpenFile}
    {payloads : List Bytes} {last : List PullOutcome}
    (h : filePulls cap n reads f = payloads.map .data ++ last) :
    ∃ rest, f.content.drop f.offset = payloads.flatten ++ rest ∧
      (last = [.data []] → rest = []) := by
  induction payloads generalizing n reads f with
  | nil =>
    refine ⟨f.content.drop f.offset, rfl, ?_⟩
    rintro rfl
    cases n with
    | zero => cases h
    | succ n =>
      obtain ⟨hfirst, -⟩ := List.cons.inj h
      rcases filePull_spec hcap reads f with herror | ⟨got, hgot, -, -, hend⟩
      · exact absurd (herror.symm.trans hfirst) (by simp)
      · obtain rfl := PullOutcome.data.inj (hgot.symm.trans hfirst)
        exact hend rfl
  | cons payload payloads ih =>
    cases n with
    | zero => cases h
    | succ n =>
      obtain ⟨hfirst, hrest⟩ := List.cons.inj h
      rcases filePull_spec hcap reads f with herror | ⟨got, hgot, hnext, hsplit, -⟩
      · exact absurd (herror.symm.trans hfirst) (by simp)
      · obtain rfl := PullOutcome.data.inj (hgot.symm.trans hfirst)
        obtain ⟨rest, hflat, hend⟩ := ih hrest
        rw [hnext] at hflat
        refine ⟨rest, ?_, hend⟩
        rw [List.flatten_cons, List.append_assoc, ← hflat, hsplit]

/-! ## The entry of a streamed file -/

/-- The response that is built is the file at `path`, streamed with headers of the server alone. -/
structure AnswersFile (router : Router σ) (m : Machine σ) (path : Bytes) : Prop where
  body : (responseDispatch router m).1.body = .stream (fileStream (storedPath path))
  reason : ¬ CRLF <:+: (responseDispatch router m).1.reason
  headers : ∀ header ∈ (responseDispatch router m).1.headers, header.Plain
  short : ∀ keepAlive now, TimeReading now →
    (responseText (responseDispatch router m).1 keepAlive now).length ≤ 512

/-- All that a producer has given is the file, when it reads the file. -/
theorem ProducedAll.isFile {evs : List Event} {body content : Bytes} {reads : List ReadOutcome}
    (h : ProducedAll evs body)
    (hpulls : pullOutcomes evs = filePulls HTTP_STREAM_CHUNK_SIZE (pullOutcomes evs).length reads
      { content := content }) : body = content := by
  obtain ⟨payloads, houtcomes, rfl⟩ := h
  rw [houtcomes] at hpulls
  obtain ⟨rest, hsplit, hend⟩ := filePulls_split (by decide) hpulls.symm
  obtain rfl := hend rfl
  exact (hsplit.trans (List.append_nil _)).symm

/-- What a client makes of the part of the response that it has got. -/
theorem AnswersFile.received (h : AnswersFile router m path) {keepAlive : Bool} {now : ℤ}
    {base : List Event} {requests : ℕ} {m₁ : Machine σ} {content : Bytes}
    {dechunk : Bytes → Option (Bytes × Bytes)} (hreads : ReadsChunked dechunk)
    (hrun : SourceRun base (responseText (responseDispatch router m).1 keepAlive now)
      (fileStream (storedPath path)) requests m₁) (hm' : StreamsTo router m₁ m') :
    ∃ evs, streamed m'.io.log = base ++ evs ∧
      ∀ reads, pullOutcomes evs = filePulls HTTP_STREAM_CHUNK_SIZE (pullOutcomes evs).length reads
          { content := content } →
        (∀ body rest, receive dechunk (accepted evs) = some (body, rest) →
          body = content ∧ rest = []) ∧
        (m'.conn.requests = requests + 1 →
          receive dechunk (accepted evs) = some (content, [])) := by
  obtain ⟨evs, hlog, hread, hwhole⟩ := hm'.received hreads h.body h.reason h.headers hrun
  refine ⟨evs, hlog, fun reads hpulls => ?_⟩
  have hcontent : ∀ body rest, receive dechunk (accepted evs) = some (body, rest) →
      body = content ∧ rest = [] := fun body rest hreceived =>
    (hread body rest hreceived).imp_left fun hall => ProducedAll.isFile hall hpulls
  refine ⟨hcontent, fun hcounted => ?_⟩
  obtain ⟨body, hreceived⟩ := hwhole hcounted
  obtain ⟨rfl, -⟩ := hcontent body [] hreceived
  exact hreceived

end HttpServer
