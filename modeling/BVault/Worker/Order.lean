import BVault.Worker.Analyze

/-!
# The order of the jobs

Where all requests for a content hash make the worker read the same, the stored
analysis does not depend on who came first, nor on who came at all; where two of
them differ, it does.
-/

namespace BVault.Worker

open BVault.Gateway BVault.Hash BVault.Jobs BVault.Store

section
variable (xxh3_64 : Bytes → UInt64) (raw : RawStore) (files : FileSystem)

/-- The worker may get to read this for a hash: some of the requests have come in, and one of
them is for the hash. -/
def Readable (requests : List Request) (hash : String) (src : Source) : Prop :=
  ∃ before later, (before ++ later).Perm requests ∧ ∃ r ∈ before, (r.job xxh3_64).hash = hash ∧
    source raw (storeAll xxh3_64 raw files before) (r.job xxh3_64) = some src

/-- The worker may get to open the file of this request with these bytes: the requests that have
come in are some of these, and this one, for the hash, is among them. -/
def Opened (requests : List Request) (hash : String) (r : Request) (bytes : Bytes) : Prop :=
  ∃ before later, (before ++ later).Perm requests ∧ r ∈ before ∧ (r.job xxh3_64).hash = hash ∧
    raw.contents (storeAll xxh3_64 raw files before) (r.job xxh3_64).rawLocation = some bytes

theorem source_eq_some {files : FileSystem} {job : AnalysisJob} {src : Source} :
    source raw files job = some src ↔ ∃ fileHash bytes, fromStrRadix16 job.hash = some fileHash ∧
      raw.contents files job.rawLocation = some bytes ∧
      src = ⟨bytes, Paths.extension job.rawLocation, bytes.length, fileHash,
        job.fallbackTitle⟩ := by
  simp only [source, Option.bind_eq_some_iff, Option.map_eq_some_iff]
  constructor
  · rintro ⟨fileHash, hexadecimal, bytes, opened, rfl⟩
    exact ⟨fileHash, bytes, hexadecimal, opened, rfl⟩
  · rintro ⟨fileHash, bytes, hexadecimal, opened, rfl⟩
    exact ⟨fileHash, hexadecimal, bytes, opened, rfl⟩

/-- What is read is the file of a request, with the extension and the title of its job. -/
theorem readable_iff {requests : List Request} {hash : String} {src : Source} :
    Readable xxh3_64 raw files requests hash src ↔
      ∃ fileHash r bytes, fromStrRadix16 hash = some fileHash ∧
        Opened xxh3_64 raw files requests hash r bytes ∧
        src = ⟨bytes, Paths.extension (r.job xxh3_64).rawLocation, bytes.length, fileHash,
          (r.job xxh3_64).fallbackTitle⟩ := by
  constructor
  · rintro ⟨before, later, perm, r, mem, rfl, reads⟩
    obtain ⟨fileHash, bytes, hexadecimal, opened, is⟩ := (source_eq_some raw).mp reads
    exact ⟨fileHash, r, bytes, hexadecimal, ⟨before, later, perm, mem, rfl, opened⟩, is⟩
  · rintro ⟨fileHash, r, bytes, hexadecimal, ⟨before, later, perm, mem, rfl, opened⟩, is⟩
    exact ⟨before, later, perm, r, mem, rfl,
      (source_eq_some raw).mpr ⟨fileHash, bytes, hexadecimal, opened, is⟩⟩

theorem Readable.more {requests : List Request} {hash : String} {src : Source}
    (readable : Readable xxh3_64 raw files requests hash src) (more : List Request) :
    Readable xxh3_64 raw files (requests ++ more) hash src := by
  obtain ⟨before, later, perm, reads⟩ := readable
  refine ⟨before, later ++ more, ?_, reads⟩
  rw [← List.append_assoc]
  exact perm.append_right more

theorem Readable.perm {requests requests' : List Request} {hash : String} {src : Source}
    (readable : Readable xxh3_64 raw files requests hash src) (perm : requests.Perm requests') :
    Readable xxh3_64 raw files requests' hash src := by
  obtain ⟨before, later, split, reads⟩ := readable
  exact ⟨before, later, split.trans perm, reads⟩

/-- Wherever a worker opens the file of a request from either list, it gets the same bytes, with
the same extension and the same fallback title. -/
def SameReadable (files files' : FileSystem) (requests requests' : List Request) (hash : String) :
    Prop :=
  (fromStrRadix16 hash).isSome → ∀ r r' bytes bytes',
    Opened xxh3_64 raw files requests hash r bytes →
    Opened xxh3_64 raw files' requests' hash r' bytes' →
    bytes = bytes' ∧
      Paths.extension (r.job xxh3_64).rawLocation = Paths.extension (r'.job xxh3_64).rawLocation ∧
      (r.job xxh3_64).fallbackTitle = (r'.job xxh3_64).fallbackTitle

/-- Runs over the one list of requests and over the other, each in any order, store the same for a
hash, where they store anything. -/
def SameStored (analyzeSource : Source → Option Bytes) (files files' : FileSystem)
    (requests requests' : List Request) (hash : String) : Prop :=
  ∀ run run', (received run).Perm requests → (received run').Perm requests' → ∀ json json',
    (after xxh3_64 raw analyzeSource files run).artifacts hash = some json →
    (after xxh3_64 raw analyzeSource files' run').artifacts hash = some json' → json = json'

section
variable (analyzeSource : Source → Option Bytes)

/-- An analysis of something readable. -/
def Obtained (requests : List Request) (hash : String) (json : Bytes) : Prop :=
  ∃ src, Readable xxh3_64 raw files requests hash src ∧ analyzeSource src = some json

/-- The job of one of the requests. -/
def Wanted (requests : List Request) (job : AnalysisJob) : Prop :=
  ∃ r ∈ requests, r.job xxh3_64 = job

/-- Every job and every analysis comes from the requests received so far. -/
structure Follows (requests : List Request) (s : Pipeline) : Prop where
  files_eq : s.files = storeAll xxh3_64 raw files requests
  queued : ∀ row ∈ s.queue.jobs, ∀ job, row.payload = .analysis job → Wanted xxh3_64 requests job
  wanted : ∀ job ∈ s.wanted, Wanted xxh3_64 requests job
  claimed : ∀ job ∈ s.claimed, Wanted xxh3_64 requests job
  analyzed : ∀ pair ∈ s.analyzed, Obtained xxh3_64 raw files analyzeSource requests pair.1 pair.2
  writing : ∀ pair ∈ s.writing, Obtained xxh3_64 raw files analyzeSource requests pair.1 pair.2
  stored : ∀ hash json, s.artifacts hash = some json →
    Obtained xxh3_64 raw files analyzeSource requests hash json

theorem Wanted.more {xxh3_64 : Bytes → UInt64} {requests : List Request} {job : AnalysisJob}
    (wanted : Wanted xxh3_64 requests job) (more : List Request) :
    Wanted xxh3_64 (requests ++ more) job := by
  obtain ⟨r, mem, same⟩ := wanted
  exact ⟨r, List.mem_append_left more mem, same⟩

theorem Obtained.more {xxh3_64 : Bytes → UInt64} {raw : RawStore} {files : FileSystem}
    {analyzeSource : Source → Option Bytes} {requests : List Request} {hash : String}
    {json : Bytes} (obtained : Obtained xxh3_64 raw files analyzeSource requests hash json)
    (more : List Request) :
    Obtained xxh3_64 raw files analyzeSource (requests ++ more) hash json := by
  obtain ⟨src, readable, result⟩ := obtained
  exact ⟨src, readable.more xxh3_64 raw files more, result⟩

/-- The payload of a row was there before, or is the one enqueued. -/
theorem payload_step {q : Queue} {op : Op} {row : Job} (mem : row ∈ (q.step op).jobs) :
    (∃ old ∈ q.jobs, old.payload = row.payload) ∨ ∃ now kind key maxAttempts traceparent,
      op = .enqueue now kind key row.payload maxAttempts traceparent := by
  rcases Queue.mem_step.mp mem with ⟨old, there, rfl⟩ | new
  · exact Or.inl ⟨old, there, (Queue.effect_payload q op old).symm⟩
  · obtain ⟨now, payload, maxAttempts, traceparent, rfl, _, fresh, _⟩ := Queue.mem_inserted new
    have same : row.payload = payload := congrArg Job.payload fresh
    exact Or.inr ⟨now, row.kind, row.dedupKey, maxAttempts, traceparent, by rw [same]⟩

/-- A claimed row was in the queue with its payload. -/
theorem payload_served {q : Queue} {op : Op} {row : Job} (served : q.served op = some row) :
    ∃ old ∈ q.jobs, old.payload = row.payload := by
  obtain ⟨now, kind, lease, locked, tie, old, _, picked, rfl, _⟩ := Queue.served_spec served
  exact ⟨old, (Queue.pick_spec picked).1.1, rfl⟩

variable {xxh3_64 raw files analyzeSource} {requests : List Request} {s : Pipeline}

/-- A statement that is no enqueue keeps the queue to the requests. -/
theorem Follows.queue_step (follows : Follows xxh3_64 raw files analyzeSource requests s) {op : Op}
    (enqueues : ∀ now kind key payload maxAttempts traceparent,
      op = .enqueue now kind key payload maxAttempts traceparent →
      ∀ job, payload = .analysis job → Wanted xxh3_64 requests job) :
    Follows xxh3_64 raw files analyzeSource requests { s with queue := s.queue.step op } := by
  refine { follows with queued := ?_ }
  intro row mem job payload
  rcases payload_step mem with ⟨old, there, same⟩ | ⟨now, kind, key, maxAttempts, tp, enqueued⟩
  · exact follows.queued old there job (same.trans payload)
  · exact enqueues now kind key row.payload maxAttempts tp enqueued job payload

theorem storeAll_snoc (requests : List Request) (r : Request) :
    storeAll xxh3_64 raw files (requests ++ [r]) =
      r.store xxh3_64 raw (storeAll xxh3_64 raw files requests) :=
  List.foldl_append

theorem Follows.receive (follows : Follows xxh3_64 raw files analyzeSource requests s)
    (r : Request) : Follows xxh3_64 raw files analyzeSource (requests ++ [r])
      (step xxh3_64 raw analyzeSource s (.receive r)) where
  files_eq := by rw [storeAll_snoc, ← follows.files_eq]; rfl
  queued row mem job payload := (follows.queued row mem job payload).more [r]
  wanted job mem := by
    simp only [step] at mem
    split at mem
    · exact (follows.wanted job mem).more [r]
    · rcases List.mem_append.mp mem with old | new
      · exact (follows.wanted job old).more [r]
      · exact ⟨r, List.mem_append_right requests List.mem_cons_self,
          (List.mem_singleton.mp new).symm⟩
  claimed job mem := (follows.claimed job mem).more [r]
  analyzed pair mem := (follows.analyzed pair mem).more [r]
  writing pair mem := (follows.writing pair mem).more [r]
  stored hash json there := (follows.stored hash json there).more [r]

theorem Follows.claim (follows : Follows xxh3_64 raw files analyzeSource requests s)
    (now lease : Nat) (locked : List Nat) (tie : Nat) :
    Follows xxh3_64 raw files analyzeSource requests
      (step xxh3_64 raw analyzeSource s (.claim now lease locked tie)) := by
  have queued : Follows xxh3_64 raw files analyzeSource requests
      { s with queue := s.queue.step (.claim now .analysis lease locked tie) } :=
    follows.queue_step nofun
  refine { queued with claimed := ?_ }
  intro job mem
  rcases List.mem_append.mp mem with old | new
  · exact follows.claimed job old
  · obtain ⟨row, served, payload⟩ := Option.bind_eq_some_iff.mp (Option.mem_toList.mp new)
    obtain ⟨row', there, same⟩ := payload_served served
    cases kind : row.payload with
    | analysis job' =>
      rw [kind] at payload same
      cases payload
      exact follows.queued row' there job same
    | ytDlpIngest job' =>
      rw [kind] at payload
      cases payload

/-- What the worker reads now is readable. -/
theorem Follows.analyze (follows : Follows xxh3_64 raw files analyzeSource requests s)
    {job : AnalysisJob} (mem : job ∈ s.claimed) :
    Follows xxh3_64 raw files analyzeSource requests (analyze raw analyzeSource s job) := by
  unfold Worker.analyze
  split
  · exact follows
  · split
    · exact follows
    · rename_i json result
      refine { follows with analyzed := ?_ }
      intro pair new
      rcases List.mem_append.mp new with old | new
      · exact follows.analyzed pair old
      · obtain rfl := List.mem_singleton.mp new
        obtain ⟨src, reads, analysis⟩ := Option.bind_eq_some_iff.mp result
        obtain ⟨r, here, rfl⟩ := follows.claimed job mem
        refine ⟨src, ⟨requests, [], by rw [List.append_nil], r, here, rfl, ?_⟩, analysis⟩
        rw [← follows.files_eq]
        exact reads

theorem Follows.put (follows : Follows xxh3_64 raw files analyzeSource requests s) (i : Nat) :
    Follows xxh3_64 raw files analyzeSource requests
      (step xxh3_64 raw analyzeSource s (.put i)) := by
  simp only [step]
  split
  · exact follows
  · rename_i hash json there
    split
    · exact follows
    · refine { follows with writing := ?_ }
      intro pair mem
      rcases List.mem_append.mp mem with old | new
      · exact follows.writing pair old
      · obtain rfl := List.mem_singleton.mp new
        exact follows.analyzed _ (List.mem_of_getElem? there)

theorem Follows.write (follows : Follows xxh3_64 raw files analyzeSource requests s) (i : Nat) :
    Follows xxh3_64 raw files analyzeSource requests
      (step xxh3_64 raw analyzeSource s (.write i)) := by
  simp only [step]
  split
  · exact follows
  · rename_i hash json there
    refine { follows with stored := ?_ }
    intro h json' found
    simp only at found
    split at found
    · rename_i same
      cases found
      rw [same]
      exact follows.writing _ (List.mem_of_getElem? there)
    · exact follows.stored h json' found

/-- Steps of the gateway and the workers on what has been received. -/
theorem Follows.quiet (follows : Follows xxh3_64 raw files analyzeSource requests s) {a : Action}
    (quiet : a.request = none) : Follows xxh3_64 raw files analyzeSource requests
      (step xxh3_64 raw analyzeSource s a) := by
  cases a with
  | receive r => cases quiet
  | enqueue i now maxAttempts traceparent =>
    simp only [step]
    split
    · exact follows
    · rename_i job there
      refine follows.queue_step ?_
      rintro _ _ _ _ _ _ ⟨⟩ job' ⟨⟩
      exact follows.wanted job (List.mem_of_getElem? there)
  | claim now lease locked tie => exact follows.claim now lease locked tie
  | analyze i =>
    simp only [step]
    split
    · exact follows
    · rename_i job there
      exact follows.analyze (List.mem_of_getElem? there)
  | put i => exact follows.put i
  | write i => exact follows.write i
  | complete now id => exact follows.queue_step nofun
  | fail now id error => exact follows.queue_step nofun

/-- Every step keeps the pipeline to the requests received. -/
theorem Follows.step (follows : Follows xxh3_64 raw files analyzeSource requests s) (a : Action) :
    Follows xxh3_64 raw files analyzeSource (requests ++ received [a])
      (step xxh3_64 raw analyzeSource s a) := by
  cases request : a.request with
  | none =>
    have nothing : received [a] = [] := List.filterMap_cons_none request
    rw [nothing, List.append_nil]
    exact follows.quiet request
  | some r =>
    cases a with
    | receive r' => exact follows.receive r'
    | _ => cases request

theorem received_append (run run' : List Action) :
    received (run ++ run') = received run ++ received run' :=
  List.filterMap_append

theorem follows_start :
    Follows xxh3_64 raw files analyzeSource [] (start files) where
  files_eq := rfl
  queued _ mem := absurd mem List.not_mem_nil
  wanted _ mem := absurd mem List.not_mem_nil
  claimed _ mem := absurd mem List.not_mem_nil
  analyzed _ mem := absurd mem List.not_mem_nil
  writing _ mem := absurd mem List.not_mem_nil
  stored _ _ found := absurd found (Option.some_ne_none _).symm

variable (xxh3_64 raw files analyzeSource) in
theorem follows_run (run : List Action) : Follows xxh3_64 raw files analyzeSource (received run)
    (after xxh3_64 raw analyzeSource files run) := by
  induction run using List.reverseRecOn with
  | nil => exact follows_start
  | append_singleton run a ih =>
    rw [received_append, after, Runs.run_snoc]
    exact ih.step a

end

section
variable (analyzeSource : Source → Option Bytes)

/-- The worker takes a job through, while the other requests come in before and after it. -/
def takingFirst (before later : List Request) (i : Nat) : List Action :=
  before.map .receive ++
    [.enqueue i 0 1 none, .claim 0 0 [] 0, .analyze 0, .put 0, .write 0] ++ later.map .receive

theorem received_takingFirst (before later : List Request) (i : Nat) :
    received (takingFirst before later i) = before ++ later := by
  have all (requests : List Request) : received (requests.map .receive) = requests := by
    induction requests with
    | nil => rfl
    | cons r requests ih => exact congrArg (List.cons r) ih
  rw [takingFirst, received_append, received_append, all, all]
  simp only [received, List.filterMap_cons, Action.request, List.filterMap_nil, List.append_nil]

/-- Without bundles, all that comes in is wanted. -/
theorem run_receive (requests : List Request) {s : Pipeline} (none_ : ∀ h, s.artifacts h = none) :
    Runs.run (step xxh3_64 raw analyzeSource) s (requests.map .receive) =
      { s with
        files := storeAll xxh3_64 raw s.files requests
        wanted := s.wanted ++ requests.map (Request.job xxh3_64) } := by
  induction requests generalizing s with
  | nil => simp only [List.map_nil, Runs.run_nil, storeAll, List.foldl_nil, List.append_nil]
  | cons r requests ih =>
    rw [List.map_cons, Runs.run_cons, ih]
    · simp only [step, none_, Option.isSome_none, Bool.false_eq_true, if_false, storeAll,
        List.foldl_cons, List.map_cons, List.append_assoc, List.singleton_append]
    · exact none_

/-- What comes in later leaves the bundles alone. -/
theorem artifacts_receive (requests : List Request) (s : Pipeline) :
    (Runs.run (step xxh3_64 raw analyzeSource) s (requests.map .receive)).artifacts =
      s.artifacts := by
  induction requests generalizing s with
  | nil => rfl
  | cons r requests ih => exact ih _

/-- The first job of an empty queue is the one that is claimed. -/
theorem served_first (job : AnalysisJob) :
    ((Queue.empty.step (.enqueue 0 .analysis job.hash (.analysis job) 1 none)).served
      (.claim 0 .analysis 0 [] 0)).bind (fun row => analysisJob row.payload) = some job := by
  simp only [Queue.step, Queue.enqueue, Queue.empty, Queue.activeRow, List.find?_nil,
    List.nil_append]
  rfl

/-- A job that was wanted first is analyzed from the files that are there. -/
theorem stored_takingFirst {before : List Request} (later : List Request) {i : Nat} {r : Request}
    {src : Source} {json : Bytes} (there : before[i]? = some r)
    (reads : source raw (storeAll xxh3_64 raw files before) (r.job xxh3_64) = some src)
    (result : analyzeSource src = some json) :
    (after xxh3_64 raw analyzeSource files (takingFirst before later i)).artifacts
      (r.job xxh3_64).hash = some json := by
  have wanted : (before.map (Request.job xxh3_64))[i]? = some (r.job xxh3_64) := by
    rw [List.getElem?_map, there, Option.map_some]
  rw [after, takingFirst, Runs.run_append, artifacts_receive, Runs.run_append,
    run_receive xxh3_64 raw analyzeSource before (fun _ => rfl)]
  simp only [start, List.nil_append, Runs.run_cons, Runs.run_nil, step, wanted,
    served_first, Option.toList_some, List.getElem?_cons_zero, analyze, Option.isSome_none,
    Bool.false_eq_true, if_false, reads, Option.bind_some, result, if_true]

/-- A readable source is analyzed first in some run over the requests. -/
theorem stored_of_readable {requests : List Request} {hash : String} {src : Source} {json : Bytes}
    (readable : Readable xxh3_64 raw files requests hash src)
    (result : analyzeSource src = some json) : ∃ run, (received run).Perm requests ∧
      (after xxh3_64 raw analyzeSource files run).artifacts hash = some json := by
  obtain ⟨before, later, perm, r, mem, rfl, reads⟩ := readable
  obtain ⟨i, there⟩ := List.mem_iff_getElem?.mp mem
  refine ⟨takingFirst before later i, ?_, ?_⟩
  · rwa [received_takingFirst]
  · exact stored_takingFirst xxh3_64 raw files analyzeSource later there reads result

/-- Over the orders of the requests, a hash gets the analyses of what is readable for it. -/
theorem stored_iff_obtained {requests : List Request} {hash : String} {json : Bytes} :
    (∃ run, (received run).Perm requests ∧
      (after xxh3_64 raw analyzeSource files run).artifacts hash = some json) ↔
    Obtained xxh3_64 raw files analyzeSource requests hash json := by
  constructor
  · rintro ⟨run, perm, stored⟩
    obtain ⟨src, readable, result⟩ :=
      (follows_run xxh3_64 raw files analyzeSource run).stored hash json stored
    exact ⟨src, readable.perm xxh3_64 raw files perm, result⟩
  · rintro ⟨src, readable, result⟩
    exact stored_of_readable xxh3_64 raw files analyzeSource readable result

end

/-- All that the worker may read for a hash over two lists of requests is the same. -/
theorem readable_same_iff {files' : FileSystem} {requests requests' : List Request}
    {hash : String} :
    (∀ src src', Readable xxh3_64 raw files requests hash src →
      Readable xxh3_64 raw files' requests' hash src' → src = src') ↔
    SameReadable xxh3_64 raw files files' requests requests' hash := by
  simp only [readable_iff]
  constructor
  · intro same hexadecimal r r' bytes bytes' opened opened'
    obtain ⟨fileHash, parsed⟩ := Option.isSome_iff_exists.mp hexadecimal
    have eq := same _ _ ⟨fileHash, r, bytes, parsed, opened, rfl⟩
      ⟨fileHash, r', bytes', parsed, opened', rfl⟩
    exact ⟨congrArg Source.bytes eq, congrArg Source.hintExt eq, congrArg Source.fallbackTitle eq⟩
  · rintro same _ _ ⟨fileHash, r, bytes, parsed, opened, rfl⟩
      ⟨fileHash', r', bytes', parsed', opened', rfl⟩
    obtain rfl : fileHash = fileHash' := Option.some.inj (parsed.symm.trans parsed')
    obtain ⟨rfl, ext, title⟩ := same (by rw [parsed]; rfl) r r' bytes bytes' opened opened'
    rw [ext, title]

/-- Whatever the analysis does, and over any two lists of requests, in whatever order they come in
and their jobs are run: the same is stored for a hash, exactly when the same is read for it. -/
theorem same_stored_iff_same_readable (files' : FileSystem) (requests requests' : List Request)
    (hash : String) :
    (∀ analyzeSource : Source → Option Bytes,
      SameStored xxh3_64 raw analyzeSource files files' requests requests' hash) ↔
    SameReadable xxh3_64 raw files files' requests requests' hash := by
  rw [← readable_same_iff]
  constructor
  · intro same src src' readable readable'
    by_contra differ
    let tells : Source → Option Bytes := fun s => if s = src then some [0] else some [1]
    have first : tells src = some [0] := if_pos rfl
    have second : tells src' = some [1] := if_neg (fun eq => differ eq.symm)
    obtain ⟨run, perm, stored⟩ := stored_of_readable xxh3_64 raw files tells readable first
    obtain ⟨run', perm', stored'⟩ := stored_of_readable xxh3_64 raw files' tells readable' second
    exact absurd (same tells run run' perm perm' [0] [1] stored stored') (by decide)
  · intro agree analyzeSource run run' perm perm' json json' stored stored'
    obtain ⟨src, readable, result⟩ :=
      (stored_iff_obtained xxh3_64 raw files analyzeSource).mp ⟨run, perm, stored⟩
    obtain ⟨src', readable', result'⟩ :=
      (stored_iff_obtained xxh3_64 raw files' analyzeSource).mp ⟨run', perm', stored'⟩
    rw [agree src src' readable readable', result'] at result
    exact (Option.some.inj result).symm

end

/-- The analysis of audio without tags, as far as the title goes. -/
def untagged (src : Source) : Option Bytes :=
  some ((src.fallbackTitle.getD "Unknown Title").toList.map fun c => UInt8.ofNat c.toNat)

/-- Two users upload the same audio. -/
def uploadsDraft : Request := .ingestUpload [[1, 2, 3]] (some "draft.mp3") none

def uploadsSong : Request := .ingestUpload [[1, 2], [3]] (some "song.mp3") none

/-- The bundle has the file name of whoever came first. -/
theorem firstName_stored :
    (received (takingFirst [uploadsDraft] [uploadsSong] 0)).Perm [uploadsDraft, uploadsSong] ∧
    (received (takingFirst [uploadsSong] [uploadsDraft] 0)).Perm [uploadsDraft, uploadsSong] ∧
    (after (fun _ => 0) .linkFree untagged (fun _ => none)
      (takingFirst [uploadsDraft] [uploadsSong] 0)).artifacts "0000000000000000" =
        some [100, 114, 97, 102, 116] ∧
    (after (fun _ => 0) .linkFree untagged (fun _ => none)
      (takingFirst [uploadsSong] [uploadsDraft] 0)).artifacts "0000000000000000" =
        some [115, 111, 110, 103] := by
  refine ⟨?_, ?_, by decide +kernel, by decide +kernel⟩
  · rw [received_takingFirst]
    exact List.Perm.refl _
  · rw [received_takingFirst]
    exact List.Perm.swap _ _ _

end BVault.Worker
